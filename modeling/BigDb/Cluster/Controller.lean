import BigDb.Cluster.Network

/-!
# The controller

One node's half of the agreement as it runs: the core behind its lock, the state file, the map
and the members every request reads, and the one thread that drives it all.

A turn of the driver is cut wherever another thread can get in between: after the section
under the core's lock, after the save, after the members are copied out, after each decision
is folded into the map, after the watermark is published and after each message is handed
over. A caller of `proposeMap`, `proposeMembers` or `markRepaired` holds the core's lock for
the whole call, so a call is one step. The peer tables, the roster and the inbound queue are
left out: a message that is not queued is a message that was lost, and what a turn is given to
deliver is part of its event.

Two fields are history variables, which no step reads: `sent` is what was handed to the outbox,
and `lastApplied` is the last map the core has applied, whoever was given the `Output`.
-/

namespace BigDb.Cluster
open Lib Bool List

/-- How long a node keeps serving after the agreement goes quiet, and how long the agreement
waits before giving something to another, in milliseconds. -/
structure Leases where
  serveFor : Nat
  promoteAfter : Nat
  moveSchemaAfter : Option Nat
deriving DecidableEq, Repr

/-- `Leases::default()`. -/
instance : Inhabited Leases := ⟨⟨1500, 4500, none⟩⟩

/-- Why a change to the map was not proposed. -/
inductive ProposeError where
  | notLeader (leader : Option NodeId)
  | busy
  | tooManyAtOnce
  | invalid (e : MapError)
deriving DecidableEq, Repr

/-- What a controller is started from: who this node is, the members and the map of the file,
and the times. -/
structure ClusterConfig where
  this : NodeId
  members : List Member
  ranges : RangeMap
  timing : Timing
  leases : Leases

/-- Where the driver is in its loop. -/
inductive Phase where
  /-- at the top -/
  | idle
  /-- past the core's lock, with what is to be saved -/
  | saving (state : Option State) (out : Output) (appliedTo : Nat)
  | saved (out : Output) (appliedTo : Nat)
  /-- the decisions still to be folded into the map -/
  | folding (decisions : List Decision) (send : List (NodeId × Message)) (appliedTo : Nat)
  /-- the messages still to be handed over -/
  | sending (send : List (NodeId × Message))
deriving Repr

structure Controller where
  raft : Raft
  /-- the state the store last saved -/
  disk : Option State
  ranges : RangeMap
  members : List Member
  wedged : Bool
  /-- `none` is the source's `NEVER` -/
  leaseAt : Option Nat
  published : Nat
  phase : Phase
  sent : List (NodeId × Message)
  lastApplied : RangeMap

/-- `merge`: everything one call after another produced. -/
def Output.merge (into other : Output) : Output :=
  ⟨into.send ++ other.send, into.persist || other.persist, into.applied ++ other.applied⟩

/-! ## What the driver decides -/

/-- The most recent moment this node could prove it was in touch with the agreement. -/
def leaseAnchor (r : Raft) (now : Nat) : Option Nat :=
  if r.role = .leader then
    let heard := r.voters.filterMap fun n => if n = r.id then some now else r.heard n
    (heard.mergeSort (· ≥ ·))[r.voters.length / 2]?
  else
    match r.leader with
    | none => none
    | some leader => if leader = r.id then some now else r.heard leader

section Promotion
variable (leases : Leases) (r : Raft) (now : Nat)

/-- Whether a node has been heard from within `window`. One that never was counts from the
start of the clock. -/
def heardWithin (window : Nat) (node : NodeId) : Bool :=
  node = r.id || now - (r.heard node).getD 0 < window

def markSilent (live : NodeId → Bool) (state : RangeMap × Bool) (node : NodeId) : RangeMap × Bool :=
  if !live node && !state.1.isStale node then
    ({ state.1 with stale := state.1.stale ++ [node] }, true)
  else state

/-- The copy a range moves to when its primary is silent. -/
def replacement (live : NodeId → Bool) (m : RangeMap) (range : Range) : Option NodeId :=
  if live range.primary then none else range.group.find? fun n => live n && !m.isStale n

/-- The node the namespace moves to. -/
def schemaSuccessor (live : NodeId → Bool) (m : RangeMap) : Option NodeId :=
  (range r.members.length).find? fun n =>
    (r.members[n]?).any Member.takesRanges && live n && !m.isStale n

/-- Gives the namespace to a successor when the node that holds it has been silent. -/
def moveSchema (live : NodeId → Bool) (state : RangeMap × Bool) : RangeMap × Bool :=
  match leases.moveSchemaAfter with
  | none => state
  | some after =>
    let (next, _) := state
    let deposed := next.schemaLeader
    if heardWithin r now after deposed then state
    else
      match schemaSuccessor r live next with
      | none => state
      | some successor =>
        let next := { next with schemaLeader := successor, schemaReady := false }
        let next :=
          if next.isStale deposed then next
          else { next with stale := (next.stale ++ [deposed]).mergeSort (· ≤ ·) }
        (next, true)

/-- The change to ownership the leader would propose, if any. -/
def promotionFor (current : RangeMap) : Option RangeMap :=
  if !r.settled then none
  else
    let live := heardWithin r now leases.promoteAfter
    let held := (current.ranges.filter fun range => 1 < range.group.length).map Range.group
    let (next, changed) := held.flatten.foldl (markSilent live) (current, false)
    let next := { next with stale := next.stale.mergeSort (· ≤ ·) }
    let changed := changed || next.ranges.any fun range => (replacement live next range).isSome
    let next := { next with ranges := next.ranges.map fun range =>
      { range with primary := (replacement live next range).getD range.primary } }
    let (next, changed) := moveSchema leases r now live (next, changed)
    if !changed then none
    else
      match next.checkWith r.members with
      | .error _ => none
      | .ok _ => some { next with epoch := next.epoch + 1 }

/-- What a promotion leaves and what it changes: nobody's mark is taken off, and a range keeps
all but its primary, which becomes a holder that was not marked if it was silent. -/
structure Promoted (live : NodeId → Bool) (current next : RangeMap) : Prop where
  marked : ∀ node, current.isStale node = true → next.isStale node = true
  ranges : ∃ primary : Range → NodeId,
    next.ranges = current.ranges.map (fun range => { range with primary := primary range }) ∧
    ∀ range, primary range = range.primary ∨ (live range.primary = false ∧
      primary range ∈ range.group ∧ current.isStale (primary range) = false)

lemma isStale_iff {m : RangeMap} {node : NodeId} : m.isStale node = true ↔ node ∈ m.stale := by
  simp [RangeMap.isStale]

/-- Marking keeps everything but the marks, and those grow. -/
lemma foldl_markSilent (live : NodeId → Bool) (nodes : List NodeId) (state : RangeMap × Bool) :
    ∃ more, (nodes.foldl (markSilent live) state).1 = { state.1 with stale := state.1.stale ++ more } := by
  induction nodes generalizing state with
  | nil => exact ⟨[], by simp⟩
  | cons node nodes ih =>
    obtain ⟨more, hmore⟩ := ih (markSilent live state node)
    rw [foldl_cons, hmore]
    unfold markSilent
    split
    · exact ⟨node :: more, by simp⟩
    · exact ⟨more, rfl⟩

/-- Moving the namespace leaves the ranges alone, and marks grow. -/
lemma moveSchema_frame (live : NodeId → Bool) (state : RangeMap × Bool) :
    (moveSchema leases r now live state).1.ranges = state.1.ranges ∧
      (moveSchema leases r now live state).1.epoch = state.1.epoch ∧
      ∀ node, node ∈ state.1.stale → node ∈ (moveSchema leases r now live state).1.stale := by
  unfold moveSchema
  split
  · exact ⟨rfl, rfl, fun _ h => h⟩
  dsimp only
  split
  · exact ⟨rfl, rfl, fun _ h => h⟩
  split
  · exact ⟨rfl, rfl, fun _ h => h⟩
  split
  · exact ⟨rfl, rfl, fun _ h => h⟩
  · exact ⟨rfl, rfl, fun _ h => mem_mergeSort.2 (mem_append_left _ h)⟩

lemma check_of_checkWith {m : RangeMap} {members : List Member} {u : Unit}
    (h : m.checkWith members = .ok u) : m.check = .ok () := by
  unfold RangeMap.checkWith at h
  cases hc : m.check with
  | ok => rfl
  | error e =>
    rw [hc] at h
    cases h

lemma promoted_of_promotionFor {current next : RangeMap} (h : promotionFor leases r now current = some next) :
    Promoted (heardWithin r now leases.promoteAfter) current next ∧ next.check = .ok () ∧
      next.epoch = current.epoch + 1 := by
  unfold promotionFor at h
  split at h
  · cases h
  dsimp only at h
  generalize heardWithin r now leases.promoteAfter = live at h ⊢
  generalize ((current.ranges.filter fun range => 1 < range.group.length).map Range.group).flatten = held at h
  obtain ⟨more, hmore⟩ := foldl_markSilent live held (current, false)
  generalize held.foldl (markSilent live) (current, false) = folded at h hmore
  obtain ⟨marked, changed⟩ := folded
  subst hmore
  -- what the namespace's move starts from
  generalize hstale : (current.stale ++ more).mergeSort (fun x1 x2 => decide (x1 ≤ x2)) = stale at h
  have hmarked : ∀ node, node ∈ current.stale → node ∈ stale := by
    intro node hnode
    rw [← hstale]
    exact mem_mergeSort.2 (mem_append_left _ hnode)
  split at h
  · cases h
  split at h
  · cases h
  · next hchecked =>
    injection h with h
    subst h
    have hcheck := check_of_checkWith hchecked
    obtain ⟨hranges, hepoch, hgrow⟩ := moveSchema_frame leases r now live (_, _)
    refine ⟨⟨fun node hnode => ?_, _, hranges, fun range => ?_⟩, hcheck, ?_⟩
    · exact isStale_iff.2 (hgrow node (hmarked node (isStale_iff.1 hnode)))
    · unfold replacement
      split
      · exact .inl rfl
      · next silent =>
        cases hfind : range.group.find? _ with
        | none => exact .inl rfl
        | some node =>
          refine .inr ⟨not_eq_true _ ▸ silent, mem_of_find?_eq_some hfind, ?_⟩
          have hfound := find?_some hfind
          have hnot := (and_eq_true_iff.1 hfound).2
          rw [eq_false_iff]
          intro hold
          rw [isStale_iff.2 (hmarked node (isStale_iff.1 hold))] at hnot
          cases hnot
    · rw [hepoch]

end Promotion

namespace Controller
variable (config : ClusterConfig)

/-! ## Starting -/

/-- One turn of the loop of `start` over the log: members follow every entry, the map only
committed ones. -/
def replayEntry (r : Raft) (state : RangeMap × List Member) (entry : Entry × Nat) : RangeMap × List Member :=
  match entry.1.decision with
  | .members ms => (state.1, ms)
  | .ranges m => if r.base + entry.2 ≤ r.commit then (m, state.2) else state
  | .noop => state

/-- A new process, with whatever the store holds. -/
def start (disk : Option State) : Controller :=
  let raft := Raft.new config.this config.members config.timing 0
  let raft := match disk with
    | some state => raft.restore state
    | none => raft
  let (ranges, members) := raft.log.zipIdx.foldl (replayEntry raft) (config.ranges, config.members)
  { raft, disk, ranges, members, wedged := false, leaseAt := none, published := 0, phase := .idle
    sent := [], lastApplied := ranges }

/-! ## The driver's turn -/

variable (c : Controller)

/-- The core moved, and told somebody so. -/
def moved (r : Raft) (out : Output) : Controller :=
  { c with raft := r, lastApplied := newest Decision.ranges? c.lastApplied out.applied }

/-- The core after a message, if there was one. -/
def delivered (r : Raft) (incoming : Option Message) (now : Nat) : Raft × Output :=
  match incoming with
  | some m => let (r, got) := r.deliver m now; (r, (default : Output).merge got)
  | none => (r, default)

lemma delivered_some (r : Raft) (m : Message) (now : Nat) : delivered r (some m) now = r.deliver m now := rfl

/-- The core after the driver has proposed what it would, on a leader. -/
def promoted (r : Raft) (ranges : RangeMap) (now : Nat) : Raft × Output :=
  if r.role = .leader then
    match promotionFor config.leases r now ranges with
    | some m => (r.propose (.ranges m)).getD (r, default)
    | none => (r, default)
  else (r, default)

/-- The driver proposes a map or leaves the core as it is. -/
lemma promoted_cases (r : Raft) (ranges : RangeMap) (now : Nat) :
    (∃ m, promotionFor config.leases r now ranges = some m ∧
      r.propose (.ranges m) = some (promoted config r ranges now)) ∨
    promoted config r ranges now = (r, default) := by
  unfold promoted
  split
  · cases promotionFor config.leases r now ranges with
    | none => exact .inr rfl
    | some m =>
      dsimp only
      cases hp : r.propose (.ranges m) with
      | none => exact .inr rfl
      | some y => exact .inl ⟨m, rfl, by rw [Option.getD_some]; exact hp⟩
  · exact .inr rfl

/-- What the section under the core's lock does to the core: a message, the clock, a
promotion. -/
def driven (r : Raft) (ranges : RangeMap) (incoming : Option Message) (now : Nat) : Raft × Output :=
  let (r, out) := delivered r incoming now
  let (r, ticked) := r.tick now
  let out := out.merge ticked
  let (r, proposed) := promoted config r ranges now
  (r, out.merge proposed)

/-- The section under the core's lock. The lease is read between the clock and the
promotion. -/
def turn (incoming : Option Message) (now : Nat) : Controller :=
  if c.wedged then c
  else
    let ticked := (delivered c.raft incoming now).1.tick now
    let leaseAt := (leaseAnchor ticked.1 now).or c.leaseAt
    let (r, out) := driven config c.raft c.ranges incoming now
    let state := if out.persist then some r.state else none
    { c.moved r out with leaseAt, phase := .saving state out r.applied }

/-- The store is asked to save, and may fail. A node that cannot save says nothing any more. -/
def save (ok : Bool) (state : Option State) (out : Output) (appliedTo : Nat) :
    Controller :=
  match state with
  | none => { c with phase := .saved out appliedTo }
  | some state =>
    if ok then { c with disk := some state, phase := .saved out appliedTo }
    else { c with wedged := true, phase := .idle }

/-- Folds one decision into the map. Members are copied out every turn instead. -/
def foldMap (ranges : RangeMap) (d : Decision) : RangeMap := (d.ranges?).getD ranges

/-! ## What callers do -/

/-- Proposes a new map, which every node will adopt once a majority has it. The `Output` of
the core is dropped. -/
def proposeMap (next : RangeMap) : Except ProposeError (Nat × Controller) :=
  match next.checkWith c.raft.members with
  | .error e => .error (.invalid e)
  | .ok _ =>
    if c.raft.role ≠ .leader then .error (.notLeader c.raft.leader)
    else if c.raft.commit ≠ c.raft.lastIndex then .error .busy
    else
      let next := { next with epoch := c.ranges.epoch + 1 }
      match c.raft.propose (.ranges next) with
      | some (r, out) => .ok (next.epoch, c.moved r out)
      | none => .error (.notLeader c.raft.leader)

/-- Proposes a change to who is in the cluster. -/
def proposeMembers (next : List Member) : Except ProposeError Controller :=
  if c.raft.role ≠ .leader then .error (.notLeader c.raft.leader)
  else if c.raft.commit ≠ c.raft.lastIndex then .error .busy
  else if !c.raft.mayChangeMembers next then .error .tooManyAtOnce
  else
    match c.raft.propose (.members next) with
    | some (r, out) => .ok (c.moved r out)
    | none => .error (.notLeader c.raft.leader)

/-- The map with a copy no longer marked behind. -/
def repaired (ranges : RangeMap) (node : NodeId) : RangeMap :=
  { ranges with stale := ranges.stale.filter (· ≠ node), epoch := ranges.epoch + 1 }

/-- Records that a copy has caught up. -/
def markRepaired (node : NodeId) : Bool × Controller :=
  if c.raft.role ≠ .leader then (false, c)
  else if !c.ranges.isStale node then (true, c)
  else
    match c.raft.propose (.ranges (repaired c.ranges node)) with
    | some (r, out) => (true, c.moved r out)
    | none => (false, c)

/-- Whether this node is missing anything the agreement has decided. -/
def behindAgreement : Bool :=
  c.raft.behind || c.published < c.raft.applied

/-! ## Runs -/

/-- What can happen next: a step of the driver, a call, or a new process. -/
inductive Action where
  | turn (incoming : Option Message) (now : Nat)
  | save (ok : Bool)
  | refresh
  | fold
  | publish
  | post
  | proposeMap (next : RangeMap)
  | proposeMembers (next : List Member)
  | markRepaired (node : NodeId)
  | restart
deriving DecidableEq, Repr

/-- One action. What the driver is not about to do does not happen. -/
def step : Action → Controller
  | .turn incoming now =>
    match c.phase with
    | .idle => c.turn config incoming now
    | _ => c
  | .save ok =>
    match c.phase with
    | .saving state out appliedTo => c.save ok state out appliedTo
    | _ => c
  | .refresh =>
    match c.phase with
    | .saved out appliedTo =>
      { c with members := c.raft.members, phase := .folding out.applied out.send appliedTo }
    | _ => c
  | .fold =>
    match c.phase with
    | .folding (d :: decisions) send appliedTo =>
      { c with ranges := foldMap c.ranges d, phase := .folding decisions send appliedTo }
    | _ => c
  | .publish =>
    match c.phase with
    | .folding [] send appliedTo => { c with published := appliedTo, phase := .sending send }
    | _ => c
  | .post =>
    match c.phase with
    | .sending (m :: send) => { c with sent := c.sent ++ [m], phase := .sending send }
    | .sending [] => { c with phase := .idle }
    | _ => c
  | .proposeMap next =>
    match c.proposeMap next with
    | .ok (_, c') => c'
    | .error _ => c
  | .proposeMembers next =>
    match c.proposeMembers next with
    | .ok c' => c'
    | .error _ => c
  | .markRepaired node => (c.markRepaired node).2
  | .restart => { start config c.disk with sent := c.sent }

/-- A whole run. -/
abbrev exec (actions : List Action) : Controller :=
  play (step config) c (actions.map fun a _ => a)

/-- Whether a call of one of the three proposals is turned away. Everything else is not a
call. -/
def refuses : Action → Bool
  | .proposeMap next =>
    !(next.checkWith c.raft.members).isOk || c.raft.role ≠ .leader || c.raft.commit ≠ c.raft.lastIndex
  | .proposeMembers next =>
    c.raft.role ≠ .leader || c.raft.commit ≠ c.raft.lastIndex || !c.raft.mayChangeMembers next
  | .markRepaired node => c.raft.role ≠ .leader || !c.ranges.isStale node
  | _ => true

/-- What a call asks the core to append. -/
def asks : Action → Option Decision
  | .proposeMap next => some (.ranges { next with epoch := c.ranges.epoch + 1 })
  | .proposeMembers next => some (.members next)
  | .markRepaired node => some (.ranges (repaired c.ranges node))
  | _ => none

inductive Step (c : Controller) : Action → Controller → Prop where
  | stay {a} : Step c a c
  | turn {incoming now r out leaseAt} (idle : c.phase = .idle) (up : c.wedged = false)
      (h : driven config c.raft c.ranges incoming now = (r, out)) :
      Step c (.turn incoming now) { c.moved r out with
        leaseAt, phase := .saving (if out.persist then some r.state else none) out r.applied }
  | skip {ok out upTo} (h : c.phase = .saving none out upTo) : Step c (.save ok) { c with phase := .saved out upTo }
  | save {state out upTo} (h : c.phase = .saving (some state) out upTo) :
      Step c (.save true) { c with disk := some state, phase := .saved out upTo }
  | wedge {state out upTo} (h : c.phase = .saving (some state) out upTo) :
      Step c (.save false) { c with wedged := true, phase := .idle }
  | refresh {out upTo} (h : c.phase = .saved out upTo) :
      Step c .refresh { c with members := c.raft.members, phase := .folding out.applied out.send upTo }
  | fold {d decisions send upTo} (h : c.phase = .folding (d :: decisions) send upTo) :
      Step c .fold { c with ranges := foldMap c.ranges d, phase := .folding decisions send upTo }
  | publish {send upTo} (h : c.phase = .folding [] send upTo) :
      Step c .publish { c with published := upTo, phase := .sending send }
  | post {m send} (h : c.phase = .sending (m :: send)) :
      Step c .post { c with sent := c.sent ++ [m], phase := .sending send }
  | rest (h : c.phase = .sending []) : Step c .post { c with phase := .idle }
  | propose {a d r out} (accepted : c.refuses a = false) (asked : c.asks a = some d)
      (h : c.raft.propose d = some (r, out)) : Step c a (c.moved r out)
  | restart : Step c .restart { start config c.disk with sent := c.sent }

/-- An accepted map was checked, and is appended under the epoch after the node's map. -/
lemma proposeMap_ok {c c' : Controller} {next : RangeMap} {epoch : Nat} (h : c.proposeMap next = .ok (epoch, c')) :
    c.refuses (.proposeMap next) = false ∧ epoch = c.ranges.epoch + 1 ∧
      ∃ r out, c.raft.propose (.ranges { next with epoch }) = some (r, out) ∧ c' = c.moved r out := by
  unfold proposeMap at h
  split at h
  · cases h
  · next hcheck =>
    split at h
    · cases h
    · next role =>
      split at h
      · cases h
      · next settled =>
        dsimp only at h
        split at h
        · next r out hp =>
          injection h with h
          injection h with hepoch hmoved
          subst hepoch hmoved
          refine ⟨?_, rfl, r, out, hp, rfl⟩
          simp only [refuses, hcheck, role, settled, Except.isOk, Except.toBool, decide_false,
            Bool.not_true, Bool.or_self]
        · cases h

section
include c

lemma proposeMembers_step (next : List Member) :
    Step config c (.proposeMembers next) (step config c (.proposeMembers next)) := by
  simp only [step, proposeMembers]
  split
  · next heq =>
    split at heq
    · cases heq
    · next role =>
      split at heq
      · cases heq
      · next settled =>
        split at heq
        · cases heq
        · next may =>
          split at heq
          · next hp =>
            injection heq with heq
            subst heq
            refine .propose ?_ rfl hp
            simp only [refuses, role, settled, may, decide_false, Bool.or_self]
          · cases heq
  · exact .stay

/-- A repair is recorded on a leader whose map still has the copy marked. -/
lemma markRepaired_cases (node : NodeId) : (c.refuses (.markRepaired node) = true ∧ (c.markRepaired node).2 = c) ∨
      (c.refuses (.markRepaired node) = false ∧ ∃ r out,
        c.raft.propose (.ranges (repaired c.ranges node)) = some (r, out) ∧
        (c.markRepaired node).2 = c.moved r out) := by
  unfold markRepaired
  split
  · next role =>
    exact .inl ⟨by rw [refuses, decide_eq_true role, Bool.true_or], rfl⟩
  · next role =>
    split
    · next stale =>
      exact .inl ⟨by rw [refuses, stale, Bool.or_true], rfl⟩
    · next stale =>
      right
      refine ⟨by simp only [refuses, role, stale, decide_false, Bool.or_self], ?_⟩
      obtain ⟨⟨r, out⟩, hp⟩ := Raft.propose_ranges (not_not.1 role) (repaired c.ranges node)
      rw [hp]
      exact ⟨r, out, rfl, rfl⟩

/-- **Every action is one of the steps.** -/
lemma step_step (action : Action) : Step config c action (step config c action) := by
  cases action with
  | turn incoming now =>
    simp only [step]
    split
    · next idle =>
      unfold turn
      split
      · exact .stay
      · next up => exact .turn idle (not_eq_true _ ▸ up) rfl
    · exact .stay
  | save ok =>
    simp only [step]
    split
    · next state out upTo h =>
      cases state with
      | none => exact .skip h
      | some state =>
        cases ok with
        | true => exact .save h
        | false => exact .wedge h
    · exact .stay
  | refresh =>
    simp only [step]
    split
    · next h => exact .refresh h
    · exact .stay
  | fold =>
    simp only [step]
    split
    · next h => exact .fold h
    · exact .stay
  | publish =>
    simp only [step]
    split
    · next h => exact .publish h
    · exact .stay
  | post =>
    simp only [step]
    split
    · next h => exact .post h
    · next h => exact .rest h
    · exact .stay
  | proposeMap next =>
    simp only [step]
    split
    · next epoch c' heq =>
      obtain ⟨accepted, rfl, r, out, hp, rfl⟩ := proposeMap_ok heq
      exact .propose accepted rfl hp
    · exact .stay
  | proposeMembers next => exact proposeMembers_step config c next
  | markRepaired node =>
    simp only [step]
    rcases c.markRepaired_cases node with ⟨-, heq⟩ | ⟨accepted, r, out, hp, heq⟩
    · rw [heq]
      exact .stay
    · rw [heq]
      exact .propose accepted rfl hp
  | restart => exact .restart

end

/-! ## Runs to look at -/

/-- A turn of the driver from top to top, when it has at most one decision to fold and one
message to hand over. -/
def round (incoming : Option Message) (now : Nat) : List Action :=
  [.turn incoming now, .save true, .refresh, .fold, .publish, .post, .post]

/-- One range on both nodes, and nothing else. -/
def duoMap : RangeMap :=
  { (default : RangeMap) with ranges := [⟨0, ⟨0, none⟩, [0, 1], 0, none⟩] }

def duoConfig : ClusterConfig := ⟨0, duo, duoMap, default, default⟩

/-- Node 0 stands, wins and has its first entry acknowledged, all by its driver. -/
def duoLeads : List Action :=
  round none 5000 ++ round (some (.voteReply 1 1 true)) 5001 ++ round (some (.appendReply 1 1 true 1)) 5002

end Controller

end BigDb.Cluster
