import BigDb.Cluster.CatchUp
import BigDb.Cluster.Split

/-!
# Moving a range

`move_range` as the node that runs it takes it, one request or proposal after another: it fills
the target, puts the range in cutover, waits for the source to say that it has applied that,
copies again, compares two digests and hands the range over. Everything else in the cluster goes
on in between, and the source is whoever served the range when the move began.
-/

namespace BigDb.Cluster
open Lib List Bool RangeMap World
variable {α : Type}

/-- What is asked for: who runs it, which range, and where to. -/
structure Move.Verb where
  coordinator : NodeId
  id : RangeId
  target : NodeId

/-- How far a move has come. -/
inductive MoveStage (α : Type) where
  | fresh
  /-- the source and the shards are known -/
  | found
  | beginning (next : RangeMap)
  | begun (epoch : Nat)
  | seeding (copy : Copying α)
  | seeded
  | cutting (next : RangeMap)
  | cut (epoch : Nat)
  | awaiting (epoch : Nat)
  | catching (copy : Copying α)
  | caught
  /-- with the source's digest -/
  | digested (contents : List α)
  | agreed
  | handing (next : RangeMap)
  | handed (epoch : Nat)
  | dropping (epoch : Nat)
  /-- returned, with a report -/
  | moved
  /-- returned, with an error -/
  | failed
deriving DecidableEq, Repr

structure Moving (α : Type) where
  world : World α
  stage : MoveStage α
  source : NodeId
  shards : ShardRange
  /-- where among the decided maps the cutover is, and the handover -/
  cutAt : Nat
  handedAt : Nat

/-- What can happen next: something else in the cluster, the next step of the move, or a
request of it that fails. -/
inductive MoveAction (α : Type) where
  | data (a : Deed α)
  | next
  | fail
deriving DecidableEq, Repr

/-- Replaces what a node holds. -/
def World.refill (w : World α) (n : NodeId) (store : List α) : World α :=
  w.set n { w.node n with store }

namespace Moving
variable [DecidableEq α] [Valued α] (record part : α → Nat) (v : Move.Verb) (s : Moving α)

/-- One step of a pass over the range from the source to the target. -/
def copied (copy : Copying α) : World α × Option (Copying α) :=
  let (store, copy) := copyStep record part (some s.shards) (s.world.node s.source).store
    (s.world.node v.target).store copy
  (s.world.refill v.target store, copy)

/-- Puts a map to the agreement under the epoch after the coordinator's. -/
def proposed (next : RangeMap) (stage : Nat → MoveStage α) : Moving α :=
  if next.check.isOk then
    let epoch := (s.world.mapOf v.coordinator).epoch + 1
    { s with world := s.world.step record (.decide { next with epoch }), stage := stage epoch }
  else { s with stage := .failed }

def changed (change : RangeMap → Except MoveError RangeMap)
    (stage : RangeMap → MoveStage α) : Moving α :=
  match change (s.world.mapOf v.coordinator) with
  | .ok next => { s with stage := stage next }
  | .error _ => { s with stage := .failed }

/-- The next step of the move. A wait that is not over is asked again. -/
def advance : Moving α :=
  let mine := (s.world.mapOf v.coordinator).epoch
  let theirs := (s.world.mapOf s.source).epoch
  match s.stage with
  | .fresh =>
    match (s.world.mapOf v.coordinator).rangeWith v.id with
    | none => { s with stage := .failed }
    | some r =>
      if r.primary = v.target then { s with stage := .failed }
      else { s with stage := .found, source := r.primary, shards := r.shards }
  | .found => s.changed v (·.beginMove v.id v.target) .beginning
  | .beginning next => s.proposed record v next .begun
  | .begun epoch => if epoch ≤ mine then { s with stage := .seeding .listing } else s
  | .seeding copy =>
    let (world, copy) := s.copied record part v copy
    { s with world, stage := copy.elim .seeded .seeding }
  | .seeded => s.changed v (·.setMoveState v.id .cutover) .cutting
  | .cutting next => { s.proposed record v next .cut with cutAt := s.world.decided.length }
  | .cut epoch => if epoch ≤ mine then { s with stage := .awaiting mine } else s
  | .awaiting epoch => if epoch ≤ theirs then { s with stage := .catching .listing } else s
  | .catching copy =>
    let (world, copy) := s.copied record part v copy
    { s with world, stage := copy.elim .caught .catching }
  | .caught => { s with stage := .digested (contentsIn record s.shards (s.world.node s.source).store) }
  | .digested contents =>
    if sameFacts contents (contentsIn record s.shards (s.world.node v.target).store) then
      { s with stage := .agreed }
    else { s with stage := .failed }
  | .agreed => s.changed v (·.finishMove v.id) .handing
  | .handing next => { s.proposed record v next .handed with handedAt := s.world.decided.length }
  | .handed epoch => if epoch ≤ mine then { s with stage := .dropping mine } else s
  | .dropping epoch =>
    if epoch ≤ theirs then
      { s with
        world := s.world.refill s.source ((s.world.node s.source).store.filter fun f => !s.shards.holds (record f))
        stage := .moved }
    else s
  | .moved | .failed => s

/-- One action. A move that has handed over and cannot drop what it left is a move all the
same. -/
def step (s : Moving α) : MoveAction α → Moving α
  | .data a => { s with world := s.world.step record a }
  | .next => s.advance record part v
  | .fail =>
    match s.stage with
    | .dropping _ | .moved => { s with stage := .moved }
    | _ => { s with stage := .failed }

end Moving

/-! ## What a move has to rely on -/

/-- Whether some shards are in a range that a node holds and is handing over. -/
def RangeMap.cuts (m : RangeMap) (shards : ShardRange) (node : NodeId) : Bool :=
  m.ranges.any fun r => node ∈ r.group && r.shards.covers shards && r.moving.any fun moving => moving.state = .cutover

lemma RangeMap.cutOver_of_cuts {m : RangeMap} {shards : ShardRange} {node : NodeId}
    (h : m.cuts shards node = true) {r : Nat} (hr : shards.holds r = true) : m.cutOver node r = true := by
  obtain ⟨range, hrange, h⟩ := any_eq_true.1 h
  simp only [and_eq_true] at h
  refine any_eq_true.2 ⟨range, hrange, ?_⟩
  simp only [and_eq_true]
  exact ⟨⟨h.1.1, ShardRange.contains_of_covers h.1.2 hr⟩, h.2⟩

/-- The parts of a move: before the cutover is decided, until the handover is, and after. -/
inductive MovePhase where
  | opening
  | closing
  | after
  | failed
deriving DecidableEq, Repr

def MoveStage.phase : MoveStage α → MovePhase
  | .fresh | .found | .beginning _ | .begun _ | .seeding _ | .seeded | .cutting _ => .opening
  | .cut _ | .awaiting _ | .catching _ | .caught | .digested _ | .agreed | .handing _ => .closing
  | .handed _ | .dropping _ | .moved => .after
  | .failed => .failed

namespace Moving

section Conditions
variable (record : α → Nat) (v : Move.Verb) (source : NodeId) (shards : ShardRange) (s : Moving α)

/-- Who may let a write of the range through: the source is the one whose commits are
acknowledged, and then the target; and the target takes none before the handover. -/
def admits (n : NodeId) (acked : Bool) : Bool :=
  match s.stage.phase with
  | .opening | .closing => n ≠ v.target && acked == decide (n = source)
  | .after => acked == decide (n = v.target)
  | .failed => true

/-- What everything else in the cluster has to keep to. -/
def keepsData : Deed α → Bool
  | .decide m => s.world.decided.all (·.epoch < m.epoch) &&
      match s.stage.phase with
      | .closing => m.cuts shards source
      | .after => m.gives shards v.target
      | _ => true
  | .receive n _ op acked => !op.touches record shards || s.admits v source n acked ||
      (s.stage.phase = .after && n ≠ v.target && (n = source || s.handedAt ≤ (s.world.node n).applied))
  | .deleteHere n records acked =>
      !(.remove records : Op α).touches record shards || s.admits v source n acked
  | _ => true

/-- And the move itself: the source and the shards it finds, and that what it proposes is a
newer map than any decided, with the range still being cut over at the source, or with the
range the target's. -/
def keepsNext : Bool :=
  let newer := s.world.decided.all (·.epoch < (s.world.mapOf v.coordinator).epoch + 1)
  match s.stage with
  | .fresh => ((s.world.mapOf v.coordinator).rangeWith v.id).all fun r =>
      r.primary = source && r.shards = shards
  | .beginning _ => newer
  | .cutting next => newer && next.cuts shards source
  | .handing next => newer && next.gives shards v.target
  | _ => true

/-- What keeps a move of some shards from a source whole. -/
def keepsRange : MoveAction α → Bool
  | .data a => s.world.keepsBarrier record a && s.keepsData record v source shards a
  | .next => s.keepsNext v source shards
  | .fail => true

end Conditions

end Moving

/-! ## Copies that are filled -/

namespace World
variable {w : World α} {n x : NodeId} {store : List α} {record : α → Nat} {shards : ShardRange}

lemma refill_other (hx : x ≠ n) : (w.refill n store).node x = w.node x := set_other hx

lemma refill_pending : ((w.refill n store).node x).pending = (w.node x).pending := by
  by_cases hx : x = n
  · subst hx
    rw [refill, set_self]
  · rw [refill_other hx]

lemma refill_applied : ((w.refill n store).node x).applied = (w.node x).applied := by
  by_cases hx : x = n
  · subst hx
    rw [refill, set_self]
  · rw [refill_other hx]

lemma mapOf_refill : (w.refill n store).mapOf x = w.mapOf x := mapOf_set_of_applied rfl

lemma Barred.refill (B : Barred record w) : Barred record (w.refill n store) where
  mapped := B.mapped.set (B.mapped.applied n)
  pending v p hp r hr := by
    rw [refill_pending] at hp
    rw [mapOf_refill]
    exact B.pending v p hp r hr
  done := B.done

lemma Idle.refill (I : Idle record shards x w) : Idle record shards x (w.refill n store) := by
  intro p hp
  rw [refill_pending] at hp
  exact I p hp

lemma Since.refill {position : Nat} {P : RangeMap → Prop} (S : w.Since position P) :
    (w.refill n store).Since position P :=
  ⟨S.decided, S.maps⟩

/-- A node that holds of some shards what callers have been told. -/
structure Tended [Valued α] (record : α → Nat) (shards : ShardRange) (x : NodeId) (w : World α) : Prop where
  keeps : Keeps record shards x w
  clears : Clears record shards x w

variable [Valued α]

lemma Tended.start (seed : RangeMap) (stores : NodeId → List α) :
    Tended record shards x (World.start seed stores) where
  keeps := ⟨fun _ _ howed => (not_lasts_nil howed).elim, nofun⟩
  clears _ _ hgone := (not_lasts_nil hgone).elim

section
variable (T : Tended record shards x w)
include T

lemma Tended.step {a : Deed α} (ok : w.Addressed record shards x a) : Tended record shards x (w.step record a) :=
  ⟨T.keeps.step ok, T.clears.step T.keeps.waits⟩

lemma Tended.refill (hx : x ≠ n) : Tended record shards x (w.refill n store) where
  keeps := by
    refine ⟨fun f hf howed => ?_, fun m p hp => ?_⟩
    · rw [refill_other hx]
      exact T.keeps.held f hf howed
    · rw [refill_pending] at hp
      exact T.keeps.waits m p hp
  clears f hf hgone := by
    rw [refill_other hx]
    exact T.clears f hf hgone

end

end World

/-! ## The move -/

namespace Moving

section Sound
variable [Valued α] (record : α → Nat) (v : Move.Verb) (source : NodeId) (shards : ShardRange)

/-- Until the handover: the source has everything, and nothing waits at the target. -/
structure Open (w : World α) : Prop where
  tended : w.Tended record shards source
  idle : w.Idle record shards v.target

/-- Once the cutover is decided, every map has it. -/
structure Closed (cutAt : Nat) (w : World α) : Prop where
  opened : Open record v source shards w
  cut : w.Since cutAt fun m => m.cuts shards source = true

/-- What each step has established after it. -/
def Proved (cutAt : Nat) (w : World α) : MoveStage α → Prop
  | .cut epoch | .awaiting epoch => ∃ m, w.decided[cutAt]? = some m ∧ m.epoch ≤ epoch
  | .catching _ | .caught => cutAt ≤ (w.node source).applied
  | .digested contents => cutAt ≤ (w.node source).applied ∧
      ∀ f, shards.holds (record f) = true → (f ∈ (w.node source).store ↔ f ∈ contents)
  | .agreed | .handing _ => cutAt ≤ (w.node source).applied ∧
      ∀ f, shards.holds (record f) = true → (f ∈ (w.node source).store ↔ f ∈ (w.node v.target).store)
  | _ => True

/-- From the handover on: the target has everything, the source has applied the cutover, and
every map has either of the two. -/
structure Over (cutAt handedAt : Nat) (w : World α) : Prop where
  tended : w.Tended record shards v.target
  applied : cutAt ≤ (w.node source).applied
  cut : w.Since cutAt fun m => m.cuts shards source = true ∨ m.gives shards v.target = true
  handed : w.Since handedAt fun m => m.gives shards v.target = true

def Known (cutAt handedAt : Nat) (w : World α) (stage : MoveStage α) : Prop :=
  match stage.phase with
  | .opening => Open record v source shards w
  | .closing => Closed record v source shards cutAt w ∧ Proved record v source shards cutAt w stage
  | .after => Over record v source shards cutAt handedAt w
  | .failed => True

/-- The invariant of a move. -/
structure Sound (s : Moving α) : Prop where
  barred : s.world.Barred record
  epochs : s.world.decided.Pairwise (·.epoch < ·.epoch)
  found : s.stage ≠ .fresh → s.stage ≠ .failed → s.source = source ∧ s.shards = shards ∧ source ≠ v.target
  known : Known record v source shards s.cutAt s.handedAt s.world s.stage

end Sound

section Steps
variable [Valued α] {record : α → Nat} {v : Move.Verb} {source : NodeId} {shards : ShardRange} {s : Moving α}
  {w : World α} {cutAt handedAt : Nat}

variable {acked : Bool} {m : RangeMap}

omit [Valued α] in
lemma acked_iff {n k : NodeId} (h : (acked == decide (n = k)) = true) : acked = true ↔ n = k := by
  rw [beq_iff_eq.1 h, decide_eq_true_iff]

variable {a : Deed α} {stage : MoveStage α}

section
variable (ok : s.keepsData record v source shards a = true)
include ok

omit [Valued α] in
/-- Before the handover a write of the range that is let through is let through where it may. -/
lemma admits_of_keepsData (hphase : s.stage.phase = .opening ∨ s.stage.phase = .closing) {n : NodeId} {op : Op α}
    (lets : s.world.Admits a n op acked) (htouch : op.touches record shards = true) :
    n ≠ v.target ∧ (acked = true ↔ n = source) := by
  have may : s.admits v source n acked = true := by
    cases lets with
    | receive =>
      rw [keepsData, htouch] at ok
      rcases hphase with hphase | hphase <;> simpa [hphase] using ok
    | deleteHere =>
      rw [keepsData, htouch] at ok
      simpa using ok
  unfold admits at may
  rcases hphase with hphase | hphase
  · rw [hphase] at may
    obtain ⟨hne, hacked⟩ := and_eq_true_iff.1 may
    exact ⟨of_decide_eq_true hne, acked_iff hacked⟩
  · rw [hphase] at may
    obtain ⟨hne, hacked⟩ := and_eq_true_iff.1 may
    exact ⟨of_decide_eq_true hne, acked_iff hacked⟩

lemma Open.data (O : Open record v source shards s.world)
    (hphase : s.stage.phase = .opening ∨ s.stage.phase = .closing) :
    Open record v source shards (s.world.step record a) where
  tended := O.tended.step fun _ _ _ lets htouch => (admits_of_keepsData ok hphase lets htouch).2
  idle := O.idle.step fun _ _ _ lets htouch => (admits_of_keepsData ok hphase lets htouch).1

omit ok in
lemma Closed.idle (C : Closed record v source shards cutAt w) (B : w.Barred record)
    (h : cutAt ≤ (w.node source).applied) : w.Idle record shards source := by
  intro p hp htouch
  obtain ⟨r, hr, hold⟩ := any_eq_true.1 htouch
  exact absurd (cutOver_of_cuts (C.cut.mapOf B.mapped h) hold) (by simp [B.pending source p hp r hr])

omit ok in
lemma Proved.data (C : Closed record v source shards cutAt w)
    (B : w.Barred record) (h : Proved record v source shards cutAt w stage) :
    Proved record v source shards cutAt (w.step record a) stage := by
  have hle := applied_le record w a source
  cases stage with
  | cut epoch | awaiting epoch =>
    obtain ⟨m, hm, hepoch⟩ := h
    obtain ⟨later, hlater⟩ := decided_grows record w a
    refine ⟨m, ?_, hepoch⟩
    rw [← hlater, getElem?_append_left C.cut.decided]
    exact hm
  | catching _ | caught => exact h.trans hle
  | digested contents =>
    refine ⟨h.1.trans hle, fun f hf => ?_⟩
    rw [(C.idle B h.1).mem_store hf]
    exact h.2 f hf
  | agreed | handing _ =>
    refine ⟨h.1.trans hle, fun f hf => ?_⟩
    rw [(C.idle B h.1).mem_store hf, C.opened.idle.mem_store hf]
    exact h.2 f hf
  | _ => trivial

lemma Closed.data (C : Closed record v source shards cutAt s.world) (hphase : s.stage.phase = .closing) :
    Closed record v source shards cutAt (s.world.step record a) where
  opened := C.opened.data ok (.inr hphase)
  cut := C.cut.step fun m ha => by
    subst ha
    have := (and_eq_true_iff.1 ok).2
    rw [hphase] at this
    exact this

end

section
variable (O : Over record v source shards cutAt s.handedAt s.world)
include O

/-- After the handover only the target lets acknowledged writes of the range through. -/
lemma Over.addressed (B : s.world.Barred record) (hne : source ≠ v.target) (hphase : s.stage.phase = .after)
    (ok : s.keepsRange record v source shards (.data a) = true) : s.world.Addressed record shards v.target a := by
  obtain ⟨hbarrier, ok⟩ := and_eq_true_iff.1 ok
  have may : ∀ {n acked}, s.admits v source n acked = true → (acked = true ↔ n = v.target) := by
    intro n acked h
    rw [admits, hphase] at h
    exact acked_iff h
  intro n op acked lets htouch
  cases lets with
  | deleteHere =>
    rw [keepsData, htouch] at ok
    exact may (by simpa using ok)
  | @receive _ routed _ _ hroute =>
    rw [keepsData, htouch, Bool.not_true, Bool.false_or] at ok
    rcases or_eq_true_iff.1 ok with ok | ok
    · exact may ok
    -- the node has applied the cutover or the handover, and its check turns the write away
    simp only [and_eq_true, or_eq_true, decide_eq_true_eq] at ok
    obtain ⟨⟨-, hn⟩, hwhere⟩ := ok
    obtain ⟨r, hr, hold⟩ := any_eq_true.1 htouch
    have checked := B.mapped.checked _ (B.mapped.mapOf n)
    cases routed with
    | none => cases hbarrier
    | some claim =>
      obtain ⟨want, hwant, hin⟩ := any_eq_true.1 (all_eq_true.1 hbarrier r hr)
      have given : (s.world.mapOf n).gives shards v.target = true → n = v.target := fun h =>
        eq_of_gives checked h hroute hwant hin hold
      rcases hwhere with rfl | happlied
      · rcases O.cut.mapOf B.mapped O.applied with hcut | hgives
        · have := not_cutOver_of_checkRoute checked hroute hwant hin
          rw [cutOver_of_cuts hcut hold] at this
          cases this
        · exact (hne (given hgives)).elim
      · exact (hn (given (O.handed.mapOf B.mapped happlied))).elim

lemma Over.data (B : s.world.Barred record) (hne : source ≠ v.target) (hphase : s.stage.phase = .after)
    (ok : s.keepsRange record v source shards (.data a) = true) :
    Over record v source shards cutAt s.handedAt (s.world.step record a) := by
  have gives : ∀ m, a = .decide m → m.gives shards v.target = true := by
    rintro m rfl
    have := (and_eq_true_iff.1 (and_eq_true_iff.1 ok).2).2
    rw [hphase] at this
    exact this
  exact ⟨O.tended.step (O.addressed B hne hphase ok), O.applied.trans (applied_le record s.world a source),
    O.cut.step fun m ha => .inr (gives m ha), O.handed.step gives⟩

end

/-- Decided maps stay in the order of their epochs. -/
lemma epochs_step (epochs : w.decided.Pairwise (·.epoch < ·.epoch))
    (ok : ∀ m, a = .decide m → w.decided.all (·.epoch < m.epoch) = true) :
    (w.step record a).decided.Pairwise (·.epoch < ·.epoch) := by
  have hstep := step_step record w a
  generalize w.step record a = w' at hstep
  cases hstep with
  | @decide m =>
    refine pairwise_append.2 ⟨epochs, pairwise_singleton _ _, fun m' hm' m'' hm'' => ?_⟩
    rw [mem_singleton.1 hm'']
    exact of_decide_eq_true (all_eq_true.1 (ok m rfl) m' hm')
  | _ => exact epochs

section
variable (S : Sound record v source shards s)
include S

/-- Everything else in the cluster. -/
lemma Sound.data (ok : s.keepsRange record v source shards (.data a) = true) :
    Sound record v source shards { s with world := s.world.step record a } := by
  obtain ⟨hbarrier, hdata⟩ := and_eq_true_iff.1 ok
  refine ⟨S.barred.step hbarrier, epochs_step S.epochs ?_, S.found, ?_⟩
  · rintro m rfl
    exact (and_eq_true_iff.1 hdata).1
  have known := S.known
  unfold Known at known ⊢
  cases hphase : s.stage.phase with
  | opening =>
    rw [hphase] at known
    exact known.data hdata (.inl hphase)
  | closing =>
    rw [hphase] at known
    exact ⟨known.1.data hdata hphase, known.2.data known.1 S.barred⟩
  | after =>
    rw [hphase] at known
    refine known.data S.barred (S.found ?_ ?_).2.2 hphase ok
    · intro h
      rw [h] at hphase
      cases hphase
    · intro h
      rw [h] at hphase
      cases hphase
  | failed => trivial

lemma Sound.failed (cutAt handedAt : Nat) :
    Sound record v source shards { s with stage := .failed, cutAt, handedAt } :=
  ⟨S.barred, S.epochs, fun _ h => (h rfl).elim, trivial⟩

/-- A step that leaves the world alone. -/
lemma Sound.restage (hfresh : s.stage ≠ .fresh) (hfailed : s.stage ≠ .failed)
    (known : Known record v source shards s.cutAt s.handedAt s.world stage) :
    Sound record v source shards { s with stage } :=
  ⟨S.barred, S.epochs, fun _ _ => S.found hfresh hfailed, known⟩

/-- Every proposal is a map that is newer than those decided. -/
lemma Sound.decide (next : RangeMap) (epoch : Nat)
    (checked : next.check.isOk = true) (newer : s.world.decided.all (·.epoch < epoch) = true) :
    (s.world.step record (.decide { next with epoch })).Barred record ∧
      (s.world.step record (.decide { next with epoch })).decided.Pairwise (·.epoch < ·.epoch) := by
  refine ⟨S.barred.step checked, epochs_step S.epochs fun m hm => ?_⟩
  cases hm
  exact newer

end

lemma Open.decide (O : Open record v source shards w) : Open record v source shards (w.step record (.decide m)) :=
  ⟨⟨⟨O.tended.keeps.held, O.tended.keeps.waits⟩, O.tended.clears⟩, O.idle⟩

lemma Open.refill {store : List α} (O : Open record v source shards w)
    (hne : source ≠ v.target) : Open record v source shards (w.refill v.target store) :=
  ⟨O.tended.refill hne, O.idle.refill⟩

section Advance
variable [DecidableEq α] {part : α → Nat}

/-- The next step of the move. -/
lemma Sound.advance (S : Sound record v source shards s) (ok : s.keepsNext v source shards = true) :
    Sound record v source shards (s.advance record part v) := by
  have known := S.known
  have found := S.found
  unfold keepsNext at ok
  unfold Moving.advance
  cases hs : s.stage with
  | fresh =>
    simp only [hs] at known found ok ⊢
    split
    · exact S.failed s.cutAt s.handedAt
    · next r hr =>
      split
      · exact S.failed s.cutAt s.handedAt
      · next hne =>
        rw [hr] at ok
        obtain ⟨rfl, rfl⟩ : r.primary = source ∧ r.shards = shards := by simpa using ok
        exact ⟨S.barred, S.epochs, fun _ _ => ⟨rfl, rfl, hne⟩, known⟩
  | found | seeded | agreed =>
    rw [hs] at known
    dsimp only [Moving.changed]
    split
    · exact S.restage (by simp [hs]) (by simp [hs]) known
    · exact S.failed s.cutAt s.handedAt
  | beginning next =>
    simp only [hs] at known found ok ⊢
    unfold Moving.proposed
    split
    · next checked =>
      have := S.decide next _ checked ok
      exact ⟨this.1, this.2, fun _ _ => found (by simp) (by simp), Open.decide known⟩
    · exact S.failed s.cutAt s.handedAt
  | begun epoch | handed epoch =>
    rw [hs] at known
    dsimp only
    split
    · exact S.restage (by simp [hs]) (by simp [hs]) known
    · exact S
  | seeding copy =>
    simp only [hs] at known found ⊢
    obtain ⟨hsource, hshards, hne⟩ := found (by simp) (by simp)
    refine ⟨S.barred.refill, S.epochs, fun _ _ => ⟨hsource, hshards, hne⟩, ?_⟩
    cases (s.copied record part v copy).2 with
    | none | some copy => exact Open.refill known hne
  | cutting next =>
    simp only [hs] at known found ok ⊢
    obtain ⟨newer, hcuts⟩ := and_eq_true_iff.1 ok
    unfold Moving.proposed
    split
    · next checked =>
      have := S.decide next _ checked newer
      refine ⟨this.1, this.2, fun _ _ => found (by simp) (by simp), ⟨Open.decide known, .decide record hcuts⟩, ?_⟩
      exact ⟨_, getElem?_concat_length, le_rfl⟩
    · exact S.failed s.world.decided.length s.handedAt
  | cut epoch =>
    rw [hs] at known
    dsimp only
    split
    · next hle =>
      obtain ⟨closed, m, hm, hepoch⟩ := known
      exact S.restage (by simp [hs]) (by simp [hs]) ⟨closed, m, hm, hepoch.trans hle⟩
    · exact S
  | awaiting epoch =>
    simp only [hs] at known found ⊢
    obtain ⟨hsource, -⟩ := found (by simp) (by simp)
    split
    · next hle =>
      obtain ⟨closed, m, hm, hepoch⟩ := known
      rw [hsource] at hle
      refine S.restage (by simp [hs]) (by simp [hs]) ⟨closed, ?_⟩
      change s.cutAt ≤ (s.world.node source).applied
      by_contra hlt
      obtain ⟨hp, rfl⟩ := List.getElem?_eq_some_iff.1 hm
      have hn := S.barred.mapped.applied source
      have := pairwise_iff_getElem.1 S.epochs _ _ hn hp (by omega)
      have hmap := S.barred.mapped.getElem source
      rw [getElem?_eq_getElem hn] at hmap
      rw [Option.some.inj hmap] at this
      omega
    · exact S
  | catching copy =>
    simp only [hs] at known found ⊢
    obtain ⟨hsource, hshards, hne⟩ := found (by simp) (by simp)
    obtain ⟨closed, happlied⟩ := known
    have known' : ∀ store, Closed record v source shards s.cutAt (s.world.refill v.target store) ∧
        s.cutAt ≤ ((s.world.refill v.target store).node source).applied := by
      intro store
      refine ⟨⟨closed.opened.refill hne, closed.cut.refill⟩, ?_⟩
      rw [refill_applied]
      exact happlied
    refine ⟨S.barred.refill, S.epochs, fun _ _ => ⟨hsource, hshards, hne⟩, ?_⟩
    cases (s.copied record part v copy).2 with
    | none | some copy => exact known' _
  | caught =>
    simp only [hs] at known found ⊢
    obtain ⟨rfl, rfl, -⟩ := found (by simp) (by simp)
    refine S.restage (by simp [hs]) (by simp [hs]) ⟨known.1, known.2, fun f hf => ?_⟩
    rw [mem_contentsIn]
    exact (and_iff_left hf).symm
  | digested contents =>
    simp only [hs] at known found ⊢
    obtain ⟨rfl, rfl, -⟩ := found (by simp) (by simp)
    split
    · next hsame =>
      refine S.restage (by simp [hs]) (by simp [hs]) ⟨known.1, known.2.1, fun f hf => ?_⟩
      rw [known.2.2 f hf, mem_of_sameFacts hsame, mem_contentsIn]
      exact and_iff_left hf
    · exact S.failed s.cutAt s.handedAt
  | handing next =>
    simp only [hs] at known found ok ⊢
    obtain ⟨newer, hgives⟩ := and_eq_true_iff.1 ok
    obtain ⟨closed, happlied, hsame⟩ := known
    unfold Moving.proposed
    split
    · next checked =>
      have := S.decide next _ checked newer
      refine ⟨this.1, this.2, fun _ _ => found (by simp) (by simp), ?_⟩
      change Over record v source shards s.cutAt s.world.decided.length (s.world.step record (.decide _))
      -- the target has what the source has, and nothing waits at either
      obtain ⟨keeps, clears⟩ := closed.opened.tended
      have held f hf howed := (hsame f hf).1 (keeps.held f hf howed)
      refine ⟨⟨⟨held, keeps.waits.handover (closed.idle S.barred happlied) closed.opened.idle⟩, ?_⟩, happlied, ?_,
        .decide record hgives⟩
      · exact fun f hf hgone hin => clears f hf hgone ((hsame f hf).2 hin)
      refine (closed.cut.mono fun _ => Or.inl).step fun m hm => ?_
      cases hm
      exact .inr hgives
    · exact S.failed s.cutAt s.world.decided.length
  | dropping epoch =>
    simp only [hs] at known found ⊢
    obtain ⟨rfl, rfl, hne⟩ := found (by simp) (by simp)
    split
    · refine ⟨S.barred.refill, S.epochs, fun _ _ => ⟨rfl, rfl, hne⟩, ?_⟩
      refine ⟨known.tended.refill hne.symm, ?_, known.cut.refill, known.handed.refill⟩
      rw [refill_applied]
      exact known.applied
    · exact S
  | moved | failed => exact S

lemma Sound.step {a : MoveAction α} (S : Sound record v source shards s)
    (ok : s.keepsRange record v source shards a = true) : Sound record v source shards (s.step record part v a) := by
  cases a with
  | data a => exact S.data ok
  | next => exact S.advance ok
  | fail =>
    have known := S.known
    unfold Moving.step
    dsimp only
    split
    · next hs =>
      rw [hs] at known
      exact S.restage (by simp [hs]) (by simp [hs]) known
    · next hs =>
      rw [hs] at known
      exact S.restage (by simp [hs]) (by simp [hs]) known
    · exact S.failed s.cutAt s.handedAt

end Advance

end Steps

end Moving

/-- A move that has not begun. -/
def Moving.begin (w : World α) : Moving α := ⟨w, .fresh, 0, .all, 0, 0⟩

def takes (n : Nat) : List (MoveAction (Nat × Nat)) := replicate n .next

end BigDb.Cluster
