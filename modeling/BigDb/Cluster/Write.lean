import BigDb.Cluster.Ownership
import BigDb.Lib.Grouping

/-!
# Writes

A batch is grouped by the range each record falls in, and every range's share goes to the copy
that serves it and then to the others, range after range. `Report` decides what a failure is
worth and what the caller is told.

A coordinator takes the lock on its map anew for every question it asks, so what it sees and
what the copies do is an argument here: a `Scene` says what the map was at each of those
moments and what became of each request. The table a batch is for is left out, since nothing
here reads it. `Sent` is a history variable, everything an attempt sent and whether the copy
committed it.
-/

namespace BigDb.Cluster
open Lib

/-! ## Facts and keys -/

inductive FactValue where
  | int (v : Nat)
  | signed (v : Int)
  /-- the bits of a float -/
  | float (bits : Nat)
  | key (v : String)
  | bool (v : Bool)
  | time (value : String) (unixSeconds : Int)
deriving DecidableEq, Repr

structure OwnedFact where
  field : String
  record : Nat
  value : FactValue
deriving DecidableEq, Repr

/-- The field and the key to be interned before the fact can be written. -/
def OwnedFact.key (f : OwnedFact) : Option (String × String) :=
  match f.value with
  | .key v | .time v _ => some (f.field, v)
  | _ => none

/-- What a key means. -/
structure Assignment where
  field : String
  key : String
  row : Nat
deriving DecidableEq, Repr

/-- The keys of a batch, by field. -/
def wanted (facts : List OwnedFact) : List (String × List String) :=
  (facts.filterMap OwnedFact.key).foldl (fun fields (field, key) =>
    alter field (fun had =>
      (alter key (fun _ => ()) ((had.getD []).map (·, ()))).map Prod.fst) fields) []

def keysUsed (assignments : List Assignment) (share : List OwnedFact) : List Assignment :=
  assignments.filter fun a => (a.field, a.key) ∈ share.filterMap OwnedFact.key

/-! ## Nodes by name -/

/-- One node of the cluster file. -/
structure NodeSpec where
  name : String
  shards : ShardRange

/-- Where a coordinator runs: its own index, the file and the agreed members. -/
structure Site where
  this : NodeId
  nodes : List NodeSpec
  members : List Member

namespace Site
variable (site : Site)

def nameOfAgreed (i : NodeId) : String := (site.members[i]?).elim ("node " ++ toString i) Member.name

/-- `name (shards)`, which is what every report about a node says. -/
def describe (i : NodeId) : String :=
  match site.nodes[i]? with
  | some node => node.name ++ " (" ++ node.shards.display ++ ")"
  | none => site.nameOfAgreed i

def name (i : NodeId) : String := (site.nodes[i]?).elim (site.nameOfAgreed i) NodeSpec.name

/-- The shards the file gives a node, as they are printed. -/
def shards (i : NodeId) : String := (site.nodes[i]?).elim "" fun node => node.shards.display

/-- Whether this node holds every shard and nobody else holds a copy. -/
def ownsEverything : Bool := site.nodes.length = 1

end Site

/-! ## One request at one copy -/

/-- Why a request had no answer. -/
inductive ClientError where
  | timeout
  | other (why : String)
deriving DecidableEq, Repr

/-- What becomes of one request at one copy. -/
structure Visit where
  /-- the request never arrived -/
  lost : Option ClientError
  /-- the copy may serve, which `guard` asks -/
  serving : Bool
  /-- the map `checkRoute` reads there -/
  map : RangeMap
  /-- what the engine says -/
  engine : Except ApiError Nat
  /-- the answer never arrived -/
  unheard : Option ClientError
  /-- the answer cannot be read -/
  garbled : Option String

namespace Site
variable (site : Site) (i : NodeId)

/-- The refusal a node out of touch with the agreement owes every request. -/
def guard (serving : Bool) : Except ClusterError Unit :=
  if serving then .ok () else .error (.notServing (site.name i) (site.shards i))

variable (routed : Option Routed)

/-- A share as the node that takes it handles it: the guard, the route, the engine. -/
def take (visit : Visit) : Except ClusterError Nat := do
  site.guard i visit.serving
  visit.map.checkRoute (site.name i) i routed
  visit.engine.mapError .engine

def unanswered : ClientError → ClusterError
  | .timeout => .timeout
  | .other why => .unreachable (site.name i) (site.shards i) why

/-- A request to a peer. What the peer refuses with travels out as its status and code. -/
def ask (visit : Visit) : Except ClusterError Nat :=
  match visit.lost.or visit.unheard with
  | some e => .error (site.unanswered i e)
  | none =>
    (site.take i routed visit).mapError fun e =>
      .peer (site.name i) e.response.status e.response.code e.response.message

/-- One node's share of a batch, whether that node is this one or another. -/
def writeShare (visit : Visit) : Except ClusterError Nat :=
  if i = site.this then site.take i routed visit else site.ask i routed visit

/-- One node's share of a deletion. This node's own is not checked against the route. -/
def deleteShare (visit : Visit) : Except ClusterError Nat :=
  if i = site.this then site.take i none visit
  else do
    let removed ← site.ask i routed visit
    match visit.garbled with
    | some why => .error (.wire (site.describe i) why)
    | none => .ok removed

def commits (visit : Visit) : Bool :=
  (i = site.this || visit.lost.isNone) && (site.take i routed visit).isOk

end Site

/-! ## The report -/

/-- What a write has managed so far. -/
structure Report where
  landed : List String
  missed : List String
  first : Option ClusterError
  refused : Bool
deriving DecidableEq, Repr

instance : Inhabited Report := ⟨⟨[], [], none, false⟩⟩

/-- What to do about a failure. -/
inductive Verdict where
  | stop
  | abandonRange
  | carryOn
deriving DecidableEq, Repr

/-- What a write actually managed to do. -/
structure WriteOutcome where
  count : Nat
  missed : List String
deriving DecidableEq, Repr

namespace Report
variable (report : Report)

/-- `landed`. -/
def land (node : String) : Report := { report with landed := report.landed ++ [node] }

/-- `refused`. -/
def refuse (node : String) (e : ClusterError) (wasServing : Bool) : Report × Verdict :=
  let next : Report :=
    { landed := report.landed
      missed := report.missed ++ [node ++ " (" ++ e.display ++ ")"]
      first := report.first.or (some e)
      refused := report.refused || !e.isUnreachable }
  let verdict :=
    if report.landed.isEmpty then .stop
    else if wasServing then .abandonRange
    else if e.isUnreachable then .carryOn
    else .abandonRange
  (next, verdict)

def intoError (what : String) : ClusterError :=
  report.first.getD (.halfApplied what report.landed report.missed)

def finish (what : String) (count : Nat) : Except ClusterError WriteOutcome :=
  if report.missed.isEmpty then .ok ⟨count, []⟩
  else if !report.refused && !report.landed.isEmpty then .ok ⟨count, report.missed⟩
  else .error (.halfApplied what report.landed report.missed)

end Report

/-! ## The loop -/

/-- One request of an attempt: for which range and which of its copies, what was in it, the
map it met there, and whether the copy committed it. -/
structure Sent (α : Type) where
  range : Nat
  slot : Nat
  node : NodeId
  share : List α
  keys : List Assignment
  routed : Option Routed
  map : RangeMap
  committed : Bool

structure Progress (α : Type) where
  report : Report
  removed : Nat
  sent : List (Sent α)

/-- How a loop ends: at its end, with `return`, or with `break 'ranges`. -/
inductive Flow where
  | next
  | stop
  | abandon
deriving DecidableEq, Repr

section Loop
variable {α : Type} (describe : NodeId → String)

/-- The loop over the copies of one range. -/
def visitCopies (primary : NodeId) (ask : Nat → NodeId → Sent α × Except ClusterError Nat) :
    List NodeId → Nat → Progress α → Flow × Progress α
  | [], _, p => (.next, p)
  | copy :: rest, slot, p =>
    let (sent, outcome) := ask slot copy
    let p := { p with sent := p.sent ++ [sent] }
    match outcome with
    | .ok n =>
      visitCopies primary ask rest (slot + 1) { p with
        report := p.report.land (describe copy)
        -- only the copy that answers reads is counted
        removed := if copy = primary then p.removed + n else p.removed }
    | .error e =>
      match p.report.refuse (describe copy) e (copy = primary) with
      | (report, .stop) => (.stop, { p with report })
      | (report, .abandonRange) => (.abandon, { p with report })
      | (report, .carryOn) => visitCopies primary ask rest (slot + 1) { p with report }

/-- The loop over the ranges of a batch. -/
def visitRanges (copiesOf : Nat → List NodeId) (ask : Nat → List α → Nat → NodeId → Sent α × Except ClusterError Nat) :
    List (Nat × List α) → Progress α → Flow × Progress α
  | [], p => (.next, p)
  | (range, share) :: rest, p =>
    let copies := copiesOf range
    match visitCopies describe (copies.headD range) (ask range share) copies 0 p with
    | (.next, p) => visitRanges copiesOf ask rest p
    | ended => ended

/-- What the caller is told, and what was sent. -/
def answer (what : String) (count : Progress α → Nat) :
    Flow × Progress α → Except ClusterError WriteOutcome × List (Sent α)
  | (.stop, p) => (.error (p.report.intoError what), p.sent)
  | (_, p) => (p.report.finish what (count p), p.sent)

variable {describe} {groups : List (Nat × List α)} {s : Sent α} {p : Progress α}

/-- Everything sent to the copies of a range was sent to one of them, in its slot. -/
lemma mem_sent_visitCopies {primary : NodeId}
    {ask : Nat → NodeId → Sent α × Except ClusterError Nat} {copies : List NodeId} {slot : Nat}
    (h : s ∈ (visitCopies describe primary ask copies slot p).2.sent) :
    s ∈ p.sent ∨ ∃ j node, copies[j]? = some node ∧ s = (ask (slot + j) node).1 := by
  induction copies generalizing slot p with
  | nil => exact .inl h
  | cons copy rest ih =>
    have here : ∀ {q : Progress α}, q.sent = p.sent ++ [(ask slot copy).1] → s ∈ q.sent →
        s ∈ p.sent ∨ ∃ j node, (copy :: rest)[j]? = some node ∧ s = (ask (slot + j) node).1 := by
      intro q hq hs
      rw [hq] at hs
      rcases List.mem_append.1 hs with hs | hs
      · exact .inl hs
      · exact .inr ⟨0, copy, rfl, List.mem_singleton.1 hs⟩
    have later : ∀ {q : Progress α}, q.sent = p.sent ++ [(ask slot copy).1] →
        s ∈ (visitCopies describe primary ask rest (slot + 1) q).2.sent →
        s ∈ p.sent ∨ ∃ j node, (copy :: rest)[j]? = some node ∧ s = (ask (slot + j) node).1 := by
      intro q hq hs
      rcases ih hs with hs | ⟨j, node, hj, rfl⟩
      · exact here hq hs
      · refine .inr ⟨j + 1, node, by rw [List.getElem?_cons_succ]; exact hj, ?_⟩
        rw [Nat.add_assoc, Nat.add_comm 1]
    rw [visitCopies] at h
    generalize ask slot copy = a at h here later
    obtain ⟨sent, outcome⟩ := a
    cases outcome with
    | ok n => exact later rfl h
    | error e =>
      dsimp only at h
      generalize p.report.refuse (describe copy) e (decide (copy = primary)) = v at h
      obtain ⟨report, verdict⟩ := v
      cases verdict with
      | stop | abandonRange => exact here rfl h
      | carryOn => exact later rfl h

variable {copiesOf : Nat → List NodeId} {ask : Nat → List α → Nat → NodeId → Sent α × Except ClusterError Nat}

/-- Everything an attempt sends is a group's share, to one of the copies of its range. -/
lemma mem_sent_visitRanges
    (h : s ∈ (visitRanges describe copiesOf ask groups p).2.sent) :
    s ∈ p.sent ∨ ∃ range share slot node, (range, share) ∈ groups ∧
      (copiesOf range)[slot]? = some node ∧ s = (ask range share slot node).1 := by
  induction groups generalizing p with
  | nil => exact .inl h
  | cons g rest ih =>
    obtain ⟨range, share⟩ := g
    have here : ∀ s ∈ (visitCopies describe ((copiesOf range).headD range) (ask range share)
        (copiesOf range) 0 p).2.sent, s ∈ p.sent ∨ ∃ range' share' slot node,
          (range', share') ∈ (range, share) :: rest ∧ (copiesOf range')[slot]? = some node ∧
          s = (ask range' share' slot node).1 := by
      intro s hs
      rcases mem_sent_visitCopies hs with hs | ⟨j, node, hj, rfl⟩
      · exact .inl hs
      · exact .inr ⟨range, share, j, node, List.mem_cons_self, hj, by rw [Nat.zero_add]⟩
    rw [visitRanges] at h
    generalize visitCopies describe ((copiesOf range).headD range) (ask range share)
      (copiesOf range) 0 p = ended at h here
    obtain ⟨flow, q⟩ := ended
    cases flow with
    | next =>
      rcases ih h with hs | ⟨range', share', slot, node, hmem, rest⟩
      · exact here s hs
      · exact .inr ⟨range', share', slot, node, List.mem_cons_of_mem _ hmem, rest⟩
    | stop | abandon => exact here s h

/-- So is everything behind an answer. -/
lemma mem_sent_answer {what : String} {count : Progress α → Nat}
    (h : s ∈ (answer what count (visitRanges describe copiesOf ask groups ⟨default, 0, []⟩)).2) :
    ∃ range share slot node, (range, share) ∈ groups ∧ (copiesOf range)[slot]? = some node ∧
      s = (ask range share slot node).1 := by
  have hs : s ∈ (visitRanges describe copiesOf ask groups ⟨default, 0, []⟩).2.sent := by
    unfold answer at h
    split at h
    · next heq =>
      rw [heq]
      exact h
    · next heq =>
      rw [heq]
      exact h
  rcases mem_sent_visitRanges hs with hs | hs
  · cases hs
  · exact hs

end Loop

/-! ## An attempt, and a whole call -/

/-- What one attempt of a coordinator meets: its map at each of its reads, what it and the
schema leader know about keys, and what becomes of each request. -/
structure Scene where
  /-- when the item at an index is grouped -/
  grouping : Nat → RangeMap
  /-- when the copies of the range at a position are listed -/
  copies : Nat → RangeMap
  /-- when the claim of the request to a copy of a range is made -/
  route : Nat → Nat → RangeMap
  /-- by range and copy -/
  visit : Nat → Nat → Visit
  keyRow : String → String → Option Nat
  intern : String → List String → Except ClusterError (List Nat)
  leader : NodeId

namespace Scene
variable (site : Site) (scene : Scene)

/-- One turn of the loop of `resolve_keys`. -/
def resolveField (out : List Assignment) (w : String × List String) : Except ClusterError (List Assignment) :=
  let known := w.2.filterMap fun key => (scene.keyRow w.1 key).map (⟨w.1, key, ·⟩)
  let misses := w.2.filter fun key => (scene.keyRow w.1 key).isNone
  if misses.isEmpty then .ok (out ++ known)
  else do
    let rows ← scene.intern w.1 misses
    if rows.length ≠ misses.length then
      .error (.mismatch (site.describe scene.leader) "a different number of row ids than keys")
    else .ok (out ++ known ++ misses.zipWith (fun key row => ⟨w.1, key, row⟩) rows)

variable (facts : List OwnedFact)

/-- What every key in a batch means, asking the schema leader about the unknown ones. -/
def resolveKeys : Except ClusterError (List Assignment) :=
  (wanted facts).foldlM (scene.resolveField site) []

def byRange {α : Type} (record : α → Nat) (items : List α) : List (Nat × List α) :=
  groupBy (fun i x => (scene.grouping i).rangeOf (shardOf (record x))) items

/-- The copies of the range at a position, as they are when its turn comes. -/
def copiesOf (range : Nat) : List NodeId := (scene.copies range).copiesOfRange range

def claim (range slot : Nat) : Option Routed := (scene.route range slot).routedFor range

/-- The request of an import to one copy, and its answer. -/
def sendImport (assignments : List Assignment) (range : Nat) (share : List OwnedFact) (slot : Nat)
    (node : NodeId) : Sent OwnedFact × Except ClusterError Nat :=
  let routed := scene.claim range slot
  let visit := scene.visit range slot
  (⟨range, slot, node, share, keysUsed assignments share, routed, visit.map,
    site.commits node routed visit⟩, site.writeShare node routed visit)

/-- The request of a deletion to one copy, and its answer. -/
def sendDelete (range : Nat) (share : List Nat) (slot : Nat) (node : NodeId) : Sent Nat × Except ClusterError Nat :=
  let routed := if node = site.this then none else scene.claim range slot
  let visit := scene.visit range slot
  (⟨range, slot, node, share, [], routed, visit.map, site.commits node routed visit⟩,
    site.deleteShare node routed visit)

def importOnce : Except ClusterError WriteOutcome × List (Sent OwnedFact) :=
  match scene.resolveKeys site facts with
  | .error e => (.error e, [])
  | .ok assignments =>
    answer "the batch" (fun _ => facts.length)
      (visitRanges site.describe scene.copiesOf (scene.sendImport site assignments)
        (scene.byRange OwnedFact.record facts) ⟨default, 0, []⟩)

def deleteOnce (records : List Nat) : Except ClusterError WriteOutcome × List (Sent Nat) :=
  answer "the deletion" Progress.removed (visitRanges site.describe scene.copiesOf (scene.sendDelete site)
      (scene.byRange (fun r => r) records) ⟨default, 0, []⟩)

end Scene

/-- Whether an attempt is made again. -/
def retried (attempt : Except ClusterError WriteOutcome) : Bool :=
  match attempt with
  | .error e => e.isStaleRoute
  | .ok _ => false

section Retry
variable {α : Type} (attempt : Scene → Except ClusterError WriteOutcome × List (Sent α)) (first second : Scene)

/-- Runs a routed write, and runs it once more if the map moved underneath it. Answers with what
each attempt sent. -/
def retryingStaleRoutes : Except ClusterError WriteOutcome × List (List (Sent α)) :=
  if retried (attempt first).1 then ((attempt second).1, [(attempt first).2, (attempt second).2])
  else ((attempt first).1, [(attempt first).2])

def answering : Scene := if retried (attempt first).1 then second else first

lemma retryingStaleRoutes_answer :
    (retryingStaleRoutes attempt first second).1 = (attempt (answering attempt first second)).1 ∧
      (retryingStaleRoutes attempt first second).2.getLast? = some (attempt (answering attempt first second)).2 := by
  unfold retryingStaleRoutes answering
  split <;> exact ⟨rfl, rfl⟩

lemma mem_retryingStaleRoutes {sent : List (Sent α)} (h : sent ∈ (retryingStaleRoutes attempt first second).2) :
    sent = (attempt first).2 ∨ sent = (attempt second).2 := by
  unfold retryingStaleRoutes at h
  split at h
  · simpa using h
  · exact .inl (List.mem_singleton.1 h)

end Retry

namespace Site
variable (site : Site)

/-- `import`. A node that owns everything hands the batch to its engine. -/
def importBatch (first second : Scene) (facts : List OwnedFact) :
    Except ClusterError WriteOutcome × List (List (Sent OwnedFact)) :=
  if site.ownsEverything then
    let visit := first.visit 0 0
    (match visit.engine with
      | .ok _ => .ok ⟨facts.length, []⟩
      | .error e => .error (.engine e),
     [[⟨0, 0, site.this, facts, [], none, visit.map, visit.engine.isOk⟩]])
  else retryingStaleRoutes (fun scene => scene.importOnce site facts) first second

/-- `delete`. -/
def delete (first second : Scene) (records : List Nat) : Except ClusterError WriteOutcome × List (List (Sent Nat)) :=
  retryingStaleRoutes (fun scene => scene.deleteOnce site records) first second

end Site

end BigDb.Cluster
