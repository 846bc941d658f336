import Mathlib.Data.List.Sort
import Mathlib.Data.String.Basic

/-!
# The ownership map and the membership

What the agreement of `big-cluster` decides about: `RangeMap` (who answers for which
shards, which copies are behind, who owns the row-key namespace and how far it may hand
out record ids) and the list of `Member`s. Both are plain values; the verbs below change
one and are checked before anything is proposed.

The half-open end of a shard range is called `stop` here, the source's word being a
keyword. Machine integers, shards among them, are `Nat`: the one sum of this file that has no
bound in the source, a new range's id, wraps at the width of a `RangeId`.
-/

namespace BigDb.Cluster
open List

abbrev NodeId := Nat

/-- A range's own name, minted once. -/
abbrev RangeId := Nat

/-- `ShardId::MAX`. -/
def maxShard : Nat := 2 ^ 64 - 1

/-- Shards `start..stop`; `none` runs to the end of the space. -/
structure ShardRange where
  start : Nat
  stop : Option Nat
deriving DecidableEq, Repr, Inhabited

inductive MoveState where
  | seeding
  | cutover
deriving DecidableEq, Repr, Inhabited

/-- A range on its way from one node to another. -/
structure Move where
  target : NodeId
  state : MoveState
deriving DecidableEq, Repr, Inhabited

/-- One contiguous span of the shard space, and who answers for it. -/
structure Range where
  id : RangeId
  shards : ShardRange
  group : List NodeId
  primary : NodeId
  moving : Option Move
deriving DecidableEq, Repr, Inhabited

/-- The one value the agreement decides about data. -/
structure RangeMap where
  epoch : Nat
  ranges : List Range
  stale : List NodeId
  schemaLeader : NodeId
  reserved : List (String × Nat)
  schemaReady : Bool
deriving DecidableEq, Repr

/-- `RangeMap::default()`: no range, epoch zero, nobody ready. -/
instance : Inhabited RangeMap := ⟨⟨0, [], [], 0, [], false⟩⟩

inductive MapError where
  | empty
  | notStartingAtZero (start : Nat)
  | unordered (pos : Nat)
  | overlap (lo hi : Nat)
  | gap (lo hi : Nat)
  | notTotal (lo : Nat)
  | emptyGroup (id : RangeId)
  | primaryNotInGroup (id : RangeId) (primary : NodeId)
  | duplicateId (id : RangeId)
  | noSuchRange (id : RangeId)
  | schemaLeaderNotAMember (node : NodeId)
  | schemaLeaderIsALearner (node : NodeId)
  | alreadyAHolder (id : RangeId) (node : NodeId)
  | primaryNotDroppable (id : RangeId) (primary : NodeId)
deriving DecidableEq, Repr

inductive MoveError where
  | noSuchRange (id : RangeId)
  | alreadyMoving (id : RangeId)
  | notMoving (id : RangeId)
  | alreadyThere (id : RangeId) (target : NodeId)
deriving DecidableEq, Repr

inductive SplitError where
  | noSuchRange (pos : Nat)
  | onABoundary (pos : Nat)
  | moving (id : RangeId)
deriving DecidableEq, Repr

inductive MergeError where
  | noSuchRange (id : RangeId)
  | nothingAfter (id : RangeId)
  | moving (id : RangeId)
  | differentOwners (id other : RangeId)
deriving DecidableEq, Repr

/-! ## Members -/

inductive MemberState where
  | learner
  | voter
  | draining
  | gone
deriving DecidableEq, Repr, Inhabited

structure Member where
  name : String
  addr : String
  state : MemberState
deriving DecidableEq, Repr, Inhabited

/-- Whether this node counts towards a majority. -/
def Member.votes (m : Member) : Bool :=
  m.state = .voter || m.state = .draining

/-- Whether the agreement still sends to it at all. -/
def Member.reachable (m : Member) : Bool :=
  m.state ≠ .gone

/-- Whether the balancer may place a range here. -/
def Member.takesRanges (m : Member) : Bool :=
  m.state = .voter

/-- The members whose agreement counts, by index. -/
def votersOf (members : List Member) : List NodeId :=
  (range members.length).filter fun i => (members[i]?).any Member.votes

/-- How many slots differ between two member lists, counting a longer list as that many
more. -/
def differences (before after : List Member) : Nat :=
  let common := min before.length after.length
  let changed := ((range common).filter fun i => before[i]? ≠ after[i]?).length
  changed + ((before.length - after.length) + (after.length - before.length))

/-! ## Reading a map -/

namespace RangeMap
variable (m : RangeMap)

/-- One past the highest record id that may be handed out for `table`. -/
def reservedFor (table : String) : Nat :=
  ((m.reserved.find? fun r => r.1 = table).map Prod.snd).getD 0

/-- The first loop of `check`: ids are unique, groups are not empty and hold their primary. -/
def checkRanges : List Range → List RangeId → Except MapError Unit
  | [], _ => .ok ()
  | r :: rs, seen =>
    if r.id ∈ seen then .error (.duplicateId r.id)
    else if r.group.isEmpty then .error (.emptyGroup r.id)
    else if r.primary ∉ r.group then .error (.primaryNotInGroup r.id r.primary)
    else checkRanges rs (r.id :: seen)

/-- The loop of `check` over neighbouring ranges; `pos` is the position of the second. -/
def checkPairs : List Range → Nat → Except MapError Unit
  | a :: b :: rs, pos =>
    if b.shards.start < a.shards.start then .error (.unordered pos)
    else match a.shards.stop with
      -- only the last range may be open
      | none => .error (.overlap b.shards.start (b.shards.stop.getD maxShard))
      | some stop =>
        if b.shards.start = stop then checkPairs (b :: rs) (pos + 1)
        else if b.shards.start < stop then
          .error (.overlap b.shards.start (min stop (b.shards.stop.getD maxShard)))
        else .error (.gap stop b.shards.start)
  | _, _ => .ok ()

/-- Whether this map covers the shard space exactly once, and every range is held. -/
def check : Except MapError Unit := do
  match m.ranges.head?, m.ranges.getLast? with
  | some first, some last =>
    if first.shards.start ≠ 0 then .error (.notStartingAtZero first.shards.start)
    else do
      checkRanges m.ranges []
      checkPairs m.ranges 1
      match last.shards.stop with
      | none => .ok ()
      | some stop => .error (.notTotal stop)
  | _, _ => .error .empty

/-- `check`, and then whether the schema leader is a member that can hold the namespace. -/
def checkWith (members : List Member) : Except MapError Unit := do
  m.check
  match members[m.schemaLeader]? with
  | some n =>
    if !n.reachable then .error (.schemaLeaderNotAMember m.schemaLeader)
    else if n.state = .learner then .error (.schemaLeaderIsALearner m.schemaLeader)
    else .ok ()
  | none => .error (.schemaLeaderNotAMember m.schemaLeader)

/-- The position of the last range that begins at or below `shard`. `partition_point` is
a count here: the ranges of a checked map ascend, so those at or below come first. -/
def rangeOf (shard : Nat) : Nat :=
  (m.ranges.takeWhile fun r => r.shards.start ≤ shard).length - 1

def isStale (node : NodeId) : Bool := node ∈ m.stale

def position (id : RangeId) : Option Nat := m.ranges.findIdx? fun r => r.id = id

/-- One past the highest id in use, as a release build adds: a debug build stops at the last. -/
def nextId : RangeId := ((m.ranges.map Range.id).max?.map fun id => (id + 1) % 2 ^ 64).getD 0

/-! ## Changing a map

Every verb returns a new map, and the old one is left alone. -/

/-- Raises the reservation for `table` to `upto`, never lowering it. The list is sorted by
table, so the binary search finds the first entry not below it. -/
def reserve (table : String) (upto : Nat) : RangeMap :=
  let before := m.reserved.takeWhile fun r => r.1 < table
  let rest := m.reserved.dropWhile fun r => r.1 < table
  match rest with
  | (t, had) :: after =>
    if t = table then { m with reserved := before ++ (t, max had upto) :: after }
    else { m with reserved := before ++ (table, upto) :: rest }
  | [] => { m with reserved := before ++ [(table, upto)] }

lemma reserve_frame (table : String) (upto : Nat) :
    m.reserve table upto = { m with reserved := (m.reserve table upto).reserved } := by
  unfold reserve
  dsimp only
  split
  · split <;> rfl
  · rfl

def InOrder : Prop := m.reserved.Pairwise (·.1 < ·.1)

instance : Decidable m.InOrder := inferInstanceAs (Decidable (List.Pairwise _ _))

section Reserve
variable {m} (table : String) (upto : Nat)

/-- What the binary search finds: the entries below a table, and behind them perhaps the table's
own. -/
lemma InOrder.cut (h : m.InOrder) : ∃ before rest, m.reserved.takeWhile (fun r => r.1 < table) = before ∧
      m.reserved.dropWhile (fun r => r.1 < table) = rest ∧ m.reserved = before ++ rest ∧
      (∀ r ∈ before, r.1 < table) ∧
      ∀ r after, rest = r :: after → (r.1 = table ∨ table < r.1) ∧ ∀ a ∈ after, table < a.1 := by
  refine ⟨_, _, rfl, rfl, (takeWhile_append_dropWhile).symm, fun r hr => ?_, fun r after hrest => ?_⟩
  · exact of_decide_eq_true (all_eq_true.1 all_takeWhile r hr)
  have first := head?_dropWhile_not (fun r : String × Nat => decide (r.1 < table)) m.reserved
  rw [hrest] at first
  have first : table ≤ r.1 := not_lt.1 (of_decide_eq_false first)
  have sorted : (r :: after).Pairwise (·.1 < ·.1) := by
    rw [← hrest]
    exact h.sublist (dropWhile_sublist _)
  refine ⟨first.eq_or_lt.imp_left Eq.symm, fun a ha => ?_⟩
  exact first.trans_lt ((pairwise_cons.1 sorted).1 a ha)

lemma InOrder.reserve (h : m.InOrder) : (m.reserve table upto).InOrder := by
  obtain ⟨before, rest, hbefore, hrest, hm, below, above⟩ := h.cut table
  unfold InOrder at h ⊢
  rw [hm, pairwise_append] at h
  obtain ⟨hb, hr, -⟩ := h
  unfold RangeMap.reserve
  rw [hbefore, hrest]
  -- an entry of the table in the middle, whatever comes behind it
  have middle : ∀ (v : Nat) (after : List (String × Nat)), after.Pairwise (·.1 < ·.1) →
      (∀ a ∈ after, table < a.1) → (before ++ (table, v) :: after).Pairwise (·.1 < ·.1) := by
    intro v after hafter hlater
    refine pairwise_append.2 ⟨hb, pairwise_cons.2 ⟨hlater, hafter⟩, fun a ha b hb => ?_⟩
    rcases mem_cons.1 hb with rfl | hb
    · exact below a ha
    · exact (below a ha).trans (hlater b hb)
  dsimp only
  split
  · next t had after =>
    obtain ⟨hhead, hlater⟩ := above _ _ rfl
    split
    · next ht =>
      rw [ht]
      exact middle _ _ (pairwise_cons.1 hr).2 hlater
    · next ht =>
      refine middle _ _ hr fun a ha => ?_
      rcases mem_cons.1 ha with rfl | ha
      · exact hhead.resolve_left ht
      · exact hlater a ha
  · exact middle _ _ List.Pairwise.nil nofun

lemma reservedFor_reserve (h : m.InOrder) :
    (m.reserve table upto).reservedFor table = max (m.reservedFor table) upto := by
  obtain ⟨before, rest, hbefore, hrest, hm, below, above⟩ := h.cut table
  have missed : before.find? (fun r => r.1 = table) = none := by
    rw [find?_eq_none]
    intro r hr
    have := (below r hr).ne
    simpa using this
  unfold reservedFor RangeMap.reserve
  rw [hbefore, hrest, hm]
  dsimp only
  split
  · next t had after =>
    obtain ⟨hhead, hlater⟩ := above _ _ rfl
    split
    · next ht => simp [find?_append, missed, ht]
    · next ht =>
      have none : after.find? (fun r => r.1 = table) = none := by
        rw [find?_eq_none]
        intro r hr
        have := (hlater r hr).ne'
        simpa using this
      simp [find?_append, missed, ht, none]
  · simp [find?_append, missed]

end Reserve

/-- Replaces the range at a position. -/
def setRange (i : Nat) (r : Range) : RangeMap := { m with ranges := m.ranges.set i r }

/-- Cuts the range containing `pos` in two, and answers with the new range's id. -/
def split (pos : Nat) : Except SplitError (RangeMap × RangeId) :=
  let i := m.rangeOf pos
  match m.ranges[i]? with
  | none => .error (.noSuchRange pos)
  | some existing =>
    if pos = existing.shards.start then .error (.onABoundary pos)
    else
      let id := m.nextId
      let upper : Range :=
        ⟨id, ⟨pos, existing.shards.stop⟩, existing.group, existing.primary, none⟩
      if existing.moving.isSome then .error (.moving existing.id)
      else
        let lower := { existing with shards := { existing.shards with stop := some pos } }
        .ok ({ m with ranges := (m.ranges.set i lower).insertIdx (i + 1) upper }, id)

variable (id : RangeId)

/-- Joins a range to the one after it, keeping the lower one's id. -/
def merge : Except MergeError RangeMap :=
  match m.position id with
  | none => .error (.noSuchRange id)
  | some i =>
    match m.ranges[i]?, m.ranges[i + 1]? with
    | some a, some b =>
      if a.moving.isSome || b.moving.isSome then .error (.moving id)
      else if a.group.mergeSort (· ≤ ·) ≠ b.group.mergeSort (· ≤ ·) ∨ a.primary ≠ b.primary then
        .error (.differentOwners id b.id)
      else
        let joined := { a with shards := { a.shards with stop := b.shards.stop } }
        .ok { m with ranges := (m.ranges.set i joined).eraseIdx (i + 1) }
    | _, _ => .error (.nothingAfter id)

/-- Looks a range up by id and hands it to `f`, whose answer takes its place. -/
def editRange {ε : Type} (id : RangeId) (missing : ε) (f : Range → Except ε Range) : Except ε RangeMap :=
  match m.position id with
  | none => .error missing
  | some i =>
    match m.ranges[i]? with
    | none => .error missing
    | some r => (f r).map (m.setRange i)

def beginMove (target : NodeId) : Except MoveError RangeMap :=
  m.editRange id (.noSuchRange id) fun r =>
    if r.moving.isSome then .error (.alreadyMoving id)
    else if target ∈ r.group then .error (.alreadyThere id target)
    else .ok { r with moving := some ⟨target, .seeding⟩ }

def setMoveState (state : MoveState) : Except MoveError RangeMap :=
  m.editRange id (.noSuchRange id) fun r =>
    match r.moving with
    | none => .error (.notMoving id)
    | some moving => .ok { r with moving := some { moving with state } }

/-- Hands the range to the node it was being moved to, and ends the move. -/
def finishMove : Except MoveError RangeMap :=
  m.editRange id (.noSuchRange id) fun r =>
    match r.moving with
    | none => .error (.notMoving id)
    | some moving =>
      .ok { r with group := [moving.target], primary := moving.target, moving := none }

def cancelMove : Except MoveError RangeMap :=
  m.editRange id (.noSuchRange id) fun r =>
    if r.moving.isNone then .error (.notMoving id) else .ok { r with moving := none }

/-- Adds a copy of a range, and marks it behind in the same mutation. -/
def addHolder (node : NodeId) : Except MapError RangeMap :=
  (m.editRange id (.noSuchRange id) fun r =>
    if node ∈ r.group then .error (.alreadyAHolder id node)
    else .ok { r with group := r.group ++ [node] }).map fun next =>
      if next.isStale node then next else { next with stale := next.stale ++ [node] }

/-- Removes a copy. The stale mark is left alone. -/
def dropHolder (node : NodeId) : Except MapError RangeMap :=
  m.editRange id (.noSuchRange id) fun r =>
    if r.primary = node then .error (.primaryNotDroppable id node)
    else if node ∉ r.group then .error (.noSuchRange id)
    else .ok { r with group := r.group.filter (· ≠ node) }

/-- Hands a range to a set of nodes, the first of which serves it. -/
def assign (group : List NodeId) : Except MapError RangeMap :=
  m.editRange id (.noSuchRange id) fun r =>
    match group.head? with
    | none => .error (.emptyGroup id)
    | some primary => .ok { r with group, primary }

end RangeMap

/-! ## Who votes -/

lemma mem_votersOf {members : List Member} {n : NodeId} :
    n ∈ votersOf members ↔ ∃ m, members[n]? = some m ∧ m.votes = true := by
  constructor
  · intro h
    obtain ⟨hn, hv⟩ := mem_filter.1 h
    rw [getElem?_eq_getElem (mem_range.1 hn)] at hv ⊢
    exact ⟨_, rfl, by simpa using hv⟩
  · rintro ⟨m, hm, hv⟩
    obtain ⟨hn, rfl⟩ := List.getElem?_eq_some_iff.1 hm
    exact mem_filter.2 ⟨mem_range.2 hn, by simp [hm, hv]⟩

lemma votersOf_nodup (members : List Member) : (votersOf members).Nodup :=
  nodup_range.filter _

end BigDb.Cluster
