import BigDb.Cluster.Errors

/-!
# Which node answers for which part of the space

What requests read off the applied map: the range of a shard, the copies of a range with the
serving one first, what a routed write claims, and `checkRoute`, which is where the receiver of
a routed write compares the claim with its own map.

A map that passes `check` tiles the shard space, so `rangeOf` finds the range a shard is in.
-/

namespace BigDb.Cluster
open List ShardRange

def shardWidthExponent : Nat := 20

def shardOf (record : Nat) : Nat := record >>> shardWidthExponent

namespace ShardRange

/-- The whole space. -/
def all : ShardRange := ⟨0, none⟩

def contains (r : ShardRange) (shard : Nat) : Bool :=
  r.start ≤ shard && r.stop.all (shard < ·)

def holds (r : ShardRange) (record : Nat) : Bool := r.contains (shardOf record)

/-- Whether `held` reaches at least as far up as `want` does. -/
def coversEnd (held want : ShardRange) : Bool :=
  match held.stop, want.stop with
  | none, _ => true
  | some _, none => false
  | some h, some w => w ≤ h

/-- Whether `held` has everything `want` has. -/
def covers (held want : ShardRange) : Bool := held.start ≤ want.start && held.coversEnd want

lemma contains_iff {r : ShardRange} {shard : Nat} :
    r.contains shard = true ↔ r.start ≤ shard ∧ ∀ stop, r.stop = some stop → shard < stop := by
  unfold contains
  cases r.stop <;> simp

lemma contains_of_covers {held want : ShardRange} (h : held.covers want = true) {shard : Nat}
    (hs : want.contains shard = true) : held.contains shard = true := by
  rw [contains_iff] at hs ⊢
  unfold covers coversEnd at h
  rw [Bool.and_eq_true, decide_eq_true_iff] at h
  refine ⟨h.1.trans hs.1, fun stop hstop => ?_⟩
  rw [hstop] at h
  cases hw : want.stop with
  | none => simp [hw] at h
  | some w =>
    rw [hw] at h
    have : w ≤ stop := by simpa using h.2
    exact (hs.2 w hw).trans_le this

lemma covers_refl (r : ShardRange) : r.covers r = true := by
  unfold covers coversEnd
  cases r.stop <;> simp

end ShardRange

/-- What a routed write claims about who owns the records in it. -/
structure Routed where
  epoch : Nat
  shards : List ShardRange
deriving DecidableEq, Repr

namespace RangeMap
variable (m : RangeMap)

def rangeWith (id : RangeId) : Option Range := (m.position id).bind (m.ranges[·]?)

/-- The move in flight on the range holding a shard, if there is one. -/
def movingAt (shard : Nat) : Option Move := (m.ranges[m.rangeOf shard]?).bind Range.moving

/-- Who serves the range at a position. -/
def serving (range : Nat) : NodeId := (m.ranges[range]?).elim range Range.primary

variable (node : NodeId)

/-- Every range a node holds, whether it serves it or only copies it. -/
def heldBy : List Nat :=
  (range m.ranges.length).filter fun i => (m.ranges[i]?).any fun r => node ∈ r.group

def shardsOfRange (range : Nat) : ShardRange := (m.ranges[range]?).elim .all Range.shards

/-- Every node holding the range at a position, the one serving it first. -/
def copiesOfRange (range : Nat) : List NodeId :=
  match m.ranges[range]? with
  | none => [range]
  | some r => r.primary :: r.group.filter (· ≠ r.primary)

/-- What a write to the range at a position claims. -/
def routedFor (range : Nat) : Option Routed :=
  (m.ranges[range]?).map fun r => ⟨m.epoch, [r.shards]⟩

def mine : List ShardRange :=
  (m.ranges.filter fun r => node ∈ r.group).map Range.shards

def holder (record : Nat) : Bool := (m.mine node).any (·.holds record)

/-- The refusal a node owes a routed request whose assumptions it no longer shares. `name` is
the node's own. -/
def checkRoute (name : String) (node : NodeId) : Option Routed → Except ClusterError Unit
  | none => .ok ()
  | some routed =>
    if routed.shards.all fun want => (m.mine node).any (·.covers want) then
      -- held, and not to be written to while the last of it is copied
      match routed.shards.find? fun want =>
          (m.movingAt want.start).any fun moving => moving.state = .cutover with
      | some want => .error (.rangeMoving name want.display)
      | none => .ok ()
    else
      .error (.staleRoute name (", ".intercalate (routed.shards.map ShardRange.display)) routed.epoch m.epoch)

/-- Whether a record is in a range that a node holds and is handing over. -/
def cutOver (record : Nat) : Bool :=
  m.ranges.any fun r => node ∈ r.group && r.shards.holds record && r.moving.any fun moving => moving.state = .cutover

variable {m} {node} {r : Range} {rs : List Range}

lemma editRange_ok {ε : Type} {id : RangeId} {missing : ε} {f : Range → Except ε Range} {next : RangeMap}
    (h : m.editRange id missing f = .ok next) :
    ∃ i r r', m.position id = some i ∧ m.ranges[i]? = some r ∧ f r = .ok r' ∧ next = m.setRange i r' := by
  unfold editRange at h
  split at h
  · cases h
  · next i hi =>
    split at h
    · cases h
    · next r hr =>
      cases hf : f r with
      | error e =>
        rw [hf] at h
        cases h
      | ok r' =>
        rw [hf] at h
        injection h with h
        exact ⟨i, r, r', hi, hr, hf, h.symm⟩

lemma mem_mine {shards : ShardRange} : shards ∈ m.mine node ↔ ∃ r ∈ m.ranges, node ∈ r.group ∧ r.shards = shards := by
  simp [mine, and_assoc]

variable {routed : Routed} {record : Nat}

lemma holder_iff : m.holder node record = true ↔ ∃ r ∈ m.ranges, node ∈ r.group ∧ r.shards.holds record = true := by
  unfold holder
  rw [any_eq_true]
  constructor
  · rintro ⟨shards, hmem, hold⟩
    obtain ⟨r, hr, hg, rfl⟩ := mem_mine.1 hmem
    exact ⟨r, hr, hg, hold⟩
  · rintro ⟨r, hr, hg, hold⟩
    exact ⟨r.shards, mem_mine.2 ⟨r, hr, hg, rfl⟩, hold⟩

/-- **What the check lets through**: shards that lie in what the node holds and whose first
shard is not being cut over. -/
lemma checkRoute_some {name : String} : m.checkRoute name node (some routed) = .ok () ↔
      ∀ want ∈ routed.shards, (∃ shards ∈ m.mine node, shards.covers want = true) ∧
        ∀ moving, m.movingAt want.start = some moving → moving.state ≠ .cutover := by
  unfold checkRoute
  simp only
  split
  · next held =>
    rw [all_eq_true] at held
    have held' : ∀ want ∈ routed.shards, ∃ shards ∈ m.mine node, shards.covers want = true :=
      fun want hw => any_eq_true.1 (held want hw)
    split
    · next want hfind =>
      constructor
      · intro h
        cases h
      intro h
      have hcut := find?_some hfind
      cases hm : m.movingAt want.start with
      | none => simp [hm] at hcut
      | some moving =>
        refine ((h want (mem_of_find?_eq_some hfind)).2 moving hm ?_).elim
        simpa [hm] using hcut
    · next hfind =>
      refine iff_of_true rfl fun want hw => ⟨held' want hw, fun moving hm hc => ?_⟩
      have := find?_eq_none.1 hfind want hw
      rw [hm] at this
      exact this (by simpa using hc)
  · next held =>
    constructor
    · intro h
      cases h
    · intro h
      refine (held (all_eq_true.2 fun want hw => ?_)).elim
      exact any_eq_true.2 (h want hw).1

/-- The copies are the serving node and others. -/
lemma copiesOfRange_eq (range : Nat) : ∃ spares,
    m.copiesOfRange range = m.serving range :: spares ∧ m.serving range ∉ spares := by
  unfold copiesOfRange serving
  cases m.ranges[range]? with
  | none => exact ⟨[], rfl, not_mem_nil⟩
  | some r => exact ⟨_, rfl, by simp⟩

/-! ## Maps that tile the space -/

/-- What `check` says about neighbours, from a range on: they ascend, each ends where the next
begins, and the last is open. -/
def Tiled : List Range → Prop
  | [] => False
  | [r] => r.shards.stop = none
  | r :: next :: rest => r.shards.start ≤ next.shards.start ∧
      r.shards.stop = some next.shards.start ∧ Tiled (next :: rest)

lemma tiled_of_checkPairs {pos : Nat} (h : checkPairs (r :: rs) pos = .ok ())
    (last : ∀ l, (r :: rs).getLast? = some l → l.shards.stop = none) : Tiled (r :: rs) := by
  induction rs generalizing r pos with
  | nil => exact last r rfl
  | cons next rest ih =>
    rw [checkPairs] at h
    split at h
    · cases h
    · next horder =>
      split at h
      · cases h
      · next stop hstop =>
        split at h
        · next heq =>
          refine ⟨not_lt.1 horder, by rw [hstop, heq], ih h fun l hl => last l ?_⟩
          rw [getLast?_cons_cons]
          exact hl
        · split at h <;> cases h

lemma check_of_isOk (h : m.check.isOk = true) : m.check = .ok () := by
  cases hc : m.check with
  | ok => rfl
  | error e =>
    rw [hc] at h
    cases h

/-- Everything `check` has seen. -/
lemma check_ok (h : m.check = .ok ()) : checkRanges m.ranges [] = .ok () ∧ Tiled m.ranges ∧
    ∀ r, m.ranges.head? = some r → r.shards.start = 0 := by
  unfold check at h
  cases hr : m.ranges with
  | nil => simp [hr] at h
  | cons r rs =>
    rw [hr, head?_cons, getLast?_cons] at h
    dsimp only at h
    split at h
    · cases h
    · next hstart =>
      cases hranges : checkRanges (r :: rs) [] with
      | error e => rw [hranges] at h; cases h
      | ok =>
        cases hpairs : checkPairs (r :: rs) 1 with
        | error e => rw [hranges, hpairs] at h; cases h
        | ok =>
          rw [hranges, hpairs] at h
          refine ⟨rfl, tiled_of_checkPairs hpairs fun l hl => ?_, fun r' hr' => ?_⟩
          · rw [getLast?_cons] at hl
            cases hl
            generalize rs.getLast?.getD r = l at h ⊢
            cases hstop : l.shards.stop with
            | none => rfl
            | some stop =>
              rw [hstop] at h
              cases h
          · cases hr'
            exact not_not.1 hstart

/-- The last range that begins at or below a shard is the one the shard is in. -/
lemma contains_of_tiled (h : Tiled (r :: rs)) {shard : Nat} (hr : r.shards.start ≤ shard) :
    ∃ r', (r :: rs)[((r :: rs).takeWhile fun r => r.shards.start ≤ shard).length - 1]? = some r' ∧
      r'.shards.contains shard = true := by
  induction rs generalizing r with
  | nil =>
    refine ⟨r, by simp [hr], contains_iff.2 ⟨hr, fun stop hs => ?_⟩⟩
    rw [show r.shards.stop = none from h] at hs
    cases hs
  | cons next rest ih =>
    obtain ⟨-, hstop, htail⟩ := h
    by_cases hn : next.shards.start ≤ shard
    · obtain ⟨r', hget, hc⟩ := ih htail hn
      refine ⟨r', ?_, hc⟩
      rw [← hget]
      simp [hr, hn]
    · refine ⟨r, by simp [hr, hn], ?_⟩
      refine contains_iff.2 ⟨hr, fun stop hs => ?_⟩
      rw [hstop] at hs
      cases hs
      exact Nat.lt_of_not_le hn

lemma takeWhile_of_contains {r r' : Range} (h : Tiled (r :: rs)) {shard i : Nat}
    (hi : (r :: rs)[i]? = some r') (hc : r'.shards.contains shard = true) :
    ((r :: rs).takeWhile fun r => r.shards.start ≤ shard).length = i + 1 := by
  have hr' := contains_iff.1 hc
  induction rs generalizing r i with
  | nil =>
    cases i with
    | zero =>
      cases hi
      simp [hr'.1]
    | succ i => simp at hi
  | cons next rest ih =>
    obtain ⟨horder, hstop, htail⟩ := h
    cases i with
    | zero =>
      cases hi
      have hn : ¬ next.shards.start ≤ shard := not_le.2 (hr'.2 _ hstop)
      simp [hr'.1, hn]
    | succ i =>
      rw [getElem?_cons_succ] at hi
      have hlen := ih htail hi
      have hn : next.shards.start ≤ shard := by
        by_contra hn
        simp [hn] at hlen
      rw [takeWhile_cons_of_pos (by simpa using horder.trans hn), length_cons, hlen]

section
variable (h : m.check = .ok ())
include h

/-- **In a checked map every shard is in the range it is looked up in.** -/
lemma rangeOf_contains (shard : Nat) : ∃ r, m.ranges[m.rangeOf shard]? = some r ∧ r.shards.contains shard = true := by
  obtain ⟨-, tiled, first⟩ := check_ok h
  unfold rangeOf
  cases hr : m.ranges with
  | nil =>
    rw [hr] at tiled
    exact tiled.elim
  | cons r rs =>
    rw [hr] at tiled first
    exact contains_of_tiled tiled ((first r rfl).trans_le (Nat.zero_le _))

variable {shard : Nat}

lemma rangeOf_eq {i : Nat} (hi : m.ranges[i]? = some r)
    (hc : r.shards.contains shard = true) : m.rangeOf shard = i := by
  obtain ⟨-, tiled, -⟩ := check_ok h
  unfold rangeOf
  cases hr : m.ranges with
  | nil =>
    rw [hr] at tiled
    exact tiled.elim
  | cons r₀ rs =>
    rw [hr] at tiled hi
    rw [takeWhile_of_contains tiled hi hc]
    rfl

lemma contains_unique {r r' : Range} (hr : r ∈ m.ranges) (hr' : r' ∈ m.ranges) (hc : r.shards.contains shard = true)
    (hc' : r'.shards.contains shard = true) : r = r' := by
  obtain ⟨i, hi⟩ := getElem?_of_mem hr
  obtain ⟨j, hj⟩ := getElem?_of_mem hr'
  have : i = j := (rangeOf_eq h hi hc).symm.trans (rangeOf_eq h hj hc')
  subst this
  exact Option.some.inj (hi.symm.trans hj)

end

/-- Every range of a checked map is held by the node that serves it. -/
lemma primary_mem_of_checkRanges {seen : List RangeId}
    (h : checkRanges rs seen = .ok ()) : ∀ r ∈ rs, r.primary ∈ r.group := by
  induction rs generalizing seen with
  | nil => exact nofun
  | cons r rs ih =>
    rw [checkRanges] at h
    split at h
    · cases h
    split at h
    · cases h
    split at h
    · cases h
    · next hp =>
      intro r' hr'
      rcases mem_cons.1 hr' with rfl | hr'
      · exact not_not.1 hp
      · exact ih h r' hr'

/-- **A claim that passes the check is not being cut over**: nor is any record in it. -/
lemma not_cutOver_of_checkRoute (h : m.check = .ok ()) {name : String}
    (hroute : m.checkRoute name node (some routed) = .ok ()) {want : ShardRange}
    (hwant : want ∈ routed.shards) (hold : want.holds record = true) : m.cutOver node record = false := by
  obtain ⟨⟨shards, hmine, hcov⟩, still⟩ := checkRoute_some.1 hroute want hwant
  obtain ⟨r, hr, -, rfl⟩ := mem_mine.1 hmine
  have hin : r.shards.contains (shardOf record) = true := contains_of_covers hcov hold
  -- the claim begins in the same range
  have hstart : r.shards.contains want.start = true := by
    obtain ⟨-, hstop⟩ := contains_iff.1 hin
    obtain ⟨hle, -⟩ := contains_iff.1 hold
    refine contains_iff.2 ⟨?_, fun stop hs => hle.trans_lt (hstop stop hs)⟩
    simpa using (Bool.and_eq_true_iff.1 hcov).1
  rw [Bool.eq_false_iff]
  intro hcut
  obtain ⟨r', hr', hcut⟩ := any_eq_true.1 hcut
  simp only [Bool.and_eq_true] at hcut
  obtain ⟨⟨-, hold'⟩, hmoving⟩ := hcut
  obtain rfl := contains_unique h hr' hr hold' hin
  cases hm : r'.moving with
  | none => simp [hm] at hmoving
  | some moving =>
    obtain ⟨i, hi⟩ := getElem?_of_mem hr'
    refine still moving ?_ (by simpa [hm] using hmoving)
    rw [movingAt, rangeOf_eq h hi hstart, hi]
    exact hm

end RangeMap

end BigDb.Cluster
