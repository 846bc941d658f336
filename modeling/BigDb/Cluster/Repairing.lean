import BigDb.Cluster.CatchUp

/-!
# Catching up while nothing is written

What `catch_up_in` does from beginning to end, or to the push at which it stops: both nodes list their fragments, and every
fragment of another size is pushed. `Cluster::repair` goes through the ranges a marked node holds and brings each into line
with the copy that serves it. What it copies is everything the source has, of this range or of another: `repair_one` does
not hold it to any shards.

A field of another kind is another part: `match_schema` drops the old one.
-/

namespace BigDb.Cluster
open List Function Prod RangeMap
variable {α : Type} [DecidableEq α]

/-- What record a fact is of, and what part of it. -/
structure Shape (α : Type) where
  record : α → Nat
  part : α → Nat

variable (S : Shape α) (scope : Option ShardRange) (mine theirs : List α)

def Shape.addr (f : α) : FragmentAddr := fragmentOf S.record S.part f

/-- What `catch_up_in` pushes, with the addresses: what the source has and the target has not in that size, and nothing for
what the source does not have. -/
def pushes : List (FragmentAddr × List α) :=
  let listed := fragmentsIn S.record S.part scope mine
  let found := fragmentsIn S.record S.part scope theirs
  (listed.filter fun m => !found.contains m).map (fun m => (m.1, mine.filter fun f => S.addr f = m.1)) ++
    (found.filter fun t => !(listed.map fst).contains t.1).map fun t => (t.1, [])

/-- `catch_up_in` up to a push. -/
def catchUpIn (k : Nat) : List α :=
  ((pushes S scope mine theirs).take k).foldl (fun held x => pushFragment S.record S.part x.1 x.2 held) theirs

def fragmentSize (addr : FragmentAddr) (store : List α) : Nat := (store.filter fun f => S.addr f = addr).dedup.length

/-- The two copies have as much in the fragment of a fact. -/
def SameSize (f : α) : Prop := fragmentSize S (S.addr f) mine = fragmentSize S (S.addr f) theirs

instance (f : α) : Decidable (SameSize S mine theirs f) := inferInstanceAs (Decidable (_ = _))

def inScope (f : α) : Bool := scope.all (·.holds (S.record f))

variable {S scope mine theirs} {addr : FragmentAddr} {f g : α}

/-! ## What is pushed -/

omit [DecidableEq α] in
/-- A fragment is in a scope or not as a whole. -/
lemma inScope_of_addr (same : S.addr g = S.addr f) : inScope S scope g = inScope S scope f :=
  congrArg (fun addr : FragmentAddr => scope.all fun r : ShardRange => r.contains addr.shard) same

lemma fragmentSize_congr (same : ∀ g, S.addr g = addr → (g ∈ mine ↔ g ∈ theirs)) :
    fragmentSize S addr mine = fragmentSize S addr theirs := by
  apply Perm.length_eq
  refine (perm_ext_iff_of_nodup (nodup_dedup _) (nodup_dedup _)).2 fun g => ?_
  simp only [mem_dedup, mem_filter, decide_eq_true_eq]
  exact and_congr_left (same g)

lemma fragmentSize_pos : 0 < fragmentSize S addr mine ↔ ∃ g ∈ mine, S.addr g = addr := by
  rw [fragmentSize, length_pos_iff_exists_mem]
  simp only [mem_dedup, mem_filter, decide_eq_true_eq]

/-- A listing has the fragments of the scope that something is in, with their sizes. -/
lemma mem_fragmentsIn {n : Nat} : (S.addr f, n) ∈ fragmentsIn S.record S.part scope mine ↔
    inScope S scope f = true ∧ 0 < fragmentSize S (S.addr f) mine ∧ fragmentSize S (S.addr f) mine = n := by
  have held (g : α) : g ∈ mine.filter (inScope S scope) ∧ S.addr g = S.addr f ↔
      inScope S scope f = true ∧ g ∈ mine ∧ S.addr g = S.addr f := by
    rw [mem_filter]
    constructor
    · rintro ⟨⟨hg, inside⟩, same⟩
      exact ⟨inScope_of_addr same ▸ inside, hg, same⟩
    · rintro ⟨inside, hg, same⟩
      exact ⟨⟨hg, inScope_of_addr same ▸ inside⟩, same⟩
  have size (inside : inScope S scope f = true) :
      fragmentSize S (S.addr f) (mine.filter (inScope S scope)) = fragmentSize S (S.addr f) mine :=
    fragmentSize_congr fun g same => by simpa [same, inside] using held g
  have listing : (S.addr f, n) ∈ fragmentsIn S.record S.part scope mine ↔
      (∃ g ∈ mine.filter (inScope S scope), S.addr g = S.addr f) ∧
        fragmentSize S (S.addr f) (mine.filter (inScope S scope)) = n := by
    show _ ∈ ((mine.filter (inScope S scope)).map S.addr).dedup.map _ ↔ _
    rw [mem_map]
    simp only [mem_dedup, mem_map, Prod.mk.injEq]
    constructor
    · rintro ⟨addr, held, rfl, rfl⟩
      exact ⟨held, rfl⟩
    · rintro ⟨held, rfl⟩
      exact ⟨_, held, rfl, rfl⟩
  rw [listing, fragmentSize_pos]
  constructor
  · rintro ⟨⟨g, hg, same⟩, eq⟩
    obtain ⟨inside, here, -⟩ := (held g).1 ⟨hg, same⟩
    exact ⟨inside, ⟨g, here, same⟩, (size inside).symm.trans eq⟩
  · rintro ⟨inside, ⟨g, hg, same⟩, eq⟩
    exact ⟨⟨g, ((held g).2 ⟨inside, hg, same⟩).1, same⟩, (size inside).trans eq⟩

lemma mem_listed : S.addr f ∈ (fragmentsIn S.record S.part scope mine).map fst ↔
    inScope S scope f = true ∧ 0 < fragmentSize S (S.addr f) mine := by
  rw [mem_map]
  constructor
  · rintro ⟨⟨_, n⟩, listed, rfl⟩
    obtain ⟨inside, pos, -⟩ := mem_fragmentsIn.1 listed
    exact ⟨inside, pos⟩
  · rintro ⟨inside, pos⟩
    exact ⟨(S.addr f, _), mem_fragmentsIn.2 ⟨inside, pos, rfl⟩, rfl⟩

/-- The fragments of the scope that are of another size are pushed. -/
lemma mem_pushes : S.addr f ∈ (pushes S scope mine theirs).map fst ↔
    inScope S scope f = true ∧ ¬ SameSize S mine theirs f := by
  have split : S.addr f ∈ (pushes S scope mine theirs).map fst ↔
      (∃ n, (S.addr f, n) ∈ fragmentsIn S.record S.part scope mine ∧
        (S.addr f, n) ∉ fragmentsIn S.record S.part scope theirs) ∨
      ∃ n, (S.addr f, n) ∈ fragmentsIn S.record S.part scope theirs ∧
        S.addr f ∉ (fragmentsIn S.record S.part scope mine).map fst := by
    simp [pushes, -not_exists]
  rw [split]
  simp only [mem_listed, mem_fragmentsIn, SameSize]
  by_cases inside : inScope S scope f = true
  · simp only [inside, true_and, not_and]
    constructor
    · rintro (⟨_, ⟨pos, rfl⟩, other⟩ | ⟨_, ⟨pos, -⟩, none⟩) same
      · exact other (same ▸ pos) same.symm
      · omega
    · intro other
      by_cases pos : 0 < fragmentSize S (S.addr f) mine
      · exact .inl ⟨_, ⟨pos, rfl⟩, fun _ same => other same.symm⟩
      · exact .inr ⟨_, ⟨by omega, rfl⟩, pos⟩
  · simp [inside]

lemma pushes_bring {x : FragmentAddr × List α} (hx : x ∈ pushes S scope mine theirs) :
    f ∈ x.2 ↔ f ∈ mine ∧ S.addr f = x.1 := by
  rcases mem_append.1 hx with hx | hx
  · obtain ⟨m, -, rfl⟩ := mem_map.1 hx
    simp
  obtain ⟨⟨_, n⟩, ht, rfl⟩ := mem_map.1 hx
  obtain ⟨found, absent⟩ := mem_filter.1 ht
  rw [Bool.not_eq_true', contains_eq_mem, decide_eq_false_iff_not] at absent
  refine iff_of_false not_mem_nil ?_
  rintro ⟨hf, rfl⟩
  refine absent (mem_listed.2 ⟨(mem_fragmentsIn.1 found).1, ?_⟩)
  exact fragmentSize_pos.2 ⟨f, hf, rfl⟩

omit [DecidableEq α] in
/-- Some of the pushes: what they replace is as in the source, and the rest as it was. -/
lemma mem_pushed {l : List (FragmentAddr × List α)} (bring : ∀ x ∈ l, ∀ f, f ∈ x.2 ↔ f ∈ mine ∧ S.addr f = x.1)
    (theirs : List α) : f ∈ l.foldl (fun held x => pushFragment S.record S.part x.1 x.2 held) theirs ↔
      if S.addr f ∈ l.map fst then f ∈ mine else f ∈ theirs := by
  induction l generalizing theirs with
  | nil => simp
  | cons x l ih =>
    have pushed : f ∈ pushFragment S.record S.part x.1 x.2 theirs ↔ if S.addr f = x.1 then f ∈ mine else f ∈ theirs := by
      have body := bring x mem_cons_self f
      simp only [pushFragment, mem_append, mem_filter, decide_eq_true_eq, body]
      show f ∈ theirs ∧ S.addr f ≠ x.1 ∨ _ ↔ _
      split
      · next here => simp [here]
      · next other => simp [other]
    rw [foldl_cons, ih (fun y hy => bring y (mem_cons_of_mem _ hy)), pushed, map_cons]
    by_cases here : S.addr f = x.1
    · simp [here]
    · rw [if_neg here]
      exact iff_of_eq (if_congr (by simp [here]) rfl rfl)

/-- What is outside of the scope or of the same size is left, however far the copying comes. -/
lemma catchUpIn_frame (k : Nat) (kept : inScope S scope f = true → SameSize S mine theirs f) :
    f ∈ catchUpIn S scope mine theirs k ↔ f ∈ theirs := by
  rw [catchUpIn, mem_pushed fun x hx f => pushes_bring (mem_of_mem_take hx), if_neg]
  intro pushed
  obtain ⟨inside, other⟩ := mem_pushes.1 (map_subset _ (take_subset _ _) pushed)
  exact other (kept inside)

lemma catchUpIn_done {k : Nat} (done : (pushes S scope mine theirs).length ≤ k) (inside : inScope S scope f = true)
    (other : ¬ SameSize S mine theirs f) : f ∈ catchUpIn S scope mine theirs k ↔ f ∈ mine := by
  rw [catchUpIn, take_of_length_le done, mem_pushed fun x hx f => pushes_bring hx, if_pos (mem_pushes.2 ⟨inside, other⟩)]

/-- Every fragment of the scope is as in the source after `catch_up_in` exactly if fragments of the same size were the same. -/
theorem catch_up_converges (S : Shape α) (scope : Option ShardRange) (mine theirs : List α) :
    (∀ k, (pushes S scope mine theirs).length ≤ k → ∀ f, inScope S scope f = true →
      (f ∈ catchUpIn S scope mine theirs k ↔ f ∈ mine)) ↔
    ∀ f, inScope S scope f = true → SameSize S mine theirs f → (f ∈ mine ↔ f ∈ theirs) := by
  constructor
  · intro converges f inside same
    rw [← converges _ le_rfl f inside]
    exact catchUpIn_frame _ fun _ => same
  · intro alike k done f inside
    by_cases same : SameSize S mine theirs f
    · rw [catchUpIn_frame k fun _ => same]
      exact (alike f inside same).symm
    · exact catchUpIn_done done inside same

/-- Facts in fragments of three. -/
def threes : Shape (Fin 9) := ⟨fun _ => 0, fun f => f.val / 3⟩

/-- A copy that missed two facts of one fragment and all of another, and still has two that the source gave up. -/
theorem catch_up_converges_merged : ∀ f, f ∈ catchUpIn threes none [0, 1, 2, 4, 6] [0, 6, 7, 8] 3 ↔ f ∈ [0, 1, 2, 4, 6] :=
  have alike : ∀ f, SameSize threes [0, 1, 2, 4, 6] [0, 6, 7, 8] f → (f ∈ [0, 1, 2, 4, 6] ↔ f ∈ [0, 6, 7, 8]) := by decide
  fun f => (catch_up_converges threes none [0, 1, 2, 4, 6] [0, 6, 7, 8]).2 (fun f _ => alike f) 3 (by decide) f rfl

/-- A copy that missed an overwrite: the bit of the old value was taken away, and the one of the new value added. -/
theorem catch_up_skips_overwrites : catchUpIn ⟨fun _ : Nat => 0, fun _ => 0⟩ none [1] [0] 9 = [0] := by decide

/-! ## Ranges of a node, one after another -/

/-- The nodes and ranges `Cluster::repair` goes through. A copy that serves its range has nothing to be repaired from. -/
def RangeMap.repairs (m : RangeMap) : List (NodeId × Nat) :=
  (m.stale.flatMap fun node => (m.heldBy node).map (node, ·)).filter fun x => m.serving x.2 ≠ x.1

variable (S) (m : RangeMap) (store : NodeId → List α)

variable (x : (NodeId × Nat) × Nat)

/-- A node and a range of it are repaired, as far as so many pushes go. -/
def repairOne : NodeId → List α :=
  update store x.1.1 (catchUpIn S none (store (m.serving x.1.2)) (store x.1.1) x.2)

/-- The copying leaves everything outside of the range as it was, however far it comes, and in the end the range is as the
source has it. -/
def MendsAt : Prop :=
  let shards := m.shardsOfRange x.1.2
  let mine := store (m.serving x.1.2)
  let theirs := store x.1.1
  (∀ k f, shards.holds (S.record f) = false → (f ∈ catchUpIn S none mine theirs k ↔ f ∈ theirs)) ∧
  ∀ k, (pushes S none mine theirs).length ≤ k → ∀ f, shards.holds (S.record f) = true →
    (f ∈ catchUpIn S none mine theirs k ↔ f ∈ mine)

/-- Outside of the range both copies have fragments of the same sizes, and inside of it fragments of the same size are the
same. -/
def AlignedAt : Prop :=
  let mine := store (m.serving x.1.2)
  let theirs := store x.1.1
  ∀ f, if (m.shardsOfRange x.1.2).holds (S.record f) then SameSize S mine theirs f → (f ∈ mine ↔ f ∈ theirs)
  else SameSize S mine theirs f

/-- As many pushes as there are. -/
def CompleteAt : Prop :=
  (pushes S none (store (m.serving x.1.2)) (store x.1.1)).length ≤ x.2

instance (store : NodeId → List α) (x : (NodeId × Nat) × Nat) : Decidable (CompleteAt S m store x) :=
  inferInstanceAs (Decidable (_ ≤ _))

/-- Something holds of every step of a repair, and of what the nodes hold before it. -/
def Along (P : (NodeId → List α) → (NodeId × Nat) × Nat → Prop) : (NodeId → List α) → List ((NodeId × Nat) × Nat) → Prop
  | _, [] => True
  | store, x :: steps => P store x ∧ Along P (repairOne S m store x) steps

/-- A node holds of a range what the copy does that serves it. -/
def InLine (x : NodeId × Nat) : Prop :=
  ∀ f, (m.shardsOfRange x.2).holds (S.record f) = true → (f ∈ store x.1 ↔ f ∈ store (m.serving x.2))

variable {S m} {store} {x : NodeId × Nat} {y : (NodeId × Nat) × Nat}

omit [DecidableEq α] in
lemma holds_of_addr {shards : ShardRange} (same : S.addr g = S.addr f) :
    shards.holds (S.record g) = shards.holds (S.record f) := @inScope_of_addr _ _ (some shards) _ _ same

lemma mendsAt_iff : MendsAt S m store y ↔ AlignedAt S m store y := by
  constructor
  · rintro ⟨frame, restores⟩ f
    split
    · next inside =>
      intro same
      exact (restores _ le_rfl f inside).symm.trans (catchUpIn_frame _ fun _ => same)
    · next outside =>
      by_contra other
      refine other (fragmentSize_congr fun g here => ?_)
      have out := holds_of_addr here ▸ Bool.eq_false_iff.2 outside
      exact (catchUpIn_done le_rfl rfl (by rwa [SameSize, here])).symm.trans (frame _ g out)
  · intro aligned
    refine ⟨fun k f outside => catchUpIn_frame k fun _ => ?_, fun k done f inside => ?_⟩
    · have same := aligned f
      rwa [if_neg (by simp [outside])] at same
    · have here := aligned f
      rw [if_pos inside] at here
      by_cases same : SameSize S (store (m.serving y.1.2)) (store y.1.1) f
      · exact (catchUpIn_frame k fun _ => same).trans (here same).symm
      · exact catchUpIn_done done rfl same

lemma RangeMap.mem_repairs (h : x ∈ m.repairs) : x.2 < m.ranges.length ∧ m.serving x.2 ≠ x.1 := by
  obtain ⟨held, apart⟩ := mem_filter.1 h
  obtain ⟨node, -, hx⟩ := mem_flatMap.1 held
  obtain ⟨i, hi, rfl⟩ := mem_map.1 hx
  exact ⟨mem_range.1 (mem_filter.1 hi).1, of_decide_eq_true apart⟩

/-- Repairing another range, or the same one again, leaves a range that agrees as it is. -/
lemma InLine.repairOne (checked : m.check = .ok ()) (hx : x ∈ m.repairs) (hy : y.1 ∈ m.repairs)
    (agreed : InLine S m store x) (aligned : AlignedAt S m store y) : InLine S m (repairOne S m store y) x := by
  obtain ⟨inx, apart⟩ := mem_repairs hx
  obtain ⟨iny, apart'⟩ := mem_repairs hy
  intro f inside
  have still (node : NodeId) (either : node = x.1 ∨ node = m.serving x.2) :
      f ∈ Cluster.repairOne S m store y node ↔ f ∈ store node := by
    rw [Cluster.repairOne]
    by_cases target : node = y.1.1
    · subst target
      rw [update_self]
      refine catchUpIn_frame _ fun _ => ?_
      by_cases again : y.1.2 = x.2
      · -- the source is never the node that is repaired
        have same : y.1.1 = x.1 := either.resolve_right fun serves => apart' (again ▸ serves.symm)
        refine fragmentSize_congr fun g here => ?_
        rw [same, again]
        exact (agreed g ((holds_of_addr here).trans inside)).symm
      · have outside : ¬ (m.shardsOfRange y.1.2).holds (S.record f) = true := by
          intro here
          rw [shardsOfRange, getElem?_eq_getElem iny] at here
          have inside := inside
          rw [shardsOfRange, getElem?_eq_getElem inx] at inside
          have first := rangeOf_eq checked (getElem?_eq_getElem iny) here
          exact again (first.symm.trans (rangeOf_eq checked (getElem?_eq_getElem inx) inside))
        have kept := aligned f
        rwa [if_neg outside] at kept
    · rw [update_of_ne target]
  exact (still _ (.inl rfl)).trans ((agreed f inside).trans (still _ (.inr rfl)).symm)

lemma inLine_of_along {steps : List ((NodeId × Nat) × Nat)} (done : List (NodeId × Nat)) (checked : m.check = .ok ())
    (known : ∀ x ∈ done ++ steps.map fst, x ∈ m.repairs) (agreed : ∀ x ∈ done, InLine S m store x)
    (aligned : Along S m (AlignedAt S m) store steps) (complete : Along S m (CompleteAt S m) store steps) :
    ∀ x ∈ done ++ steps.map fst, InLine S m (steps.foldl (repairOne S m) store) x := by
  induction steps generalizing done store with
  | nil => simpa using agreed
  | cons y steps ih =>
    have hy : y.1 ∈ m.repairs := known _ (by simp)
    have more := ih (done ++ [y.1]) (by simpa using known) ?_ aligned.2 complete.2
    · simpa using more
    · intro x hx
      rcases mem_append.1 hx with old | new
      · exact (agreed x old).repairOne checked (known x (mem_append_left _ old)) hy aligned.1
      · obtain rfl := mem_singleton.1 new
        intro f inside
        rw [repairOne, update_self, update_of_ne (mem_repairs hy).2]
        exact (mendsAt_iff.2 aligned.1).2 _ complete.1 f inside

/-- Every step of a repair leaves what is outside of its range as it was, and a complete one brings the range into line,
exactly if the source and the node have fragments of the same sizes outside of the range, and the same fragments where the
sizes are the same inside of it. If so, and every step is complete, every repaired node ends with what the copies that
serve its ranges hold. -/
theorem repair_touches_only_its_range (checked : m.check = .ok ()) (store : NodeId → List α)
    (steps : List ((NodeId × Nat) × Nat)) (whole : steps.map fst = m.repairs) :
    (Along S m (MendsAt S m) store steps ↔ Along S m (AlignedAt S m) store steps) ∧
    (Along S m (AlignedAt S m) store steps → Along S m (CompleteAt S m) store steps →
      ∀ x ∈ m.repairs, InLine S m (steps.foldl (repairOne S m) store) x) := by
  refine ⟨?_, fun aligned complete => ?_⟩
  · have same : MendsAt S m = AlignedAt S m := funext₂ fun _ _ => propext mendsAt_iff
    rw [same]
  · rw [← whole]
    refine inLine_of_along [] checked ?_ (by simp) aligned complete
    simp [whole]

/-- Two ranges of one shard and the rest, served by two nodes, with a marked copy of both. -/
def twoRanges (group : List NodeId) : RangeMap :=
  ⟨1, [⟨0, ⟨0, some 1⟩, group, 0, none⟩, ⟨1, ⟨1, none⟩, 1 :: group.drop 1, 1, none⟩], [2], 0, [], true⟩

/-- The marked copy lacks a fact of the first range, and all hold both ranges. -/
theorem repair_touches_only_its_range_copied :
    let m := twoRanges [0, 1, 2]
    let S : Shape (Fin 2) := ⟨fun f => f.val * 2 ^ 20, fun _ => 0⟩
    let store : NodeId → List (Fin 2) := fun node => if node = 2 then [1] else [0, 1]
    InLine S m ([((2, 0), 9), ((2, 1), 9)].foldl (repairOne S m) store) (2, 0) :=
  (repair_touches_only_its_range (check_of_isOk (by decide)) _ [((2, 0), 9), ((2, 1), 9)] (by decide)).2
    ⟨fun f => by revert f; decide, fun f => by revert f; decide, trivial⟩ ⟨by decide, by decide, trivial⟩
    (2, 0) (by decide)

/-- A copy of two ranges that lacks nothing. Repairing the first one empties the second, whose facts its source does not
have, and repairing the second empties the first. -/
theorem repair_empties_the_other_range :
    let m := twoRanges [0, 2]
    let S : Shape Nat := ⟨fun f => f * 2 ^ 20, fun _ => 0⟩
    let store : NodeId → List Nat := fun node => if node = 2 then [0, 1] else [node]
    let steps := [((2, 0), 9), ((2, 1), 9)]
    m.check.isOk = true ∧ steps.map fst = m.repairs ∧ Along S m (CompleteAt S m) store steps ∧
      (m.shardsOfRange 0).holds (S.record 1) = false ∧ repairOne S m store ((2, 0), 9) 2 = [0] ∧
      steps.foldl (repairOne S m) store 2 = [1] ∧ store (m.serving 0) = [0] := by
  refine ⟨by decide, by decide, ?_, by decide, by decide, by decide, by decide⟩
  exact ⟨by decide, by decide, trivial⟩

end BigDb.Cluster
