import BigDb.Cluster.Mutations

/-!
# What an id stands for

A range is known to an operator and to a move in flight by its id alone, so an id has to stand for
the same part of the space for as long as anybody may hold it: a range that was cut keeps its id for
the lower half, and one that was joined keeps it for both. The id of an upper half is new, as far as
the map at hand can tell. The map does not remember the ids that a merge took out of it, and one
that was the highest is minted again.
-/

namespace BigDb.Cluster
open Lib List

/-- A change to the agreed map by one of the mutations, or by `assign`, which is how a cut hands its
upper half to another node. -/
inductive Change where
  | mutation (v : Mutation)
  | assign (id : RangeId) (group : List NodeId)
deriving DecidableEq, Repr

def Change.apply (m : RangeMap) : Change → Except Refusal RangeMap
  | .mutation v => v.apply m
  | .assign id group => (m.assign id group).mapError .map

namespace RangeMap
variable {m m₀ : RangeMap} {next : RangeMap}

def changed (m : RangeMap) (c : Change) : RangeMap :=
  match c.apply m with
  | .ok next => next
  | .error _ => m

def names (m : RangeMap) : List (RangeId × Nat) := m.ranges.map fun r => (r.id, r.shards.start)

/-- The changes after which the highest id in use is still the highest there has been: a merge
takes out a range with an id below another one's, and a cut does not add to the last id there is. -/
def spares (m : RangeMap) : Change → Bool
  | .mutation (.merge id) => (m.ranges.zip m.ranges.tail).all fun (a, b) =>
      a.id ≠ id || m.ranges.any fun r => b.id < r.id
  | .mutation (.split _) => m.ranges.all fun r => r.id ≠ 2 ^ 64 - 1
  | _ => true

lemma mem_zip_tail (before after : List Range) (a b : Range) :
    (a, b) ∈ (before ++ a :: b :: after).zip (before ++ a :: b :: after).tail := by
  induction before with
  | nil => simp
  | cons x before ih =>
    cases before with
    | nil | cons y before => exact mem_cons_of_mem _ ih

/-- The id of an upper half, where the sum does not wrap. -/
lemma lt_nextId (checked : m.check = .ok ()) (sized : m.Sized)
    (room : ∀ r ∈ m.ranges, r.id ≠ 2 ^ 64 - 1) : ∀ r ∈ m.ranges, r.id < m.nextId := by
  obtain ⟨top, htop, highest, hnext⟩ := nextId_of_check checked
  have below : top.id + 1 < 2 ^ 64 :=
    Nat.lt_sub_iff_add_lt.1 (Nat.lt_of_le_of_ne (Nat.le_sub_one_of_lt (sized top htop)) (room top htop))
  rw [hnext, Nat.mod_eq_of_lt below]
  exact fun r hr => Nat.lt_succ_of_le (highest r hr)

/-- What a map keeps of an earlier one: no id was higher, and an id in both is that of a range that
begins where it did. -/
structure Since (m₀ m : RangeMap) : Prop where
  topped : ∀ e₀ ∈ m₀.names, ∃ e ∈ m.names, e₀.1 ≤ e.1
  lineage : ∀ e₀ ∈ m₀.names, ∀ e ∈ m.names, e.1 = e₀.1 → e = e₀

lemma Since.refl (checked : m.check = .ok ()) : Since m m where
  topped e he := ⟨e, he, le_rfl⟩
  lineage e₀ he₀ e he same := by
    obtain ⟨r₀, hr₀, rfl⟩ := mem_map.1 he₀
    obtain ⟨r, hr, rfl⟩ := mem_map.1 he
    rw [inj_on_of_nodup_map (check_iff.1 checked).ids hr hr₀ same]

/-- What a change does to the names: nothing, one more that is higher than all, or one less that
was not the highest. -/
inductive Renamed (m next : RangeMap) : Prop where
  | same : next.names = m.names → Renamed m next
  | minted (pos : Nat) : (∀ e, e ∈ next.names ↔ e ∈ m.names ∨ e = (m.nextId, pos)) →
      (∀ e ∈ m.names, e.1 < m.nextId) → Renamed m next
  | dropped (gone : RangeId × Nat) : (∀ e ∈ next.names, e ∈ m.names) →
      (∀ e ∈ m.names, e ≠ gone → e ∈ next.names) → (∃ e ∈ m.names, gone.1 < e.1) → Renamed m next

lemma Since.step {next : RangeMap} (since : Since m₀ m) (renamed : Renamed m next) : Since m₀ next := by
  cases renamed with
  | same h => exact ⟨h ▸ since.topped, h ▸ since.lineage⟩
  | minted pos more higher =>
    refine ⟨fun e₀ he₀ => ?_, fun e₀ he₀ e he same => ?_⟩
    · obtain ⟨e, he, hle⟩ := since.topped e₀ he₀
      exact ⟨e, (more e).2 (.inl he), hle⟩
    · rcases (more e).1 he with he | rfl
      · exact since.lineage e₀ he₀ e he same
      -- the new id is above every id there was
      obtain ⟨e, he, hle⟩ := since.topped e₀ he₀
      exact absurd same (hle.trans_lt (higher e he)).ne'
  | dropped gone fewer others higher =>
    refine ⟨fun e₀ he₀ => ?_, fun e₀ he₀ e he same => since.lineage e₀ he₀ e (fewer e he) same⟩
    obtain ⟨e, he, hle⟩ := since.topped e₀ he₀
    by_cases hgone : e = gone
    · obtain ⟨e', he', hlt⟩ := higher
      refine ⟨e', others e' he' fun heq => ?_, hle.trans (hgone ▸ hlt.le)⟩
      exact absurd hlt (heq ▸ lt_irrefl _)
    · exact ⟨e, others e he hgone, hle⟩

/-! ## One change -/

lemma assign_cut {id : RangeId} {group : List NodeId} (h : m.assign id group = .ok next) :
    ∃ before r r' after, m.ranges = before ++ r :: after ∧ RangeKept r r' ∧
      next.ranges = before ++ r' :: after := by
  obtain ⟨before, r, r', after, hranges, -, hf, rfl⟩ := editRange_cut h
  split at hf
  · cases hf
  · next primary hprimary =>
    cases hf
    have kept : RangeKept r { r with group, primary } := ⟨rfl, rfl, fun _ => mem_of_head? hprimary⟩
    exact ⟨before, r, _, after, hranges, kept, rfl⟩

lemma Renamed.of_edit {before after : List Range} {r r' : Range} (hranges : m.ranges = before ++ r :: after)
    (kept : RangeKept r r') (hnext : next.ranges = before ++ r' :: after) : Renamed m next :=
  .same (by simp [names, hranges, hnext, kept.id, kept.shards])

lemma Renamed.of_mutation {v : Mutation} (done : Reshaped m v next.ranges) (checked : m.check = .ok ())
    (sized : m.Sized) (spared : m.spares (.mutation v) = true) : Renamed m next := by
  generalize hnext : next.ranges = rs at done
  cases done with
  | same => exact .same (by rw [names, names, hnext])
  | edit hranges kept _ => exact .of_edit hranges kept hnext
  | @cut pos before after r hranges _ _ _ =>
    have room : ∀ r ∈ m.ranges, r.id ≠ 2 ^ 64 - 1 := by simpa [spares] using spared
    refine .minted pos (fun e => ?_) fun e he => ?_
    · simp only [names, hnext, hranges, map_append, map_cons, mem_append, mem_cons]
      tauto
    · obtain ⟨r, hr, rfl⟩ := mem_map.1 he
      exact lt_nextId checked sized room r hr
  | @join before after a b hranges =>
    refine .dropped (b.id, b.shards.start) (fun e he => ?_) (fun e he hne => ?_) ?_
    · simp only [names, hnext, hranges, map_append, map_cons, mem_append, mem_cons] at he ⊢
      tauto
    · simp only [names, hnext, hranges, map_append, map_cons, mem_append, mem_cons] at he ⊢
      tauto
    · have below := all_eq_true.1 spared (a, b) (by rw [hranges]; exact mem_zip_tail before after a b)
      obtain ⟨r, hr, hlt⟩ : ∃ r ∈ m.ranges, b.id < r.id := by simpa using below
      exact ⟨_, mem_map_of_mem hr, hlt⟩

lemma Renamed.sized (renamed : Renamed m next) (checked : m.check = .ok ()) (sized : m.Sized) : next.Sized := by
  have named : ∀ e ∈ m.names, e.1 < 2 ^ 64 := forall_mem_map.2 sized
  suffices ∀ e ∈ next.names, e.1 < 2 ^ 64 from forall_mem_map.1 this
  cases renamed with
  | same h => exact h ▸ named
  | minted pos more _ =>
    intro e he
    rcases (more e).1 he with he | rfl
    · exact named e he
    · obtain ⟨top, -, -, hnext⟩ := nextId_of_check checked
      exact hnext ▸ Nat.mod_lt _ (by decide)
  | dropped gone fewer _ _ => exact fun e he => named e (fewer e he)

/-- A change that spares the highest id keeps a checked map checked, and says what became of its
ids. -/
lemma changed_keeps (checked : m.check = .ok ()) (sized : m.Sized) {c : Change} (spared : m.spares c = true) :
    (m.changed c).check = .ok () ∧ (m.changed c).Sized ∧ Renamed m (m.changed c) := by
  unfold changed
  cases happly : c.apply m with
  | error e => exact ⟨checked, sized, .same rfl⟩
  | ok next =>
    cases c with
    | mutation v =>
      have done := reshaped_of_apply checked happly
      have renamed := Renamed.of_mutation done checked sized spared
      have shaped : Shaped next.ranges := by
        refine done.shaped (check_iff.1 checked) ?_
        rintro pos rfl - - - - - x hx
        have room : ∀ r ∈ m.ranges, r.id ≠ 2 ^ 64 - 1 := by simpa [spares] using spared
        exact (lt_nextId checked sized room x hx).ne
      exact ⟨check_iff.2 shaped, renamed.sized checked sized, renamed⟩
    | assign id group =>
      obtain ⟨before, r, r', after, hranges, kept, hnext⟩ := assign_cut (mapError_ok happly)
      have shaped := check_iff.1 checked
      have renamed := Renamed.of_edit hranges kept hnext
      refine ⟨check_iff.2 ?_, renamed.sized checked sized, renamed⟩
      rw [hranges] at shaped
      rw [hnext]
      exact shaped.edit kept.id kept.shards (kept.held (shaped.held r (by simp)))

/-! ## Whole histories -/

/-- Changes that spare the highest id, one after another. -/
abbrev History : RangeMap → RangeMap → Prop := Run changed fun m c => m.spares c = true

lemma History.keeps {m₁ m₂ : RangeMap} (run : History m₁ m₂) (checked : m₁.check = .ok ())
    (sized : m₁.Sized) : m₂.check = .ok () ∧ m₂.Sized ∧ Since m₁ m₂ := by
  induction run with
  | refl => exact ⟨checked, sized, .refl checked⟩
  | tail _ spared ih =>
    obtain ⟨checked, sized, since⟩ := ih
    obtain ⟨checked', sized', renamed⟩ := changed_keeps checked sized spared
    exact ⟨checked', sized', since.step renamed⟩

/-- **Where every change spares the highest id, an id stands for one part of the space**: a range
of a later map with the id of an earlier one begins where that one did, and the id of an upper half
was nobody's in any map there has been. -/
theorem ids_name_one_lineage (seed : RangeMap) (checked : seed.check = .ok ()) (sized : seed.Sized)
    (earlier later : RangeMap) (run : History seed earlier) (more : History earlier later) :
    (∀ r₁ ∈ earlier.ranges, ∀ r₂ ∈ later.ranges, r₂.id = r₁.id → r₂.shards.start = r₁.shards.start) ∧
    ∀ pos next id, later.spares (.mutation (.split pos)) = true → later.split pos = .ok (next, id) →
      ∀ r ∈ earlier.ranges, r.id ≠ id := by
  obtain ⟨checked₁, sized₁, -⟩ := run.keeps checked sized
  obtain ⟨checked₂, sized₂, since⟩ := more.keeps checked₁ sized₁
  refine ⟨fun r₁ hr₁ r₂ hr₂ same => ?_, fun pos next id spared hsplit r hr => ?_⟩
  · exact congrArg Prod.snd (since.lineage _ (mem_map_of_mem hr₁) _ (mem_map_of_mem hr₂) same)
  · obtain ⟨before, cut, after, -, -, -, -, rfl, -⟩ := split_cut checked₂ hsplit
    have room : ∀ r ∈ later.ranges, r.id ≠ 2 ^ 64 - 1 := by simpa [spares] using spared
    obtain ⟨e, he, hle⟩ := since.topped _ (mem_map_of_mem hr)
    obtain ⟨r', hr', rfl⟩ := mem_map.1 he
    exact (hle.trans_lt (lt_nextId checked₂ sized₂ room r' hr')).ne

/-- One range, from which everything is cut. -/
def undivided : RangeMap := ⟨1, [⟨0, ⟨0, none⟩, [0], 0, none⟩], [], 0, [], true⟩

/-- Of three ranges, the third cut at 20 and the two below it joined: the id that goes is 1, and 2 stays. -/
def lowerJoin : List (RangeMap → Change) :=
  [fun _ => .mutation (.split 20), fun _ => .mutation (.merge 0)]

theorem ids_name_one_lineage_lowerJoin :
    let earlier := undivided.changed (.mutation (.split 10))
    let later := play changed earlier lowerJoin
    earlier.names = [(0, 0), (1, 10)] ∧ later.names = [(0, 0), (2, 20)] ∧
      ∃ next id, later.split 5 = .ok (next, id) ∧ ∀ r ∈ earlier.ranges, r.id ≠ id := by
  have run : History undivided (undivided.changed (.mutation (.split 10))) :=
    Run.tail .refl (by decide)
  have more : History (undivided.changed (.mutation (.split 10)))
      (play changed (undivided.changed (.mutation (.split 10))) lowerJoin) :=
    Run.play (fun m c => m.spares c) lowerJoin (by decide) fun _ _ h => h
  have lineage := ids_name_one_lineage undivided (check_of_isOk (by decide)) (by decide) _ _ run more
  refine ⟨by decide, by decide +kernel, ?_⟩
  have accepted : ((play changed (undivided.changed (.mutation (.split 10))) lowerJoin).split 5).isOk = true := by
    decide +kernel
  cases hsplit : (play changed (undivided.changed (.mutation (.split 10))) lowerJoin).split 5 with
  | error e =>
    rw [hsplit] at accepted
    cases accepted
  | ok answer => exact ⟨answer.1, answer.2, rfl, lineage.2 5 _ _ (by decide +kernel) hsplit⟩

/-- Cut at 10, joined again and cut at 20: the id of the shards from 10 on is that of the shards
from 20 on. -/
theorem id_minted_twice :
    let once := undivided.changed (.mutation (.split 10))
    let joined := once.changed (.mutation (.merge 0))
    let again := joined.changed (.mutation (.split 20))
    undivided.check.isOk = true ∧ undivided.Sized ∧ once.names = [(0, 0), (1, 10)] ∧
      joined.names = [(0, 0)] ∧ again.names = [(0, 0), (1, 20)] := by
  decide +kernel

end RangeMap

end BigDb.Cluster
