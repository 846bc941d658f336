import Mathlib.Data.List.Basic
import Mathlib.Order.Lattice

/-!
# Finite maps in key order

A finite map as the list of its entries, with the keys ascending: two maps with the same entries
are equal, and a map is what inserting its own entries one by one gives.
-/

namespace BigDb.Lib
open List
variable {κ ν : Type} [LinearOrder κ]

structure OrderedMap (κ ν : Type) [LinearOrder κ] where
  entries : List (κ × ν)
  ascending : entries.Pairwise fun a b => a.1 < b.1

namespace OrderedMap

@[ext] lemma ext {m m' : OrderedMap κ ν} (h : m.entries = m'.entries) : m = m' := by
  cases m
  cases m'
  cases h
  rfl

instance [DecidableEq ν] : DecidableEq (OrderedMap κ ν) := fun m m' =>
  decidable_of_iff (m.entries = m'.entries) ⟨ext, fun h => h ▸ rfl⟩

def empty : OrderedMap κ ν := ⟨[], .nil⟩

variable (m : OrderedMap κ ν)

def get (k : κ) : Option ν := (m.entries.find? fun e => e.1 = k).map Prod.snd

def values : List ν := m.entries.map Prod.snd

/-- The least key. -/
def first : Option κ := m.entries.head?.map Prod.fst

/-- The entries with one more, in its place. -/
def insertEntry (k : κ) (v : ν) : List (κ × ν) → List (κ × ν)
  | [] => [(k, v)]
  | e :: l => if k < e.1 then (k, v) :: e :: l else if k = e.1 then (k, v) :: l else e :: insertEntry k v l

variable {l : List (κ × ν)} {e : κ × ν}

lemma mem_insertEntry {k : κ} {v : ν} (h : e ∈ insertEntry k v l) : e = (k, v) ∨ e ∈ l := by
  induction l with
  | nil => exact .inl (mem_singleton.1 h)
  | cons x l ih =>
    rw [insertEntry] at h
    split_ifs at h with low same
    · exact mem_cons.1 h
    · exact (mem_cons.1 h).imp_right (mem_cons_of_mem _)
    · rcases mem_cons.1 h with rfl | h
      · exact .inr mem_cons_self
      · exact (ih h).imp_right (mem_cons_of_mem _)

lemma ascending_insertEntry {k : κ} {v : ν}
    (h : l.Pairwise fun a b => a.1 < b.1) : (insertEntry k v l).Pairwise fun a b => a.1 < b.1 := by
  induction l with
  | nil => exact pairwise_singleton _ _
  | cons x l ih =>
    obtain ⟨above, rest⟩ := pairwise_cons.1 h
    rw [insertEntry]
    split_ifs with low same
    · refine pairwise_cons.2 ⟨fun e he => ?_, h⟩
      rcases mem_cons.1 he with rfl | he
      · exact low
      · exact lt_trans low (above e he)
    · exact pairwise_cons.2 ⟨fun e he => same ▸ above e he, rest⟩
    · refine pairwise_cons.2 ⟨fun e he => ?_, ih rest⟩
      rcases mem_insertEntry he with rfl | he
      · exact lt_of_le_of_ne (not_lt.1 low) (Ne.symm same)
      · exact above e he

def insert (m : OrderedMap κ ν) (k : κ) (v : ν) : OrderedMap κ ν :=
  ⟨insertEntry k v m.entries, ascending_insertEntry m.ascending⟩

def erase (m : OrderedMap κ ν) (k : κ) : OrderedMap κ ν :=
  ⟨m.entries.filter fun e => e.1 ≠ k, m.ascending.sublist filter_sublist⟩

def ofEntries (l : List (κ × ν)) : OrderedMap κ ν := l.foldl (fun m e => m.insert e.1 e.2) empty

/-! ## Looking up -/

variable {m} {k k' : κ} {v : ν}

lemma mem_entries_of_get (h : m.get k = some v) : (k, v) ∈ m.entries := by
  obtain ⟨e, found, rfl⟩ := Option.map_eq_some_iff.1 h
  have same : e.1 = k := by simpa using List.find?_some found
  exact same ▸ mem_of_find?_eq_some found

lemma get_of_mem_entries (h : (k, v) ∈ m.entries) : m.get k = some v := by
  have key : m.entries.find? (fun e => e.1 = k) = some (k, v) := by
    obtain ⟨before, after, split⟩ := append_of_mem h
    have order := m.ascending
    rw [split, pairwise_append] at order
    have skip : ∀ e ∈ before, ¬e.1 = k := fun e he => ne_of_lt (order.2.2 e he _ mem_cons_self)
    rw [split, List.find?_append, List.find?_eq_none.2 (by simpa using skip)]
    simp
  rw [get, key]
  rfl

lemma get_iff : m.get k = some v ↔ (k, v) ∈ m.entries := ⟨mem_entries_of_get, get_of_mem_entries⟩

lemma mem_insertEntry_self : (k, v) ∈ insertEntry k v l := by
  induction l with
  | nil => exact mem_cons_self
  | cons x l ih =>
    rw [insertEntry]
    split_ifs
    · exact mem_cons_self
    · exact mem_cons_self
    · exact mem_cons_of_mem _ ih

lemma mem_insertEntry_of_ne (h : e ∈ l) (ne : e.1 ≠ k) : e ∈ insertEntry k v l := by
  induction l with
  | nil => cases h
  | cons x l ih =>
    rw [insertEntry]
    split_ifs with low same
    · exact mem_cons_of_mem _ h
    · rcases mem_cons.1 h with rfl | h
      · exact absurd same.symm ne
      · exact mem_cons_of_mem _ h
    · rcases mem_cons.1 h with rfl | h
      · exact mem_cons_self
      · exact mem_cons_of_mem _ (ih h)

@[simp] lemma get_insert_self : (m.insert k v).get k = some v := get_iff.2 mem_insertEntry_self

lemma get_insert_of_ne (ne : k' ≠ k) : (m.insert k v).get k' = m.get k' := by
  apply Option.ext
  intro x
  rw [get_iff, get_iff]
  constructor
  · intro h
    rcases mem_insertEntry h with eq | old
    · cases eq
      exact absurd rfl ne
    · exact old
  · exact fun h => mem_insertEntry_of_ne h ne

@[simp] lemma get_erase_self : (m.erase k).get k = none := by
  apply Option.eq_none_iff_forall_ne_some.2
  intro x h
  have kept := (mem_filter.1 (get_iff.1 h)).2
  simp at kept

lemma get_erase_of_ne (ne : k' ≠ k) : (m.erase k).get k' = m.get k' := by
  apply Option.ext
  intro x
  rw [get_iff, get_iff]
  exact ⟨fun h => (mem_filter.1 h).1, fun h => mem_filter.2 ⟨h, by simpa using ne⟩⟩

/-- The least key is below every key. -/
lemma first_le (h : m.get k = some v) : ∃ a, m.first = some a ∧ a ≤ k := by
  have inside := get_iff.1 h
  have order := m.ascending
  unfold first
  cases listed : m.entries with
  | nil => rw [listed] at inside; cases inside
  | cons e l =>
    refine ⟨e.1, rfl, ?_⟩
    rw [listed] at inside order
    rcases mem_cons.1 inside with rfl | later
    · exact le_rfl
    · exact le_of_lt ((pairwise_cons.1 order).1 _ later)

/-! ## A map is what its entries build -/

lemma insertEntry_append (above : ∀ e ∈ l, e.1 < k) : insertEntry k v l = l ++ [(k, v)] := by
  induction l with
  | nil => rfl
  | cons x l ih =>
    have low := above x mem_cons_self
    rw [insertEntry, if_neg (not_lt.2 (le_of_lt low)), if_neg (ne_of_gt low),
      ih fun e he => above e (mem_cons_of_mem _ he), cons_append]

lemma entries_foldl_insert {m : OrderedMap κ ν} (order : (m.entries ++ l).Pairwise fun a b => a.1 < b.1) :
    (l.foldl (fun m e => m.insert e.1 e.2) m).entries = m.entries ++ l := by
  induction l generalizing m with
  | nil => rw [foldl_nil, append_nil]
  | cons e l ih =>
    have above : ∀ x ∈ m.entries, x.1 < e.1 := fun x hx =>
      (pairwise_append.1 order).2.2 x hx e mem_cons_self
    have step : (m.insert e.1 e.2).entries = m.entries ++ [e] := insertEntry_append above
    have order' : ((m.insert e.1 e.2).entries ++ l).Pairwise fun a b => a.1 < b.1 := by
      rwa [step, append_assoc, singleton_append]
    rw [foldl_cons, ih order', step, append_assoc, singleton_append]

lemma ofEntries_entries (m : OrderedMap κ ν) : ofEntries m.entries = m := by
  refine ext ?_
  have order : ((empty : OrderedMap κ ν).entries ++ m.entries).Pairwise fun a b => a.1 < b.1 := m.ascending
  exact entries_foldl_insert order

end OrderedMap

end BigDb.Lib
