import BigDb.Lib.Lists
import Mathlib.Data.List.Induction
import Mathlib.Data.List.Sort

/-!
# Sorted groups

An association list kept in the order of its keys, changed one key at a time, and the grouping
of a list by a key that may depend on the position of an item as well as on the item.
-/

namespace BigDb.Lib
open List Prod
variable {κ β α : Type}

/-- A list is good throughout, or up to its first bad item. -/
lemma forall_or_first (P : α → Prop) (l : List α) : (∀ x ∈ l, P x) ∨
    ∃ before x after, l = before ++ x :: after ∧ (∀ y ∈ before, P y) ∧ ¬ P x := by
  induction l with
  | nil => exact .inl nofun
  | cons x l ih =>
    by_cases hx : P x
    · rcases ih with ih | ⟨before, y, after, rfl, hb, hy⟩
      · exact .inl (forall_mem_cons.2 ⟨hx, ih⟩)
      · exact .inr ⟨x :: before, y, after, rfl, forall_mem_cons.2 ⟨hx, hb⟩, hy⟩
    · exact .inr ⟨[], x, l, rfl, fun y hy => (by cases hy), hx⟩

variable [LinearOrder κ]

/-- Replaces what stands at a key, or puts something there, keys ascending. -/
def alter (k : κ) (f : Option β → β) : List (κ × β) → List (κ × β)
  | [] => [(k, f none)]
  | (k', b) :: rest =>
    if k < k' then (k, f none) :: (k', b) :: rest
    else if k = k' then (k', f (some b)) :: rest
    else (k', b) :: alter k f rest

def groupBy (key : Nat → α → κ) (items : List α) : List (κ × List α) :=
  items.zipIdx.foldl (fun groups p => alter (key p.2 p.1) (fun had => had.getD [] ++ [p.1]) groups) []

variable {l : List (κ × List α)} {f : Option β → β} {k : κ} {x : α}

lemma mem_keys_alter {k k' : κ} {l : List (κ × β)} : k' ∈ (alter k f l).map fst ↔ k' = k ∨ k' ∈ l.map fst := by
  induction l with
  | nil => simp [alter]
  | cons p rest ih =>
    obtain ⟨k₁, b⟩ := p
    rw [alter]
    split
    · simp
    split
    · next heq =>
      subst heq
      simp
    · rw [map_cons, mem_cons, ih, map_cons, mem_cons]
      tauto

lemma sorted_alter {l : List (κ × β)}
    (h : (l.map fst).Pairwise (· < ·)) : ((alter k f l).map fst).Pairwise (· < ·) := by
  induction l with
  | nil => simp [alter]
  | cons p rest ih =>
    obtain ⟨k₁, b⟩ := p
    rw [map_cons, pairwise_cons] at h
    rw [alter]
    split
    · next hlt =>
      rw [map_cons, pairwise_cons]
      refine ⟨fun k' hk' => ?_, by rw [map_cons, pairwise_cons]; exact h⟩
      rcases mem_cons.1 hk' with rfl | hk'
      · exact hlt
      · exact hlt.trans (h.1 k' hk')
    · next hge =>
      split
      · rw [map_cons, pairwise_cons]
        exact h
      · next hne =>
        rw [map_cons, pairwise_cons]
        refine ⟨fun k' hk' => ?_, ih h.2⟩
        rcases mem_keys_alter.1 hk' with rfl | hk'
        · exact lt_of_le_of_ne (not_lt.1 hge) (Ne.symm hne)
        · exact h.1 k' hk'

/-- Adding to one group adds to that group alone. -/
lemma mem_alter_push {k k' : κ} {x y : α} : (∃ ys, (k', ys) ∈ alter k (fun had => had.getD [] ++ [x]) l ∧ y ∈ ys) ↔
      (k' = k ∧ y = x) ∨ ∃ ys, (k', ys) ∈ l ∧ y ∈ ys := by
  induction l with
  | nil => simp [alter]
  | cons p rest ih =>
    obtain ⟨k₁, xs⟩ := p
    rw [alter]
    split
    · simp [or_and_right, exists_or]
    split
    · next heq =>
      subst heq
      simp [or_and_right, and_or_left, exists_or]
      tauto
    · simp only [mem_cons, or_and_right, exists_or, ih]
      exact or_left_comm

lemma mem_groupBy {key : Nat → α → κ} {items : List α} :
    (∃ xs, (k, xs) ∈ groupBy key items ∧ x ∈ xs) ↔ ∃ i, items[i]? = some x ∧ key i x = k := by
  unfold groupBy
  induction items using reverseRecOn with
  | nil => simp
  | append_singleton items y ih =>
    rw [zipIdx_append, foldl_append]
    simp only [zipIdx_cons, zipIdx_nil, foldl_cons, foldl_nil]
    rw [mem_alter_push, ih]
    constructor
    · rintro (⟨rfl, rfl⟩ | ⟨i, hi, hk⟩)
      · exact ⟨items.length, by simp, by simp⟩
      · refine ⟨i, ?_, hk⟩
        rw [List.getElem?_append_left (lt_of_getElem? hi)]
        exact hi
    · rintro ⟨i, hi, hk⟩
      rcases getElem?_concat_some hi with ⟨-, hi⟩ | ⟨rfl, rfl⟩
      · exact .inr ⟨i, hi, hk⟩
      · exact .inl ⟨by simpa using hk.symm, rfl⟩

lemma ne_nil_of_mem_alter (h : ∀ p ∈ l, p.2 ≠ []) : ∀ p ∈ alter k (fun had => had.getD [] ++ [x]) l, p.2 ≠ [] := by
  induction l with
  | nil => simp [alter]
  | cons p rest ih =>
    obtain ⟨k₁, xs⟩ := p
    rw [forall_mem_cons] at h
    rw [alter]
    split
    · simpa using h
    split
    · simpa using h.2
    · exact forall_mem_cons.2 ⟨h.1, ih h.2⟩

variable (key : Nat → α → κ)

lemma ne_nil_of_mem_groupBy (items : List α) : ∀ p ∈ groupBy key items, p.2 ≠ [] := by
  unfold groupBy
  induction items using reverseRecOn with
  | nil => exact nofun
  | append_singleton items y ih =>
    rw [zipIdx_append, foldl_append]
    exact ne_nil_of_mem_alter ih

lemma sorted_groupBy (items : List α) : ((groupBy key items).map fst).Pairwise (· < ·) := by
  unfold groupBy
  induction items using reverseRecOn with
  | nil => exact .nil
  | append_singleton items y ih =>
    rw [zipIdx_append, foldl_append]
    exact sorted_alter ih

end BigDb.Lib
