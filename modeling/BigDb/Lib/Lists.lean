import Mathlib.Data.List.Basic

/-!
# Lists that grow at the end or change in one place
-/

namespace BigDb.Lib
variable {α : Type*} {l : List α} {a b : α} {i j : Nat}

lemma mem_concat : a ∈ l ++ [b] ↔ a ∈ l ∨ a = b := by
  rw [List.mem_append, List.mem_singleton]

/-- What is added to nothing is all there is. -/
lemma eq_of_mem_concat (first : l = []) (h : a ∈ l ++ [b]) : a = b := by
  subst first
  exact List.mem_singleton.1 h

lemma lt_of_getElem? (h : l[i]? = some a) : i < l.length := (List.getElem?_eq_some_iff.1 h).1

lemma getElem?_set_some (h : (l.set i b)[j]? = some a) : i = j ∧ b = a ∨ i ≠ j ∧ l[j]? = some a := by
  by_cases here : i = j
  · subst here
    rw [List.getElem?_set_self (by simpa using lt_of_getElem? h)] at h
    exact .inl ⟨rfl, Option.some.inj h⟩
  · rw [List.getElem?_set_ne here] at h
    exact .inr ⟨here, h⟩

lemma getElem?_concat_some (h : (l ++ [b])[j]? = some a) : j < l.length ∧ l[j]? = some a ∨ j = l.length ∧ b = a := by
  rcases Nat.lt_or_ge j l.length with lt | ge
  · rw [List.getElem?_append_left lt] at h
    exact .inl ⟨lt, h⟩
  · have bound := lt_of_getElem? h
    rw [List.length_append, List.length_singleton] at bound
    obtain rfl : j = l.length := by omega
    rw [List.getElem?_concat_length] at h
    exact .inr ⟨rfl, Option.some.inj h⟩

end BigDb.Lib
