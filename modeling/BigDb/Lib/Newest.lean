import Mathlib.Data.List.Basic

/-!
# The newest write in a log

A log of records, some of which write a register. Reading the log back gives the value its
newest write left, or the value the register started from. A log can be shortened from the
front without changing what it reads as, as long as what is kept still holds a write or
what is dropped holds none (`newest_drop`).
-/

namespace BigDb.Lib
open List
variable {α β : Type} {write : α → Option β}

/-- The register after a log: its newest write, or what it started from. -/
def newest (write : α → Option β) (start : β) (log : List α) : β :=
  (log.reverse.findSome? write).getD start

section
variable (start : β)
include start

lemma newest_append (a b : List α) : newest write start (a ++ b) = newest write (newest write start a) b := by
  unfold newest
  rw [reverse_append, List.findSome?_append]
  cases b.reverse.findSome? write <;> rfl

@[simp] lemma newest_singleton (e : α) : newest write start [e] = (write e).getD start := by
  unfold newest
  rw [reverse_singleton, List.findSome?_singleton]

lemma newest_cons (e : α) (l : List α) : newest write start (e :: l) = newest write ((write e).getD start) l := by
  rw [← singleton_append, newest_append, newest_singleton]

variable {l : List α} {e : α}

/-- A stretch of log that writes nothing leaves the register as it was. -/
lemma newest_quiet (h : ∀ e ∈ l, write e = none) : newest write start l = start := by
  induction l with
  | nil => rfl
  | cons e l ih =>
    rw [newest_cons, h e mem_cons_self]
    exact ih fun x hx => h x (mem_cons_of_mem _ hx)

/-- The register holds what it started from or something that was written. -/
lemma newest_mem (l : List α) : newest write start l ∈ start :: l.filterMap write := by
  induction l generalizing start with
  | nil => exact mem_cons_self
  | cons e l ih =>
    rw [newest_cons]
    cases hw : write e with
    | none =>
      rw [filterMap_cons_none hw]
      exact ih start
    | some v =>
      rw [filterMap_cons_some hw]
      exact mem_cons_of_mem _ (ih v)

/-- The register one entry further. -/
lemma newest_take_succ {i : Nat} (he : l[i]? = some e) :
    newest write start (l.take (i + 1)) = (write e).getD (newest write start (l.take i)) := by
  rw [take_add_one, he, Option.toList_some, newest_append, newest_singleton]

/-- The front of a log can go if it writes nothing or the rest writes again. -/
lemma newest_drop {d : Nat} (h : (∀ e ∈ l.take d, write e = none) ∨ ∃ e ∈ l.drop d, write e ≠ none) :
    newest write start (l.drop d) = newest write start l := by
  conv_rhs => rw [← take_append_drop d l, newest_append]
  rcases h with h | ⟨e, he, hw⟩
  · rw [newest_quiet start h]
  · unfold newest
    cases hf : (l.drop d).reverse.findSome? write with
    | some v => rfl
    | none => exact absurd (List.findSome?_eq_none_iff.1 hf e (mem_reverse.2 he)) hw

end

end BigDb.Lib
