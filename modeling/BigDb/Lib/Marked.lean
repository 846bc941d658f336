import BigDb.Lib.Lists
import Mathlib.Data.List.Infix

/-!
# Logs that are extended one entry at a time

A log whose every entry was fit for what was before it when it was put there (`Marked`), and the
part of a log between two indexes (`stretch`).
-/

namespace BigDb.Lib
open List
variable {E : Type} {Q Q' : List E → E → Prop} {l l' : List E} {e : E} {i j k : Nat}

variable (Q l) in
/-- Every entry is fit for what is before it. -/
def Marked : Prop :=
  ∀ i e, l[i]? = some e → Q (l.take i) e

namespace Marked

lemma of_prefix (h : Marked Q l) (hp : l' <+: l) : Marked Q l' := by
  obtain ⟨rest, rfl⟩ := hp
  intro i e he
  have hi : i < l'.length := lt_of_getElem? he
  have := h i e (by rw [getElem?_append_left hi, he])
  rwa [take_append_of_le_length (Nat.le_of_lt hi)] at this

lemma append (h : Marked Q l) (he : Q l e) : Marked Q (l ++ [e]) := by
  intro i x hx
  rcases getElem?_concat_some hx with ⟨hi, hx⟩ | ⟨rfl, rfl⟩
  · rw [take_append_of_le_length (Nat.le_of_lt hi)]
    exact h i x hx
  · rw [take_left]
    exact he

lemma mono (h : Marked Q l) (imp : ∀ l e, Q l e → Q' l e) : Marked Q' l :=
  fun i e he => imp _ _ (h i e he)

end Marked

/-- The entries past one index and up to another. -/
def stretch (l : List E) (i j : Nat) : List E := (l.take (j + 1)).drop (i + 1)

lemma stretch_self : stretch l i i = [] := by
  refine drop_eq_nil_of_le ?_
  rw [length_take]
  omega

lemma stretch_append (hij : i ≤ j) (hjk : j ≤ k) : stretch l i j ++ stretch l j k = stretch l i k := by
  unfold stretch
  have hsplit : l.take (k + 1) = l.take (j + 1) ++ (l.take (k + 1)).drop (j + 1) := by
    conv_lhs => rw [← take_append_drop (j + 1) (l.take (k + 1))]
    rw [take_take, Nat.min_eq_left (by omega)]
  rcases Nat.lt_or_ge l.length (j + 1) with h | h
  · rw [take_of_length_le (by omega : l.length ≤ j + 1), take_of_length_le (by omega),
      drop_eq_nil_of_le (by omega : l.length ≤ j + 1), append_nil]
  · conv_rhs => rw [hsplit]
    rw [drop_append_of_le_length]
    rw [length_take]
    omega

lemma stretch_congr (h : l.take (j + 1) = l'.take (j + 1)) : stretch l i j = stretch l' i j := by
  unfold stretch
  rw [h]

lemma mem_stretch (h : e ∈ stretch l i j) : ∃ k, i < k ∧ k ≤ j ∧ l[k]? = some e := by
  obtain ⟨n, hn⟩ := mem_iff_getElem?.1 h
  rw [stretch, getElem?_drop] at hn
  have hlt : i + 1 + n < j + 1 := by
    have := lt_of_getElem? hn
    rw [length_take] at this
    omega
  rw [getElem?_take_of_lt hlt] at hn
  exact ⟨i + 1 + n, by omega, by omega, hn⟩

lemma filterMap_range'_eq_take_drop (l : List E) (i n : Nat) :
    (range' i n).filterMap (fun k => l[k]?) = (l.drop i).take n := by
  induction n generalizing i with
  | zero => rfl
  | succ n ih =>
    rw [range'_succ, filterMap_cons, ih]
    cases hat : l[i]? with
    | none =>
      have hlen := getElem?_eq_none_iff.1 hat
      rw [drop_eq_nil_of_le hlen, drop_eq_nil_of_le (by omega), take_nil, take_nil]
    | some e =>
      obtain ⟨hlt, rfl⟩ := List.getElem?_eq_some_iff.1 hat
      rw [drop_eq_getElem_cons hlt, take_succ_cons]

end BigDb.Lib
