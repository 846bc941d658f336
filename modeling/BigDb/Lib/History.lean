import Mathlib.Data.List.Basic

/-!
# What comes before what

One entry of a list before another, and lists of events each of which is related to the ones before it.
-/

namespace BigDb.Lib
open List
variable {α : Type} {a b c : α} {l l₁ l₂ : List α}

/-- `a` is somewhere in the list and `b` further on. -/
def Precedes (a b : α) (l : List α) : Prop := ∃ l₁ l₂, l = l₁ ++ l₂ ∧ a ∈ l₁ ∧ b ∈ l₂

namespace Precedes
variable {a b : α} {l l₁ l₂ : List α}

lemma left (h : Precedes a b l) : a ∈ l := by
  obtain ⟨l₁, l₂, rfl, ha, -⟩ := h
  exact mem_append_left _ ha

lemma right (h : Precedes a b l) : b ∈ l := by
  obtain ⟨l₁, l₂, rfl, -, hb⟩ := h
  exact mem_append_right _ hb

lemma append_right (h : Precedes a b l₁) : Precedes a b (l₁ ++ l₂) := by
  obtain ⟨x, y, rfl, ha, hb⟩ := h
  exact ⟨x, y ++ l₂, append_assoc .., ha, mem_append_left _ hb⟩

lemma append_left (h : Precedes a b l₂) : Precedes a b (l₁ ++ l₂) := by
  obtain ⟨x, y, rfl, ha, hb⟩ := h
  exact ⟨l₁ ++ x, y, (append_assoc ..).symm, mem_append_right _ ha, hb⟩

lemma across (ha : a ∈ l₁) (hb : b ∈ l₂) : Precedes a b (l₁ ++ l₂) := ⟨l₁, l₂, rfl, ha, hb⟩

end Precedes

@[simp] lemma precedes_append : Precedes a b (l₁ ++ l₂) ↔ Precedes a b l₁ ∨ (a ∈ l₁ ∧ b ∈ l₂) ∨ Precedes a b l₂ := by
  refine ⟨?_, fun h => ?_⟩
  · rintro ⟨x, y, split, ha, hb⟩
    obtain ⟨m, rfl, rfl⟩ | ⟨m, rfl, rfl⟩ := append_eq_append_iff.1 split
    · rcases mem_append.1 ha with ha | ha
      · exact .inr (.inl ⟨ha, mem_append_right _ hb⟩)
      · exact .inr (.inr ⟨m, y, rfl, ha, hb⟩)
    · rcases mem_append.1 hb with hb | hb
      · exact .inl ⟨x, m, rfl, ha, hb⟩
      · exact .inr (.inl ⟨mem_append_left _ ha, hb⟩)
  · rcases h with h | ⟨ha, hb⟩ | h
    · exact h.append_right
    · exact .across ha hb
    · exact h.append_left

@[simp] lemma precedes_nil : ¬Precedes a b [] := fun h => not_mem_nil h.left

@[simp] lemma precedes_singleton : ¬Precedes a b [c] := by
  rintro ⟨x, y, split, ha, hb⟩
  have len := congrArg List.length split
  have hx := length_pos_of_mem ha
  have hy := length_pos_of_mem hb
  simp only [length_cons, length_nil, length_append] at len
  omega

lemma precedes_cons : Precedes a b (c :: l) ↔ (a = c ∧ b ∈ l) ∨ Precedes a b l := by
  rw [← singleton_append, precedes_append]
  simp

/-! ## Events and what came before them -/

/-- Every event is as `P` says, given those before it. -/
def Always (P : List α → α → Prop) (l : List α) : Prop := ∀ l₁ e l₂, l = l₁ ++ e :: l₂ → P l₁ e

namespace Always
variable {P Q : List α → α → Prop} {e : α}

@[simp] lemma nil : Always P ([] : List α) := by
  intro l₁ e l₂ split
  simp at split

@[simp] lemma concat : Always P (l ++ [e]) ↔ Always P l ∧ P l e := by
  refine ⟨fun h => ⟨fun l₁ x l₂ split => h l₁ x (l₂ ++ [e]) (by simp [split]), h l e [] rfl⟩, ?_⟩
  rintro ⟨h, last⟩ l₁ x l₂ split
  rcases eq_nil_or_concat l₂ with rfl | ⟨l₃, y, rfl⟩
  · obtain ⟨rfl, same⟩ := append_inj' split rfl
    cases same
    exact last
  · rw [concat_eq_append, ← cons_append, ← append_assoc] at split
    obtain ⟨rfl, -⟩ := append_inj' split rfl
    exact h l₁ x l₃ rfl

lemma of_append (h : Always P (l₁ ++ l₂)) : Always P l₁ :=
  fun x e y split => h x e (y ++ l₂) (by simp [split])

lemma imp (h : Always P l) (imp : ∀ l e, P l e → Q l e) : Always Q l :=
  fun l₁ e l₂ split => imp _ _ (h l₁ e l₂ split)

lemma of_mem (h : Always P l) (he : e ∈ l) : ∃ l₁ l₂, l = l₁ ++ e :: l₂ ∧ P l₁ e := by
  obtain ⟨l₁, l₂, split⟩ := append_of_mem he
  exact ⟨l₁, l₂, split, h l₁ e l₂ split⟩

end Always

end BigDb.Lib
