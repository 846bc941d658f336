import Mathlib.Data.List.AList

/-!
# Finite maps as association lists

Mathlib's association lists with one type of values, and the removal of every key that satisfies a
test.
-/

namespace BigDb.Lib

/-- A finite map. -/
abbrev Assoc (κ ν : Type) : Type := AList fun _ : κ => ν

variable {κ ν : Type}

/-- The map without the keys that satisfy a test. -/
def removeIf (s : Assoc κ ν) (p : κ → Bool) : Assoc κ ν :=
  ⟨s.entries.filter fun e => !p e.1, s.nodupKeys.sublist List.filter_sublist⟩

variable {s : Assoc κ ν} {p : κ → Bool} {k : κ}

lemma mem_removeIf : k ∈ removeIf s p ↔ k ∈ s ∧ p k = false := by
  rw [AList.mem_keys, AList.mem_keys]
  simp only [removeIf, AList.keys, List.keys, List.mem_map, List.mem_filter, Bool.not_eq_true']
  constructor
  · rintro ⟨e, ⟨he, hp⟩, rfl⟩
    exact ⟨⟨e, he, rfl⟩, hp⟩
  · rintro ⟨⟨e, he, rfl⟩, hp⟩
    exact ⟨e, ⟨he, hp⟩, rfl⟩

variable [DecidableEq κ]

lemma lookup_of_removeIf {v : ν} (h : (removeIf s p).lookup k = some v) : s.lookup k = some v := by
  have hmem : Sigma.mk k v ∈ (removeIf s p).entries := AList.mem_lookup_iff.1 h
  exact AList.mem_lookup_iff.2 (List.mem_filter.1 hmem).1

end BigDb.Lib
