import Mathlib.Data.List.Basic
import Mathlib.Order.Lattice

/-!
# Row keys

The dictionary every node has: what a string stands for in a field, as a row. `intern` makes
rows up and `assign` is told them. A store carries the proof that it is a dictionary in both
directions, and that the counter a new row comes from is past every row there is. Rows do not
wrap, and the running totals that are kept for reports are left out.
-/

namespace BigDb.Cluster
open List Function

/-- A table and a field of it. -/
abbrev Scope := Nat × Nat

/-- What one string stands for. -/
structure RowKey where
  scope : Scope
  name : String
  row : Nat
deriving DecidableEq, Repr

inductive KeyError where
  | tooLong (len : Nat)
  | conflict (nameLen assigned held : Nat)
  | tooManyKeys (limit : Nat)
  | rowTaken (row : Nat)
deriving DecidableEq, Repr

def maxKeyLen : Nat := 104

/-- Entries that are a dictionary in both directions, below a counter in each scope. -/
structure KeyStore where
  entries : List RowKey
  next : Scope → Nat
  limit : Option Nat
  nameUnique : ∀ a ∈ entries, ∀ b ∈ entries, a.scope = b.scope → a.name = b.name → a = b
  rowUnique : ∀ a ∈ entries, ∀ b ∈ entries, a.scope = b.scope → a.row = b.row → a = b
  below : ∀ a ∈ entries, a.row < next a.scope

namespace KeyStore

def empty : KeyStore where
  entries := []
  next _ := 0
  limit := none
  nameUnique a ha := by cases ha
  rowUnique a ha := by cases ha
  below a ha := by cases ha

variable (k : KeyStore)

def id (scope : Scope) (name : String) : Option Nat :=
  (k.entries.find? fun e => e.scope = scope ∧ e.name = name).map RowKey.row

variable {k} {scope : Scope} {name : String} {e : RowKey} {row : Nat}

lemma id_some (h : k.id scope name = some row) : ⟨scope, name, row⟩ ∈ k.entries := by
  obtain ⟨e, he, rfl⟩ := Option.map_eq_some_iff.1 h
  have hmatch := List.find?_some he
  simp only [decide_eq_true_eq] at hmatch
  obtain ⟨rfl, rfl⟩ := hmatch
  exact mem_of_find?_eq_some he

lemma id_none (h : k.id scope name = none) (he : e ∈ k.entries) (hs : e.scope = scope) : e.name ≠ name := by
  have := List.find?_eq_none.1 (Option.map_eq_none_iff.1 h) e he
  simp only [decide_eq_true_eq, not_and] at this
  exact this hs

variable (k)

def add (e : RowKey) (name : ∀ a ∈ k.entries, a.scope = e.scope → a.name ≠ e.name)
    (row : ∀ a ∈ k.entries, a.scope = e.scope → a.row ≠ e.row) : KeyStore where
  entries := k.entries ++ [e]
  next := update k.next e.scope (max (k.next e.scope) (e.row + 1))
  limit := k.limit
  nameUnique a ha b hb hs hn := by
    rcases mem_append.1 ha with hold | hnew
    · rcases mem_append.1 hb with hold' | hnew'
      · exact k.nameUnique a hold b hold' hs hn
      · rw [mem_singleton.1 hnew'] at hs hn
        exact (name a hold hs hn).elim
    · rcases mem_append.1 hb with hold' | hnew'
      · rw [mem_singleton.1 hnew] at hs hn
        exact (name b hold' hs.symm hn.symm).elim
      · rw [mem_singleton.1 hnew, mem_singleton.1 hnew']
  rowUnique a ha b hb hs hr := by
    rcases mem_append.1 ha with hold | hnew
    · rcases mem_append.1 hb with hold' | hnew'
      · exact k.rowUnique a hold b hold' hs hr
      · rw [mem_singleton.1 hnew'] at hs hr
        exact (row a hold hs hr).elim
    · rcases mem_append.1 hb with hold' | hnew'
      · rw [mem_singleton.1 hnew] at hs hr
        exact (row b hold' hs.symm hr.symm).elim
      · rw [mem_singleton.1 hnew, mem_singleton.1 hnew']
  below a ha := by
    rcases mem_append.1 ha with ha | ha
    · have hlt := k.below a ha
      by_cases hs : a.scope = e.scope
      · rw [hs] at hlt ⊢
        rw [update_self]
        exact lt_of_lt_of_le hlt (le_max_left _ _)
      · rw [update_of_ne hs]
        exact hlt
    · obtain rfl := mem_singleton.1 ha
      rw [update_self]
      exact Nat.lt_of_lt_of_le (Nat.lt_succ_self _) (le_max_right _ _)

/-- The existing row when the key is known, otherwise the next one. -/
def intern (scope : Scope) (name : String) : Except KeyError (Nat × KeyStore) :=
  if maxKeyLen < name.utf8ByteSize then .error (.tooLong name.utf8ByteSize)
  else
    match h : k.id scope name with
    | some row => .ok (row, k)
    | none =>
      match k.limit.filter (· ≤ k.entries.length) with
      | some limit => .error (.tooManyKeys limit)
      | none =>
        .ok (k.next scope, k.add ⟨scope, name, k.next scope⟩ (fun _ ha hs => id_none h ha hs)
          fun a ha hs hr => absurd (k.below a ha) (by rw [hr, hs]; exact lt_irrefl _))

/-- Records that `name` means `row`. -/
def assign (e : RowKey) : Except KeyError KeyStore :=
  if maxKeyLen < e.name.utf8ByteSize then .error (.tooLong e.name.utf8ByteSize)
  else
    match h : k.id e.scope e.name with
    | some held =>
      if held = e.row then .ok k else .error (.conflict e.name.utf8ByteSize e.row held)
    | none =>
      if free : ∀ a ∈ k.entries, a.scope = e.scope → a.row ≠ e.row then
        .ok (k.add e (fun _ ha hs => id_none h ha hs) free)
      else .error (.rowTaken e.row)

/-- `assign_keys`: all of them, or none. -/
def assignAll : List RowKey → KeyStore → Except KeyError KeyStore
  | [], k => .ok k
  | e :: rest, k => do assignAll rest (← k.assign e)

/-- The store without the scopes that satisfy a test, and without their counters. -/
def forget (p : Scope → Bool) : KeyStore where
  entries := k.entries.filter fun e => !p e.scope
  next scope := if p scope then 0 else k.next scope
  limit := k.limit
  nameUnique a ha b hb := k.nameUnique a (mem_filter.1 ha).1 b (mem_filter.1 hb).1
  rowUnique a ha b hb := k.rowUnique a (mem_filter.1 ha).1 b (mem_filter.1 hb).1
  below a ha := by
    obtain ⟨ha, hp⟩ := mem_filter.1 ha
    rw [if_neg (by simpa using hp)]
    exact k.below a ha

def removeScope (scope : Scope) : KeyStore := k.forget fun s => s = scope

def removeTable (table : Nat) : KeyStore := k.forget fun s => s.1 = table

variable {k} {k' : KeyStore}

lemma mem_forget {p : Scope → Bool} : e ∈ (k.forget p).entries ↔ e ∈ k.entries ∧ p e.scope = false := by
  simp [forget, mem_filter]

/-- What interning gives is in the store, with what was there. -/
lemma intern_ok (h : k.intern scope name = .ok (row, k')) :
    ⟨scope, name, row⟩ ∈ k'.entries ∧ ∀ e ∈ k.entries, e ∈ k'.entries := by
  unfold intern at h
  split at h
  · cases h
  split at h
  · next hid =>
    cases h
    exact ⟨id_some hid, fun e he => he⟩
  · split at h
    · cases h
    · cases h
      exact ⟨mem_append_right _ mem_cons_self, fun e he => mem_append_left _ he⟩

lemma assign_ok (h : k.assign e = .ok k') : e ∈ k'.entries ∧ ∀ a ∈ k.entries, a ∈ k'.entries := by
  unfold assign at h
  split at h
  · cases h
  split at h
  · next held hid =>
    split at h
    · next hrow =>
      cases h
      subst hrow
      exact ⟨id_some hid, fun a ha => ha⟩
    · cases h
  · split at h
    · cases h
      exact ⟨mem_append_right _ mem_cons_self, fun a ha => mem_append_left _ ha⟩
    · cases h

lemma assignAll_ok {entries : List RowKey} (h : assignAll entries k = .ok k') :
    (∀ e ∈ entries, e ∈ k'.entries) ∧ ∀ a ∈ k.entries, a ∈ k'.entries := by
  induction entries generalizing k with
  | nil =>
    cases h
    exact ⟨fun e he => (by cases he), fun a ha => ha⟩
  | cons e rest ih =>
    rw [assignAll] at h
    cases hassign : k.assign e with
    | error err =>
      rw [hassign] at h
      cases h
    | ok k₁ =>
      rw [hassign] at h
      obtain ⟨hrest, hkept⟩ := ih h
      obtain ⟨he, hkeep⟩ := assign_ok hassign
      refine ⟨fun a ha => ?_, fun a ha => hkept a (hkeep a ha)⟩
      rcases mem_cons.1 ha with rfl | ha
      · exact hkept _ he
      · exact hrest a ha

end KeyStore

end BigDb.Cluster
