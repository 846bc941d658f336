import Mathlib.Data.List.Chain

/-!
# Updates of a whole value

A register that is changed by reading it, editing the copy and writing the copy back whole. An
update remembers what it was built from. If every update is built from what the one before it
wrote, then a part of the value that an update leaves alone is a part it keeps, and whatever an
update has written stays until another one edits it.
-/

namespace BigDb.Lib
open List
variable {V : Type}

/-- One write: when it was made, what its writer had read, and what was written. -/
structure Update (V : Type) where
  stamp : Nat
  base : V
  next : V
deriving DecidableEq, Repr

/-- Each update comes after the one before it and is built from what that one wrote. -/
def Serial (us : List (Update V)) : Prop :=
  us.IsChain fun a b => a.stamp < b.stamp ∧ b.base = a.next

namespace Serial
variable {u : Update V} {us : List (Update V)} {A : Type} {part : V → A}

lemma nil : Serial ([] : List (Update V)) := List.IsChain.nil

lemma tail (h : Serial (u :: us)) : Serial us := List.IsChain.tail h

/-- An update built from the newest value extends the history. -/
lemma push (h : Serial us) (after : ∀ a ∈ us, a.stamp < u.stamp)
    (fresh : ∀ a, us.getLast? = some a → u.base = a.next) : Serial (us ++ [u]) := by
  refine List.IsChain.append h (.singleton u) ?_
  intro a ha b hb
  cases hb
  exact ⟨after a (mem_of_getLast? ha), fresh a ha⟩

lemma stamp_lt (h : Serial (u :: us)) : ∀ a ∈ us, u.stamp < a.stamp := by
  induction us generalizing u with
  | nil => intro a ha; cases ha
  | cons v us ih =>
    obtain ⟨hlt, -⟩ := (isChain_cons_cons.1 h).1
    intro a ha
    rcases mem_cons.1 ha with rfl | ha
    · exact hlt
    · exact hlt.trans (ih h.tail a ha)

/-- What the first update wrote is there as long as none of the others edits it. -/
lemma kept_head (h : Serial (u :: us)) {b : Update V} (hb : b ∈ us)
    (keeps : ∀ c ∈ us, c.stamp ≤ b.stamp → part c.next = part c.base) : part b.next = part u.next := by
  induction us generalizing u with
  | nil => cases hb
  | cons v us ih =>
    have hv : v.base = u.next := (isChain_cons_cons.1 h).1.2
    have step : v.stamp ≤ b.stamp → part v.next = part u.next := by
      intro hle
      rw [keeps v mem_cons_self hle, hv]
    rcases mem_cons.1 hb with rfl | hb
    · exact step le_rfl
    · have hle := (h.tail.stamp_lt b hb).le
      rw [ih h.tail hb fun c hc => keeps c (mem_cons_of_mem _ hc), step hle]

/-- **Nothing is lost.** What an update wrote is in every later value, until an update edits
that part of it. -/
lemma kept (h : Serial us) {a b : Update V} (ha : a ∈ us) (hb : b ∈ us) (hab : a.stamp ≤ b.stamp)
    (keeps : ∀ c ∈ us, a.stamp < c.stamp → c.stamp ≤ b.stamp → part c.next = part c.base) :
    part b.next = part a.next := by
  induction us with
  | nil => cases ha
  | cons u us ih =>
    have keeps' : ∀ c ∈ us, a.stamp < c.stamp → c.stamp ≤ b.stamp → part c.next = part c.base :=
      fun c hc => keeps c (mem_cons_of_mem _ hc)
    rcases mem_cons.1 ha with rfl | ha'
    · rcases mem_cons.1 hb with rfl | hb'
      · rfl
      · exact h.kept_head hb' fun c hc => keeps' c hc (h.stamp_lt c hc)
    · rcases mem_cons.1 hb with rfl | hb'
      · exact absurd (h.stamp_lt a ha') (Nat.not_lt_of_le hab)
      · exact ih h.tail ha' hb' keeps'

end Serial

end BigDb.Lib
