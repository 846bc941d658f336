import Mathlib.Data.List.Basic
import Mathlib.Logic.Relation

/-!
# Reachability along a successor function

What can be reached from a list of nodes by following the successors each node names. Reachability
looks only at the successors of what it reaches, and a list that is closed under successors bounds
it.
-/

namespace BigDb.Lib
variable {ν : Type} {next next' : ν → List ν} {seeds : List ν} {a b : ν}

variable (next seeds b) in
/-- `b` can be reached from `seeds`. -/
def Reachable : Prop :=
  ∃ a ∈ seeds, Relation.ReflTransGen (fun x y => y ∈ next x) a b

namespace Reachable

lemma start (h : a ∈ seeds) : Reachable next seeds a := ⟨a, h, .refl⟩

lemma step (h : Reachable next seeds a) (hb : b ∈ next a) : Reachable next seeds b := by
  obtain ⟨x, hx, path⟩ := h
  exact ⟨x, hx, path.tail hb⟩

/-- What holds of the seeds and along every step from a reachable node holds of all of them. -/
lemma rule {P : ν → Prop} (h : Reachable next seeds b) (first : ∀ a ∈ seeds, P a)
    (more : ∀ a, Reachable next seeds a → P a → ∀ b ∈ next a, P b) : P b := by
  obtain ⟨x, hx, path⟩ := h
  have both : Reachable next seeds b ∧ P b := by
    induction path with
    | refl => exact ⟨.start hx, first x hx⟩
    | tail _ hb ih => exact ⟨ih.1.step hb, more _ ih.1 ih.2 _ hb⟩
  exact both.2

/-- Successors matter only where they are reached. -/
lemma congr (agree : ∀ a, Reachable next seeds a → next' a = next a) :
    Reachable next' seeds b ↔ Reachable next seeds b := by
  constructor
  · intro h
    refine h.rule (fun a ha => .start ha) fun a _ ha b hb => ha.step ?_
    rwa [agree a ha] at hb
  · intro h
    refine h.rule (fun a ha => .start ha) fun a reached ha b hb => ha.step ?_
    rwa [agree a reached]

end Reachable

/-! ## Exploring -/

/-- Successors added `fuel` times. -/
def explore [DecidableEq ν] (next : ν → List ν) : Nat → List ν → List ν
  | 0, found => found
  | fuel + 1, found => explore next fuel (found ∪ found.flatMap next)

def closedUnder [DecidableEq ν] (next : ν → List ν) (found : List ν) : Bool :=
  found.all fun a => (next a).all (found.contains ·)

variable [DecidableEq ν] {fuel : Nat} {found : List ν}

lemma subset_explore : found ⊆ explore next fuel found := by
  induction fuel generalizing found with
  | zero => exact List.Subset.refl _
  | succ fuel ih => exact fun a ha => ih (List.mem_union_iff.2 (.inl ha))

lemma reachable_of_mem_explore (known : ∀ a ∈ found, Reachable next seeds a) (h : b ∈ explore next fuel found) :
    Reachable next seeds b := by
  induction fuel generalizing found with
  | zero => exact known b h
  | succ fuel ih =>
    refine ih (fun a ha => ?_) h
    rcases List.mem_union_iff.1 ha with old | new
    · exact known a old
    · obtain ⟨x, hx, hax⟩ := List.mem_flatMap.1 new
      exact (known x hx).step hax

/-- An exploration that found nothing new has found everything. -/
lemma reachable_iff_mem_explore (closed : closedUnder next (explore next fuel seeds) = true) :
    Reachable next seeds b ↔ b ∈ explore next fuel seeds := by
  constructor
  · intro h
    refine h.rule (fun a ha => subset_explore ha) fun a _ ha b hb => ?_
    have inside := List.all_eq_true.1 (List.all_eq_true.1 closed a ha) b hb
    exact List.contains_iff_mem.1 inside
  · exact reachable_of_mem_explore fun a ha => .start ha

end BigDb.Lib
