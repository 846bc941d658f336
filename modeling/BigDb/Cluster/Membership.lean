import BigDb.Cluster.RangeMap
import Mathlib.Order.Interval.Finset.Nat

/-!
# Majorities of a membership

Two majorities of one list of voters have a node in common, and so have a majority of a list
and one of a list that differs from it in a single slot.
-/

namespace BigDb.Cluster
open Finset
variable (members : List Member)

def voterSet : Finset NodeId := (votersOf members).toFinset

variable {Q Q' : Finset NodeId} {n : NodeId}

lemma mem_voterSet {members : List Member} : n ∈ voterSet members ↔ ∃ m, members[n]? = some m ∧ m.votes = true := by
  rw [voterSet, List.mem_toFinset, mem_votersOf]

lemma card_voterSet : (voterSet members).card = (votersOf members).length :=
  List.toFinset_card_of_nodup (votersOf_nodup members)

/-- Whether a membership has the agreement send to a node. -/
def Reaches (n : NodeId) : Prop :=
  ∃ m, members[n]? = some m ∧ m.reachable = true

lemma Member.reachable_of_votes {m : Member} (h : m.votes = true) : m.reachable = true := by
  unfold Member.votes at h
  unfold Member.reachable
  cases hs : m.state <;> simp [hs] at h ⊢

/-- Voters, and more than half of them. -/
structure Majority (Q : Finset NodeId) : Prop where
  sub : Q ⊆ voterSet members
  card : (votersOf members).length / 2 + 1 ≤ Q.card

lemma Majority.meet {members : List Member} (h : Majority members Q)
    (h' : Majority members Q') : ∃ v, v ∈ Q ∧ v ∈ Q' := by
  have hcard : (voterSet members).card < Q.card + Q'.card := by
    have := h.card
    have := h'.card
    rw [card_voterSet]
    omega
  obtain ⟨v, hv⟩ := inter_nonempty_of_card_lt_card_add_card h.sub h'.sub hcard
  exact ⟨v, mem_inter.1 hv⟩

def differing (before after : List Member) : Finset Nat :=
  (range (max before.length after.length)).filter fun i => before[i]? ≠ after[i]?

lemma card_differing_le (before after : List Member) : (differing before after).card ≤ differences before after := by
  generalize hcommon : min before.length after.length = common
  have hsub : differing before after ⊆ (range common).filter (fun i => before[i]? ≠ after[i]?) ∪
        Finset.Ico common (max before.length after.length) := by
    intro i hi
    obtain ⟨hlt, hne⟩ := mem_filter.1 hi
    rw [mem_range] at hlt
    rw [mem_union, mem_filter, mem_range, mem_Ico]
    by_cases hc : i < common
    · exact .inl ⟨hc, hne⟩
    · exact .inr ⟨by omega, hlt⟩
  have hfilter : ((range common).filter (fun i => before[i]? ≠ after[i]?)).card =
      ((List.range common).filter fun i => before[i]? ≠ after[i]?).length := by
    rw [← List.toFinset_card_of_nodup (List.nodup_range.filter _), List.toFinset_filter, List.toFinset_range]
    simp
  calc (differing before after).card ≤ _ := card_le_card hsub
    _ ≤ _ := card_union_le _ _
    _ ≤ differences before after := by
      rw [hfilter, Nat.card_Ico, differences, hcommon]
      omega

variable {before after : List Member}

lemma votes_of_not_differing {v : NodeId} (h : v ∉ differing before after) : before[v]? = after[v]? := by
  by_contra hne
  refine h (mem_filter.2 ⟨mem_range.2 ?_, hne⟩)
  by_contra hge
  refine hne ?_
  rw [List.getElem?_eq_none (by omega), List.getElem?_eq_none (by omega)]

/-- **Majorities of lists one slot apart have a node in common.** -/
lemma Majority.meet_near (near : differences before after ≤ 1) (h : Majority before Q) (h' : Majority after Q') :
    ∃ v, v ∈ Q ∧ v ∈ Q' := by
  have hone := (card_differing_le before after).trans near
  have moved : ∀ {a b : List Member}, (∀ v, v ∉ differing before after → a[v]? = b[v]?) →
      voterSet a \ voterSet b ⊆ differing before after := by
    intro a b hab v hv
    obtain ⟨ha, hb⟩ := mem_sdiff.1 hv
    by_contra hd
    rw [mem_voterSet, hab v hd] at ha
    exact hb (mem_voterSet.2 ha)
  have hsub := union_subset (moved fun v => votes_of_not_differing) (moved fun v hv => (votes_of_not_differing hv).symm)
  have hsym := card_le_card hsub
  rw [card_union_of_disjoint disjoint_sdiff_sdiff] at hsym
  have hcard : (voterSet before ∪ voterSet after).card < Q.card + Q'.card := by
    have h1 := card_sdiff_add_card (voterSet before) (voterSet after)
    have h2 := card_sdiff_add_card (voterSet after) (voterSet before)
    rw [union_comm, card_voterSet] at h2
    rw [card_voterSet] at h1
    have := h.card
    have := h'.card
    omega
  obtain ⟨v, hv⟩ := inter_nonempty_of_card_lt_card_add_card
    (h.sub.trans subset_union_left) (h'.sub.trans subset_union_right) hcard
  exact ⟨v, mem_inter.1 hv⟩

end BigDb.Cluster
