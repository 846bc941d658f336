import BigDb.Cluster.Accepted

/-!
# Where a routed write can land

A coordinator groups a batch by the position of a range, and asks later who holds the range at
that position and which shards it has. The receiver compares the shards of the claim with what
it holds, and never sees whether the records are in those shards. So a write lands on a holder
as long as the range at the position still has the shards of the one the records were grouped under
when the claim is made. A coordinator's own deletions make no claim at all.
-/

namespace BigDb.Cluster
open Lib List RangeMap Scene

namespace Scene
variable (site : Site) (scene : Scene) {α : Type} (record : α → Nat) (items : List α)

def positionOf (i : Nat) (x : α) : Nat := (scene.grouping i).rangeOf (shardOf (record x))

/-- The range an item was grouped under. -/
def rangeAt (i : Nat) (x : α) : Option Range :=
  (scene.grouping i).ranges[scene.positionOf record i x]?

/-- When a request is made, the range at its position has the shards of the one its items were
grouped under. Its copies may be others. -/
def ClaimsAsGrouped : Prop :=
  ∀ i x, items[i]? = some x → ∀ slot,
    let range := scene.positionOf record i x
    (scene.route range slot).ranges[range]?.map Range.shards = (scene.rangeAt record i x).map Range.shards

/-- For what a coordinator deletes itself the range is the same, when it lists the copies and when
its engine deletes. -/
def DeletesAsGrouped : Prop :=
  ∀ i x, items[i]? = some x →
    let range := scene.positionOf record i x
    (scene.copies range).ranges[range]? = scene.rangeAt record i x ∧
      ∀ slot, (scene.copiesOf range)[slot]? = some site.this →
        (scene.visit range slot).map.ranges[range]? = scene.rangeAt record i x

/-- Every map an item is grouped under covers the shard space once. -/
def Checked : Prop := ∀ i, (scene.grouping i).check = .ok ()

variable {site scene record items}

/-- An item lies in the range it was grouped under. -/
lemma Checked.rangeAt_eq (checked : scene.Checked) (record : α → Nat) (i : Nat) (x : α) :
    ∃ r, scene.rangeAt record i x = some r ∧ r.shards.holds (record x) = true ∧ r.primary ∈ r.group := by
  obtain ⟨r, hr, hc⟩ := rangeOf_contains (checked i) (shardOf (record x))
  exact ⟨r, hr, hc, primary_mem_of_checkRanges (check_ok (checked i)).1 r (mem_of_getElem? hr)⟩

variable {share : List α} {x : α}

/-- What was grouped under a position. -/
lemma grouped {range : Nat} (h : (range, share) ∈ scene.byRange record items) (hx : x ∈ share) :
    ∃ i, items[i]? = some x ∧ scene.positionOf record i x = range :=
  mem_groupBy.1 ⟨share, h, hx⟩

/-- A claim that passed the receiver's check covers every item grouped under its range. -/
lemma holder_of_claim (checked : scene.Checked) (claims : scene.ClaimsAsGrouped record items)
    {range slot : Nat} {node : NodeId} {visit : Visit} (hmem : (range, share) ∈ scene.byRange record items)
    (hcom : site.commits node (scene.claim range slot) visit = true) (hx : x ∈ share) :
    visit.map.holder node (record x) = true := by
  obtain ⟨i, hi, rfl⟩ := grouped hmem hx
  obtain ⟨r, hr, hold, -⟩ := checked.rangeAt_eq record i x
  obtain ⟨r₀, hclaim, same⟩ := Option.map_eq_some_iff.1 ((claims i x hi slot).trans (by rw [hr, Option.map_some]))
  have hok := (Bool.and_eq_true_iff.1 hcom).2
  unfold Site.take at hok
  cases hguard : site.guard node visit.serving with
  | error e =>
    rw [hguard] at hok
    cases hok
  | ok =>
  rw [hguard] at hok
  cases hroute : visit.map.checkRoute (site.name node) node (scene.claim (scene.positionOf record i x) slot) with
  | error e =>
    rw [hroute] at hok
    cases hok
  | ok =>
  rw [claim, RangeMap.routedFor, hclaim, Option.map_some] at hroute
  obtain ⟨⟨shards, hmine, hcov⟩, -⟩ := checkRoute_some.1 hroute r₀.shards mem_cons_self
  obtain ⟨r', hr', hgroup, rfl⟩ := mem_mine.1 hmine
  exact holder_iff.2 ⟨r', hr', hgroup, ShardRange.contains_of_covers hcov (same ▸ hold)⟩

lemma importOnce_holder (checked : scene.Checked) {facts : List OwnedFact}
    (claims : scene.ClaimsAsGrouped OwnedFact.record facts) {s : Sent OwnedFact}
    (hs : s ∈ (scene.importOnce site facts).2) (hcom : s.committed = true) :
    ∀ f ∈ s.share, s.map.holder s.node f.record = true := by
  unfold importOnce at hs
  split at hs
  · cases hs
  obtain ⟨range, share, slot, node, hmem, -, rfl⟩ := mem_sent_answer hs
  intro f hf
  exact holder_of_claim checked claims hmem hcom hf

lemma deleteOnce_holder (checked : scene.Checked) {records : List Nat}
    (claims : scene.ClaimsAsGrouped (fun r => r) records)
    (deletes : scene.DeletesAsGrouped site (fun r => r) records) {s : Sent Nat}
    (hs : s ∈ (scene.deleteOnce site records).2) (hcom : s.committed = true) :
    ∀ r ∈ s.share, s.map.holder s.node r = true := by
  obtain ⟨range, share, slot, node, hmem, hslot, rfl⟩ := mem_sent_answer hs
  intro record hrecord
  by_cases here : node = site.this
  · obtain ⟨i, hi, rfl⟩ := grouped hmem hrecord
    obtain ⟨r, hr, hold, primary⟩ := checked.rangeAt_eq (fun r => r) i record
    obtain ⟨hcopies, hvisit⟩ := deletes i record hi
    refine holder_iff.2 ⟨r, ?_, ?_, hold⟩
    · exact mem_of_getElem? ((hvisit slot (here ▸ hslot)).trans hr)
    · have hnode := mem_of_getElem? hslot
      rw [copiesOf, RangeMap.copiesOfRange, hcopies.trans hr] at hnode
      rcases mem_cons.1 hnode with rfl | hnode
      · exact primary
      · exact mem_of_mem_filter hnode
  · have hcom' : site.commits node (scene.claim range slot) (scene.visit range slot) = true := by
      simpa only [sendDelete, if_neg here] using hcom
    exact holder_of_claim checked claims hmem hcom' hrecord

end Scene

/-- **Routed writes land only on holders, as long as every request is made under the shards its
items were grouped under.** In between, the maps of the receivers may change in any way, and so
may the rest of the coordinator's. -/
theorem routed_writes_land_on_holders (site : Site) (scenes : Scene × Scene)
    (facts : List OwnedFact) (records : List Nat) (routed : site.ownsEverything = false)
    (checked : ∀ scene ∈ [scenes.1, scenes.2], scene.Checked)
    (claims : ∀ scene ∈ [scenes.1, scenes.2], scene.ClaimsAsGrouped OwnedFact.record facts ∧
      scene.ClaimsAsGrouped (fun r => r) records)
    (deletes : ∀ scene ∈ [scenes.1, scenes.2], scene.DeletesAsGrouped site (fun r => r) records) :
    (∀ sent ∈ (site.importBatch scenes.1 scenes.2 facts).2, ∀ s ∈ sent, s.committed = true →
      ∀ f ∈ s.share, s.map.holder s.node f.record = true) ∧
    ∀ sent ∈ (site.delete scenes.1 scenes.2 records).2, ∀ s ∈ sent, s.committed = true →
      ∀ r ∈ s.share, s.map.holder s.node r = true := by
  have attempts : ∀ {P : Scene → Prop}, (∀ scene ∈ [scenes.1, scenes.2], P scene) → P scenes.1 ∧ P scenes.2 := fun h =>
    ⟨h _ mem_cons_self, h _ (mem_cons_of_mem _ mem_cons_self)⟩
  constructor
  · intro sent hsent s hs hcom
    unfold Site.importBatch at hsent
    simp only [routed, Bool.false_eq_true, if_false] at hsent
    rcases mem_retryingStaleRoutes _ _ _ hsent with rfl | rfl
    · exact importOnce_holder (attempts checked).1 (attempts claims).1.1 hs hcom
    · exact importOnce_holder (attempts checked).2 (attempts claims).2.1 hs hcom
  · intro sent hsent s hs hcom
    rcases mem_retryingStaleRoutes _ _ _ hsent with rfl | rfl
    · exact deleteOnce_holder (attempts checked).1 (attempts claims).1.2 (attempts deletes).1 hs hcom
    · exact deleteOnce_holder (attempts checked).2 (attempts claims).2.2 (attempts deletes).2 hs hcom

/-- With both owners up and nothing changing, both batches land where they belong. -/
theorem routed_writes_land_on_holders_twoOwners :
    let up := Scene.under twoOwners fun _ => none
    (∀ sent ∈ (firstOfTwo.importBatch up up oneEach).2, ∀ s ∈ sent, s.committed = true →
      ∀ f ∈ s.share, s.map.holder s.node f.record = true) ∧
    ∀ sent ∈ (firstOfTwo.delete up up [0, 2 ^ 20]).2, ∀ s ∈ sent, s.committed = true →
      ∀ r ∈ s.share, s.map.holder s.node r = true := by
  intro up
  refine routed_writes_land_on_holders firstOfTwo (up, up) oneEach [0, 2 ^ 20] rfl ?_ ?_ ?_
  · simp only [mem_cons, not_mem_nil, or_false, or_self]
    rintro scene rfl i
    rfl
  · simp only [mem_cons, not_mem_nil, or_false, or_self]
    rintro scene rfl
    exact ⟨fun _ _ _ _ => rfl, fun _ _ _ _ => rfl⟩
  · simp only [mem_cons, not_mem_nil, or_false, or_self]
    rintro scene rfl
    exact fun _ _ _ => ⟨rfl, fun _ _ => rfl⟩

/-- The second owner's range cut at shard 3, and the upper part given to a third node. -/
def upperGiven : RangeMap :=
  { twoOwners with
    epoch := 1
    ranges := [⟨0, ⟨0, some 1⟩, [0], 0, none⟩, ⟨1, ⟨1, some 3⟩, [1], 1, none⟩, ⟨2, ⟨3, none⟩, [2], 2, none⟩] }

/-- A batch grouped before the cut, and sent after it. -/
def acrossTheCut : Scene :=
  { Scene.under upperGiven fun _ => none with grouping := fun _ => twoOwners }

/-- The second owner takes a record of the upper part, which it does not hold any more by the
map it checked the route against. -/
theorem write_lands_beside_its_range :
    ((twoOwners.split 3).toOption.bind fun cut => (cut.1.assign cut.2 [2]).toOption) =
        some { upperGiven with epoch := 0 } ∧
    ¬ ∀ sent ∈ (firstOfTwo.importBatch acrossTheCut acrossTheCut [⟨"n", 5 * 2 ^ 20, .int 1⟩]).2,
      ∀ s ∈ sent, s.committed = true → ∀ f ∈ s.share, s.map.holder s.node f.record = true := by
  refine ⟨by decide +kernel, fun h => ?_⟩
  have hheld := h _ mem_cons_self _ mem_cons_self rfl _ mem_cons_self
  revert hheld
  decide +kernel

end BigDb.Cluster
