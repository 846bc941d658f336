import BigDb.Cluster.Serving

/-!
# A split with a handover

`split_range` with a target cuts a range in two in a copy of the map, asks the node serving it
whether the upper part is empty, and then puts the map that gives the upper part away to the
agreement. Nothing is copied. The node that was asked goes on taking writes for the upper part
until it has applied the new map, and what it takes in between is acknowledged and left behind.
-/

namespace BigDb.Cluster
open Lib List RangeMap ShardRange
variable {α : Type}

/-- What is asked for: who runs it, where to cut, and who gets the upper part. -/
structure Split where
  coordinator : NodeId
  cut : Nat
  target : NodeId

/-- How far it has come. -/
inductive SplitStage where
  | fresh
  /-- the map with the range cut, the new range's id and its shards -/
  | cut (next : RangeMap) (id : RangeId) (upper : ShardRange)
  /-- the same, once the upper part was found empty -/
  | empty (next : RangeMap) (id : RangeId) (upper : ShardRange)
  /-- decided, at a position among the decided maps -/
  | decided (position : Nat)
  | refused
deriving DecidableEq, Repr

structure Splitting (α : Type) where
  world : World α
  stage : SplitStage

/-- What can happen next: something else in the cluster, or a step of the split. -/
inductive SplitAction (α : Type) where
  | data (a : Deed α)
  | read
  | ask
  | propose (epoch : Nat)
deriving DecidableEq, Repr

/-- Whether some shards are in a range that is one node's alone. -/
def RangeMap.gives (m : RangeMap) (shards : ShardRange) (node : NodeId) : Bool :=
  m.ranges.any fun r => r.shards.covers shards && r.group = [node] && r.primary = node

namespace RangeMap
variable {m m' : RangeMap} {shards : ShardRange} {node n : NodeId}

lemma gives_iff : m.gives shards node = true ↔
    ∃ r ∈ m.ranges, r.shards.covers shards = true ∧ r.group = [node] ∧ r.primary = node := by
  simp [gives, and_assoc]

/-- A range that is given away is the new holder's alone. -/
lemma gives_of_assign {id : RangeId} {r : Range} (hr : m.rangeWith id = some r)
    (h : m.assign id [node] = .ok m') : m'.gives r.shards node = true := by
  obtain ⟨i, r₀, r', hi, hat, hassign, rfl⟩ := editRange_ok h
  obtain rfl : r₀ = r := by
    rw [rangeWith, hi, Option.bind_some, hat] at hr
    exact Option.some.inj hr
  injection hassign with hassign
  subst hassign
  refine gives_iff.2 ⟨{ r₀ with group := [node], primary := node }, ?_, covers_refl _, rfl, rfl⟩
  exact List.mem_set (lt_of_getElem? hat) _

/-- Nobody else's check lets a write through that is about them. -/
lemma eq_of_gives (checked : m.check = .ok ()) (h : m.gives shards node = true) {name : String}
    {claim : Routed} (hroute : m.checkRoute name n (some claim) = .ok ()) {want : ShardRange}
    (hwant : want ∈ claim.shards) {record : Nat} (hin : want.holds record = true)
    (hs : shards.holds record = true) : n = node := by
  obtain ⟨⟨mine, hmine, hcov'⟩, -⟩ := checkRoute_some.1 hroute want hwant
  obtain ⟨r', hr', hn, rfl⟩ := mem_mine.1 hmine
  obtain ⟨r, hr, hcov, hgroup, -⟩ := gives_iff.1 h
  obtain rfl := contains_unique checked hr' hr (contains_of_covers hcov' hin) (contains_of_covers hcov hs)
  rw [hgroup] at hn
  exact mem_singleton.1 hn

end RangeMap

namespace Splitting
variable [Valued α] (record : α → Nat) (v : Split)

def step (s : Splitting α) : SplitAction α → Splitting α
  | .data a => { s with world := s.world.step record a }
  | .read =>
    match s.stage with
    | .fresh =>
      match (s.world.mapOf v.coordinator).split v.cut with
      | .error _ => { s with stage := .refused }
      | .ok (next, id) =>
        match next.rangeWith id with
        | some upper => { s with stage := .cut next id upper.shards }
        | none => { s with stage := .refused }
    | _ => s
  | .ask =>
    match s.stage with
    | .cut next id upper =>
      let m := s.world.mapOf v.coordinator
      let owner := m.serving (m.rangeOf upper.start)
      if (s.world.node owner).store.any fun f => upper.holds (record f) then
        { s with stage := .refused }
      else { s with stage := .empty next id upper }
    | _ => s
  | .propose epoch =>
    match s.stage with
    | .empty next id _ =>
      match next.assign id [v.target] with
      | .error _ => { s with stage := .refused }
      | .ok m =>
        if m.check.isOk then
          { world := s.world.step record (.decide { m with epoch })
            stage := .decided s.world.decided.length }
        else { s with stage := .refused }
    | _ => s

/-- Who has to hold what was acknowledged in the upper part. -/
def keeper (v : Split) (owner : NodeId) : SplitStage → NodeId
  | .fresh | .cut .. | .refused => owner
  | .empty .. | .decided _ => v.target

/-- What keeps the upper part whole, `owner` being the node that serves it: a write there is
acknowledged on the strength of `owner`'s commit until `owner` has been asked, and nothing waits at
that moment; from then on only the target's commits are, unless the node has applied the new map;
and what is decided later leaves the upper part to the target. Requests are about the shards they
claim, and maps have been checked. -/
def keepsUpper (owner : NodeId) (upper : ShardRange) (s : Splitting α) : SplitAction α → Bool
  | .data (.decide m) => m.check.isOk &&
      match s.stage with
      | .decided _ => m.gives upper v.target
      | _ => true
  | .data (.receive n routed op acked) =>
      (routed.any fun claim => (op.records record).all fun r => claim.shards.any (·.holds r)) &&
      (!op.touches record upper || acked == decide (n = keeper v owner s.stage) ||
        match s.stage with
        | .decided position => n ≠ v.target && position ≤ (s.world.node n).applied
        | .refused => true
        | _ => false)
  | .data (.deleteHere n records acked) =>
      !(.remove records : Op α).touches record upper || s.stage = .refused ||
        acked == decide (n = keeper v owner s.stage)
  | .data _ => true
  | .read =>
      match (s.step record v .read).stage with
      | .cut _ _ shards => shards = upper
      | _ => true
  | .ask =>
      let m := s.world.mapOf v.coordinator
      (m.serving (m.rangeOf upper.start) = owner) && [owner, v.target].all fun n =>
        (s.world.node n).pending.all fun p => !p.1.touches record upper
  | .propose _ => true

def Learned (v : Split) (upper : ShardRange) (w : World α) : SplitStage → Prop
  | .fresh | .refused => True
  | .cut next id shards | .empty next id shards =>
    shards = upper ∧ ∃ r, next.rangeWith id = some r ∧ r.shards = upper
  | .decided position => w.Since position fun m => m.gives upper v.target = true

/-- The invariant of a split that is not refused. -/
structure Sound (owner : NodeId) (upper : ShardRange) (s : Splitting α) : Prop where
  mapped : s.world.Mapped
  learned : Learned v upper s.world s.stage
  keeps : s.stage ≠ .refused → s.world.Keeps record upper (keeper v owner s.stage)

section Steps
variable {record v} {owner : NodeId} {upper : ShardRange} {s : Splitting α}

section
variable (S : Sound record v owner upper s)
include S

/-- A refused split is over. -/
lemma Sound.refused : Sound record v owner upper { s with stage := .refused } :=
  ⟨S.mapped, trivial, fun h => (h rfl).elim⟩

/-- Who lets a write through that is about the upper part. -/
lemma Sound.addressed {a : Deed α} (hstage : s.stage ≠ .refused)
    (ok : s.keepsUpper record v owner upper (.data a) = true) :
    s.world.Addressed record upper (keeper v owner s.stage) a := by
  have same : ∀ {acked : Bool} {n k : NodeId}, (acked == decide (n = k)) = true → (acked = true ↔ n = k) := by
    intro acked n k h
    rw [beq_iff_eq.1 h, decide_eq_true_iff]
  intro n op acked lets htouch
  cases lets with
  | @receive _ routed _ _ hroute =>
    obtain ⟨hclaim, hwho⟩ := Bool.and_eq_true_iff.1 ok
    rw [htouch, Bool.not_true, Bool.false_or] at hwho
    rcases Bool.or_eq_true_iff.1 hwho with hn | hn
    · exact same hn
    have learned := S.learned
    cases hs : s.stage with
    | decided position =>
      -- a node that has applied the new map turns the write away, unless it is the target
      rw [hs] at hn learned
      obtain ⟨hne, hnew⟩ := Bool.and_eq_true_iff.1 hn
      have hgives := World.Since.mapOf learned S.mapped (of_decide_eq_true hnew)
      obtain ⟨r, hr, hup⟩ := any_eq_true.1 htouch
      cases routed with
      | none => cases hclaim
      | some claim =>
        obtain ⟨want, hwant, hin⟩ := any_eq_true.1 (all_eq_true.1 hclaim r hr)
        exact (of_decide_eq_true hne (eq_of_gives (S.mapped.checked _ (S.mapped.mapOf n))
          hgives hroute hwant hin hup)).elim
    | refused => exact (hstage hs).elim
    | fresh | cut next id shards | empty next id shards =>
      rw [hs] at hn
      cases hn
  | deleteHere =>
    rw [keepsUpper, htouch, Bool.not_true, Bool.false_or] at ok
    rcases Bool.or_eq_true_iff.1 ok with hr | hn
    · exact (hstage (of_decide_eq_true hr)).elim
    · exact same hn

/-- Writes, and maps decided by others. -/
lemma Sound.data {a : Deed α} (ok : s.keepsUpper record v owner upper (.data a) = true) :
    Sound record v owner upper { s with world := s.world.step record a } where
  mapped := S.mapped.step fun m ha => by
    subst ha
    exact check_of_isOk (Bool.and_eq_true_iff.1 ok).1
  learned := by
    have learned := S.learned
    cases hstage : s.stage with
    | decided position =>
      rw [hstage] at learned
      refine World.Since.step learned ?_
      rintro m rfl
      have := (Bool.and_eq_true_iff.1 ok).2
      rw [hstage] at this
      exact this
    | fresh | refused => trivial
    | cut next id shards | empty next id shards =>
      rw [hstage] at learned
      exact learned
  keeps hstage := (S.keeps hstage).step (S.addressed hstage ok)

lemma Sound.step {a : SplitAction α} (ok : s.keepsUpper record v owner upper a = true) :
    Sound record v owner upper (s.step record v a) := by
  cases a with
  | data a => exact S.data ok
  | read =>
    unfold keepsUpper at ok
    unfold Splitting.step at ok ⊢
    dsimp only at ok ⊢
    split
    · next hstage =>
      have keeps := S.keeps (by rw [hstage]; simp)
      rw [hstage] at keeps
      split
      · exact S.refused
      · next next id hsplit =>
        split
        · next r hr =>
          refine ⟨S.mapped, ⟨?_, r, hr, ?_⟩, fun _ => keeps⟩
          · simpa [hstage, hsplit, hr] using ok
          · simpa [hstage, hsplit, hr] using ok
        · exact S.refused
    · exact S
  | ask =>
    obtain ⟨howner, hpending⟩ := Bool.and_eq_true_iff.1 ok
    have howner := of_decide_eq_true howner
    unfold Splitting.step
    dsimp only
    split
    · next next id shards hstage =>
      have learned := S.learned
      have keeps := S.keeps (by rw [hstage]; simp)
      rw [hstage] at learned keeps
      obtain ⟨rfl, hr⟩ := learned
      rw [howner]
      split
      · exact S.refused
      · next hempty =>
        have idle : ∀ n ∈ [owner, v.target], s.world.Idle record shards n := by
          intro n hn p hp htouch
          have := all_eq_true.1 (all_eq_true.1 hpending n hn) p hp
          rw [htouch] at this
          cases this
        refine ⟨S.mapped, ⟨rfl, hr⟩, fun _ => ⟨fun f hf howed => ?_, ?_⟩⟩
        · -- the owner holds everything owed, and it holds nothing here
          exact (hempty (any_eq_true.2 ⟨f, keeps.held f hf howed, hf⟩)).elim
        · exact keeps.waits.handover (idle owner (by simp)) (idle v.target (by simp))
    · exact S
  | propose epoch =>
    unfold Splitting.step
    dsimp only
    split
    · next next id shards hstage =>
      have learned := S.learned
      have keeps := S.keeps (by rw [hstage]; simp)
      rw [hstage] at learned keeps
      obtain ⟨rfl, r, hr, hshards⟩ := learned
      split
      · exact S.refused
      · next m hassign =>
        split
        · next hcheck =>
          have mapped : (s.world.step record (.decide { m with epoch })).Mapped :=
            S.mapped.step fun m' hm' => by
              cases hm'
              exact check_of_isOk hcheck
          have hgives := gives_of_assign hr hassign
          rw [hshards] at hgives
          exact ⟨mapped, .decide record hgives, fun _ => ⟨keeps.held, keeps.waits⟩⟩
        · exact S.refused
    · exact S

end

end Steps

end Splitting

end BigDb.Cluster
