import BigDb.Cluster.Namespace
import Mathlib.Data.List.Dedup

/-!
# Handing the namespace over

The row keys under `move_schema_leader`. At rest the node the latest map names has every row ever
given out, and every other node either is not named by the map it has applied or was stood down
past that map's epoch. A move copies the keys first and stands the leader down afterwards, and
the stand-down lasts until the next epoch, whatever brings that about. So what is interned between
the two is left behind, and another decision in between ends the stand-down early.
-/

namespace BigDb.Cluster
open Lib List Option Bool

namespace Namespace

section Conditions
variable (s : Namespace)

/-- Whether a move has read the epoch and not been decided yet. -/
def deciding : Bool :=
  s.handover.any fun h =>
    match h.stage with
    | .read _ | .stood | .floor .. | .seeded | .proposing _ => true
    | _ => false

/-- Whether a move is between its copy of a node's keys and that node's standing down. -/
def copiedFrom (n : NodeId) : Bool :=
  s.handover.any fun h => h.source = n &&
    match h.stage with
    | .copying _ | .carrying .. | .copied | .read _ => true
    | _ => false

def upToDate (n : NodeId) : Bool := (s.node n).applied + 1 = s.decided.length

/-- What keeps the namespace in one hand: the leader interns nothing between the copy of its keys
and its standing down, and has no request in hand then; the node that runs the move has applied
the latest map when it reads the epoch, and moves the namespace of the node that map names; and
nothing else is decided from then on until the move is. Other changes are made to the latest map
and do not touch the namespace, and no node that was ever named is restarted. -/
def keepsKeys : NamespaceAction → Bool
  | .decide m => !s.deciding && m.schemaLeader = s.current.schemaLeader && s.current.epoch < m.epoch
  | .restart n _ => s.decided.all (·.schemaLeader ≠ n)
  | .intern n _ => !s.copiedFrom n
  | .reserve _ leader => !s.deciding && s.upToDate leader
  | .next => s.handover.all fun h =>
      match h.stage with
      | .copied => s.upToDate h.coordinator && h.source = s.current.schemaLeader && s.current.epoch < idMax
      | .read _ => (s.node h.source).asked.isEmpty
      | _ => true
  | _ => true

end Conditions

/-! ## The invariant -/

variable (s : Namespace)

/-- What a move has done. -/
def Copied (h : Handover) : HandoverStage → Prop
  | .copying todo => ∀ e ∈ (s.node h.source).keys.entries, e.scope.1 ∈ todo ∨ e ∈ (s.node h.target).keys.entries
  | .carrying keys todo => ∀ e ∈ (s.node h.source).keys.entries,
      e.scope.1 ∈ todo ∨ e ∈ keys ∨ e ∈ (s.node h.target).keys.entries
  | .failed => True
  | _ => ∀ e ∈ (s.node h.source).keys.entries, e ∈ (s.node h.target).keys.entries

/-- What it has made sure of: the epoch it read is that of the latest map, and once the leader
has stood down it stays so. -/
def Halted (h : Handover) : HandoverStage → Prop
  | .read epoch => h.source = s.current.schemaLeader ∧ s.upToDate h.coordinator = true ∧
      epoch = s.current.epoch ∧ epoch < idMax
  | .stood | .floor .. | .seeded => h.source = s.current.schemaLeader ∧
      s.upToDate h.coordinator = true ∧ s.current.epoch < (s.node h.source).stoodDownAt
  | .proposing next => h.source = s.current.schemaLeader ∧ s.upToDate h.coordinator = true ∧
      s.current.epoch < (s.node h.source).stoodDownAt ∧ next.schemaLeader = h.target
  | .decided => s.current.schemaLeader = h.target
  | _ => True

structure Sound : Prop where
  applied : ∀ n, (s.node n).applied < s.decided.length
  epochs : s.decided.Pairwise (·.epoch < ·.epoch)
  /-- who was named and is not any more was stood down past every map that names it -/
  reign : ∀ n, n ≠ s.current.schemaLeader → ∀ m ∈ s.decided, m.schemaLeader = n → m.epoch < (s.node n).stoodDownAt
  /-- only the leader has requests in hand, and only until it stands down -/
  asked : ∀ n, n ≠ s.current.schemaLeader → (s.node n).asked = []
  stopped : ∀ n, s.current.epoch < (s.node n).stoodDownAt → (s.node n).asked = []
  kept : ∀ d ∈ s.made, d.key ∈ (s.node s.current.schemaLeader).keys.entries
  proper : ∀ d ∈ s.made, d.node = d.leader ∧ d.stoodDown = false
  handover : ∀ h, s.handover = some h → h.source ≠ h.target ∧ Copied s h h.stage ∧ Halted s h h.stage

/-- Nothing that has to do with keys is different. -/
structure Same (s s' : Namespace) : Prop where
  decided : s'.decided = s.decided
  handover : s'.handover = s.handover
  made : s'.made = s.made
  applied : ∀ n, (s'.node n).applied = (s.node n).applied
  stoodDownAt : ∀ n, (s'.node n).stoodDownAt = (s.node n).stoodDownAt
  keys : ∀ n, (s'.node n).keys = (s.node n).keys
  asked : ∀ n, (s'.node n).asked = (s.node n).asked

section Steps
variable {s s' : Namespace} {n : NodeId} {c : Clerk} {m : RangeMap} {h : Handover} {table : String}

lemma set_self : (s.set n c).node n = c := by simp [set]

lemma set_other {v : NodeId} (hv : v ≠ n) : (s.set n c).node v = s.node v := by simp [set, hv]

lemma Same.refl (s : Namespace) : Same s s := by
  constructor <;> intros <;> rfl

lemma Same.set (applied : c.applied = (s.node n).applied)
    (stoodDownAt : c.stoodDownAt = (s.node n).stoodDownAt) (keys : c.keys = (s.node n).keys)
    (asked : c.asked = (s.node n).asked) : Same s (s.set n c) := by
  have same : ∀ {β : Type} (part : Clerk → β), part c = part (s.node n) → ∀ v,
      part ((s.set n c).node v) = part (s.node v) := by
    intro β part hpart v
    by_cases hv : v = n
    · subst hv
      rw [set_self, hpart]
    · rw [set_other hv]
  exact ⟨rfl, rfl, rfl, same Clerk.applied applied, same Clerk.stoodDownAt stoodDownAt,
    same Clerk.keys keys, same Clerk.asked asked⟩

lemma Same.issued (h : Same s s') (issued : List Issued) : Same s { s' with issued } :=
  ⟨h.decided, h.handover, h.made, h.applied, h.stoodDownAt, h.keys, h.asked⟩

lemma Same.current (h : Same s s') : s'.current = s.current := by
  unfold Namespace.current
  rw [h.decided]

lemma Same.upToDate (h : Same s s') (n : NodeId) : s'.upToDate n = s.upToDate n := by
  unfold Namespace.upToDate
  rw [h.decided, h.applied]

lemma Sound.same (S : Sound s) (h : Same s s') : Sound s' where
  applied n := by
    rw [h.applied, h.decided]
    exact S.applied n
  epochs := by
    rw [h.decided]
    exact S.epochs
  reign n := by
    rw [h.current, h.decided, h.stoodDownAt]
    exact S.reign n
  asked n := by
    rw [h.current, h.asked]
    exact S.asked n
  stopped n := by
    rw [h.current, h.stoodDownAt, h.asked]
    exact S.stopped n
  kept := by
    rw [h.made, h.current, h.keys]
    exact S.kept
  proper := by
    rw [h.made]
    exact S.proper
  handover v hv := by
    rw [h.handover] at hv
    obtain ⟨hne, hcopied, hhalted⟩ := S.handover v hv
    refine ⟨hne, ?_, ?_⟩
    · unfold Copied at hcopied ⊢
      simp only [h.keys]
      exact hcopied
    · unfold Halted at hhalted ⊢
      simp only [h.current, h.upToDate, h.stoodDownAt]
      exact hhalted

lemma current_mem (S : Sound s) : s.current ∈ s.decided := by
  have hne : s.decided ≠ [] := by
    intro hnil
    have := S.applied 0
    rw [hnil] at this
    cases this
  unfold current
  rw [getLast?_eq_some_getLast hne]
  exact getLast_mem hne

lemma mapOf_mem (S : Sound s) (n : NodeId) : s.mapOf n ∈ s.decided := by
  unfold mapOf
  rw [getElem?_eq_getElem (S.applied n)]
  exact getElem_mem _

lemma mapOf_upToDate (h : s.upToDate n = true) : s.mapOf n = s.current := by
  have h : (s.node n).applied + 1 = s.decided.length := of_decide_eq_true h
  unfold mapOf current
  rw [getLast?_eq_getElem?, ← h]
  rfl

/-- No map is newer than the latest. -/
lemma epoch_le (S : Sound s) (hm : m ∈ s.decided) : m.epoch ≤ s.current.epoch := by
  obtain ⟨i, hi⟩ := getElem?_of_mem hm
  obtain ⟨hlt, rfl⟩ := List.getElem?_eq_some_iff.1 hi
  have hlast : s.current = s.decided[s.decided.length - 1] := by
    unfold current
    rw [getLast?_eq_getElem?, getElem?_eq_getElem (by omega)]
    rfl
  rw [hlast]
  rcases Nat.lt_or_ge i (s.decided.length - 1) with h | h
  · exact (pairwise_iff_getElem.1 S.epochs _ _ hlt (by omega) h).le
  · have : i = s.decided.length - 1 := by omega
    simp only [this, le_refl]

/-- Who passes the check is whom the latest map names. -/
lemma Sound.leads (S : Sound s) (h : s.guard n = true) :
    n = s.current.schemaLeader ∧ (s.node n).stoodDownAt ≤ s.current.epoch := by
  simp only [guard, and_eq_true, decide_eq_true_eq] at h
  obtain ⟨⟨⟨hnamed, hstood⟩, -⟩, -⟩ := h
  refine ⟨?_, hstood.trans (epoch_le S (mapOf_mem S n))⟩
  by_contra hne
  have := S.reign n hne _ (mapOf_mem S n) hnamed
  omega

lemma current_append (m : RangeMap) : current { s with decided := s.decided ++ [m] } = m := by
  simp [current]

section
variable (S : Sound s)
include S

/-- A decision after the latest. -/
lemma Sound.epochs_append (newer : s.current.epoch < m.epoch) : (s.decided ++ [m]).Pairwise (·.epoch < ·.epoch) := by
  refine pairwise_append.2 ⟨S.epochs, pairwise_singleton _ _, fun a ha b hb => ?_⟩
  rw [mem_singleton.1 hb]
  exact (epoch_le S ha).trans_lt newer

/-- A change to the map that leaves the namespace where it is. -/
lemma Sound.change (still : s.deciding = false)
    (leader : m.schemaLeader = s.current.schemaLeader) (newer : s.current.epoch < m.epoch) :
    Sound { s with decided := s.decided ++ [m] } where
  applied n := (S.applied n).trans (by simp)
  epochs := S.epochs_append newer
  reign n hn m' hm' hnamed := by
    rw [current_append, leader] at hn
    rcases mem_concat.1 hm' with hm' | rfl
    · exact S.reign n hn m' hm' hnamed
    · exact (hn (hnamed.symm.trans leader)).elim
  asked n hn := by
    rw [current_append, leader] at hn
    exact S.asked n hn
  stopped n hdown := by
    rw [current_append] at hdown
    exact S.stopped n (newer.trans hdown)
  kept := by
    rw [current_append, leader]
    exact S.kept
  proper := S.proper
  handover h hh := by
    obtain ⟨hne, hcopied, hhalted⟩ := S.handover h hh
    refine ⟨hne, hcopied, ?_⟩
    rw [deciding, show s.handover = some h from hh, any_some] at still
    unfold Halted at hhalted ⊢
    cases hstage : h.stage with
    | decided =>
      rw [hstage] at hhalted
      rw [current_append, leader]
      exact hhalted
    | read epoch | stood | floor value seen | seeded | proposing next => simp [hstage] at still
    | copying todo | carrying keys todo | copied | failed => trivial

lemma Sound.decided {next : RangeMap} (hh : s.handover = some h) (hstage : h.stage = .proposing next) : Sound { s with
      decided := s.decided ++ [{ next with epoch := (s.mapOf h.coordinator).epoch + 1 }]
      handover := some { h with stage := .decided } } := by
  obtain ⟨hne, hcopied, hhalted⟩ := S.handover h hh
  rw [hstage] at hcopied hhalted
  obtain ⟨hsource, hcoord, hstood, htarget⟩ := hhalted
  have hcurrent : ∀ handover, current { s with
      decided := s.decided ++ [{ next with epoch := (s.mapOf h.coordinator).epoch + 1 }]
      handover } = { next with epoch := (s.mapOf h.coordinator).epoch + 1 } := by
    intro handover
    simp [current]
  refine ⟨fun n => (S.applied n).trans (by simp), ?_, fun n hn m hm hnamed => ?_, fun n hn => ?_,
    fun n hdown => ?_, fun d hd => ?_, S.proper, fun h' hh' => ?_⟩
  · refine S.epochs_append ?_
    rw [mapOf_upToDate hcoord]
    exact Nat.lt_succ_self _
  · rw [hcurrent] at hn
    rcases mem_concat.1 hm with hm | rfl
    · by_cases hns : n = h.source
      · subst hns
        exact (epoch_le S hm).trans_lt hstood
      · exact S.reign n (hsource ▸ hns) m hm hnamed
    · exact (hn hnamed.symm).elim
  · by_cases hns : n = h.source
    · subst hns
      exact S.stopped _ hstood
    · exact S.asked n (hsource ▸ hns)
  · rw [hcurrent, mapOf_upToDate hcoord] at hdown
    exact S.stopped n (Nat.lt_of_succ_lt hdown)
  · rw [hcurrent]
    have := S.kept d hd
    rw [← hsource] at this
    have := hcopied _ this
    rw [← htarget] at this
    exact this
  · obtain rfl := some.inj hh'
    refine ⟨hne, hcopied, ?_⟩
    rw [Halted, hcurrent]
    exact htarget

/-- A move has stood its leader down past the latest map. -/
lemma Sound.down (hh : s.handover = some h) (hdown : h.stage.down = true) :
    h.source = s.current.schemaLeader ∧ s.current.epoch < (s.node h.source).stoodDownAt := by
  obtain ⟨-, -, hhalted⟩ := S.handover h hh
  cases hstage : h.stage with
  | stood | floor value seen | seeded =>
    rw [hstage] at hhalted
    exact ⟨hhalted.1, hhalted.2.2⟩
  | proposing next =>
    rw [hstage] at hhalted
    exact ⟨hhalted.1, hhalted.2.2.1⟩
  | copying todo | carrying keys todo | copied | read epoch | decided | failed =>
    simp [hstage, HandoverStage.down] at hdown

lemma Sound.not_standsDown (hasked : (s.node n).asked ≠ []) : s.standsDown n = false := by
  rw [eq_false_iff]
  intro hdown
  rw [standsDown, or_eq_true, decide_eq_true_eq] at hdown
  rcases hdown with hdown | hdown
  · exact hasked (S.stopped n hdown)
  obtain ⟨h, hh, hdown⟩ := (any_eq_true _ _).1 hdown
  obtain ⟨hsource, hstage⟩ := and_eq_true_iff.1 hdown
  obtain rfl : h.source = n := of_decide_eq_true hsource
  exact hasked (S.stopped _ (S.down hh hstage).2)

end

/-- What is known of a move whose nodes keep their maps and marks. -/
lemma Halted.of (H : Halted s h h.stage) (hh : s.handover = some h) (current : s'.current = s.current)
    (upToDate : s.deciding = true → s.upToDate h.coordinator = true → s'.upToDate h.coordinator = true)
    (stoodDownAt : h.stage.down = true → (s.node h.source).stoodDownAt ≤ (s'.node h.source).stoodDownAt) :
    Halted s' h h.stage := by
  have busy : ∀ {stage}, h.stage = stage → (stage.down = true ∨ ∃ epoch, stage = .read epoch) → s.deciding = true := by
    rintro stage rfl hstage
    rw [deciding, hh, any_some]
    rcases hstage with hstage | ⟨epoch, hstage⟩
    · unfold HandoverStage.down at hstage
      split at hstage <;> simp_all
    · rw [hstage]
  have stays : h.stage.down = true → s.current.epoch < (s.node h.source).stoodDownAt →
      s.upToDate h.coordinator = true → s'.upToDate h.coordinator = true ∧
        s'.current.epoch < (s'.node h.source).stoodDownAt := by
    intro hdown hepoch hup
    rw [current]
    exact ⟨upToDate (busy rfl (.inl hdown)) hup, hepoch.trans_le (stoodDownAt hdown)⟩
  unfold Halted at H ⊢
  cases hstage : h.stage with
  | read epoch =>
    rw [hstage] at H
    rw [current]
    exact ⟨H.1, upToDate (busy hstage (.inr ⟨epoch, rfl⟩)) H.2.1, H.2.2⟩
  | stood | floor value seen | seeded =>
    rw [hstage] at H
    exact ⟨current ▸ H.1, stays (by rw [hstage]; rfl) H.2.2 H.2.1⟩
  | proposing next =>
    rw [hstage] at H
    obtain ⟨hup, hepoch⟩ := stays (by rw [hstage]; rfl) H.2.2.1 H.2.1
    exact ⟨current ▸ H.1, hup, hepoch, H.2.2.2⟩
  | decided =>
    rw [hstage] at H
    rw [current]
    exact H
  | copying todo | carrying keys todo | copied | failed => trivial

variable {stage : HandoverStage}

lemma Copied.of (C : Copied s h stage)
    (source : ∀ e ∈ (s'.node h.source).keys.entries, e ∈ (s.node h.source).keys.entries)
    (target : ∀ e ∈ (s.node h.target).keys.entries, e ∈ (s'.node h.target).keys.entries) : Copied s' h stage := by
  unfold Copied at C ⊢
  cases stage with
  | copying todo => exact fun e he => (C e (source e he)).imp_right (target e)
  | carrying keys todo => exact fun e he => (C e (source e he)).imp_right (Or.imp_right (target e))
  | failed => trivial
  | copied | read epoch | stood | floor value seen | seeded | proposing next | decided =>
    exact fun e he => target e (C e (source e he))

section
variable (S : Sound s)
include S

/-- A node changes whose keys grow, if it is not the source of a move that is copying them or
has. -/
lemma Sound.set (made : List Made) (applied : c.applied < s.decided.length)
    (stoodDownAt : (s.node n).stoodDownAt ≤ c.stoodDownAt ∨ ∀ m ∈ s.decided, m.schemaLeader ≠ n)
    (asked : n ≠ s.current.schemaLeader → c.asked = []) (stopped : s.current.epoch < c.stoodDownAt → c.asked = [])
    (grows : ∀ e ∈ (s.node n).keys.entries, e ∈ c.keys.entries)
    (keys : ∀ h, s.handover = some h → h.stage ≠ .failed → h.source = n → c.keys.entries = (s.node n).keys.entries)
    (upToDate : ∀ h, s.handover = some h → h.coordinator = n → s.deciding = true →
      s.upToDate n = true → c.applied = (s.node n).applied)
    (kept : ∀ d ∈ made, d ∈ s.made ∨ (n = s.current.schemaLeader ∧ d.key ∈ c.keys.entries ∧
      d.node = d.leader ∧ d.stoodDown = false)) :
    Sound { s.set n c with made } where
  applied v := by
    by_cases hv : v = n
    · subst hv
      simpa [Namespace.set] using applied
    · simpa [Namespace.set, hv] using S.applied v
  epochs := S.epochs
  reign v hv m hm hnamed := by
    have := S.reign v hv m hm hnamed
    by_cases hvn : v = n
    · subst hvn
      rcases stoodDownAt with hle | hnever
      · simpa [Namespace.set] using this.trans_le hle
      · exact (hnever m hm hnamed).elim
    · simpa [Namespace.set, hvn] using this
  asked v hv := by
    by_cases hvn : v = n
    · subst hvn
      simpa [Namespace.set] using asked hv
    · simpa [Namespace.set, hvn] using S.asked v hv
  stopped v hdown := by
    change ((s.set n c).node v).asked = []
    change s.current.epoch < ((s.set n c).node v).stoodDownAt at hdown
    by_cases hvn : v = n
    · rw [hvn, set_self] at hdown ⊢
      exact stopped hdown
    · rw [set_other hvn] at hdown ⊢
      exact S.stopped v hdown
  kept d hd := by
    change d.key ∈ ((s.set n c).node s.current.schemaLeader).keys.entries
    rcases kept d hd with hd | ⟨hn, hkey, -⟩
    · by_cases hvn : s.current.schemaLeader = n
      · rw [hvn, set_self]
        exact grows _ (hvn ▸ S.kept d hd)
      · rw [set_other hvn]
        exact S.kept d hd
    · rw [← hn, set_self]
      exact hkey
  proper d hd := by
    rcases kept d hd with hd | ⟨-, -, hproper⟩
    · exact S.proper d hd
    · exact hproper
  handover h hh := by
    obtain ⟨hne, hcopied, hhalted⟩ := S.handover h hh
    refine ⟨hne, ?_, ?_⟩
    · by_cases hfailed : h.stage = .failed
      · rw [hfailed]
        trivial
      refine hcopied.of (fun e he => ?_) (fun e he => ?_)
      · change e ∈ ((s.set n c).node h.source).keys.entries at he
        by_cases hvn : h.source = n
        · rw [hvn, set_self, keys h hh hfailed hvn] at he
          rw [hvn]
          exact he
        · rwa [set_other hvn] at he
      · change e ∈ ((s.set n c).node h.target).keys.entries
        by_cases hvn : h.target = n
        · rw [hvn, set_self]
          exact grows e (hvn ▸ he)
        · rwa [set_other hvn]
    · refine hhalted.of hh rfl (fun hdeciding hup => ?_) (fun hdown => ?_)
      · have same : ((s.set n c).node h.coordinator).applied = (s.node h.coordinator).applied := by
          by_cases hvn : h.coordinator = n
          · rw [hvn] at hup ⊢
            rw [set_self, upToDate h hh hvn hdeciding hup]
          · rw [set_other hvn]
        unfold Namespace.upToDate at hup ⊢
        rw [← same] at hup
        exact hup
      · change _ ≤ ((s.set n c).node h.source).stoodDownAt
        by_cases hvn : h.source = n
        · rw [hvn, set_self]
          rcases stoodDownAt with hle | hnever
          · exact hle
          · exact (hnever _ (current_mem S) ((S.down hh hdown).1.symm.trans hvn)).elim
        · rw [set_other hvn]

/-- A move is given up, or comes to a point it has earned. -/
lemma Sound.withStage (hh : s.handover = some h) (copied : Copied s h stage) (halted : Halted s h stage) :
    Sound { s with handover := some { h with stage } } := by
  refine { S with handover := fun h' hh' => ?_ }
  obtain rfl := some.inj hh'
  refine ⟨(S.handover h hh).1, ?_, ?_⟩
  · unfold Copied at copied ⊢
    exact copied
  · unfold Halted at halted ⊢
    exact halted

lemma Sound.restart {applied : Nat} (hle : applied ≤ (s.node n).applied)
    (never : ∀ m ∈ s.decided, m.schemaLeader ≠ n) :
    Sound { s.set n ⟨applied, 0, none, 0, (s.node n).keys, [], false, none⟩ with
      handover := s.handover.map fun h =>
        if h.coordinator = n ∧ h.stage ≠ .decided then { h with stage := .failed } else h } := by
  -- the move first: one that goes on is run by another node
  have ended : Sound { s with handover := s.handover.map fun h =>
      if h.coordinator = n ∧ h.stage ≠ .decided then { h with stage := .failed } else h } := by
    refine ⟨S.applied, S.epochs, S.reign, S.asked, S.stopped, S.kept, S.proper, fun h' hh' => ?_⟩
    obtain ⟨h, hh, rfl⟩ := map_eq_some_iff.1 hh'
    obtain ⟨hne, hcopied, hhalted⟩ := S.handover h hh
    split
    · exact ⟨hne, trivial, trivial⟩
    · exact ⟨hne, hcopied, hhalted⟩
  refine ended.set s.made (hle.trans_lt (S.applied n)) (.inr never) (fun _ => rfl) (fun _ => rfl)
    (fun e he => he) (fun _ _ _ _ => rfl) (fun h' hh' hcoord hdeciding => ?_) (fun d hd => .inl hd)
  obtain ⟨h, hh, rfl⟩ := map_eq_some_iff.1 hh'
  exfalso
  unfold deciding at hdeciding
  rw [hh'] at hdeciding
  split at hdeciding
  · cases hdeciding
  · next hgoes =>
    rw [if_neg hgoes] at hcoord
    have hdecided : h.stage = .decided := by
      by_contra hstage
      exact hgoes ⟨hcoord, hstage⟩
    rw [any_some, hdecided] at hdeciding
    cases hdeciding

lemma Sound.learn (more : (s.node n).applied + 1 < s.decided.length) :
    Sound (s.set n { s.node n with applied := (s.node n).applied + 1 }) := by
  refine S.set s.made more (.inl le_rfl) (fun hn => S.asked n hn) (S.stopped n)
    (fun e he => he) (fun _ _ _ _ => rfl) (fun h hh hcoord _ hup => ?_) (fun d hd => .inl hd)
  have hup : (s.node n).applied + 1 = s.decided.length := of_decide_eq_true hup
  omega

/-- A request is taken in hand. -/
lemma Sound.ask (hguard : s.guard n = true) (request : Scope × String) :
    Sound (s.set n { s.node n with asked := (s.node n).asked ++ [request] }) := by
  obtain ⟨hleads, hepoch⟩ := S.leads hguard
  refine S.set s.made (S.applied n) (.inl le_rfl) (fun hn => (hn hleads).elim) (fun hdown => ?_)
    (fun e he => he) (fun _ _ _ _ => rfl) (fun _ _ _ _ _ => rfl) (fun d hd => .inl hd)
  have hdown : s.current.epoch < (s.node n).stoodDownAt := hdown
  omega

/-- A request is done with. -/
lemma Sound.drop (i : Nat) : Sound (s.set n { s.node n with asked := (s.node n).asked.eraseIdx i }) := by
  have none : (s.node n).asked = [] → (s.node n).asked.eraseIdx i = [] := fun h => by rw [h]; rfl
  exact S.set s.made (S.applied n) (.inl le_rfl) (fun hn => none (S.asked n hn))
    (fun hdown => none (S.stopped n hdown)) (fun e he => he) (fun _ _ _ _ => rfl) (fun _ _ _ _ _ => rfl)
    (fun d hd => .inl hd)

/-- A request is carried out. -/
lemma Sound.intern {i : Nat} {scope : Scope} {name : String} {row : Nat} {keys : KeyStore}
    (still : s.copiedFrom n = false) (hasked : (s.node n).asked[i]? = some (scope, name))
    (hintern : (s.node n).keys.intern scope name = .ok (row, keys)) :
    Sound { s.set n { s.node n with asked := (s.node n).asked.eraseIdx i, keys } with
      made := s.made ++ [⟨n, ⟨scope, name, row⟩, s.current.schemaLeader, s.standsDown n⟩] } := by
  have busy : (s.node n).asked ≠ [] := by
    intro h
    rw [h] at hasked
    cases hasked
  have leads : n = s.current.schemaLeader := by
    by_contra hn
    exact busy (S.asked n hn)
  have up : s.standsDown n = false := S.not_standsDown busy
  obtain ⟨hkey, hgrows⟩ := KeyStore.intern_ok hintern
  refine S.set _ (S.applied n) (.inl le_rfl) (fun hn => (hn leads).elim) (fun hdown => ?_) hgrows
    (fun h hh hstage hsource => ?_) (fun _ _ _ _ _ => rfl) (fun d hd => ?_)
  · exact (busy (S.stopped n hdown)).elim
  · -- the move has stood the node down, or has been decided
    exfalso
    obtain ⟨hne, -, hhalted⟩ := S.handover h hh
    rw [copiedFrom, hh, any_some, hsource] at still
    rw [standsDown, hh, any_some, hsource, or_eq_false_iff] at up
    cases hs : h.stage with
    | decided =>
      rw [hs] at hhalted
      exact hne (hsource.trans (leads.trans hhalted))
    | failed => exact hstage hs
    | copying todo | carrying keys todo | copied | read epoch => simp [hs] at still
    | stood | floor value seen | seeded | proposing next => simp [hs, HandoverStage.down] at up
  · rcases mem_concat.1 hd with hd | rfl
    · exact .inl hd
    · exact .inr ⟨leads, hkey, leads, up⟩

lemma Sound.move {coordinator source target : NodeId} {tables : List Nat} (hne : source ≠ target) :
    Sound { s with handover := some ⟨coordinator, source, target,
      .copying (tables ++ (s.node source).keys.entries.map (·.scope.1)).dedup⟩ } := by
  refine { S with handover := fun h hh => ?_ }
  obtain rfl := some.inj hh
  refine ⟨hne, fun e he => .inl ?_, trivial⟩
  exact mem_dedup.2 (mem_append_right _ (mem_map_of_mem he))

end

/-- The next step of a move. -/
lemma Sound.advance (S : Sound s) (hh : s.handover = some h)
    (ok : s.keepsKeys .next = true) : Sound (s.advance table h) := by
  obtain ⟨hne, hcopied, hhalted⟩ := S.handover h hh
  rw [keepsKeys, hh, all_some] at ok
  unfold Namespace.advance
  cases hstage : h.stage with
  | copying todo =>
    rw [hstage] at hcopied
    cases todo with
    | nil =>
      refine S.withStage hh (fun e he => ?_) trivial
      rcases hcopied e he with h | h
      · cases h
      · exact h
    | cons t todo =>
      refine S.withStage hh (fun e he => ?_) trivial
      rcases hcopied e he with h | h
      · rcases mem_cons.1 h with h | h
        · exact .inr (.inl (mem_filter.2 ⟨he, decide_eq_true h⟩))
        · exact .inl h
      · exact .inr (.inr h)
  | carrying keys todo =>
    rw [hstage] at hcopied
    dsimp only
    split
    · next keys' hassign =>
      obtain ⟨hcarried, hgrows⟩ := KeyStore.assignAll_ok hassign
      have filled : Sound (s.set h.target { s.node h.target with keys := keys' }) :=
        S.set s.made (S.applied _) (.inl le_rfl) (fun hn => S.asked _ hn) (S.stopped _) hgrows
          (fun h' hh' _ hsource => (hne (by rw [hh] at hh'; cases hh'; exact hsource)).elim)
          (fun _ _ _ _ _ => rfl) (fun d hd => .inl hd)
      refine filled.withStage hh (fun e he => ?_) trivial
      rw [set_other hne] at he
      rw [set_self]
      rcases hcopied e he with h | h | h
      · exact .inl h
      · exact .inr (hcarried e h)
      · exact .inr (hgrows e h)
    · exact S.withStage hh trivial trivial
  | copied =>
    rw [hstage] at hcopied ok
    simp only [and_eq_true, decide_eq_true_eq] at ok
    refine S.withStage hh hcopied ⟨ok.1.2, ok.1.1, ?_, ?_⟩
    · rw [mapOf_upToDate ok.1.1]
    · rw [mapOf_upToDate ok.1.1]
      exact ok.2
  | read epoch =>
    rw [hstage] at hcopied hhalted ok
    obtain ⟨hsource, hup, rfl, hmax⟩ := hhalted
    have hasked : (s.node h.source).asked = [] := isEmpty_iff.1 ok
    have hlt : s.current.epoch < satAdd s.current.epoch 1 := by
      unfold satAdd
      omega
    have down : Sound (s.set h.source { s.node h.source with
        stoodDownAt := max (s.node h.source).stoodDownAt (satAdd s.current.epoch 1) }) :=
      S.set s.made (S.applied _) (.inl (le_max_left _ _)) (fun hn => S.asked _ hn)
        (fun _ => hasked) (fun e he => he) (fun _ _ _ _ => rfl)
        (fun _ _ _ _ _ => rfl) (fun d hd => .inl hd)
    refine down.withStage hh (fun e he => ?_) ⟨hsource, ?_, ?_⟩
    · rw [set_self] at he
      rw [set_other hne.symm]
      exact hcopied e he
    · unfold Namespace.upToDate at hup ⊢
      by_cases hc : h.coordinator = h.source
      · rw [hc] at hup ⊢
        rw [set_self]
        exact hup
      · rw [set_other hc]
        exact hup
    · rw [set_self]
      exact hlt.trans_le (le_max_right _ _)
  | stood =>
    rw [hstage] at hcopied hhalted
    exact S.withStage hh hcopied hhalted
  | floor value seen =>
    rw [hstage] at hcopied hhalted
    have seeded : Sound (s.set h.target { s.node h.target with
        floor := some (max ((s.node h.target).floor.getD 0) value)
        seen := max (s.node h.target).seen seen }) :=
      S.same (Same.set rfl rfl rfl rfl)
    have same : Same s (s.set h.target { s.node h.target with
        floor := some (max ((s.node h.target).floor.getD 0) value)
        seen := max (s.node h.target).seen seen }) := Same.set rfl rfl rfl rfl
    refine seeded.withStage hh (fun e he => ?_) ?_
    · rw [same.keys] at he ⊢
      exact hcopied e he
    · unfold Halted at hhalted ⊢
      simp only [same.current, same.upToDate, same.stoodDownAt]
      exact hhalted
  | seeded =>
    rw [hstage] at hcopied hhalted
    exact S.withStage hh hcopied ⟨hhalted.1, hhalted.2.1, hhalted.2.2, rfl⟩
  | proposing next => exact S.decided hh hstage
  | decided | failed => exact S

/-- What an allocation does has to do with the namespace only through the map it raises. -/
lemma Same.proceed (table : String) (i : Nat) (a : Allocation) : Same s (s.proceed table n i a) := by
  unfold Namespace.proceed
  dsimp only
  split
  · split
    · exact Same.set rfl rfl rfl rfl
    · exact Same.refl s
  · split
    · exact Same.set rfl rfl rfl rfl
    · refine Same.issued ?_ _
      exact Same.set rfl rfl rfl rfl
  · exact Same.refl s
  · split
    · refine Same.issued ?_ _
      exact Same.set rfl rfl rfl rfl
    · exact Same.refl s

lemma Sound.reserve {leader : NodeId} {a : Allocation} (S : Sound s)
    (still : s.deciding = false) (latest : s.upToDate leader = true) : Sound (s.reserve table n leader a) := by
  unfold Namespace.reserve
  split
  · next start stop upto _ =>
    have same : Same s (s.set n { s.node n with allocating := some { a with
        stage := .awaiting start stop upto s.decided.length } }) := Same.set rfl rfl rfl rfl
    rw [mapOf_upToDate latest]
    refine (S.same same).change still ?_ (Nat.lt_succ_self _)
    rw [RangeMap.reserve_frame]
    rfl
  · exact S

lemma Sound.step {a : NamespaceAction} (S : Sound s) (ok : s.keepsKeys a = true) : Sound (s.step table a) := by
  cases a with
  | decide m =>
    simp only [keepsKeys, and_eq_true, decide_eq_true_eq, not_eq_true'] at ok
    exact S.change ok.1.1 ok.1.2 ok.2
  | learn n =>
    rw [Namespace.step]
    split
    · next more => exact S.learn more
    · exact S
  | touch n inTouch | giveUp n => exact S.same (Same.set rfl rfl rfl rfl)
  | restart n applied =>
    rw [Namespace.step]
    split
    · next hle =>
      refine S.restart hle fun m hm => ?_
      exact of_decide_eq_true (all_eq_true.1 ok m hm)
    · exact S
  | write n ids => exact S.same ⟨rfl, rfl, rfl, fun _ => rfl, fun _ => rfl, fun _ => rfl, fun _ => rfl⟩
  | ask n scope name =>
    rw [Namespace.step]
    split
    · next hguard => exact S.ask hguard _
    · exact S
  | intern n i =>
    rw [Namespace.step]
    split
    · next scope name hasked =>
      dsimp only
      split
      · next row keys hintern =>
        refine S.intern ?_ hasked hintern
        simpa [keepsKeys] using ok
      · exact S.drop i
    · exact S
  | allocate n count =>
    rw [Namespace.step]
    split
    · exact S.same (Same.set rfl rfl rfl rfl)
    · exact S
  | proceed n i =>
    rw [Namespace.step]
    split
    · exact S.same (Same.proceed table i _)
    · exact S
  | reserve n leader =>
    rw [Namespace.step]
    split
    · simp only [keepsKeys, and_eq_true, not_eq_true'] at ok
      exact S.reserve ok.1 ok.2
    · exact S
  | move coordinator target tables =>
    rw [Namespace.step]
    split
    · exact S
    · next free => exact S.move (fun h => free (.inr h))
  | next =>
    rw [Namespace.step]
    split
    · next h hh => exact S.advance hh ok
    · exact S
  | fail =>
    rw [Namespace.step]
    split
    · next h hh =>
      split
      · exact S.withStage hh trivial trivial
      · exact S
    · exact S

/-- At the start. -/
lemma Sound.begin (seed : RangeMap) (keys : NodeId → KeyStore) (held : List (NodeId × Nat)) :
    Sound (.begin seed keys held) where
  applied _ := Nat.zero_lt_one
  epochs := pairwise_singleton _ _
  reign n hn m hm hnamed := by
    obtain rfl := mem_singleton.1 hm
    exact (hn hnamed.symm).elim
  asked _ _ := rfl
  stopped _ _ := rfl
  kept d hd := by
    obtain ⟨e, he, rfl⟩ := mem_map.1 hd
    exact he
  proper d hd := by
    obtain ⟨e, he, rfl⟩ := mem_map.1 hd
    exact ⟨rfl, rfl⟩
  handover h hh := by cases hh

end Steps

end Namespace

/-- `move_schema_leader`, with requests and other changes in between, that way. -/
theorem handover_is_exclusive_and_complete (table : String) (seed : RangeMap) (keys : NodeId → KeyStore)
    (held : List (NodeId × Nat)) (s : Namespace)
    (run : Run (Namespace.step table) (fun s a => s.keepsKeys a = true) (.begin seed keys held) s) :
    (∀ a b, s.guard a = true → s.guard b = true → a = b) ∧
    (∀ d ∈ s.made, d.node = d.leader ∧ d.stoodDown = false) ∧
    (∀ h, s.handover = some h → h.stage = .decided →
      ∀ e ∈ (s.node h.source).keys.entries, e ∈ (s.node h.target).keys.entries) ∧
    (∀ d ∈ s.made, d.key ∈ (s.node s.current.schemaLeader).keys.entries) ∧
    ∀ d ∈ s.made, ∀ d' ∈ s.made, d.key.scope = d'.key.scope → (d.key.name = d'.key.name ↔ d.key.row = d'.key.row) := by
  have S := run.run (Namespace.Sound.begin seed keys held) fun _ _ ok S => S.step ok
  refine ⟨fun a b ha hb => (S.leads ha).1.trans (S.leads hb).1.symm, S.proper, fun h hh hstage => ?_,
    S.kept, fun d hd d' hd' hscope => ⟨fun hname => ?_, fun hrow => ?_⟩⟩
  · have := (S.handover h hh).2.1
    rw [hstage] at this
    exact this
  · rw [(s.node s.current.schemaLeader).keys.nameUnique _ (S.kept d hd) _ (S.kept d' hd') hscope hname]
  · rw [(s.node s.current.schemaLeader).keys.rowUnique _ (S.kept d hd) _ (S.kept d' hd') hscope hrow]

/-- Node 0 names things. -/
def namedByZero : RangeMap :=
  { (default : RangeMap) with ranges := [⟨0, ⟨0, none⟩, [0, 1], 0, none⟩], schemaReady := true }

/-- A run of nodes that start with no keys. -/
def namingRun (actions : List NamespaceAction) : Namespace :=
  play (Namespace.step "t") (.begin namedByZero (fun _ => .empty) []) (actions.map fun a _ => a)

/-- A move of the namespace to node 1, from when nothing is left to copy to the decision. -/
def moveSteps : List NamespaceAction := [.next, .next, .next, .next, .next, .next, .next]

/-- A key, a move, and another key. -/
theorem handover_is_exclusive_and_complete_oneKey :
    let s := namingRun ([.ask 0 (1, 1) "a", .intern 0 0, .move 0 1 [], .next, .next] ++ moveSteps ++
      [.learn 1, .ask 1 (1, 1) "b", .intern 1 0])
    ⟨(1, 1), "a", 0⟩ ∈ (s.node 1).keys.entries ∧ s.made.map (·.node) = [0, 1] ∧ ∀ d ∈ s.made, d.node = d.leader := by
  intro s
  have hrun : Run (Namespace.step "t") (fun s a => s.keepsKeys a = true) (.begin namedByZero (fun _ => .empty) []) s :=
    Run.play (fun s a => s.keepsKeys a) _ (by decide +kernel) (fun _ _ h => h)
  have hmoved : s.handover = some ⟨0, 0, 1, .decided⟩ := by decide +kernel
  have hkey : ⟨(1, 1), "a", 0⟩ ∈ (s.node 0).keys.entries := by decide +kernel
  have hmade : s.made.map (·.node) = [0, 1] := by decide +kernel
  clear_value s
  obtain ⟨-, hproper, hcomplete, -⟩ := handover_is_exclusive_and_complete "t" namedByZero (fun _ => .empty) [] s hrun
  exact ⟨hcomplete _ hmoved rfl _ hkey, hmade, fun d hd => (hproper d hd).1⟩

/-- What is interned after the copy is left behind, and its row is given out again; and any other
decision before the move's own puts the node that was stood down back. -/
theorem namespace_in_two_hands :
    (let s := namingRun ([.move 0 1 [1], .next, .next, .next, .ask 0 (1, 1) "a", .intern 0 0] ++ moveSteps.tail ++
        [.learn 1, .ask 1 (1, 1) "b", .intern 1 0])
      ∃ d ∈ s.made, ∃ d' ∈ s.made, d.key.scope = d'.key.scope ∧ d.key.row = d'.key.row ∧ d.key.name ≠ d'.key.name) ∧
    let s := namingRun ([.move 0 1 []] ++ moveSteps.dropLast ++
      [.decide { namedByZero with epoch := 1 }, .learn 0, .next, .learn 1, .learn 1])
    s.guard 0 = true ∧ s.guard 1 = true := by
  refine ⟨?_, by decide +kernel⟩
  intro s
  have hmade : s.made = [⟨0, ⟨(1, 1), "a", 0⟩, 0, false⟩, ⟨1, ⟨(1, 1), "b", 0⟩, 1, false⟩] := by
    decide +kernel
  rw [hmade]
  exact ⟨_, mem_cons_self, _, mem_cons_of_mem _ mem_cons_self, rfl, rfl, by decide⟩

end BigDb.Cluster
