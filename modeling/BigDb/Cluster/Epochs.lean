import BigDb.Cluster.Fleet

/-!
# Epochs

A map's epoch is one more than that of the map its proposer goes by, and that is the map the
proposer has folded last, not the last one in its log. `proposeMap` waits until everything is
committed and the driver until everything is committed before it promotes, but a decision that is
committed may still have to be folded, and `markRepaired` waits for nothing. Two maps get one epoch
when the second is proposed before the first is folded.

A leader's driver does so whenever it promotes: in the turn in which the promotion is committed it
is not folded yet, so that the driver promotes again. If everybody is as silent as before, it is
the same map.
-/

namespace BigDb.Cluster
open Lib Lib.Ledger Bool List Option Fleet Controller
variable (log : List Entry)

def mapsIn : List RangeMap := log.filterMap fun e => e.decision.ranges?

/-- A map has a higher epoch than those before it. -/
def Newer (e : Entry) : Prop :=
  ∀ m, e.decision.ranges? = some m → ∀ m' ∈ mapsIn log, m'.epoch < m.epoch

/-- A map has a higher epoch than those before it, or is the last of them once more. -/
def Rising (e : Entry) : Prop :=
  ∀ m, e.decision.ranges? = some m → (∀ m' ∈ mapsIn log, m'.epoch < m.epoch) ∨ (mapsIn log).getLast? = some m

/-- The map decided at an index. -/
def Raft.mapAt (r : Raft) (i : Nat) : Option RangeMap := (r.entryAt i).bind fun e => e.decision.ranges?

variable {config : ClusterConfig} {m : RangeMap}

/-- Every map a controller has appended is one epoch past its own. -/
lemma Controller.accepts_epoch {c : Controller} {action : Controller.Action}
    {r : Raft} {d : Decision} (h : c.accepts config action = some (r, d))
    (hm : d.ranges? = some m) : m.epoch = c.ranges.epoch + 1 := by
  rcases accepts_cases h with ⟨incoming, now, m', -, -, hpromo, rfl⟩ | ⟨-, -, hasks⟩
  · cases hm
    exact (promoted_of_promotionFor _ _ _ hpromo).2.2
  · rcases asks_map hasks hm with ⟨next, -, rfl⟩ | ⟨node, -, rfl⟩ <;> rfl

namespace Fleet
variable (config : ClusterConfig) (f : Fleet)

/-- The agreement survives the action, and no map is appended by a node that has not folded a map
at least as new as every one in its log. -/
def keepsEpochs (a : FleetAction) : Bool :=
  f.steady a && (f.acts a).all fun p => ((f.nodes p.1).accepts (config.of p.1) p.2).all fun q =>
    q.2.ranges?.all fun _ => (mapsIn q.1.log).all fun m => m.epoch ≤ (f.nodes p.1).ranges.epoch

/-- Or it is the last map in its log that is appended once more. -/
def keepsMaps (a : FleetAction) : Bool :=
  f.steady a && (f.acts a).all fun p => ((f.nodes p.1).accepts (config.of p.1) p.2).all fun q =>
    q.2.ranges?.all fun next => ((mapsIn q.1.log).all fun m => m.epoch ≤ (f.nodes p.1).ranges.epoch) ||
      (mapsIn q.1.log).getLast? = some next

variable {config f}

section
variable {a : FleetAction} {n : NodeId} {action : Controller.Action} {r : Raft} {d : Decision}
  (hacts : f.acts a = some (n, action))
  (haccepts : (f.nodes n).accepts (config.of n) action = some (r, d))
include hacts haccepts

lemma newer_of_keepsEpochs (ok : f.keepsEpochs config a = true) : Newer r.log ⟨r.term, d⟩ := by
  intro m hm m' hm'
  have hm : d.ranges? = some m := hm
  rw [keepsEpochs, hacts, all_some, haccepts, all_some, hm, all_some, and_eq_true] at ok
  have hle := of_decide_eq_true (all_eq_true.1 ok.2 m' hm')
  rw [accepts_epoch haccepts hm]
  exact Nat.lt_succ_of_le hle

lemma rising_of_keepsMaps (ok : f.keepsMaps config a = true) : Rising r.log ⟨r.term, d⟩ := by
  intro m hm
  have hm : d.ranges? = some m := hm
  rw [keepsMaps, hacts, all_some, haccepts, all_some, hm, all_some, and_eq_true, or_eq_true] at ok
  rcases ok.2 with hnewer | hsame
  · refine .inl fun m' hm' => ?_
    have hle := of_decide_eq_true (all_eq_true.1 hnewer m' hm')
    rw [accepts_epoch haccepts hm]
    exact Nat.lt_succ_of_le hle
  · exact .inr (of_decide_eq_true hsame)

end

end Fleet

/-! ## The maps of a log -/

section Logs
variable {log} {i j : Nat} {e e' : Entry} {m m' : RangeMap}

lemma mem_mapsIn_take (hij : i < j) (he : log[i]? = some e) (hm : e.decision.ranges? = some m) :
    m ∈ mapsIn (log.take j) := by
  refine mem_filterMap.2 ⟨e, ?_, hm⟩
  have hin : (log.take j)[i]? = some e := by rw [getElem?_take_of_lt hij, he]
  exact mem_of_getElem? hin

lemma mapsIn_concat (log : List Entry) (e : Entry) :
    mapsIn (log ++ [e]) = mapsIn log ++ e.decision.ranges?.toList := by
  rw [mapsIn, filterMap_append]
  cases hm : e.decision.ranges? <;> simp [mapsIn, hm]

/-- In a log of such maps the last is at least as new as the others, and the only one of its epoch. -/
lemma last_of_rising (marked : Lib.Marked Rising log) (hlast : (mapsIn log).getLast? = some m)
    (hm' : m' ∈ mapsIn log) : m' = m ∨ m'.epoch < m.epoch := by
  induction log using reverseRecOn generalizing m m' with
  | nil => cases hm'
  | append_singleton log e ih =>
    have before := marked.of_prefix (prefix_append log [e])
    have here : Rising log e := by
      have := marked log.length e (by rw [getElem?_concat_length])
      rwa [take_left] at this
    rw [mapsIn_concat] at hlast hm'
    cases hme : e.decision.ranges? with
    | none =>
      rw [hme, toList_none, append_nil] at hlast hm'
      exact ih before hlast hm'
    | some m₀ =>
      rw [hme, toList_some] at hlast hm'
      rw [getLast?_concat] at hlast
      obtain rfl := some.inj hlast
      rcases mem_append.1 hm' with hm' | hm'
      · rcases here m₀ hme with hnewer | hsame
        · exact .inr (hnewer m' hm')
        · exact ih before hsame hm'
      · exact .inl (mem_singleton.1 hm')

/-- A later map is the same or newer. -/
lemma epoch_of_rising (marked : Lib.Marked Rising log) (hij : i < j) (hi : log[i]? = some e)
    (hj : log[j]? = some e') (hm : e.decision.ranges? = some m) (hm' : e'.decision.ranges? = some m') :
    m = m' ∨ m.epoch < m'.epoch := by
  have hin := mem_mapsIn_take hij hi hm
  rcases marked j e' hj m' hm' with hnewer | hsame
  · exact .inr (hnewer m hin)
  · exact last_of_rising (marked.of_prefix (List.take_prefix j log)) hsame hin

end Logs

/-- While nothing is cut off, an index is a place in the log. -/
lemma Tracks.mapAt {Q : List Entry → Entry → Prop} {h : Ledger Entry NodeId}
    {f : Fleet} (T : Tracks config Q h f) {v : NodeId} {i : Nat} (hm : (f.nodes v).raft.mapAt i = some m) :
    ∃ e, (f.nodes v).raft.log[i]? = some e ∧ e.decision.ranges? = some m := by
  obtain ⟨e, he, hm⟩ := bind_eq_some_iff.1 hm
  rw [Raft.entryAt, (T.agrees v).base, if_pos (Nat.zero_le _), Nat.sub_zero] at he
  exact ⟨e, he, hm⟩

/-- Epochs identify maps, that way, and go up by every decision if none is made twice. -/
theorem committed_epochs_identify_maps (config : ClusterConfig) (clock : NodeId → Nat) (f f' : Fleet)
    (start : Run (Fleet.step config) (fun f a => f.keepsMaps config a = true) (.begin config clock) f)
    (rest : Run (Fleet.step config) (fun f a => f.keepsMaps config a = true) f f') :
    (∀ v w i j m m', i ≤ (f.nodes v).raft.commit → j ≤ (f'.nodes w).raft.commit →
      (f.nodes v).raft.mapAt i = some m → (f'.nodes w).raft.mapAt j = some m' →
      m.epoch = m'.epoch → m = m') ∧
    (∀ v i j m m', i < j → j ≤ (f.nodes v).raft.commit → (f.nodes v).raft.mapAt i = some m →
      (f.nodes v).raft.mapAt j = some m' → m = m' ∨ m.epoch < m'.epoch) ∧
    (Run (Fleet.step config) (fun f a => f.keepsEpochs config a = true) (.begin config clock) f →
      ∀ v i j m m', i < j → j ≤ (f.nodes v).raft.commit → (f.nodes v).raft.mapAt i = some m →
      (f.nodes v).raft.mapAt j = some m' → m.epoch < m'.epoch) := by
  have T₀ : Tracks config Rising blank (.begin config clock) := .begin clock nofun
  have along : ∀ {h : Ledger Entry NodeId} {g g' : Fleet}, Tracks config Rising h g →
      Run (Fleet.step config) (fun f a => f.keepsMaps config a = true) g g' →
      ∃ h', Extends h h' ∧ Tracks config Rising h' g' := by
    intro h g g' T run
    refine T.along nofun (fun g a ok => (and_eq_true_iff.1 ok).1) ?_ run
    exact fun g a ok n action r d hacts haccepts => rising_of_keepsMaps hacts haccepts ok
  obtain ⟨h, -, T⟩ := along T₀ start
  obtain ⟨h', grows, T'⟩ := along T rest
  refine ⟨fun v w i j m m' hi hj hmi hmj heq => ?_, fun v i j m m' hij _ hi hj => ?_, fun strict => ?_⟩
  · obtain ⟨e, he, hm⟩ := T.mapAt hmi
    obtain ⟨e', he', hm'⟩ := T'.mapAt hmj
    rcases Nat.lt_trichotomy i j with hlt | heqij | hlt
    · have hsame := T.committed_agree T' grows hi (hlt.le.trans hj)
      have := epoch_of_rising (T'.marked w) hlt (hsame.symm.trans he) he' hm hm'
      exact this.resolve_right (by omega)
    · subst heqij
      rw [T.committed_agree T' grows hi hj, he'] at he
      obtain rfl := some.inj he
      exact some.inj (hm.symm.trans hm')
    · have hsame := T.committed_agree T' grows (hlt.le.trans hi) hj
      have := epoch_of_rising (T.marked v) hlt (hsame.trans he') he hm' hm
      exact (this.resolve_right (by omega)).symm
  · obtain ⟨e, he, hm⟩ := T.mapAt hi
    obtain ⟨e', he', hm'⟩ := T.mapAt hj
    exact epoch_of_rising (T.marked v) hij he he' hm hm'
  · have S₀ : Tracks config Newer blank (.begin config clock) := .begin clock nofun
    obtain ⟨g, -, S⟩ := S₀.along nofun (fun g a ok => (and_eq_true_iff.1 ok).1)
      (fun g a ok n action r d hacts haccepts => newer_of_keepsEpochs hacts haccepts ok) strict
    intro v i j m m' hij _ hi hj
    obtain ⟨e, he, hm⟩ := S.mapAt hi
    obtain ⟨e', he', hm'⟩ := S.mapAt hj
    exact S.marked v j e' he' m' hm' m (mem_mapsIn_take hij he hm)

/-- Two nodes that hold the range, and marks on two others. -/
def markedDuo : ClusterConfig :=
  { duoConfig with ranges := { duoMap with stale := [2, 3] } }

/-- Two maps one after the other, the second when the first is folded. -/
def twoMaps : List FleetAction :=
  duoElects ++ .act 0 (.proposeMap markedDuo.ranges) :: duoCommits 2 ++
    .act 0 (.markRepaired 2) :: duoCommits 3

theorem committed_epochs_identify_maps_duo :
    let f := Fleet.exec markedDuo twoMaps
    (f.nodes 0).raft.commit = 3 ∧ ∃ m m', (f.nodes 0).raft.mapAt 2 = some m ∧
      (f.nodes 0).raft.mapAt 3 = some m' ∧ m.epoch < m'.epoch := by
  intro f
  have strict : Run (Fleet.step markedDuo) (fun f a => f.keepsEpochs markedDuo a = true)
      (.begin markedDuo fun _ => 0) f :=
    Run.play (fun f a => f.keepsEpochs markedDuo a) _ (by decide +kernel) (fun _ _ h => h)
  have hrun : Run (Fleet.step markedDuo) (fun f a => f.keepsMaps markedDuo a = true) (.begin markedDuo fun _ => 0) f :=
    Run.play (fun f a => f.keepsMaps markedDuo a) _ (by decide +kernel) (fun _ _ h => h)
  have hcommit : (f.nodes 0).raft.commit = 3 := by decide +kernel
  have hfirst : (f.nodes 0).raft.mapAt 2 = some { markedDuo.ranges with epoch := 1 } := by decide +kernel
  have hsecond : (f.nodes 0).raft.mapAt 3 = some { markedDuo.ranges with epoch := 2, stale := [3] } := by
    decide +kernel
  clear_value f
  refine ⟨hcommit, _, _, hfirst, hsecond, ?_⟩
  exact (committed_epochs_identify_maps markedDuo (fun _ => 0) f f hrun .refl).2.2 strict 0 2 3 _ _
    (by decide) hcommit.ge hfirst hsecond

/-- Two copies are marked repaired, one right after the other. -/
theorem one_epoch_two_maps :
    let f := Fleet.exec markedDuo (duoElects ++ [.act 0 (.markRepaired 2), .act 0 (.markRepaired 3)] ++
      duoCommits 2)
    (f.nodes 0).raft.commit = 3 ∧ ∃ m m', (f.nodes 0).raft.mapAt 2 = some m ∧
      (f.nodes 0).raft.mapAt 3 = some m' ∧ m.epoch = m'.epoch ∧ m ≠ m' := by
  intro f
  refine ⟨by decide +kernel, { markedDuo.ranges with epoch := 1, stale := [3] },
    { markedDuo.ranges with epoch := 1, stale := [2] }, by decide +kernel, by decide +kernel, rfl, by decide⟩

end BigDb.Cluster
