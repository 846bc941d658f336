import BigDb.Cluster.Acts
import BigDb.Lib.Newest

/-!
# What an append does to a log, and what a log says about the membership

The loop over an append's entries walks past those that agree with the log and, at the
first that does not, cuts the log there and appends the rest (`filled_cases`).

A node's membership is the newest one its log carries, its seed if there is none
(`latestMembers`). Every act keeps `members` and `voters` equal to that (`Listed`).
-/

namespace BigDb.Cluster
open Lib List Option

/-! ## The membership a log describes -/

variable (seed : List Member)

def latestMembers (log : List Entry) : List Member :=
  newest (fun e => e.decision.members?) seed log

lemma latestMembers_append (a b : List Entry) :
    latestMembers seed (a ++ b) = latestMembers (latestMembers seed a) b := newest_append ..

@[simp] lemma latestMembers_singleton (e : Entry) :
    latestMembers seed [e] = e.decision.members?.getD seed := newest_singleton ..

lemma Decision.members?_eq_none {d : Decision} (h : d.isMembers = false) : d.members? = none := by
  cases d <;> simp_all [isMembers, members?]

/-- A stretch of log without a membership leaves it as it was. -/
lemma latestMembers_quiet {l : List Entry}
    (h : l.any (·.decision.isMembers) = false) : latestMembers seed l = seed := by
  apply newest_quiet
  intro e he
  exact Decision.members?_eq_none (by simpa using any_eq_false.1 h e he)

namespace Raft

/-! ## The loop over an append's entries -/

variable {i : Nat} {r : Raft} {entries : List Entry} {prev pt : Nat} {y : Raft × Output}

lemma termAt_eq (r : Raft) (h : r.base ≤ i) : r.termAt i = (r.log[i - r.base]?).map Entry.term := if_pos h

lemma termAt_some {i t : Nat} (h : r.termAt i = some t) :
    r.base ≤ i ∧ i < r.base + r.log.length ∧ ∃ e, r.log[i - r.base]? = some e ∧ e.term = t := by
  unfold termAt at h
  split at h
  · next hle =>
    obtain ⟨e, he, ht⟩ := map_eq_some_iff.1 h
    have := (List.getElem?_eq_some_iff.1 he).1
    exact ⟨hle, by omega, e, he, ht⟩
  · cases h

/-- Past the end of the log the loop appends. -/
lemma foldl_fill_end (entries : List Entry) (f : Filling) (h : f.index + 1 = f.raft.base + f.raft.log.length) :
    entries.foldl fill f =
      { raft := { f.raft with log := f.raft.log ++ entries }
        index := f.index + entries.length
        membershipMoved := f.membershipMoved || entries.any (·.decision.isMembers)
        persist := f.persist || !entries.isEmpty } := by
  induction entries generalizing f with
  | nil => simp
  | cons e entries ih =>
    have hnone : f.raft.termAt (f.index + 1) = none := by
      rw [termAt_eq _ (by omega), getElem?_eq_none (by omega)]
      rfl
    have hfill : fill f e =
        { raft := { f.raft with log := f.raft.log ++ [e] }, index := f.index + 1
          membershipMoved := f.membershipMoved || e.decision.isMembers, persist := true } := by
      unfold fill
      simp only [hnone]
    rw [foldl_cons, hfill, ih _ (by simp; omega)]
    simp [Bool.or_assoc, Nat.add_assoc, Nat.add_comm 1]

def Agree (r : Raft) (index : Nat) (entries : List Entry) : Prop :=
  ∀ (i : Nat) e, entries[i]? = some e → r.termAt (index + 1 + i) = some e.term

/-- Over entries that agree the loop changes nothing. -/
lemma foldl_fill_agree (entries : List Entry) (f : Filling) (h : f.raft.Agree f.index entries) :
    entries.foldl fill f = { f with index := f.index + entries.length } := by
  induction entries generalizing f with
  | nil => rfl
  | cons e entries ih =>
    have hfill : fill f e = { f with index := f.index + 1 } := by
      have := h 0 e rfl
      unfold fill
      simp [this]
    rw [foldl_cons, hfill, ih]
    · simp [Nat.add_assoc, Nat.add_comm 1]
    · intro i x hx
      have := h (i + 1) x (by simpa using hx)
      rwa [show f.index + 1 + (i + 1) = f.index + 1 + 1 + i by omega] at this

/-- The first entry that does not agree cuts the log, and the rest is appended. -/
structure Cut (r : Raft) (prev : Nat) (entries : List Entry) (j : Nat) : Prop where
  lt : j < entries.length
  agree : r.Agree prev (entries.take j)
  differ : ∀ e, entries[j]? = some e → r.termAt (prev + 1 + j) ≠ some e.term

variable {want : Decision → Bool} {c : Cause} {l : List Entry} {e : Entry} {j : Nat}

/-- The entries that agree reach no further than the log does. -/
lemma Cut.reach {prev : Nat} (h : r.Cut prev entries j) (hend : prev < r.base + r.log.length) :
    prev + j < r.base + r.log.length := by
  have hlt := h.lt
  rcases Nat.eq_zero_or_pos j with rfl | hj
  · exact hend
  have hin : (entries.take j)[j - 1]? = some (entries[j - 1]) := by
    rw [getElem?_take_of_lt (by omega), getElem?_eq_getElem (by omega)]
  have := (termAt_some (h.agree _ _ hin)).2.1
  omega

lemma foldl_fill_cut {prev : Nat}
    (hprev : r.base ≤ prev) (hend : prev < r.base + r.log.length) (h : r.Cut prev entries j) :
    r.filled prev entries false =
      { raft := { r with log := r.log.take (prev + 1 + j - r.base) ++ entries.drop j }
        index := prev + entries.length
        membershipMoved := (r.log.drop (prev + 1 + j - r.base)).any (·.decision.isMembers) ||
          (entries.drop j).any (·.decision.isMembers)
        persist := true } := by
  have ⟨hlt, hagree, hdiffer⟩ := h
  have hsplit : entries = entries.take j ++ entries.drop j := (take_append_drop j entries).symm
  have hlen : (entries.take j).length = j := by rw [length_take]; omega
  rw [filled]
  conv_lhs => rw [hsplit]
  rw [foldl_append, foldl_fill_agree (entries.take j) _ hagree, hlen]
  rw [drop_eq_getElem_cons hlt, foldl_cons]
  have hd := hdiffer _ (getElem?_eq_getElem hlt)
  have hreach := h.reach hend
  have hfill : fill ⟨r, prev + j, false, false⟩ entries[j] =
      { raft := { r with log := r.log.take (prev + 1 + j - r.base) ++ [entries[j]] }
        index := prev + 1 + j
        membershipMoved := (r.log.drop (prev + 1 + j - r.base)).any (·.decision.isMembers) ||
          entries[j].decision.isMembers
        persist := true } := by
    have hidx : prev + j + 1 = prev + 1 + j := by omega
    unfold fill
    simp only [hidx]
    cases ht : r.termAt (prev + 1 + j) with
    | some t =>
      have hne : t ≠ entries[j].term := fun heq => hd (by rw [ht, heq])
      simp [hne]
    | none =>
      have hge : r.log.length ≤ prev + 1 + j - r.base := by
        rw [termAt_eq _ (by omega), map_eq_none_iff, getElem?_eq_none_iff] at ht
        exact ht
      simp [take_of_length_le hge, drop_eq_nil_of_le hge]
  rw [hfill, foldl_fill_end]
  · simp only [length_drop, append_assoc, singleton_append, any_cons,
      Bool.true_or, Filling.mk.injEq, and_true, Bool.or_assoc, true_and]
    omega
  · simp only [length_append, length_take, length_singleton]
    omega

lemma agree_or_cut (r : Raft) (prev : Nat) (entries : List Entry) :
    r.Agree prev entries ∨ ∃ j, r.Cut prev entries j := by
  classical
  by_cases h : ∃ j e, entries[j]? = some e ∧ r.termAt (prev + 1 + j) ≠ some e.term
  · right
    obtain ⟨e, he, hne⟩ := Nat.find_spec h
    have hlt := (List.getElem?_eq_some_iff.1 he).1
    refine ⟨Nat.find h, hlt, fun i x hx => ?_, fun x hx => ?_⟩
    · have hi : i < Nat.find h := by
        have := (List.getElem?_eq_some_iff.1 hx).1
        rw [length_take] at this
        omega
      by_contra hnx
      rw [getElem?_take_of_lt hi] at hx
      exact Nat.find_min h hi ⟨x, hx, hnx⟩
    · rw [he] at hx
      cases hx
      exact hne
  · left
    intro i e he
    by_contra hne
    exact h ⟨i, e, he, hne⟩

/-- **What an append does to the log it is accepted into.** -/
lemma filled_cases (entries : List Entry) (hprev : r.termAt prev = some pt) :
    (r.Agree prev entries ∧ r.filled prev entries false = ⟨r, prev + entries.length, false, false⟩) ∨
    ∃ j, r.Cut prev entries j ∧ r.filled prev entries false =
      { raft := { r with log := r.log.take (prev + 1 + j - r.base) ++ entries.drop j }
        index := prev + entries.length
        membershipMoved := (r.log.drop (prev + 1 + j - r.base)).any (·.decision.isMembers) ||
          (entries.drop j).any (·.decision.isMembers)
        persist := true } := by
  obtain ⟨hbase, hend, -⟩ := termAt_some hprev
  rcases r.agree_or_cut prev entries with h | ⟨j, hj⟩
  · exact .inl ⟨h, foldl_fill_agree entries _ h⟩
  · exact .inr ⟨j, hj, foldl_fill_cut hbase hend hj⟩

lemma filled_log_of_not_persist
    (hprev : r.termAt prev = some pt) (hp : (r.filled prev entries false).persist = false) :
    (r.filled prev entries false).raft.log = r.log := by
  rcases filled_cases entries hprev with ⟨-, hf⟩ | ⟨j, -, hf⟩
  · rw [hf]
  · rw [hf] at hp
    cases hp

/-! ## What a compaction drops -/

lemma rposition_some (h : rposition want l = some i) : ∃ e, l[i]? = some e ∧ want e.decision = true := by
  obtain ⟨j, hj, rfl⟩ := map_eq_some_iff.1 h
  obtain ⟨hlt, hwant, -⟩ := findIdx?_eq_some_iff_getElem.1 hj
  rw [getElem_reverse] at hwant
  rw [length_reverse] at hlt
  exact ⟨_, getElem?_eq_getElem (by omega), hwant⟩

lemma rposition_none (h : rposition want l = none) : ∀ e ∈ l, want e.decision = false := by
  unfold rposition at h
  rw [map_eq_none_iff, findIdx?_eq_none_iff] at h
  intro e he
  exact h e (mem_reverse.2 he)

/-- A compaction does nothing or drops a number of entries, no more than it may. -/
lemma compact_cases (r : Raft) (keep : Nat) :
    r.compact keep = r ∨ ∃ d, 0 < d ∧ r.role = .leader ∧ r.base + d ≤ r.safe - keep ∧
      (∀ kind ∈ [Decision.isRanges, Decision.isMembers], ∀ a, r.anchor kind = some a → r.base + d ≤ a) ∧
      r.compact keep = { r with log := r.log.drop d, base := r.base + d } := by
  unfold compact
  split
  · exact .inl rfl
  · next role =>
    dsimp only
    generalize htarget : (Option.map (min (r.safe - keep)) _).getD (r.safe - keep) = target
    have hle : target ≤ r.safe - keep ∧ ∀ kind ∈ [Decision.isRanges, Decision.isMembers], ∀ a, r.anchor kind = some a →
          target ≤ a := by
      subst htarget
      cases hr : r.anchor Decision.isRanges <;> cases hm : r.anchor Decision.isMembers <;>
        simp [hr, hm]
    split
    · exact .inl rfl
    · next hlt =>
      have hbase : r.base + (target - r.base) = target := by omega
      refine .inr ⟨target - r.base, by omega, not_not.1 role, by omega, ?_, by rw [hbase]⟩
      rw [hbase]
      exact hle.2

lemma entryAt_some (h : r.entryAt i = some e) : r.base ≤ i ∧ r.log[i - r.base]? = some e := by
  unfold entryAt at h
  split at h
  · next hb => exact ⟨hb, h⟩
  · cases h

lemma entryAt_eq (hb : r.base ≤ i) : r.entryAt i = r.log[i - r.base]? := if_pos hb

lemma entryAt_compact {keep i : Nat} (hb : (r.compact keep).base ≤ i) : (r.compact keep).entryAt i = r.entryAt i := by
  rcases r.compact_cases keep with heq | ⟨d, -, -, -, -, heq⟩
  · rw [heq]
  rw [entryAt_eq hb]
  rw [heq] at hb ⊢
  have hb : r.base + d ≤ i := hb
  show (r.log.drop d)[i - (r.base + d)]? = _
  rw [getElem?_drop, entryAt_eq (by omega)]
  congr 1
  omega

lemma base_le_compact (r : Raft) (keep : Nat) : r.base ≤ (r.compact keep).base := by
  rcases r.compact_cases keep with heq | ⟨d, -, -, -, -, heq⟩
  · rw [heq]
  · rw [heq]
    exact Nat.le_add_right _ _

lemma vote_of_grant {cand li lt : Nat} (hg : r.grant r.term cand li lt) :
    r.votedFor = none ∨ r.votedFor = some cand := by
  unfold grant at hg
  split_ifs at hg with h1 h2 h3
  cases hv : r.votedFor with
  | none => exact .inl rfl
  | some d =>
    rw [hv] at h3
    exact .inr (by simpa using h3)

lemma safe_le_applied (r : Raft) : r.safe ≤ r.applied := min_le_right _ _

/-! ## What a chain of acts leaves alone -/

/-- The term and the vote change only in a step that is saved. -/
lemma Acts.vote_saved (h : Acts c (r, default) y)
    (hp : y.2.persist = false) : y.1.term = r.term ∧ y.1.votedFor = r.votedFor := by
  revert hp
  refine h.run (P := fun x => x.2.persist = false → x.1.term = r.term ∧ x.1.votedFor = r.votedFor)
    (fun _ => ⟨rfl, rfl⟩) fun a b _ hact ih hp => ?_
  cases hact with
  | observe | grant | stand | win | append | install => cases hp
  | accept _ _ _ hprev =>
    rw [caughtUp_frame, taken_frame]
    exact ih (Bool.or_eq_false_iff.1 hp).1
  | compact => rw [compact_frame]; exact ih hp
  | _ => exact ih hp

/-- While nothing is compacted away, so do the log and the seed. -/
lemma Acts.log_saved (h : Acts c (r, default) y) (hk : c.keep? = none) (hp : y.2.persist = false) :
    y.1.log = r.log ∧ y.1.base = r.base ∧ y.1.seed = r.seed := by
  revert hp
  refine h.run (P := fun x => x.2.persist = false → x.1.log = r.log ∧ x.1.base = r.base ∧ x.1.seed = r.seed)
    (fun _ => ⟨rfl, rfl, rfl⟩) fun a b _ hact ih hp => ?_
  cases hact with
  | observe | grant | stand | win | append | install => cases hp
  | accept _ _ _ hprev =>
    obtain ⟨hout, hfill⟩ := Bool.or_eq_false_iff.1 hp
    rw [caughtUp_frame, taken_frame, filled_log_of_not_persist hprev hfill]
    exact ih hout
  | compact hm => rw [hk] at hm; cases hm
  | _ => exact ih hp

/-- Only the clock makes a candidate. -/
lemma Acts.candidate {m : Message} {out : Output} (h : Acts (.message m) (r, out) y) (role : y.1.role = .candidate) :
    r.role = .candidate ∧ y.1.term = r.term ∧ y.1.members = r.members := by
  revert role
  refine h.run (P := fun x => x.1.role = .candidate → r.role = .candidate ∧ x.1.term = r.term ∧ x.1.members = r.members)
    (fun role => ⟨role, rfl, rfl⟩) fun a b _ hact ih role => ?_
  cases hact with
  | observe | follow | win => cases role
  | stand hm | append hm | compact hm => cases hm
  | accept _ _ hr =>
    rw [caughtUp_frame, taken_frame] at role
    exact absurd (hr.symm.trans role) (by simp)
  | install _ _ hr => exact absurd (hr.symm.trans role) (by simp)
  | _ => exact ih role

/-- A node that leads after an unsaved part of a step led before it. -/
lemma Acts.leader_unsaved (h : Acts c (r, default) y)
    (hp : y.2.persist = false) (role : y.1.role = .leader) : r.role = .leader := by
  revert hp role
  refine h.run (P := fun x => x.2.persist = false → x.1.role = .leader → r.role = .leader)
    (fun _ role => role) fun a b _ hact ih hp role => ?_
  cases hact with
  | observe | grant | stand | win | append | install => cases hp
  | follow => cases role
  | accept _ _ hr =>
    rw [caughtUp_frame, taken_frame] at role
    exact absurd (hr.symm.trans role) (by simp)
  | compact _ hr => exact ih hp hr
  | _ => exact ih hp role

/-! ## The membership a node acts on -/

/-- A node's membership is what its log says. -/
structure Listed (r : Raft) : Prop where
  members : r.members = latestMembers r.seed r.log
  voters : r.voters = votersOf r.members

/-- What `restore` makes of a saved state: an empty log or seed leaves the node's own. -/
lemma restore_eq (r : Raft) (st : State) {log : List Entry} {seed : List Member}
    (hlog : (if st.log.isEmpty then r.log else st.log) = log)
    (hseed : (if st.seed.isEmpty then r.seed else st.seed) = seed) : r.restore st = { r with
      term := st.term, votedFor := st.votedFor, log, seed
      members := latestMembers seed log, voters := votersOf (latestMembers seed log)
      base := st.base
      commit := min (max st.commit st.base) (st.base + log.length - 1)
      applied := st.base - 1 } := by
  subst hlog hseed
  unfold restore
  cases st.log.isEmpty <;> cases st.seed.isEmpty <;> rfl

lemma listed_refreshMembers (r : Raft) : r.refreshMembers.Listed := ⟨rfl, rfl⟩

lemma Listed.taken (L : r.Listed) (entries : List Entry)
    (hprev : r.termAt prev = some pt) : (r.taken prev entries).Listed := by
  unfold Raft.taken
  dsimp only
  split
  · exact listed_refreshMembers _
  · next hm =>
    rcases filled_cases entries hprev with ⟨-, hf⟩ | ⟨j, -, hf⟩
    · rw [hf]
      exact L
    rw [hf] at hm ⊢
    simp only [Bool.or_eq_true, not_or, Bool.not_eq_true] at hm
    refine ⟨?_, L.voters⟩
    show r.members = latestMembers r.seed (r.log.take (prev + 1 + j - r.base) ++ entries.drop j)
    rw [latestMembers_append, latestMembers_quiet _ hm.2, L.members]
    conv_lhs => rw [← take_append_drop (prev + 1 + j - r.base) r.log]
    rw [latestMembers_append, latestMembers_quiet _ hm.1]

lemma Listed.crowned (L : r.Listed) (now : Nat) : (r.crowned now).Listed := by
  refine ⟨?_, L.voters⟩
  show r.members = latestMembers r.seed (r.log ++ [Entry.mk r.term .noop])
  rw [latestMembers_append, ← L.members]
  rfl

lemma Listed.appended (L : r.Listed) (d : Decision) : (r.appended d).Listed := by
  unfold Raft.appended
  split
  · exact ⟨rfl, rfl⟩
  · next hd =>
    refine ⟨?_, L.voters⟩
    show r.members = latestMembers r.seed (r.log ++ [Entry.mk r.term d])
    rw [latestMembers_append, latestMembers_singleton, Decision.members?_eq_none (by simpa using hd), ← L.members]
    rfl

end Raft

end BigDb.Cluster
