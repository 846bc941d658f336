import BigDb.Cluster.Admin

/-!
# No lost update

A change of the map writes the whole map, so it keeps what it does not touch only if it was
made from the newest map there is. Nothing makes sure of that: between reading the map and
proposing the copy another change can be accepted, and the map a node reads is behind its log
until the driver has folded what was committed. `no_lost_update` is the guarantee for the runs
in which every accepted change was made from the newest map in the leader's log.
-/

namespace BigDb.Cluster
open Lib List Function Option Bool

namespace Raft
variable {r r₀ : Raft} {d : Decision}

/-! ## The log of a node that goes on leading -/

def newestMap (r : Raft) : Option RangeMap :=
  newest (fun e : Entry => e.decision.ranges?.map some) none r.log

/-- What holds of the indexes of a node whose log is its own. -/
structure Sound (r : Raft) : Prop where
  held : 0 < r.log.length
  applied_le : r.applied ≤ r.commit
  commit_le : r.commit ≤ r.lastIndex

/-- Whether a message takes the leadership from a leader: it is of a later term, or only
another leader of the same term can have sent it. -/
def deposedBy (r : Raft) (m : Message) : Bool :=
  r.term < m.term || (m.term = r.term && m.leader?.isSome)

lemma Sound.lastIndex_eq (S : r.Sound) : r.lastIndex + 1 = r.base + r.log.length := by
  have := S.held
  unfold lastIndex
  omega

/-- A leader that stayed one and appended nothing. -/
structure Stays (r₀ r : Raft) : Prop where
  role : r.role = .leader
  term : r.term = r₀.term
  sound : r.Sound
  base : r₀.base ≤ r.base
  same : ∀ j, r.base ≤ j → r.entryAt j = r₀.entryAt j
  last : r.lastIndex = r₀.lastIndex
  newest : r.newestMap = r₀.newestMap
  commit : r₀.commit ≤ r.commit

lemma Stays.refl (role : r.role = .leader) (S : r.Sound) : Stays r r where
  role := role
  term := rfl
  sound := S
  base := le_rfl
  same _ _ := rfl
  last := rfl
  newest := rfl
  commit := le_rfl

lemma Stays.trans {r₁ r₂ : Raft} (h : Stays r₀ r₁) (h' : Stays r₁ r₂) : Stays r₀ r₂ where
  role := h'.role
  term := h'.term.trans h.term
  sound := h'.sound
  base := h.base.trans h'.base
  same j hj := (h'.same j hj).trans (h.same j (h'.base.trans hj))
  last := h'.last.trans h.last
  newest := h'.newest.trans h.newest
  commit := h.commit.trans h'.commit

lemma newestMap_compact (r : Raft) (keep : Nat) : (r.compact keep).newestMap = r.newestMap := by
  rcases r.compact_cases keep with heq | ⟨d, -, -, -, hanchor, heq⟩
  · rw [heq]
  rw [heq]
  refine newest_drop none ?_
  have hstop := hanchor Decision.isRanges (by simp)
  have isMap : ∀ e : Entry, e.decision.isRanges = true ↔ e.decision.ranges?.map some ≠ none := by
    intro e
    cases e.decision <;> simp [Decision.isRanges, Decision.ranges?]
  cases hpos : rposition Decision.isRanges r.log with
  | none =>
    left
    intro e he
    have hnot := rposition_none hpos e (mem_of_mem_take he)
    by_contra hw
    rw [(isMap e).2 hw] at hnot
    cases hnot
  | some i =>
    right
    obtain ⟨e, he, hmap⟩ := rposition_some hpos
    have hle := hstop (r.base + i) (by rw [anchor, hpos]; rfl)
    refine ⟨e, mem_of_getElem? (i := i - d) ?_, (isMap e).1 hmap⟩
    rw [getElem?_drop, ← he]
    congr 1
    omega

lemma Sound.compact (S : r.Sound) (keep : Nat) :
    (r.compact keep).Sound ∧ (r.compact keep).lastIndex = r.lastIndex := by
  rcases r.compact_cases keep with heq | ⟨d, -, -, hd, -, heq⟩
  · rw [heq]
    exact ⟨S, rfl⟩
  have hsafe := r.safe_le_applied
  have happlied := S.applied_le
  have hcommit := S.commit_le
  have hlast := S.lastIndex_eq
  have hlast' : r.base + d + (r.log.drop d).length - 1 = r.lastIndex := by
    rw [length_drop]
    omega
  rw [heq]
  refine ⟨⟨?_, happlied, hcommit.trans hlast'.ge⟩, hlast'⟩
  show 0 < (r.log.drop d).length
  rw [length_drop]
  omega

variable {y : Raft × Output} {c : Cause}

/-- One act of a leader that is not deposed and not asked to append. -/
lemma Stays.act {x y : Raft × Output} (S : Stays r₀ x.1) (hact : Act c x y)
    (hprop : ∀ d, c ≠ .proposal d) (hmsg : ∀ m, c = .message m → r₀.deposedBy m = false) : Stays r₀ y.1 := by
  obtain ⟨role, term, sound, base, same, last, newest, commit⟩ := S
  have calm : ∀ m, c = .message m → m.term ≤ r₀.term ∧ (m.term = r₀.term → m.leader? = none) := by
    intro m hm
    have h := hmsg m hm
    simp only [deposedBy, or_eq_false_iff, decide_eq_false_iff_not, and_eq_false_imp,
      decide_eq_true_eq, isSome_eq_false_iff, isNone_iff_eq_none] at h
    exact ⟨Nat.le_of_not_lt h.1, h.2⟩
  cases hact with
  | @observe r out msg hm later =>
    have hle := (calm msg hm).1
    rw [← term] at hle
    exact absurd later (Nat.not_lt_of_le hle)
  | follow l now hm hterm hl =>
    rw [(calm _ hm).2 (hterm.trans term)] at hl
    cases hl
  | stand _ notLead => exact absurd role notLead
  | canvass candidate | count _ candidate | win _ candidate | accept _ _ candidate
  | install _ _ candidate => cases role.symm.trans candidate
  | append hm => exact absurd hm (hprop _)
  | @commit r out k own _ hk =>
    have hpast : r.commit < k := hk.past
    have happlied : r.applied ≤ r.commit := sound.applied_le
    refine ⟨role, term, ⟨sound.held, ?_, hk.held⟩, base, same, last, newest, commit.trans hpast.le⟩
    exact max_le (happlied.trans hpast.le) le_rfl
  | @compact r out keep =>
    have compacted := sound.compact keep
    have frame := r.compact_frame keep
    refine ⟨?_, ?_, compacted.1, base.trans (r.base_le_compact keep), ?_, compacted.2.trans last,
      (r.newestMap_compact keep).trans newest, ?_⟩
    · rw [frame]
      exact role
    · rw [frame]
      exact term
    · intro j hj
      exact (entryAt_compact hj).trans (same j ((r.base_le_compact keep).trans hj))
    · rw [frame]
      exact commit
  | _ => exact ⟨role, term, ⟨sound.held, sound.applied_le, sound.commit_le⟩, base, same, last, newest, commit⟩

lemma Acts.stays {out : Output} (acts : Acts c (r₀, out) y)
    (role : r₀.role = .leader) (S : r₀.Sound) (hprop : ∀ d, c ≠ .proposal d)
    (hmsg : ∀ m, c = .message m → r₀.deposedBy m = false) : Stays r₀ y.1 :=
  acts.run (P := fun x => Stays r₀ x.1) (.refl role S) fun _ _ _ hact S => S.act hact hprop hmsg

/-- A leader that appended one decision of its own. -/
structure Adds (r : Raft) (d : Decision) (r' : Raft) : Prop where
  role : r'.role = .leader
  base : r'.base = r.base
  log : r'.log = r.log ++ [⟨r.term, d⟩]
  sound : r'.Sound
  commit : r.commit ≤ r'.commit

lemma propose_adds (h : r.propose d = some y) (S : r.Sound) : Adds r d y.1 := by
  obtain ⟨role, out, -, rfl⟩ := propose_eq h
  have hlen := S.held
  have hlast := S.lastIndex_eq
  have hcommit := S.commit_le
  have happlied := S.applied_le
  have hend : (r.appended d).lastIndex = r.lastIndex + 1 := by
    rw [appended_frame, lastIndex, length_append, length_singleton]
    simp only
    omega
  have hframe := r.appended_frame d
  generalize r.appended d = r' at hframe hend
  have hlog : r'.log = r.log ++ [⟨r.term, d⟩] := by rw [hframe]
  have hindexes : r'.base = r.base ∧ r'.commit = r.commit ∧ r'.applied = r.applied ∧ r'.role = r.role := by
    rw [hframe]
    exact ⟨rfl, rfl, rfl, rfl⟩
  obtain ⟨hbase, hc, ha, hrole⟩ := hindexes
  have hpos : 0 < r'.log.length := by
    rw [hlog, length_append]
    exact Nat.add_pos_left hlen _
  rcases r'.advanceCommit_cases out with heq | ⟨k, hk, heq⟩
  · rw [heq]
    exact ⟨hrole.trans role, hbase, hlog, ⟨hpos, by rw [ha, hc]; exact happlied, by rw [hc, hend]; omega⟩, hc.ge⟩
  · rw [heq]
    have hpast := hk.past
    refine ⟨hrole.trans role, hbase, hlog, ⟨hpos, ?_, hk.held⟩, hc.ge.trans hpast.le⟩
    show max r'.applied k ≤ k
    exact max_le (by omega) le_rfl

/-! ## The changes and the log -/

/-- **What links the changes to the log** of a node that has led since its log ended at `n`.
Every map past `n` is some change's; the changes are serial, and the newest map of the log is
the last one's. -/
structure Tracks (n : Nat) (r : Raft) (changes : List (Update RangeMap)) : Prop where
  role : r.role = .leader
  sound : r.Sound
  first : n ≤ r.lastIndex
  known : ∀ j e m, n < j → r.entryAt j = some e → e.decision.ranges? = some m →
    ∃ change ∈ changes, change.stamp = j ∧ change.next = m
  logged : ∀ change ∈ changes, change.stamp < r.base ∨ ∃ term, r.entryAt change.stamp = some ⟨term, .ranges change.next⟩
  within : ∀ change ∈ changes, n < change.stamp ∧ change.stamp ≤ r.lastIndex
  serial : Serial changes
  newest : ∀ change, changes.getLast? = some change → r.newestMap = some change.next

variable {n : Nat} {changes : List (Update RangeMap)} {r' : Raft}

lemma Tracks.start (role : r.role = .leader) (S : r.Sound) : Tracks r.lastIndex r [] where
  role := role
  sound := S
  first := le_rfl
  known j e m hj he _ := by
    obtain ⟨hb, hget⟩ := entryAt_some he
    have hlt := lt_of_getElem? hget
    have hlast := S.lastIndex_eq
    omega
  logged _ h := by cases h
  within _ h := by cases h
  serial := .nil
  newest _ h := by cases h

lemma Tracks.stays (T : Tracks n r changes) (S : Stays r r') : Tracks n r' changes where
  role := S.role
  sound := S.sound
  first := S.last ▸ T.first
  known j e m hj he := by
    rw [S.same j (entryAt_some he).1] at he
    exact T.known j e m hj he
  logged change hc := by
    rcases Nat.lt_or_ge change.stamp r'.base with hlt | hge
    · exact .inl hlt
    · rw [S.same _ hge]
      exact .inr ((T.logged change hc).resolve_left (Nat.not_lt_of_le (S.base.trans hge)))
  within := S.last ▸ T.within
  serial := T.serial
  newest := S.newest ▸ T.newest

section
variable (A : Adds r d r')
include A

lemma Adds.lastIndex (S : r.Sound) : r'.lastIndex = r.lastIndex + 1 := by
  have hlen := A.sound.lastIndex_eq
  have hlast := S.lastIndex_eq
  rw [A.log, A.base, length_append, length_singleton] at hlen
  omega

lemma Adds.entryAt (S : r.Sound) {j : Nat} {e : Entry}
    (h : r'.entryAt j = some e) : r.entryAt j = some e ∨ (j = r.lastIndex + 1 ∧ e = ⟨r.term, d⟩) := by
  obtain ⟨hb, hget⟩ := entryAt_some h
  rw [A.base] at hb
  rw [A.base, A.log] at hget
  have hlast := S.lastIndex_eq
  rcases Nat.lt_or_ge (j - r.base) r.log.length with hlt | hge
  · rw [List.getElem?_append_left hlt] at hget
    exact .inl (by rw [entryAt_eq hb, hget])
  rw [List.getElem?_append_right hge] at hget
  have hlt := lt_of_getElem? hget
  rw [length_singleton] at hlt
  obtain hzero : j - r.base - r.log.length = 0 := by omega
  rw [hzero] at hget
  exact .inr ⟨by omega, (some.inj hget).symm⟩

lemma Adds.entryAt_of {j : Nat} {e : Entry} (h : r.entryAt j = some e) : r'.entryAt j = some e := by
  obtain ⟨hb, hget⟩ := entryAt_some h
  rw [entryAt_eq (A.base.symm ▸ hb), A.log, A.base, List.getElem?_append_left (lt_of_getElem? hget), hget]

lemma Adds.entryAt_last (S : r.Sound) : r'.entryAt (r.lastIndex + 1) = some ⟨r.term, d⟩ := by
  have hlast := S.lastIndex_eq
  rw [entryAt_eq (by rw [A.base]; omega), A.log, A.base, hlast, Nat.add_sub_cancel_left,
    getElem?_append_right le_rfl, Nat.sub_self]
  rfl

lemma Adds.logged {change : Update RangeMap}
    (h : change.stamp < r.base ∨ ∃ term, r.entryAt change.stamp = some ⟨term, .ranges change.next⟩) :
    change.stamp < r'.base ∨ ∃ term, r'.entryAt change.stamp = some ⟨term, .ranges change.next⟩ := by
  rw [A.base]
  apply h.imp_right
  rintro ⟨term, he⟩
  exact ⟨term, A.entryAt_of he⟩

end

lemma Tracks.adds (T : Tracks n r changes) (A : Adds r d r') (other : d.ranges? = none) : Tracks n r' changes where
  role := A.role
  sound := A.sound
  first := by
    rw [A.lastIndex T.sound]
    exact T.first.trans (Nat.le_succ _)
  known j e m hj he hm := by
    rcases A.entryAt T.sound he with he | ⟨-, rfl⟩
    · exact T.known j e m hj he hm
    · rw [other] at hm
      cases hm
  logged change hc := A.logged (T.logged change hc)
  within change hc := by
    rw [A.lastIndex T.sound]
    exact (T.within change hc).imp_right fun h => h.trans (Nat.le_succ _)
  serial := T.serial
  newest change hc := by
    rw [newestMap, A.log, newest_append, newest_singleton, other]
    exact T.newest change hc

/-- A change made from the newest map of the log. -/
lemma Tracks.change {m base : RangeMap} (T : Tracks n r changes) (A : Adds r (.ranges m) r')
    (fresh : ∀ b, r.newestMap = some b → b = base) : Tracks n r' (changes ++ [⟨r.lastIndex + 1, base, m⟩]) where
  role := A.role
  sound := A.sound
  first := by
    rw [A.lastIndex T.sound]
    exact T.first.trans (Nat.le_succ _)
  known j e m' hj he hm := by
    rcases A.entryAt T.sound he with he | ⟨rfl, rfl⟩
    · obtain ⟨change, hc, heq⟩ := T.known j e m' hj he hm
      exact ⟨change, mem_append_left _ hc, heq⟩
    · cases hm
      exact ⟨_, mem_append_right _ (mem_singleton_self _), rfl, rfl⟩
  logged change hc := by
    rcases mem_concat.1 hc with hc | rfl
    · exact A.logged (T.logged change hc)
    · exact .inr ⟨r.term, A.entryAt_last T.sound⟩
  within change hc := by
    rw [A.lastIndex T.sound]
    rcases mem_concat.1 hc with hc | rfl
    · exact (T.within change hc).imp_right fun h => h.trans (Nat.le_succ _)
    · exact ⟨Nat.lt_succ_of_le T.first, le_rfl⟩
  serial := by
    apply T.serial.push
    · intro a ha
      exact Nat.lt_succ_of_le (T.within a ha).2
    · intro a ha
      exact (fresh _ (T.newest a ha)).symm
  newest change hc := by
    rw [getLast?_concat] at hc
    cases hc
    rw [newestMap, A.log, newest_append, newest_singleton]
    rfl

end Raft

/-! ## One action -/

namespace Controller
variable {config : ClusterConfig} {c : Controller} {n : Nat} {changes : List (Update RangeMap)} {action : Action}

variable (config n changes) in
/-- The changes of the map, and the core, after an action: still linked, and nothing that was
committed is not. -/
def Advances (c : Controller)
    (action : Action) : Prop :=
  (c.step config action).raft.Tracks n (changes ++ (c.proposes config action).toList) ∧
    c.raft.commit ≤ (c.step config action).raft.commit

lemma Advances.of_same (T : c.raft.Tracks n changes)
    (hraft : (c.step config action).raft = c.raft) (hnone : c.proposes config action = none) :
    Advances config n changes c action := by
  unfold Advances
  rw [hraft, hnone, toList_none, append_nil]
  exact ⟨T, le_rfl⟩

/-- The section under the core's lock, on a leader that stays one. -/
lemma driven_stays (role : c.raft.role = .leader) (S : c.raft.Sound) (incoming : Option Message)
    (now : Nat) (h : ∀ m, incoming = some m → c.raft.deposedBy m = false) :
    c.raft.Stays ((delivered c.raft incoming now).1.tick now).1 := by
  have S₁ : c.raft.Stays (delivered c.raft incoming now).1 := by
    cases incoming with
    | none => exact .refl role S
    | some m =>
      rw [delivered_some]
      refine (Raft.deliver_acts c.raft m now).stays role S nofun fun m' hm => ?_
      cases hm
      exact h m rfl
  exact S₁.trans ((Raft.tick_acts _ _ now).stays S₁.role S₁.sound nofun nofun)

lemma turn_advances (T : c.raft.Tracks n changes) (incoming : Option Message) (now : Nat)
    (h : ∀ m, incoming = some m → c.raft.deposedBy m = false)
    (fresh : ∀ change, c.proposes config (.turn incoming now) = some change →
      ∀ b, c.raft.newestMap = some b → b = change.base) :
    Advances config n changes c (.turn incoming now) := by
  by_cases hidle : c.phase = .idle
  · cases hw : c.wedged with
    | true =>
      apply Advances.of_same T
      · simp only [step, hidle, turn, hw, if_true]
      · simp only [proposes, hidle, hw, Bool.not_true, Bool.false_and, Bool.false_eq_true, if_false]
    | false =>
      have S := driven_stays T.role T.sound incoming now h
      have hraft : (c.step config (.turn incoming now)).raft =
          (promoted config ((delivered c.raft incoming now).1.tick now).1 c.ranges now).1 := by
        simp only [step, hidle, turn, hw, Bool.false_eq_true, if_false]
        rfl
      have hprop : c.proposes config (.turn incoming now) =
          (promotionFor config.leases ((delivered c.raft incoming now).1.tick now).1 now c.ranges).map
            fun m => ⟨((delivered c.raft incoming now).1.tick now).1.lastIndex + 1, c.ranges, m⟩ := by
        simp only [proposes, hidle, hw, S.role, Bool.not_false, decide_true, Bool.and_self, if_true]
      rw [hprop] at fresh
      rw [Advances, hraft, hprop]
      generalize ((delivered c.raft incoming now).1.tick now).1 = r at S fresh ⊢
      have T' := T.stays S
      rw [promoted, if_pos S.role]
      cases hsome : promotionFor config.leases r now c.ranges with
      | none =>
        rw [map_none, toList_none, append_nil]
        exact ⟨T', S.commit⟩
      | some m =>
        obtain ⟨y, hy⟩ := Raft.propose_ranges S.role m
        have A := Raft.propose_adds hy S.sound
        rw [hsome] at fresh
        dsimp only
        rw [hy]
        exact ⟨T'.change A fun b hb => fresh _ rfl b (S.newest ▸ hb), S.commit.trans A.commit⟩
  · apply Advances.of_same T
    · cases hp : c.phase with
      | idle => exact absurd hp hidle
      | _ => simp only [step, hp]
    · cases hp : c.phase with
      | idle => exact absurd hp hidle
      | _ => simp only [proposes, hp]

/-- The core is the same after every other step of the driver. -/
lemma step_raft (hturn : ∀ incoming now, action ≠ .turn incoming now)
    (hrestart : action ≠ .restart) (hcall : c.asks action = none) : (c.step config action).raft = c.raft := by
  have hstep := step_step config c action
  generalize c.step config action = c' at hstep ⊢
  cases hstep with
  | turn => exact absurd rfl (hturn _ _)
  | restart => exact absurd rfl hrestart
  | propose _ asked =>
    rw [hcall] at asked
    cases asked
  | _ => rfl

/-- **One action** of a node that goes on leading, if its change is made from the newest map of
the log. -/
lemma advances (T : c.raft.Tracks n changes) (hrestart : action ≠ .restart) (hmap : ∀ m, action ≠ .proposeMap m)
    (h : ∀ m now, action = .turn (some m) now → c.raft.deposedBy m = false)
    (fresh : ∀ change, c.proposes config action = some change → ∀ b, c.raft.newestMap = some b → b = change.base) :
    Advances config n changes c action := by
  cases action with
  | turn incoming now =>
    refine turn_advances T incoming now (fun m hm => ?_) fresh
    subst hm
    exact h m now rfl
  | markRepaired node =>
    rcases c.markRepaired_cases node with ⟨hrefused, heq⟩ | ⟨accepted, r, out, hp, heq⟩
    · apply Advances.of_same T
      · simp only [step, heq]
      · simp only [proposes, hrefused, if_true]
    have A := Raft.propose_adds hp T.sound
    have hprop : c.proposes config (.markRepaired node) =
        some ⟨c.raft.lastIndex + 1, c.ranges, repaired c.ranges node⟩ := by
      simp only [proposes, accepted, false_eq_true, if_false]
    rw [Advances, hprop]
    simp only [step, heq]
    exact ⟨T.change A (fresh _ hprop), A.commit⟩
  | proposeMap m => exact absurd rfl (hmap m)
  | restart => exact absurd rfl hrestart
  | proposeMembers next =>
    have hstep := step_step config c (.proposeMembers next)
    unfold Advances
    generalize c.step config (.proposeMembers next) = c' at hstep ⊢
    have hnone : c.proposes config (.proposeMembers next) = none := rfl
    rw [hnone, toList_none, append_nil]
    cases hstep with
    | stay => exact ⟨T, le_rfl⟩
    | propose _ asked hp =>
      cases asked
      have A := Raft.propose_adds hp T.sound
      exact ⟨T.adds A rfl, A.commit⟩
  | save _ | refresh | fold | publish | post =>
    exact .of_same T (step_raft (fun _ _ h => by cases h) (fun h => by cases h) rfl) rfl

end Controller

namespace Admin
variable {config : ClusterConfig} {s : Admin} {n : Nat}

/-- Whether an action leaves a leader in office. -/
def keepsLeading (r : Raft) : Controller.Action → Bool
  | .restart => false
  | .turn (some m) _ => !r.deposedBy m
  | _ => true

/-- Whether an action keeps the node leading, and makes its change, if it makes one, from the
newest map in the leader's log. -/
def serially (config : ClusterConfig) (s : Admin) : Action → Bool
  | .node action => keepsLeading s.node.raft action && (s.node.proposes config action).all fun change =>
        s.node.raft.newestMap.all (· = change.base)
  | .propose t =>
    match s.callers t with
    | .ready base next =>
      s.node.refuses (.proposeMap next) || s.node.raft.newestMap.all (· = base)
    | _ => true
  | _ => true

/-- A caller is where it was put, and the others where they were. -/
lemma set_cases (s : Admin) (t : Nat) (caller : Caller) (t' : Nat) :
    (s.set t caller).callers t' = caller ∨ (s.set t caller).callers t' = s.callers t' := by
  by_cases h : t' = t
  · subst h
    exact .inl (update_self ..)
  · exact .inr (update_of_ne h ..)

/-- **The invariant of the callers.** -/
structure Tracked (n : Nat) (s : Admin) : Prop where
  core : s.node.raft.Tracks n s.changes
  waiting : ∀ t change epoch, s.callers t = .waiting change epoch → change ∈ s.changes
  told : ∀ t change, s.callers t = .told change →
    change ∈ s.changes ∧ change.stamp ≤ s.node.raft.commit

namespace Tracked

lemma start {node : Controller} (role : node.raft.role = .leader) (S : node.raft.Sound) :
    Tracked node.raft.lastIndex (Admin.start node) where
  core := .start role S
  waiting _ _ _ h := by cases h
  told _ _ h := by cases h

section
variable (T : Tracked n s)
include T

/-- A caller got further. -/
lemma set (t : Nat) {caller : Caller} (hwaiting : ∀ change epoch, caller = .waiting change epoch → change ∈ s.changes)
    (htold : ∀ change, caller = .told change →
      change ∈ s.changes ∧ change.stamp ≤ s.node.raft.commit) : Tracked n (s.set t caller) where
  core := T.core
  waiting t' change epoch h := by
    rcases s.set_cases t caller t' with heq | heq
    · exact hwaiting change epoch (heq.symm.trans h)
    · exact T.waiting t' change epoch (heq.symm.trans h)
  told t' change h := by
    rcases s.set_cases t caller t' with heq | heq
    · exact htold change (heq.symm.trans h)
    · exact T.told t' change (heq.symm.trans h)

/-- A caller that is neither waiting nor told anything good. -/
lemma set_other (t : Nat) {caller : Caller}
    (hwaiting : ∀ change epoch, caller ≠ .waiting change epoch) (htold : ∀ change, caller ≠ .told change) :
    Tracked n (s.set t caller) :=
  T.set t (fun change epoch h => absurd h (hwaiting change epoch)) fun change h => absurd h (htold change)

/-- The node got further, and made some changes. -/
lemma node {node : Controller} {more : List (Update RangeMap)}
    (core : node.raft.Tracks n (s.changes ++ more)) (commit : s.node.raft.commit ≤ node.raft.commit) :
    Tracked n { s with node, changes := s.changes ++ more } where
  core := core
  waiting t change epoch h := mem_append_left _ (T.waiting t change epoch h)
  told t change h := by
    obtain ⟨hmem, hle⟩ := T.told t change h
    exact ⟨mem_append_left _ hmem, hle.trans commit⟩

lemma proposing (t : Nat) {base next : RangeMap}
    (h : (s.node.refuses (.proposeMap next) || s.node.raft.newestMap.all (· = base)) = true) :
    Tracked n (s.proposing t base next) := by
  unfold Admin.proposing
  split
  · next epoch node heq =>
    obtain ⟨accepted, -, r, out, hp, rfl⟩ := Controller.proposeMap_ok heq
    rw [accepted, Bool.false_or] at h
    have A := Raft.propose_adds hp T.core.sound
    have core : r.Tracks n (s.changes ++ [⟨s.node.raft.lastIndex + 1, base, { next with epoch }⟩]) := by
      refine T.core.change A fun b hb => ?_
      rw [hb, all_some, decide_eq_true_eq] at h
      exact h
    have T' : Tracked n { s with node := s.node.moved r out, changes := _ } := T.node core A.commit
    refine T'.set t ?_ nofun
    intro change epoch' heq'
    cases heq'
    exact mem_append_right _ (mem_singleton_self _)
  · exact T.set_other t nofun nofun

/-- **One action.** -/
lemma step {action : Action} (h : s.serially config action = true) : Tracked n (s.step config action) := by
  cases action with
  | node action =>
    rw [serially, and_eq_true] at h
    have hrestart : action ≠ .restart := by
      rintro rfl
      cases h.1
    have hturn : ∀ m now, action = .turn (some m) now → s.node.raft.deposedBy m = false := by
      rintro m now rfl
      exact not_eq_true' _ ▸ h.1
    have fresh : ∀ change, s.node.proposes config action = some change →
        ∀ b, s.node.raft.newestMap = some b → b = change.base := by
      intro change hc b hb
      have hall := h.2
      rw [hc, all_some, hb, all_some, decide_eq_true_eq] at hall
      exact hall
    have advance : (∀ m, action ≠ .proposeMap m) → Controller.Advances config n s.changes s.node action :=
      fun hmap => Controller.advances T.core hrestart hmap hturn fresh
    cases action with
    | proposeMap m => exact T
    | restart => exact absurd rfl hrestart
    | _ =>
      obtain ⟨core, commit⟩ := advance nofun
      exact T.node core commit
  | read t verb =>
    simp only [Admin.step]
    split
    · exact T
    · split <;> exact T.set_other t nofun nofun
  | settle t =>
    simp only [Admin.step]
    split
    · split
      · exact T.set_other t nofun nofun
      · exact T
    · exact T
  | propose t =>
    simp only [Admin.step]
    split
    · next base next hc =>
      simp only [serially, hc] at h
      exact T.proposing t h
    · exact T
  | poll t =>
    simp only [Admin.step]
    split
    · next change epoch hc =>
      split
      · next hready =>
        refine T.set t nofun fun change' heq => ?_
        cases heq
        have hmem := T.waiting t change epoch hc
        -- everything in the log is committed, and the change is in the log
        have hsettled : s.node.raft.commit = s.node.raft.lastIndex := by
          simpa [Raft.settled] using hready.2
        exact ⟨hmem, hsettled ▸ (T.core.within change hmem).2⟩
      · exact T
    · exact T
  | giveUp t =>
    simp only [Admin.step]
    split
    · exact T.set_other t nofun nofun
    · exact T.set_other t nofun nofun
    · exact T

end

end Tracked

/-- **No lost update.** Take a node that leads, with any number of callers, and any run in
which it goes on leading and every accepted change was made from the newest map in its log. A
caller that was told its change succeeded has it committed, where the log still reaches back to
it. And whatever a change wrote is in every map committed from then on, until another change
edits that part of the map. -/
theorem no_lost_update (config : ClusterConfig) {node : Controller}
    (role : node.raft.role = .leader) (S : node.raft.Sound)
    (run : Run (step config) (fun s a => s.serially config a = true) (start node) s) :
    (∀ t change, s.callers t = .told change → change ∈ s.changes ∧
      change.stamp ≤ s.node.raft.commit ∧ (change.stamp < s.node.raft.base ∨
        ∃ term, s.node.raft.entryAt change.stamp = some ⟨term, .ranges change.next⟩)) ∧
    ∀ change ∈ s.changes, ∀ j e m, change.stamp ≤ j → j ≤ s.node.raft.commit →
      s.node.raft.entryAt j = some e → e.decision.ranges? = some m →
      ∀ (A : Type) (part : RangeMap → A), (∀ other ∈ s.changes, change.stamp < other.stamp → other.stamp ≤ j →
          part other.next = part other.base) →
        part m = part change.next := by
  have T : Tracked node.raft.lastIndex s := run.run (.start role S) fun _ _ h T => T.step h
  constructor
  · intro t change ht
    obtain ⟨hmem, hcommit⟩ := T.told t change ht
    exact ⟨hmem, hcommit, T.core.logged change hmem⟩
  · intro change hmem j e m hj _ he hm A part keeps
    have hpast := (T.core.within change hmem).1
    obtain ⟨last, hlast, rfl, rfl⟩ := T.core.known j e m (lt_of_lt_of_le hpast hj) he hm
    exact T.core.serial.kept hmem hlast hj keeps

open Controller (duoConfig duoMap duoLeads round)

/-- The first of two nodes, which has just won and has nothing in flight. -/
def duoAdmin : Admin := start (Controller.exec duoConfig (Controller.start duoConfig none) duoLeads)

/-- The driver replicates the entry at `i`, and hears that the other node has it. -/
def replicates (i now : Nat) : List Action :=
  (round none now ++ round (some (.appendReply 1 1 true i)) (now + 1)).map .node

/-- A caller reserves ids, and when it has been told so a second one splits the range. -/
def inTurn : List Action :=
  [.read 0 (.reserve "t" 100), .settle 0, .propose 0] ++ replicates 2 5402 ++
    [.poll 0, .read 1 (.splitRange 5 none), .settle 1, .propose 1] ++ replicates 3 5802

/-- The reservation is in the map of the split. -/
theorem no_lost_update_duo :
    let s := exec duoConfig duoAdmin inTurn
    let reserved : Update RangeMap :=
      ⟨2, duoMap, { duoMap with epoch := 1, reserved := [("t", 100)] }⟩
    let split : RangeMap := { duoMap with
      epoch := 2, reserved := [("t", 100)]
      ranges := [⟨0, ⟨0, some 5⟩, [0, 1], 0, none⟩, ⟨1, ⟨5, none⟩, [0, 1], 0, none⟩] }
    s.callers 0 = .told reserved ∧ s.node.raft.entryAt 3 = some ⟨1, .ranges split⟩ ∧
      split.reservedFor "t" = reserved.next.reservedFor "t" := by
  intro s reserved split
  have hrun : Run (step duoConfig) (fun s a => s.serially duoConfig a = true) duoAdmin s :=
    Run.play (fun s a => s.serially duoConfig a) _ (by decide +kernel) (fun _ _ h => h)
  have hs : s.callers 0 = .told reserved ∧ s.node.raft.entryAt 3 = some ⟨1, .ranges split⟩ ∧
      s.node.raft.commit = 3 ∧ ∀ other ∈ s.changes, 2 < other.stamp → other.stamp ≤ 3 →
        other.next.reservedFor "t" = other.base.reservedFor "t" := by decide +kernel
  clear_value s
  obtain ⟨htold, hentry, hcommit, hkeeps⟩ := hs
  have hlost := no_lost_update duoConfig (by decide +kernel)
    ⟨by decide +kernel, by decide +kernel, by decide +kernel⟩ hrun
  have hmem := (hlost.1 0 reserved htold).1
  exact ⟨htold, hentry, hlost.2 reserved hmem 3 _ split (by decide) hcommit.ge hentry rfl _
    (RangeMap.reservedFor · "t") hkeeps⟩

/-- Two callers have read the same map. One reserves ids and is told so; then the other, which
only splits a range, proposes what it had made of the map before. -/
def overlapping : List Action :=
  [.read 0 (.reserve "t" 100), .read 1 (.splitRange 5 none), .settle 0, .propose 0] ++
    replicates 2 5402 ++ [.poll 0, .settle 1, .propose 1] ++ replicates 3 5802 ++ [.poll 1]

/-- The reservation its caller was told of is gone from the next committed map, although the
change that made that map does not touch reservations. -/
theorem acknowledged_reservation_lost :
    let s := exec duoConfig duoAdmin overlapping
    let reserved : Update RangeMap :=
      ⟨2, duoMap, { duoMap with epoch := 1, reserved := [("t", 100)] }⟩
    s.callers 0 = .told reserved ∧ reserved.next.reservedFor "t" = 100 ∧ (∀ other ∈ s.changes, 2 < other.stamp →
        other.next.reservedFor "t" = other.base.reservedFor "t") ∧
      s.node.raft.commit = 3 ∧
      ((s.node.raft.entryAt 3).bind fun e => e.decision.ranges?).map (RangeMap.reservedFor · "t") = some 0 := by
  decide +kernel

end Admin

end BigDb.Cluster
