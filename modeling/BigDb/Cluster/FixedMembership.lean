import BigDb.Cluster.Recall

/-!
# Clusters whose membership never changes

As long as no membership is proposed none is ever in a log, in a message or on a disk, and
every node acts on the membership of the file it was started from, snapshots and restarts
included.
-/

namespace BigDb.Cluster
open Function List Net

def Quiet (log : List Entry) : Prop := ∀ e ∈ log, e.decision.isMembers = false

namespace Quiet
variable {log log' : List Entry}

lemma latest (hq : Quiet log) (seed : List Member) : latestMembers seed log = seed :=
  latestMembers_quiet seed (any_eq_false.2 fun e he => by simp [hq e he])

lemma append (hq : Quiet log) (hq' : Quiet log') : Quiet (log ++ log') := fun e he =>
  (mem_append.1 he).elim (hq e) (hq' e)

lemma drop (hq : Quiet log) (n : Nat) : Quiet (log.drop n) :=
  fun e he => hq e (mem_of_mem_drop he)

lemma take (hq : Quiet log) (n : Nat) : Quiet (log.take n) :=
  fun e he => hq e (mem_of_mem_take he)

lemma singleton {e : Entry} (h : e.decision.isMembers = false) : Quiet [e] := fun x hx => by
  rw [mem_singleton.1 hx]
  exact h

/-- Applying such a log leaves the membership alone. -/
lemma foldDecision (hq : Quiet log) (start : RangeMap × List Member) :
    (log.foldl Raft.foldDecision start).2 = start.2 := by
  rw [foldl_foldDecision]
  exact latestMembers_quiet _ (any_eq_false.2 fun e he => by simp [hq e he])

end Quiet

/-- A core that acts on the membership `M`. -/
structure Raft.ActsOn (M : List Member) (r : Raft) : Prop where
  seed : r.seed = M
  members : r.members = M
  voters : r.voters = votersOf M
  quiet : Quiet r.log

/-- A message that carries no other membership than `M`. -/
def Message.Carries (M : List Member) : Message → Prop
  | .append _ _ _ _ entries _ => Quiet entries
  | .snapshot _ _ _ _ _ members => members = M
  | _ => True

variable {M : List Member} {r : Raft}

lemma Raft.ActsOn.refreshed (hs : r.seed = M) (hq : Quiet r.log) : r.refreshMembers.ActsOn M := by
  have hl : latestMembers r.seed r.log = M := by rw [hq.latest, hs]
  exact ⟨hs, hl, congrArg votersOf hl, hq⟩

lemma Raft.ActsOn.taken (H : r.ActsOn M) {prev pt : Nat} {entries : List Entry}
    (hprev : r.termAt prev = some pt) (hq : Quiet entries) : (r.taken prev entries).ActsOn M := by
  have hfilled : Quiet (r.filled prev entries false).raft.log := by
    rcases filled_cases entries hprev with ⟨-, hf⟩ | ⟨j, -, hf⟩
    · rw [hf]
      exact H.quiet
    · rw [hf]
      exact (H.quiet.take _).append (hq.drop _)
  have hframe := (foldl_fill_frame entries ⟨r, prev, false, false⟩).1
  change (r.filled prev entries false).raft = _ at hframe
  unfold Raft.taken
  dsimp only
  split
  · exact .refreshed (by rw [hframe]; exact H.seed) hfilled
  · exact ⟨by rw [hframe]; exact H.seed, by rw [hframe]; exact H.members, by rw [hframe]; exact H.voters, hfilled⟩

lemma Raft.ActsOn.carries_append (H : r.ActsOn M) (peer : NodeId) : (r.appendTo peer).Carries M := by
  unfold Raft.appendTo
  dsimp only
  split
  · exact ((H.quiet.take _).foldDecision _).trans H.seed
  show Quiet (r.entriesFrom _)
  unfold Raft.entriesFrom
  split
  · exact H.quiet.drop _
  · exact nofun

lemma Raft.compact_log (r : Raft) (keep : Nat) : ∃ n, (r.compact keep).log = r.log.drop n := by
  rcases r.compact_cases keep with heq | ⟨d, -, -, -, -, heq⟩
  · exact ⟨0, by rw [heq, drop_zero]⟩
  · exact ⟨d, by rw [heq]⟩

lemma Raft.ActsOn.act {c : Raft.Cause} {x y : Raft × Output} (hact : Raft.Act c x y)
    (hprop : ∀ d, c = .proposal d → d.isMembers = false) (hmsg : ∀ m, c = .message m → m.Carries M)
    (H : x.1.ActsOn M ∧ ∀ d m, (d, m) ∈ x.2.send → m.Carries M) :
    y.1.ActsOn M ∧ ∀ d m, (d, m) ∈ y.2.send → m.Carries M := by
  obtain ⟨H, hs⟩ := H
  have sends : ∀ {out : Output} {dest : NodeId} {reply : Message},
      (∀ d m, (d, m) ∈ out.send → m.Carries M) → reply.Carries M →
      ∀ d m, (d, m) ∈ (out.to dest reply).send → m.Carries M := by
    intro out dest reply hout hr d m hm
    rcases mem_append.1 hm with hm | hm
    · exact hout d m hm
    · cases mem_singleton.1 hm
      exact hr
  cases hact with
  | note | observe | follow | stand | count | heardMatch | commit =>
    exact ⟨⟨H.seed, H.members, H.voters, H.quiet⟩, hs⟩
  | @refuse r out dest reply hr =>
    refine ⟨H, sends hs ?_⟩
    cases reply <;> trivial
  | grant => exact ⟨⟨H.seed, H.members, H.voters, H.quiet⟩, sends hs trivial⟩
  | canvass => exact ⟨H, sends hs trivial⟩
  | win => exact ⟨⟨H.seed, H.members, H.voters, H.quiet.append (.singleton rfl)⟩, hs⟩
  | @append r out d hm =>
    have hd := hprop d hm
    refine ⟨?_, hs⟩
    have hq : Quiet (r.log ++ [Entry.mk r.term d]) := H.quiet.append (.singleton hd)
    unfold Raft.appended
    simp only [hd]
    exact ⟨H.seed, H.members, H.voters, hq⟩
  | replicate => exact ⟨H, sends hs (H.carries_append _)⟩
  | @backOff r out u i hm first role =>
    have H' : (r.backedOff u).ActsOn M := ⟨H.seed, H.members, H.voters, H.quiet⟩
    exact ⟨H', sends hs (H'.carries_append _)⟩
  | @accept r out l prev pt entries commit hm first role hprev =>
    have T := H.taken hprev (hmsg _ hm)
    rw [caughtUp_frame]
    exact ⟨⟨T.seed, T.members, T.voters, T.quiet⟩, sends hs trivial⟩
  | install hm =>
    have hmem : _ = M := hmsg _ hm
    exact ⟨⟨hmem, hmem, congrArg votersOf hmem, .singleton rfl⟩, sends hs trivial⟩
  | @compact r out keep =>
    obtain ⟨n, hn⟩ := r.compact_log keep
    rw [compact_frame, hn]
    exact ⟨⟨H.seed, H.members, H.voters, H.quiet.drop n⟩, hs⟩

/-! ## Over whole runs -/

def Event.noMembers : Event → Bool
  | .propose _ d => !d.isMembers
  | _ => true

/-- Everybody acts on the file's membership, and nothing on its way or on a disk says
otherwise. -/
structure Fixed (s : Setup) (net : Net) : Prop where
  core : ∀ v, (net.raft v).ActsOn s.members
  sent : ∀ p ∈ net.sent, p.message.Carries s.members
  disk : ∀ v st, (net.nodes v).disk = some st → st.seed = s.members ∧ Quiet st.log

lemma actsOn_new (s : Setup) (v : NodeId) (now : Nat) : (Raft.new v s.members s.timing now).ActsOn s.members :=
  ⟨rfl, rfl, rfl, .singleton rfl⟩

lemma Raft.ActsOn.restored {st : State} (H : r.ActsOn M) (hseed : st.seed = M)
    (hq : Quiet st.log) : (r.restore st).ActsOn M := by
  have hs : (if st.seed.isEmpty then r.seed else st.seed) = M := by
    rw [H.seed, hseed]
    split <;> rfl
  have hlog : Quiet (if st.log.isEmpty then r.log else st.log) := by
    split
    · exact H.quiet
    · exact hq
  rw [restore_eq r st rfl hs]
  have hl := hlog.latest M
  exact ⟨rfl, hl, congrArg votersOf hl, hlog⟩

lemma fixed_init (s : Setup) : Fixed s (Net.init s) :=
  ⟨fun v => actsOn_new s v 0, nofun, nofun⟩

/-- **One step.** -/
lemma Fixed.step {s : Setup} {net : Net} (H : Fixed s net) {e : Event} (ok : e.noMembers = true) :
    Fixed s (net.step s e) := by
  have hturn := net.turn s e
  generalize net.step s e = net' at hturn ⊢
  cases hturn with
  | idle => exact H
  | @core n c past y hc acts own took =>
    have hprop : ∀ d, c = .proposal d → d.isMembers = false := by
      rintro d rfl
      cases e <;> cases hc
      simpa [Event.noMembers] using ok
    have hmsg : ∀ m, c = .message m → m.Carries s.members := by
      rintro m rfl
      cases e <;> cases hc
      exact H.sent _ (took _ _ rfl).1
    obtain ⟨hcore, hsends⟩ := acts.run
      (P := fun x => x.1.ActsOn s.members ∧ ∀ d m, (d, m) ∈ x.2.send → m.Carries s.members)
      ⟨H.core n, nofun⟩ fun a b _ hact ih => Raft.ActsOn.act hact hprop hmsg ih
    refine ⟨fun v => ?_, fun p hp => ?_, fun v st hst => ?_⟩
    · by_cases hv : v = n
      · subst hv
        rw [raft_stepped_self]
        exact hcore
      · rw [raft_stepped_other hv]
        exact H.core v
    · rcases mem_stepped_sent.1 hp with hp | ⟨d, m, hm, rfl⟩
      · exact H.sent p hp
      · exact hsends d m hm
    · by_cases hv : v = n
      · subst hv
        rw [stepped_self] at hst
        simp only [Node.after] at hst
        split at hst
        · cases hst
          exact ⟨hcore.seed, hcore.quiet⟩
        · exact H.disk v st hst
      · rw [stepped_other hv] at hst
        exact H.disk v st hst
  | @restart n now he =>
    refine ⟨fun v => ?_, H.sent, fun v st hst => ?_⟩
    · by_cases hv : v = n
      · subst hv
        simp only [Net.raft, update_self, Node.restarted]
        cases hd : (net.nodes v).disk with
        | none => exact actsOn_new s v now
        | some st =>
          obtain ⟨hseed, hq⟩ := H.disk v st hd
          exact (actsOn_new s v now).restored hseed hq
      · simp only [Net.raft, update_of_ne hv]
        exact H.core v
    · by_cases hv : v = n
      · subst hv
        simp only [update_self] at hst
        exact H.disk v st hst
      · simp only [update_of_ne hv] at hst
        exact H.disk v st hst

/-- **A whole run.** -/
lemma Fixed.path {s : Setup} {ok : Net → Event → Prop} {net : Net}
    (path : Path s ok (Net.init s) net) (hok : ∀ a e, ok a e → e.noMembers = true) : Fixed s net :=
  path.run (fixed_init s) fun a e h ih => ih.step (hok a e h)

end BigDb.Cluster
