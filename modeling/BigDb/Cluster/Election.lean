import BigDb.Cluster.FixedMembership
import BigDb.Cluster.Membership

/-!
# Election safety in a cluster whose membership never changes

Every node votes at most once a term, restarts included, and a leader has as many votes as
there are voters in a majority (`Polled`). But a vote is counted whoever it comes from:
`grant` does not ask whether the node that grants is a voter and the count does not ask
whether the node that granted is one. The agreement reaches learners as well as voters, so
two candidates can each be given a majority's number of votes with no node in common, and
`election_safety_iff` says exactly in which clusters.
-/

namespace BigDb.Cluster
open Lib List Function Net Raft
variable (members : List Member)

/-- The members that are being filled, by index. -/
def learnersOf : List NodeId :=
  (List.range members.length).filter fun i => (members[i]?).any (·.state = .learner)

variable {c : NodeId} {t : Nat} {n : NodeId} {net : Net}

lemma mem_learnersOf {members : List Member} :
    n ∈ learnersOf members ↔ ∃ m, members[n]? = some m ∧ m.state = .learner := by
  unfold learnersOf
  rw [mem_filter, mem_range, Option.any_eq_true]
  constructor
  · rintro ⟨-, m, hm, hs⟩
    exact ⟨m, hm, by simpa using hs⟩
  · rintro ⟨m, hm, hs⟩
    exact ⟨(lt_of_getElem? hm), m, hm, by simpa using hs⟩

/-- Everybody the agreement sends to: voters first, then learners. -/
def reachedBy : List NodeId := votersOf members ++ learnersOf members

lemma mem_reachedBy {members : List Member} : n ∈ reachedBy members ↔ Reaches members n := by
  rw [reachedBy, mem_append, mem_votersOf, mem_learnersOf]
  constructor
  · rintro (⟨m, hm, hv⟩ | ⟨m, hm, hs⟩)
    · exact ⟨m, hm, m.reachable_of_votes hv⟩
    · exact ⟨m, hm, by simp [Member.reachable, hs]⟩
  · rintro ⟨m, hm, hr⟩
    cases hs : m.state with
    | learner => exact .inr ⟨m, hm, hs⟩
    | voter | draining => exact .inl ⟨m, hm, by simp [Member.votes, hs]⟩
    | gone => simp [Member.reachable, hs] at hr

lemma reachedBy_nodup : (reachedBy members).Nodup := by
  refine nodup_append'.2 ⟨votersOf_nodup members, nodup_range.filter _, ?_⟩
  intro n hv hl
  obtain ⟨m, hm, hvotes⟩ := mem_votersOf.1 hv
  obtain ⟨m', hm', hs⟩ := mem_learnersOf.1 hl
  obtain rfl : m = m' := by rw [hm] at hm'; exact Option.some.inj hm'
  simp [Member.votes, hs] at hvotes

/-! ## Who voted for whom -/

variable {s : Setup} {b b' : NodeId → Nat → Option NodeId} {v : NodeId} {r : Raft}

variable (s b) in
/-- A majority's number of votes, from nodes the agreement reaches. -/
def Won (t : Nat) (v : NodeId) : Prop :=
  v ∈ votersOf s.members ∧ ∃ Q : Finset NodeId, (∀ u ∈ Q, Reaches s.members u ∧ b u t = some v) ∧
    (votersOf s.members).length / 2 + 1 ≤ Q.card

variable (b b') in
/-- Votes are never taken back. -/
def Later : Prop := ∀ u t c, b u t = some c → b' u t = some c

lemma Won.later (hw : Won s b t v) (hl : Later b b') : Won s b' t v := by
  obtain ⟨hv, Q, hQ, hcard⟩ := hw
  exact ⟨hv, Q, fun u hu => ⟨(hQ u hu).1, hl u t v (hQ u hu).2⟩, hcard⟩

variable (s b v r) in
/-- A core, and the votes cast so far. -/
structure Votes : Prop where
  id : r.id = v
  bound : ∀ t c, b v t = some c → t ≤ r.term
  voted : r.votedFor = b v r.term
  stands : r.role = .candidate → v ∈ votersOf s.members ∧ ∀ u ∈ r.votes, Reaches s.members u ∧ b u r.term = some v
  leads : r.role = .leader → Won s b r.term v

variable (s b) in
/-- A message, and the votes cast so far. -/
def Message.Polls (dest : NodeId) : Message → Prop
  | .requestVote .. => Reaches s.members dest
  | .voteReply term u granted => granted = true → Reaches s.members u ∧ b u term = some dest
  | _ => True

lemma Message.Polls.later {dest : NodeId} {m : Message} (hm : m.Polls s b dest)
    (hl : Later b b') : m.Polls s b' dest := by
  cases m with
  | voteReply term u granted => exact fun hg => ⟨(hm hg).1, hl _ _ _ (hm hg).2⟩
  | _ => exact hm

/-- What a leader sends carries no vote. -/
lemma polls_appendTo (r : Raft) (peer dest : NodeId) : (r.appendTo peer).Polls s b dest := by
  unfold appendTo
  dsimp only
  split <;> trivial

lemma Votes.later (V : Votes s b v r) (hl : Later b b') (same : b' v = b v) : Votes s b' v r where
  id := V.id
  bound t c hb := V.bound t c (same ▸ hb)
  voted := same ▸ V.voted
  stands role := ⟨(V.stands role).1, fun u hu =>
    ⟨((V.stands role).2 u hu).1, hl _ _ _ ((V.stands role).2 u hu).2⟩⟩
  leads role := (V.leads role).later hl

variable (b v) in
def castVote (t : Nat) (c : NodeId) : NodeId → Nat → Option NodeId :=
  fun u t' => if u = v ∧ t' = t then some c else b u t'

lemma later_castVote (hfree : b v t = none) : Later b (castVote b v t c) := by
  intro u t' d hd
  have : ¬ (u = v ∧ t' = t) := by
    rintro ⟨rfl, rfl⟩
    rw [hfree] at hd
    cases hd
  simpa [castVote, this] using hd

@[simp] lemma castVote_self : castVote b v t c v t = some c := by
  simp [castVote]

lemma castVote_ne {c u : NodeId} (h : u ≠ v) : castVote b v t c u = b u := by
  funext t'
  simp [castVote, h]

lemma bound_castVote {t T : Nat} (hb : ∀ t' d, b v t' = some d → t' ≤ T)
    (ht : t ≤ T) : ∀ t' d, castVote b v t c v t' = some d → t' ≤ T := by
  intro t' d hd
  unfold castVote at hd
  split at hd
  · next h => exact h.2 ▸ ht
  · exact hb t' d hd

/-- The votes moved on, on behalf of node `v` alone. -/
def Polled (s : Setup) (v : NodeId) (b b' : NodeId → Nat → Option NodeId) (x : Raft × Output) :
    Prop :=
  Later b b' ∧ (∀ u, u ≠ v → b' u = b u) ∧ Votes s b' v x.1 ∧ ∀ d m, (d, m) ∈ x.2.send → m.Polls s b' d

lemma Votes.grants (V : Votes s b v r) {li lt : Nat} (hg : r.grant r.term c li lt) :
    ∃ b', Later b b' ∧ (∀ u, u ≠ v → b' u = b u) ∧ Votes s b' v { r with votedFor := some c } ∧
      b' v r.term = some c := by
  rcases vote_of_grant hg with hnone | hsame
  · have hfree : b v r.term = none := V.voted.symm.trans hnone
    have hl := later_castVote (c := c) hfree
    refine ⟨castVote b v r.term c, hl, fun u hu => castVote_ne hu, ?_, castVote_self⟩
    exact {
      id := V.id
      bound := bound_castVote V.bound le_rfl
      voted := castVote_self.symm
      stands := fun role => ⟨(V.stands role).1, fun u hu =>
        ⟨((V.stands role).2 u hu).1, hl _ _ _ ((V.stands role).2 u hu).2⟩⟩
      leads := fun role => (V.leads role).later hl }
  · have hb : b v r.term = some c := V.voted.symm.trans hsame
    exact ⟨b, fun _ _ _ h => h, fun _ _ => rfl, ⟨V.id, V.bound, hb.symm, V.stands, V.leads⟩, hb⟩

lemma Votes.act {c : Raft.Cause} {x y : Raft × Output} (hact : Raft.Act c x y)
    (V : Votes s b v x.1) (M : x.1.ActsOn s.members) (hmsg : ∀ m, c = .message m → m.Polls s b v)
    (hs : ∀ d m, (d, m) ∈ x.2.send → m.Polls s b d) : ∃ b', Polled s v b b' y := by
  have stay : ∀ {r' : Raft} {out : Output}, Votes s b v r' →
      (∀ d m, (d, m) ∈ out.send → m.Polls s b d) → ∃ b', Polled s v b b' (r', out) :=
    fun V' hs' => ⟨b, fun _ _ _ h => h, fun _ _ => rfl, V', hs'⟩
  have sends : ∀ {b' : NodeId → Nat → Option NodeId} {out : Output} {dest : NodeId}
      {reply : Message}, Later b b' → (∀ d m, (d, m) ∈ out.send → m.Polls s b d) →
      reply.Polls s b' dest → ∀ d m, (d, m) ∈ (out.to dest reply).send → m.Polls s b' d := by
    intro b' out dest reply hl hout hr d m hm
    rcases mem_append.1 hm with hm | hm
    · exact (hout d m hm).later hl
    · cases mem_singleton.1 hm
      exact hr
  cases hact with
  | note | heardMatch | commit =>
    exact stay ⟨V.id, V.bound, V.voted, V.stands, V.leads⟩ hs
  | @observe r out msg hm later =>
    have hfree : b v msg.term = none := by
      cases hb : b v msg.term with
      | none => rfl
      | some d => exact absurd (V.bound _ _ hb) (by simpa using later)
    exact stay ⟨V.id, fun t d hb => (V.bound t d hb).trans later.le, hfree.symm, nofun, nofun⟩ hs
  | follow =>
    exact stay ⟨V.id, V.bound, V.voted, nofun, nofun⟩ hs
  | @refuse r out dest reply hr =>
    refine stay V (sends (fun _ _ _ h => h) hs ?_)
    cases reply with
    | voteReply term u granted =>
      rintro rfl
      cases hr
    | appendReply => trivial
    | _ => cases hr
  | @grant r out cand li lt hm hg =>
    obtain ⟨b', hl, hne, V', hb⟩ := V.grants hg
    refine ⟨b', hl, hne, V', sends hl hs fun _ => ⟨?_, ?_⟩⟩
    · rw [V.id]
      exact hmsg _ hm
    · rw [V.id]
      exact hb
  | @stand r out keep hm role votes =>
    have hfree : b v (r.term + 1) = none := by
      cases hb : b v (r.term + 1) with
      | none => rfl
      | some d => exact absurd (V.bound _ _ hb) (Nat.not_succ_le_self r.term)
    have hl := later_castVote (c := v) hfree
    have hvoter : v ∈ votersOf s.members := by
      have : r.id ∈ r.voters := by simpa [iVote] using votes
      rwa [M.voters, V.id] at this
    refine ⟨castVote b v (r.term + 1) v, hl, fun u hu => castVote_ne hu, ?_, fun d m hm => (hs d m hm).later hl⟩
    exact {
      id := V.id
      bound := bound_castVote (fun t d hb => (V.bound t d hb).trans (Nat.le_succ _)) le_rfl
      voted := by
        show some r.id = castVote b v (r.term + 1) v v (r.term + 1)
        rw [castVote_self, V.id]
      stands := fun _ => ⟨hvoter, fun u hu => by
        obtain rfl : u = r.id := by simpa [standing] using hu
        rw [V.id]
        obtain ⟨m, hm, hv⟩ := mem_votersOf.1 hvoter
        exact ⟨⟨m, hm, m.reachable_of_votes hv⟩, castVote_self⟩⟩
      leads := fun role => by cases role }
  | @canvass r out peer role hp =>
    refine stay V (sends (fun _ _ _ h => h) hs ?_)
    obtain ⟨-, hpeer⟩ := mem_filter.1 hp
    rw [Bool.and_eq_true] at hpeer
    show Reaches s.members peer
    rw [← M.members]
    exact (Option.any_eq_true _ _).1 hpeer.2
  | @count r out u hm role =>
    obtain ⟨hvoter, hvotes⟩ := V.stands role
    refine stay ⟨V.id, V.bound, V.voted, fun _ => ⟨hvoter, fun w hw => ?_⟩, V.leads⟩ hs
    rcases Finset.mem_insert.1 hw with rfl | hw
    · exact hmsg _ hm rfl
    · exact hvotes w hw
  | @win r out now polls role hq =>
    obtain ⟨hvoter, hvotes⟩ := V.stands role
    refine stay ⟨V.id, V.bound, V.voted, nofun, fun _ => ⟨hvoter, r.votes, hvotes, ?_⟩⟩ hs
    rw [← M.voters]
    exact hq
  | append hm first role =>
    rw [appended_frame]
    exact stay ⟨V.id, V.bound, V.voted, V.stands, V.leads⟩ hs
  | replicate => exact stay V (sends (fun _ _ _ h => h) hs (polls_appendTo _ _ _))
  | backOff =>
    exact stay ⟨V.id, V.bound, V.voted, V.stands, V.leads⟩ (sends (fun _ _ _ h => h) hs (polls_appendTo _ _ _))
  | accept hm first role hprev =>
    rw [caughtUp_frame, taken_frame]
    refine stay ⟨V.id, V.bound, V.voted, V.stands, V.leads⟩ (sends (fun _ _ _ h => h) hs ?_)
    trivial
  | install =>
    refine stay ⟨V.id, V.bound, V.voted, V.stands, V.leads⟩ (sends (fun _ _ _ h => h) hs ?_)
    trivial
  | compact =>
    rw [compact_frame]
    exact stay ⟨V.id, V.bound, V.voted, V.stands, V.leads⟩ hs

/-! ## Over whole runs -/

variable (s b) in
/-- The network, and the votes cast so far. -/
structure Poll (net : Net) : Prop where
  votes : ∀ v, Votes s b v (net.raft v)
  sent : ∀ p ∈ net.sent, p.message.Polls s b p.dest
  saved : ∀ v, match (net.nodes v).disk with
    | none => (net.raft v).term = 0 ∧ (net.raft v).votedFor = none
    | some st => st.term = (net.raft v).term ∧ st.votedFor = (net.raft v).votedFor

lemma poll_init (s : Setup) : Poll s (fun _ _ => none) (Net.init s) where
  votes _ := ⟨rfl, nofun, rfl, nofun, nofun⟩
  sent := nofun
  saved _ := ⟨rfl, rfl⟩

lemma Poll.step (P : Poll s b net) (H : Fixed s net) {e : Event}
    (ok : e.noMembers = true) : ∃ b', Later b b' ∧ Poll s b' (net.step s e) := by
  have hturn := net.turn s e
  generalize net.step s e = net' at hturn ⊢
  cases hturn with
  | idle => exact ⟨b, fun _ _ _ h => h, P⟩
  | @core n c past y hc acts own took =>
    have hprop : ∀ d, c = .proposal d → d.isMembers = false := by
      rintro d rfl
      cases e <;> cases hc
      simpa [Event.noMembers] using ok
    have hcarry : ∀ m, c = .message m → m.Carries s.members := by
      rintro m rfl
      cases e <;> cases hc
      exact H.sent _ (took _ _ rfl).1
    have hmsg : ∀ m, c = .message m → m.Polls s b n := by
      rintro m rfl
      cases e <;> cases hc
      exact P.sent _ (took _ _ rfl).1
    obtain ⟨⟨b', hl, hne, V, hs⟩, -⟩ := acts.run (P := fun x => (∃ b', Polled s n b b' x) ∧
        (x.1.ActsOn s.members ∧ ∀ d m, (d, m) ∈ x.2.send → m.Carries s.members))
      ⟨⟨b, fun _ _ _ h => h, fun _ _ => rfl, P.votes n, fun _ _ hm => by cases hm⟩, H.core n, fun _ _ hm => by cases hm⟩
      (by
        rintro a a' - hact ⟨⟨b₁, hl, hne, V, hs⟩, M⟩
        obtain ⟨b₂, hl', hne', V', hs'⟩ := V.act hact M.1 (fun m hm => (hmsg m hm).later hl) hs
        exact ⟨⟨b₂, fun u t d hd => hl' _ _ _ (hl _ _ _ hd), fun u hu => (hne' u hu).trans (hne u hu), V', hs'⟩,
          Raft.ActsOn.act hact hprop hcarry M⟩)
    refine ⟨b', hl, fun v => ?_, fun p hp => ?_, fun v => ?_⟩
    · by_cases hv : v = n
      · subst hv
        rw [raft_stepped_self]
        exact V
      · rw [raft_stepped_other hv]
        exact (P.votes v).later hl (hne v hv)
    · rcases mem_stepped_sent.1 hp with hp | ⟨d, m, hm, rfl⟩
      · exact (P.sent p hp).later hl
      · exact hs d m hm
    · by_cases hv : v = n
      · subst hv
        rw [raft_stepped_self, stepped_self]
        cases hpersist : y.2.persist with
        | true => simp [Node.after, hpersist, state]
        | false =>
          obtain ⟨hterm, hvote⟩ := acts.vote_saved hpersist
          rw [hterm, hvote]
          simpa [Node.after, hpersist] using P.saved v
      · rw [stepped_other hv, raft_stepped_other hv]
        exact P.saved v
  | @restart n now he =>
    refine ⟨b, fun _ _ _ h => h, fun v => ?_, P.sent, fun v => ?_⟩
    · by_cases hv : v = n
      · subst hv
        have hs := P.saved v
        have V := P.votes v
        simp only [Net.raft, update_self, Node.restarted]
        cases hd : (net.nodes v).disk with
        | none =>
          rw [hd] at hs
          refine ⟨rfl, fun t c hb => ?_, ?_, (fun role => by cases role),
      fun role => by cases role⟩
          · have := V.bound t c hb
            rwa [hs.1] at this
          · show none = b v 0
            rw [← hs.1, ← V.voted, hs.2]
        | some st =>
          rw [hd] at hs
          simp only
          rw [restore_eq _ st rfl rfl]
          refine ⟨rfl, fun t c hb => ?_, ?_, (fun role => by cases role),
      fun role => by cases role⟩
          · exact hs.1 ▸ V.bound t c hb
          · show st.votedFor = b v st.term
            rw [hs.1, hs.2, V.voted]
      · simp only [Net.raft, update_of_ne hv]
        exact P.votes v
    · by_cases hv : v = n
      · subst hv
        simp only [Net.raft, update_self, Node.restarted]
        cases hd : (net.nodes v).disk with
        | none => exact ⟨rfl, rfl⟩
        | some st =>
          simp only
          rw [restore_eq _ st rfl rfl]
          exact ⟨rfl, rfl⟩
      · simp only [Net.raft, update_of_ne hv]
        exact P.saved v

lemma Poll.path {net net' : Net} (P : Poll s b net) (H : Fixed s net)
    (path : Path s (fun _ e => e.noMembers) net net') : ∃ b', Later b b' ∧ Poll s b' net' := by
  have := path.run (P := fun a => Fixed s a ∧ ∃ b', Later b b' ∧ Poll s b' a) ⟨H, b, fun _ _ _ h => h, P⟩ (by
      rintro a e ok ⟨F, b₁, hl, P₁⟩
      obtain ⟨b₂, hl', P₂⟩ := P₁.step F ok
      exact ⟨F.step ok, b₂, fun u t d hd => hl' _ _ _ (hl _ _ _ hd), P₂⟩)
  exact this.2

/-! ## In which clusters two candidates cannot both win -/

/-- A cluster with one voter, or with too few nodes for two majorities' numbers of votes. -/
def TooFewToSplit : Prop :=
  (votersOf members).length ≤ 1 ∨ (votersOf members).length + (learnersOf members).length <
      2 * ((votersOf members).length / 2 + 1)

lemma Won.unique {w : NodeId} (few : TooFewToSplit s.members) (hv : Won s b t v) (hw : Won s b t w) : v = w := by
  obtain ⟨hvoter, Q, hQ, hcard⟩ := hv
  obtain ⟨hvoter', Q', hQ', hcard'⟩ := hw
  rcases few with hone | hfew
  · match hl : votersOf s.members with
    | [] => simp [hl] at hvoter
    | [x] =>
      rw [hl, mem_singleton] at hvoter hvoter'
      exact hvoter.trans hvoter'.symm
    | x :: y :: l => simp [hl] at hone
  · have hsub : ∀ {Q : Finset NodeId} {v : NodeId}, (∀ u ∈ Q, Reaches s.members u ∧
        b u t = some v) → Q ⊆ (reachedBy s.members).toFinset := fun h u hu =>
      mem_toFinset.2 (mem_reachedBy.2 (h u hu).1)
    have hsize : (reachedBy s.members).toFinset.card < Q.card + Q'.card := by
      rw [toFinset_card_of_nodup (reachedBy_nodup _), reachedBy, length_append]
      omega
    obtain ⟨u, hu⟩ :=
      Finset.inter_nonempty_of_card_lt_card_add_card (hsub hQ) (hsub hQ') hsize
    obtain ⟨h1, h2⟩ := Finset.mem_inter.1 hu
    have := (hQ u h1).2.symm.trans (hQ' u h2).2
    exact Option.some.inj this

/-! ## A run that splits any other cluster -/

lemma mem_foldl_to {targets : List NodeId} {f : NodeId → Message} {out : Output} {p : NodeId} (hp : p ∈ targets) :
    (p, f p) ∈ (targets.foldl (fun out peer => out.to peer (f peer)) out).send := by
  have keeps : ∀ (l : List NodeId) (o : Output) x, x ∈ o.send →
      x ∈ (l.foldl (fun out peer => out.to peer (f peer)) o).send := by
    intro l
    induction l with
    | nil => exact fun _ _ h => h
    | cons q l ih => exact fun o x hx => ih _ x (mem_append_left _ hx)
  induction targets generalizing out with
  | nil => cases hp
  | cons q targets ih =>
    rcases mem_cons.1 hp with rfl | hp
    · exact keeps targets (out.to p (f p)) _ (mem_append_right _ (mem_singleton_self _))
    · exact ih hp

section Split
variable {members} {timing : Timing} {a c u : NodeId} {now : Nat}

/-- A node that has never heard of anybody stands once its clock runs out. -/
lemma fresh_stands (timing : Timing) (keep : Option Nat) (ha : a ∈ votersOf members)
    (two : 2 ≤ (votersOf members).length) (hnow : (Raft.new a members timing 0).electionAt ≤ now) :
    let y := (Raft.new a members timing 0).tickKeeping keep now
    (y.1.role = .candidate ∧ y.1.term = 1 ∧ y.1.votes = {a} ∧ y.1.voters = votersOf members) ∧
      ∀ u, Reaches members u → u ≠ a → (u, .requestVote 1 a 0 0) ∈ y.2.send := by
  set r := Raft.new a members timing 0
  set r' := r.standing.resetElection now
  have hvote : r.iVote = true := by
    simpa [r, iVote, Raft.new, resetElection] using ha
  have hmaj : ¬ r'.majority ≤
      r'.votes.card := by
    show ¬ (votersOf members).length / 2 + 1 ≤ ({a} : Finset NodeId).card
    rw [Finset.card_singleton]
    omega
  have htick : r.tickKeeping keep now = (r', r'.peers.foldl (fun out peer =>
          out.to peer (.requestVote 1 a 0 0)) { (default : Output) with persist := true }) := by
    have hrole : r.role = .follower := rfl
    unfold tickKeeping
    simp only [hrole]
    rw [if_pos hnow]
    unfold stand
    rw [if_neg (by simp [hvote])]
    exact if_neg hmaj
  intro y
  rw [show y = _ from htick]
  refine ⟨⟨rfl, rfl, rfl, rfl⟩, fun u ⟨m, hm, hr⟩ hne => ?_⟩
  refine mem_foldl_to (f := fun _ => .requestVote 1 a 0 0) (mem_filter.2 ⟨?_, ?_⟩)
  · exact mem_range.2 (lt_of_getElem? hm)
  · have hm' : r'.members[u]? = some m := hm
    have hid : r'.id = a := rfl
    simp [hm', hid, hr, hne]

/-- Such a node votes for whoever asks first, voter or not. -/
lemma fresh_grants (hc : c ∈ votersOf members) :
    ((Raft.new u members timing 0).deliver (.requestVote 1 c 0 0) now).2.send = [(c, .voteReply 1 u true)] := by
  have hg : ((Raft.new u members timing 0).hear c now |>.stepDown 1).grant 1 c 0 0 = true := by
    simp [grant, stepDown, Raft.hear, Raft.new, resetElection, hc, lastTerm, lastIndex]
  have hobs : ((Raft.new u members timing 0).hear c now).observe 1 default =
      ((Raft.new u members timing 0).hear c now |>.stepDown 1, { (default : Output) with persist := true }) := rfl
  have htouch : ((Raft.new u members timing 0).hear c now).leaderInTouch now = false := rfl
  unfold deliver deliverRequestVote
  simp only [htouch, hobs, hg]
  rfl

/-- A candidate counts a vote whoever it comes from. -/
lemma candidate_counts (u : NodeId) (now : Nat) {r : Raft} (role : r.role = .candidate) :
    let y := r.deliver (.voteReply r.term u true) now
    y.1.term = r.term ∧ (r.majority ≤ (insert u r.votes).card → y.1.role = .leader) ∧
      ((insert u r.votes).card < r.majority →
        y.1.role = .candidate ∧ y.1.votes = insert u r.votes ∧ y.1.voters = r.voters) := by
  have hobs : (r.hear u now).observe r.term default = (r.hear u now, default) :=
    if_neg (Nat.lt_irrefl _)
  have hy : r.deliver (.voteReply r.term u true) now = if r.majority ≤ (insert u r.votes).card then
        { r.hear u now with votes := insert u r.votes }.win now default
      else ({ r.hear u now with votes := insert u r.votes }, default) := by
    rw [deliver, deliverVoteReply]
    rw [hobs]
    exact if_pos ⟨role, rfl, rfl⟩
  rw [hy]
  by_cases hq : r.majority ≤ (insert u r.votes).card
  · rw [if_pos hq, win_eq]
    generalize sendAppends _ _ _ = out
    refine ⟨?_, fun _ => ?_, fun hlt => absurd hq (Nat.not_le_of_lt hlt)⟩ <;>
      rcases advanceCommit_cases _ out with h | ⟨k, -, h⟩ <;> rw [h] <;> rfl
  · rw [if_neg hq]
    exact ⟨rfl, fun h => absurd h hq, fun _ => ⟨role, rfl, rfl⟩⟩

end Split

lemma step_deliver {p : Packet} (now : Nat) (hp : p ∈ net.sent) :
    net.step s (.deliver p now) = net.stepped p.dest (net.pastAfter p ((net.raft p.dest).deliver p.message now).1)
      ((net.raft p.dest).deliver p.message now) := by
  rw [Net.step, if_pos hp]

/-- One candidate's round of requests: everybody asked who has not voted grants. -/
lemma poll_round (hc : c ∈ votersOf s.members) (us : List NodeId) : ∀ net : Net, us.Nodup →
      (∀ u ∈ us, net.raft u = Raft.new u s.members s.timing 0) →
      (∀ u ∈ us, ∃ hist, ⟨u, .requestVote 1 c 0 0, hist⟩ ∈ net.sent) →
      ∃ net', Path s (fun _ e => e.noMembers) net net' ∧ (∀ p ∈ net.sent, p ∈ net'.sent) ∧
        (∀ v, v ∉ us → net'.raft v = net.raft v) ∧
        ∀ u ∈ us, ∃ hist, ⟨c, .voteReply 1 u true, hist⟩ ∈ net'.sent := by
  induction us with
  | nil => exact fun _ _ _ _ => ⟨_, .refl, fun _ h => h, fun _ _ => rfl, nofun⟩
  | cons u us ih =>
    intro net hnd hfresh hasked
    obtain ⟨hu, hnd⟩ := nodup_cons.1 hnd
    obtain ⟨hist, hp⟩ := hasked u mem_cons_self
    have hstep := step_deliver (s := s) 0 hp
    generalize hnet₁ : net.step s (.deliver ⟨u, .requestVote 1 c 0 0, hist⟩ 0) = net₁ at hstep
    simp only [hfresh u mem_cons_self] at hstep
    have hother : ∀ v, v ≠ u → net₁.raft v = net.raft v := fun v hv => by
      rw [hstep, raft_stepped_other hv]
    have hmono : ∀ p ∈ net.sent, p ∈ net₁.sent := fun p hp => by
      rw [hstep]
      exact mem_stepped_sent.2 (.inl hp)
    have hreply : ∃ hist, ⟨c, .voteReply 1 u true, hist⟩ ∈ net₁.sent := by
      rw [hstep]
      refine ⟨_, mem_stepped_sent.2 (.inr ⟨c, .voteReply 1 u true, ?_, rfl⟩)⟩
      rw [fresh_grants hc]
      exact mem_singleton_self _
    obtain ⟨net', path, hsent, hraft, hrep⟩ := ih net₁ hnd (fun w hw => by
        rw [hother w (fun h => hu (h ▸ hw))]
        exact hfresh w (mem_cons_of_mem _ hw))
      (fun w hw => (hasked w (mem_cons_of_mem _ hw)).imp fun _ h => hmono _ h)
    have first : Path s (fun _ e => e.noMembers) net net₁ :=
      hnet₁ ▸ Run.refl.tail (e := Event.deliver ⟨u, .requestVote 1 c 0 0, hist⟩ 0) rfl
    refine ⟨net', first.trans path, fun p hp => hsent p (hmono p hp), fun v hv => ?_, fun w hw => ?_⟩
    · rw [mem_cons, not_or] at hv
      rw [hraft v hv.2, hother v hv.1]
    · rcases mem_cons.1 hw with rfl | hw
      · exact hreply.imp fun _ h => hsent _ h
      · exact hrep w hw

/-- One candidate's count: the votes on their way make it a leader. -/
lemma count_round (us : List NodeId) :
    ∀ net : Net, us ≠ [] → us.Nodup → (net.raft c).role = .candidate → (net.raft c).term = 1 →
      (∀ u ∈ us, u ∉ (net.raft c).votes) →
      (net.raft c).votes.card + us.length = (net.raft c).majority →
      (∀ u ∈ us, ∃ hist, ⟨c, .voteReply 1 u true, hist⟩ ∈ net.sent) →
      ∃ net', Path s (fun _ e => e.noMembers) net net' ∧ (∀ p ∈ net.sent, p ∈ net'.sent) ∧
        (∀ v, v ≠ c → net'.raft v = net.raft v) ∧
        (net'.raft c).role = .leader ∧ (net'.raft c).term = 1 := by
  induction us with
  | nil => exact fun _ h => (h rfl).elim
  | cons u us ih =>
    intro net _ hnd role hterm hout hcard hsent
    obtain ⟨hu, hnd⟩ := nodup_cons.1 hnd
    obtain ⟨hist, hp⟩ := hsent u mem_cons_self
    have hstep := step_deliver (s := s) 0 hp
    generalize hnet₁ : net.step s (.deliver ⟨c, .voteReply 1 u true, hist⟩ 0) = net₁ at hstep
    have hcount := candidate_counts u 0 role
    dsimp only at hcount
    rw [hterm] at hcount
    have hraft : net₁.raft c = ((net.raft c).deliver (.voteReply 1 u true) 0).1 := by
      rw [hstep, raft_stepped_self]
    rw [← hraft] at hcount
    obtain ⟨hterm₁, hwin, hwait⟩ := hcount
    have hother : ∀ v, v ≠ c → net₁.raft v = net.raft v := fun v hv => by
      rw [hstep, raft_stepped_other hv]
    have hmono : ∀ p ∈ net.sent, p ∈ net₁.sent := fun p hp => by
      rw [hstep]
      exact mem_stepped_sent.2 (.inl hp)
    have hins : (insert u (net.raft c).votes).card = (net.raft c).votes.card + 1 :=
      Finset.card_insert_of_notMem (hout u mem_cons_self)
    have first : Path s (fun _ e => e.noMembers) net net₁ :=
      hnet₁ ▸ Run.refl.tail (e := Event.deliver ⟨c, .voteReply 1 u true, hist⟩ 0) rfl
    rw [length_cons] at hcard
    rcases us.eq_nil_or_concat with rfl | hne
    · exact ⟨net₁, first, hmono, hother, hwin (by simp at hcard; omega), hterm₁⟩
    have hne : us ≠ [] := by
      obtain ⟨l, x, rfl⟩ := hne
      simp
    have hpos := length_pos_iff.2 hne
    obtain ⟨role₁, hvotes₁, hvoters₁⟩ := hwait (by omega)
    have hmaj : (net₁.raft c).majority = (net.raft c).majority := by
      rw [majority, hvoters₁]
      rfl
    obtain ⟨net', path, hs, ho, hl⟩ := ih net₁ hne hnd role₁ hterm₁ (fun w hw => by
        rw [hvotes₁, Finset.mem_insert, not_or]
        exact ⟨fun h => hu (h ▸ hw), hout w (mem_cons_of_mem _ hw)⟩)
      (by rw [hvotes₁, hmaj, hins]; omega)
      (fun w hw => (hsent w (mem_cons_of_mem _ hw)).imp fun _ h => hmono _ h)
    exact ⟨net', first.trans path, fun p hp => hs p (hmono p hp), fun v hv => (ho v hv).trans (hother v hv), hl⟩

/-- A fresh node's clock runs out: it stands, asks everybody it reaches, and nobody else
notices yet. -/
lemma stand_round {a : NodeId} (net : Net) (ha : a ∈ votersOf s.members) (two : 2 ≤ (votersOf s.members).length)
    (fresh : net.raft a = Raft.new a s.members s.timing 0) :
    ∃ net', Path s (fun _ e => e.noMembers) net net' ∧ (∀ p ∈ net.sent, p ∈ net'.sent) ∧
      (∀ v, v ≠ a → net'.raft v = net.raft v) ∧
      ((net'.raft a).role = .candidate ∧ (net'.raft a).term = 1 ∧ (net'.raft a).votes = {a} ∧
        (net'.raft a).voters = votersOf s.members) ∧
      ∀ u, Reaches s.members u → u ≠ a → ∃ hist, ⟨u, .requestVote 1 a 0 0, hist⟩ ∈ net'.sent := by
  obtain ⟨hstate, hasks⟩ := fresh_stands s.timing s.keep ha two le_rfl
  have hstep : net.step s (.tick a (Raft.new a s.members s.timing 0).electionAt) =
      net.stepped a (net.nodes a).history ((Raft.new a s.members s.timing 0).tickKeeping s.keep
        (Raft.new a s.members s.timing 0).electionAt) := by
    rw [Net.step, fresh]
  refine ⟨_, Run.refl.tail (e := Event.tick a (Raft.new a s.members s.timing 0).electionAt) rfl, ?_, ?_, ?_, ?_⟩
  · rw [hstep]
    exact fun p hp => mem_stepped_sent.2 (.inl hp)
  · intro v hv
    rw [hstep, raft_stepped_other hv]
  · rw [hstep, raft_stepped_self]
    exact hstate
  · intro u hu hne
    rw [hstep]
    exact ⟨_, mem_stepped_sent.2 (.inr ⟨u, _, hasks u hu hne, rfl⟩)⟩

/-- Two candidates, and two lists of supporters with nobody in common. -/
structure Camps (members : List Member) (a b : NodeId) (A B : List NodeId) : Prop where
  voters : a ∈ votersOf members ∧ b ∈ votersOf members
  nodup : (a :: b :: (A ++ B)).Nodup
  reach : ∀ u ∈ A ++ B, Reaches members u
  size : A.length = (votersOf members).length / 2 ∧ B.length = (votersOf members).length / 2

lemma exists_camps {members : List Member} (h : ¬ TooFewToSplit members) : ∃ a b A B, Camps members a b A B := by
  rw [TooFewToSplit, not_or, not_le, not_lt] at h
  obtain ⟨two, many⟩ := h
  match hv : votersOf members with
  | [] => simp [hv] at two
  | [x] => simp [hv] at two
  | a :: b :: rest =>
    have hnd := reachedBy_nodup members
    have hmem : ∀ u ∈ rest ++ learnersOf members, u ∈ reachedBy members := fun u hu => by
      rw [reachedBy, hv]
      exact mem_cons_of_mem _ (mem_cons_of_mem _ hu)
    rw [reachedBy, hv] at hnd
    generalize hk : (votersOf members).length / 2 = k at many
    generalize hl : rest ++ learnersOf members = l at hmem
    have hlen : 2 * k ≤ l.length := by
      rw [← hl, length_append]
      rw [hv, length_cons, length_cons] at many
      omega
    have hsplit : l.take k ++ (l.drop k).take k = l.take (2 * k) := by
      rw [Nat.two_mul, take_add]
    refine ⟨a, b, l.take k, (l.drop k).take k, ⟨by simp [hv], by simp [hv]⟩, ?_, ?_, ?_, ?_⟩
    · rw [hsplit]
      refine List.Nodup.sublist ?_ hnd
      rw [cons_append, cons_append, hl]
      exact ((take_sublist _ _).cons_cons b).cons_cons a
    · rw [hsplit]
      exact fun u hu => mem_reachedBy.1 (hmem u (mem_of_mem_take hu))
    · rw [length_take, hk]
      omega
    · rw [length_take, length_drop, hk]
      omega

/-- **A cluster with enough nodes for two such counts can have two leaders of one term.** -/
lemma exists_split (h : ¬ TooFewToSplit s.members) :
    ∃ net a b, Path s (fun _ e => e.noMembers) (Net.init s) net ∧ a ≠ b ∧
      (net.raft a).role = .leader ∧ (net.raft b).role = .leader ∧
      (net.raft a).term = (net.raft b).term := by
  obtain ⟨a, b, A, B, C⟩ := exists_camps h
  have two : 2 ≤ (votersOf s.members).length := by
    rw [TooFewToSplit, not_or, not_le] at h
    exact h.1
  have hnd := C.nodup
  simp only [nodup_cons, mem_cons, mem_append, not_or, nodup_append'] at hnd
  obtain ⟨⟨hab, haA, haB⟩, ⟨hbA, hbB⟩, hA, hB, hdisj⟩ := hnd
  have ne_nil : ∀ {l : List NodeId}, l.length = (votersOf s.members).length / 2 → l ≠ [] := by
    rintro l hl rfl
    simp at hl
    omega
  -- both stand before anybody is asked
  obtain ⟨net₁, path₁, sent₁, other₁, cand₁, ask₁⟩ :=
    stand_round (Net.init s) C.voters.1 two rfl
  obtain ⟨net₂, path₂, sent₂, other₂, cand₂, ask₂⟩ :=
    stand_round net₁ C.voters.2 two (other₁ b (Ne.symm hab))
  obtain ⟨net₃, path₃, sent₃, other₃, reply₃⟩ := poll_round C.voters.1 A net₂ hA (fun u hu => by
      rw [other₂ u (fun h => hbA (h ▸ hu)), other₁ u (fun h => haA (h ▸ hu))]
      rfl)
    (fun u hu => (ask₁ u (C.reach u (mem_append_left _ hu)) (fun h => haA (h ▸ hu))).imp fun _ h => sent₂ _ h)
  obtain ⟨net₄, path₄, sent₄, other₄, reply₄⟩ := poll_round C.voters.2 B net₃ hB (fun u hu => by
      rw [other₃ u (fun h => hdisj h hu), other₂ u (fun h => hbB (h ▸ hu)), other₁ u (fun h => haB (h ▸ hu))]
      rfl)
    (fun u hu => (ask₂ u (C.reach u (mem_append_right _ hu)) (fun h => hbB (h ▸ hu))).imp fun _ h => sent₃ _ h)
  have ha₄ : net₄.raft a = net₁.raft a := by
    rw [other₄ a haB, other₃ a haA, other₂ a hab]
  obtain ⟨net₅, path₅, sent₅, other₅, lead₅⟩ := count_round (s := s) (c := a) A net₄
    (ne_nil C.size.1) hA (ha₄ ▸ cand₁.1) (ha₄ ▸ cand₁.2.1)
    (fun u hu => by
      rw [ha₄, cand₁.2.2.1, Finset.mem_singleton]
      exact fun h => haA (h ▸ hu))
    (by
      rw [ha₄, majority, cand₁.2.2.1, cand₁.2.2.2, C.size.1, Finset.card_singleton]
      omega)
    (fun u hu => (reply₃ u hu).imp fun _ h => sent₄ _ h)
  have hb₅ : net₅.raft b = net₂.raft b := by
    rw [other₅ b (Ne.symm hab), other₄ b hbB, other₃ b hbA]
  obtain ⟨net₆, path₆, -, other₆, lead₆⟩ := count_round (s := s) (c := b) B net₅
    (ne_nil C.size.2) hB (hb₅ ▸ cand₂.1) (hb₅ ▸ cand₂.2.1)
    (fun u hu => by
      rw [hb₅, cand₂.2.2.1, Finset.mem_singleton]
      exact fun h => hbB (h ▸ hu))
    (by
      rw [hb₅, majority, cand₂.2.2.1, cand₂.2.2.2, C.size.2, Finset.card_singleton]
      omega)
    (fun u hu => (reply₄ u hu).imp fun _ h => sent₅ _ h)
  have ha₆ : net₆.raft a = net₅.raft a := other₆ a hab
  refine ⟨net₆, a, b, ((((path₁.trans path₂).trans path₃).trans path₄).trans path₅).trans path₆,
    hab, ha₆ ▸ lead₅.1, lead₆.1, ?_⟩
  rw [ha₆, lead₅.2, lead₆.2]

/-- **Election safety, exactly.** In a cluster whose membership never changes a term has at
most one leader, over every run, precisely when the cluster has one voter or its voters and
learners together are fewer than twice a majority of its voters: no learner, or one learner
beside an even number of voters. -/
theorem election_safety_iff (s : Setup) : (∀ net net', Path s (fun _ e => e.noMembers) (Net.init s) net →
      Path s (fun _ e => e.noMembers) net net' →
      ∀ a b, (net.raft a).role = .leader → (net'.raft b).role = .leader →
        (net.raft a).term = (net'.raft b).term → a = b) ↔
    TooFewToSplit s.members := by
  constructor
  · intro safe
    by_contra hmany
    obtain ⟨net, a, b, path, hne, ha, hb, ht⟩ := exists_split hmany
    exact hne (safe net net path .refl a b ha hb ht)
  intro few net net' start rest a b ha hb hterm
  have F : Fixed s net := .path start fun _ _ h => h
  obtain ⟨v, -, P⟩ := (poll_init s).path (fixed_init s) start
  obtain ⟨v', hl, P'⟩ := P.path F rest
  have hwa := ((P.votes a).leads ha).later hl
  have hwb := (P'.votes b).leads hb
  rw [hterm] at hwa
  exact hwa.unique few hwb

/-- Three voters and a learner. Nodes 0 and 1 stand in term 1; node 2 votes for the one and the
learner for the other. -/
def splitVote : List (Net → Event) :=
  [fun _ => .tick 0 5000, fun _ => .tick 1 5000, pick 1 5001, pick 5 5001, pick 6 5002, pick 7 5002]

/-- Both are leaders of term 1. -/
theorem learner_vote_splits :
    let s : Setup := ⟨trio ++ [.named "d" .learner], default, some keepEntries⟩
    let net := (Net.init s).play s splitVote
    Path s (fun _ e => e.noMembers) (Net.init s) net ∧ (net.raft 0).role = .leader ∧ (net.raft 1).role = .leader ∧
      (net.raft 0).term = (net.raft 1).term :=
  ⟨.play (fun _ e => e.noMembers) splitVote (by decide +kernel) fun _ _ h => h, by decide +kernel⟩

end BigDb.Cluster
