import BigDb.Cluster.FixedMembership
import BigDb.Cluster.Simulation

/-!
# Agreement while nothing is compacted

A network of cores that compact nothing follows a ledger (`Follows`), step by step and so
over whole runs, as long as the membership is changed one settled step at a time and no
learner's vote is counted. What the ledger rules out is then ruled out for the cores: two
leaders of one term, a committed entry missing from a later leader's log, two different
entries applied at one index.
-/

namespace BigDb.Cluster
open Lib Lib.Ledger List Function Net Option Prod
variable {s : Setup} {h h' : Ledger Entry NodeId} {v : NodeId} {r : Raft} {c : Raft.Cause} {e : Event} {net net' : Net}

/-! ## A whole step of one core -/

variable (s h v r) in
/-- What a core may be asked to do for its step to be one of the ledger's. -/
def Allowed : Raft.Cause → Prop
  | .clock keep => keep = none
  | .message m => Backed s h v m ∧ ∀ u, m = .voteReply r.term u true → r.role = .candidate →
      ∀ x, r.members[u]? = some x → x.state ≠ .learner
  | .proposal d => r.role = .leader → d.isMembers → h.MayChange (scheme s) r.term r.log.length
  | .compaction _ => False

lemma Allowed.keep? (ok : Allowed s h v r c) : c.keep? = none := by
  cases c with
  | clock keep => exact ok
  | compaction keep => exact ok.elim
  | message m | proposal d => rfl

/-- One act: the ledger moves, and what the act sends is backed. -/
lemma Agrees.act {x y : Raft × Output} (V : h.Valid (scheme s)) (F : Fair s h)
    (A : Agrees s h v x.1) (hact : Raft.Act c x y) (hkeep : c.keep? = none)
    (hmsg : ∀ m, c = .message m → Backed s h v m)
    (hcount : ∀ u, c = .message (.voteReply x.1.term u true) → x.1.role = .candidate →
      ∀ m, x.1.members[u]? = some m → m.state ≠ .learner)
    (hprop : ∀ d, c = .proposal d → x.2.persist = false → x.1.role = .leader → d.isMembers →
      h.MayChange (scheme s) x.1.term x.1.log.length) :
    ∃ h', Moved s v h h' y.1 ∧ ∀ d m, (d, m) ∈ y.2.send → (d, m) ∈ x.2.send ∨ Backed s h' d m := by
  -- most acts send nothing; those that send one message send it last
  have silent : ∀ {r' : Raft} {send : List (NodeId × Message)}, (∃ h', Moved s v h h' r') → ∃ h', Moved s v h h' r' ∧
        ∀ d m, (d, m) ∈ send → (d, m) ∈ send ∨ Backed s h' d m :=
    fun ⟨h', M⟩ => ⟨h', M, fun _ _ hm => .inl hm⟩
  have sends : ∀ {r' : Raft} {out : Output} {dest : NodeId} {reply : Message},
      (∃ h', Moved s v h h' r' ∧ Backed s h' dest reply) → ∃ h', Moved s v h h' r' ∧
        ∀ d m, (d, m) ∈ (out.to dest reply).send → (d, m) ∈ out.send ∨ Backed s h' d m := by
    rintro r' out dest reply ⟨h', M, hb⟩
    refine ⟨h', M, fun d m hm => ?_⟩
    rcases mem_append.1 hm with hm | hm
    · exact .inl hm
    · cases mem_singleton.1 hm
      exact .inr hb
  have stay : ∃ h', Moved s v h h' x.1 := ⟨h, .refl V F A⟩
  cases hact with
  | note heard leaderCommit electionAt heartbeatAt =>
    refine silent ⟨h, .refl V F ?_⟩
    exact { A with
      listed := ⟨A.listed.members, A.listed.voters⟩
      stands := fun role => ⟨(A.stands role).first, (A.stands role).ballot, (A.stands role).votes⟩
      leads := fun role => ⟨(A.leads role).elected, (A.leads role).matched, (A.leads role).next, (A.leads role).own⟩ }
  | observe _ later => exact silent (A.stepDown V F later)
  | follow => exact silent (A.followed V F _ _)
  | @refuse r out dest reply hr =>
    refine sends ⟨h, .refl V F A, ?_⟩
    cases reply with
    | voteReply T u granted | appendReply T u success i =>
      rintro rfl
      cases hr
    | _ => cases hr
  | @grant r out cand li lt hm hg =>
    obtain ⟨h', M, hb⟩ := A.granted V F (hmsg _ hm) hg
    refine sends ⟨h', M, ?_⟩
    rw [show r.id = v from A.id]
    exact hb
  | stand _ _ votes => exact silent (A.standing V F votes)
  | canvass role hp =>
    refine sends ⟨h, .refl V F A, ?_⟩
    have S := A.stands role
    rw [A.id]
    refine ⟨_, S.ballot, A.lastIndex_eq V, rfl, ?_⟩
    rw [← A.seed, ← A.listed.members]
    obtain ⟨-, hpeer⟩ := mem_filter.1 hp
    rw [Bool.and_eq_true] at hpeer
    exact (Option.any_eq_true _ _).1 hpeer.2
  | count hm role => exact silent (A.counted V F (hmsg _ hm) role (hcount _ hm role))
  | win _ role hq => exact silent (A.crowned V F role hq)
  | append hm first role rule => exact silent (A.appended V F role rule (hprop _ hm first role))
  | replicate own role => exact sends ⟨h, .refl V F A, A.backed_append V role _⟩
  | heardMatch hm role => exact silent (A.heardMatch V F role (hmsg _ hm))
  | backOff _ _ role =>
    obtain ⟨h', M⟩ := A.backedOff V F role
    exact sends ⟨h', M, M.agrees.backed_append M.valid role _⟩
  | commit _ role hk => exact silent (A.committed V F role hk)
  | @accept r out l prev pt entries commit hm first role hprev =>
    obtain ⟨h', M, hb⟩ := A.accepted V F role (hmsg _ hm) hprev
    refine sends ⟨h', M, ?_⟩
    rw [show r.id = v from A.id]
    exact hb
  | install hm => exact (hmsg _ hm).elim
  | compact hm => rw [hkeep] at hm; cases hm

lemma Allowed.act {a : Raft × Output} {h₁ : Ledger Entry NodeId}
    (V : h.Valid (scheme s)) (A : Agrees s h v r) (ok : Allowed s h v r c)
    (chain : Raft.Acts c (r, default) a) (M : Moved s v h h₁ a.1) : (∀ m, c = .message m → Backed s h₁ v m) ∧
    (∀ u, c = .message (.voteReply a.1.term u true) → a.1.role = .candidate →
      ∀ m, a.1.members[u]? = some m → m.state ≠ .learner) ∧
    ∀ d, c = .proposal d → a.2.persist = false → a.1.role = .leader → d.isMembers →
      h₁.MayChange (scheme s) a.1.term a.1.log.length := by
  refine ⟨?_, ?_, ?_⟩
  · rintro m rfl
    exact ok.1.extend M.grows
  · rintro u rfl role m hm
    obtain ⟨role', hterm, hmem⟩ := chain.candidate role
    rw [hmem] at hm
    exact ok.2 u (by rw [hterm]) role' m hm
  rintro d rfl hp role hd
  obtain ⟨hlog, -, -⟩ := chain.log_saved rfl hp
  obtain ⟨hterm, -⟩ := chain.vote_saved hp
  have role' := chain.leader_unsaved hp role
  rw [hlog, hterm]
  refine M.grows.mayChange ?_ (ok role' hd)
  rw [A.lead_eq V role']

/-- **A whole step of a core is a run of moves of the ledger.** -/
lemma Agrees.acts {y : Raft × Output} (V : h.Valid (scheme s)) (F : Fair s h)
    (A : Agrees s h v r) (ok : Allowed s h v r c) (acts : Raft.Acts c (r, default) y) :
    ∃ h', Moved s v h h' y.1 ∧ ∀ d m, (d, m) ∈ y.2.send → Backed s h' d m := by
  refine acts.run (P := fun x => ∃ h', Moved s v h h' x.1 ∧
    ∀ d m, (d, m) ∈ x.2.send → Backed s h' d m) ⟨h, .refl V F A, nofun⟩ ?_
  rintro a b hchain hact ⟨h₁, M, hsent⟩
  obtain ⟨hmsg, hcount, hprop⟩ := ok.act V A hchain M
  obtain ⟨h₂, M', hsent'⟩ := Agrees.act M.valid M.fair M.agrees hact ok.keep? hmsg hcount hprop
  refine ⟨h₂, M.trans M', fun d m hm => ?_⟩
  rcases hsent' d m hm with hold | hnew
  · exact (hsent d m hold).extend M'.grows
  · exact hnew

/-! ## The network -/

variable (s h) in
/-- What is on disk is what the core holds, up to how far it had committed. -/
def Saved (node : Node) : Prop :=
  match node.disk with
  | none => node.raft.term = 0 ∧ node.raft.votedFor = none ∧ node.raft.log = [root]
  | some st => st.term = node.raft.term ∧ st.votedFor = node.raft.votedFor ∧
      st.log = node.raft.log ∧ st.base = 0 ∧ st.seed = s.members ∧ Agreed s h st.term st.commit st.log

variable (s h net) in
structure Follows : Prop where
  valid : h.Valid (scheme s)
  fair : Fair s h
  agrees : ∀ v, Agrees s h v (net.raft v)
  backed : ∀ p ∈ net.sent, Backed s h p.dest p.message
  saved : ∀ v, Saved s h (net.nodes v)
  handed : ∀ v i e, (i, e) ∈ (net.nodes v).handed → ∃ t k n, h.Chosen (scheme s) t k n ∧ i ≤ k ∧ (h.lead t)[i]? = some e

def blank : Ledger Entry NodeId where
  term _ := 0
  log _ := [root]
  ballot _ _ := none
  elected _ := none
  lead t := if t = 0 then [root] else []
  acked _ _ _ := False

lemma blank_valid (s : Setup) : blank.Valid (scheme s) where
  lead_zero := rfl
  elected_zero := rfl
  lead_none t ht _ := if_neg ht
  reign := nofun
  log_root _ := prefix_rfl
  log_sound v i e he := by
    have : e = root := mem_singleton.1 (mem_of_getElem? he)
    subst this
    exact take_prefix _ _
  log_terms v e he := by
    rw [mem_singleton.1 he]
    rfl
  ballot_term := nofun
  ballot_sound := nofun
  ballot_root := nofun
  ballot_self := nofun
  ballot_kept := nofun
  acked_term := nofun
  acked_elected := nofun
  acked_lt := nofun
  log_kept := nofun

lemma agrees_new (s : Setup) {h : Ledger Entry NodeId} {v : NodeId} (now : Nat)
    (hterm : h.term v = 0) (hlog : h.log v = [root]) (hvote : h.ballot v 0 = none) :
    Agrees s h v (Raft.new v s.members s.timing now) where
  id := rfl
  base := rfl
  seed := rfl
  listed := ⟨rfl, rfl⟩
  term := hterm
  log := hlog
  voted := by
    show none = (h.ballot v 0).map fst
    rw [hvote]
    rfl
  commit := .inl rfl
  applied := le_rfl
  stands := nofun
  leads := nofun

lemma follows_init (s : Setup) : Follows s blank (Net.init s) where
  valid := blank_valid s
  fair := nofun
  agrees _ := agrees_new s 0 rfl rfl rfl
  backed := nofun
  saved _ := ⟨rfl, rfl, rfl⟩
  handed := nofun

variable {i : Nat}

/-- What a core applies was chosen. -/
lemma Agrees.handed {r' : Raft} (A : Agrees s h v r') {e : Entry} (hm : (i, e) ∈ r.handedBy r') :
    ∃ t k n, h.Chosen (scheme s) t k n ∧ i ≤ k ∧ (h.lead t)[i]? = some e := by
  obtain ⟨j, hj, hje⟩ := mem_filterMap.1 hm
  obtain ⟨e', he', heq⟩ := map_eq_some_iff.1 hje
  cases heq
  have hrange := mem_range'_1.1 hj
  have hle : i ≤ r'.commit := by have := A.applied; omega
  rw [Raft.entryAt, A.base, if_pos (Nat.zero_le _), Nat.sub_zero] at he'
  rcases A.commit with h0 | ⟨t, k, n, hc, -, hk, hp⟩
  · omega
  refine ⟨t, k, n, hc, hle.trans hk, ?_⟩
  have hlt : i < (h.lead t).length := by have := hc.1; have := hc.2.1; omega
  have hin : ((h.lead t).take (r'.commit + 1))[i]? = some ((h.lead t)[i]) := by
    rw [getElem?_take_of_lt (by omega), getElem?_eq_getElem hlt]
  rw [getElem?_of_isPrefix hp hin] at he'
  rw [getElem?_eq_getElem hlt]
  exact he'

variable {node : Node}

lemma Saved.extend (hs : Saved s h node) (grows : Extends h h') : Saved s h' node := by
  unfold Saved at hs ⊢
  cases hd : node.disk with
  | none => rw [hd] at hs; exact hs
  | some st =>
    rw [hd] at hs
    obtain ⟨h1, h2, h3, h4, h5, h6⟩ := hs
    exact ⟨h1, h2, h3, h4, h5, h6.extend grows⟩

/-- A restart loses nothing the ledger knows of. -/
lemma Agrees.restarted (A : Agrees s h v node.raft) (V : h.Valid (scheme s))
    (hs : Saved s h node) (now : Nat) : Agrees s h v (node.restarted s v now).raft := by
  unfold Saved at hs
  unfold Node.restarted
  cases hd : node.disk with
  | none =>
    rw [hd] at hs
    obtain ⟨h1, h2, h3⟩ := hs
    refine agrees_new s now (A.term.trans h1) (A.log.trans h3) ?_
    have := A.voted
    rw [h1, h2] at this
    exact map_eq_none_iff.1 this.symm
  | some st =>
    rw [hd] at hs
    obtain ⟨hterm, hvote, hlog, hbase, hseed, hcommit⟩ := hs
    have hlog' : (if st.log.isEmpty then [root] else st.log) = st.log := by
      have hne : st.log ≠ [] := hlog ▸ A.log_ne V
      rw [isEmpty_eq_false_iff.2 hne]
      rfl
    have hseed' : (if st.seed.isEmpty then s.members else st.seed) = s.members := by
      rw [hseed]
      split <;> rfl
    simp only
    rw [Raft.restore_eq _ st hlog' hseed']
    exact {
      id := rfl
      base := hbase
      seed := rfl
      listed := ⟨rfl, rfl⟩
      term := A.term.trans hterm.symm
      log := A.log.trans hlog.symm
      voted := by
        show st.votedFor = (h.ballot v st.term).map fst
        rw [hvote, hterm]
        exact A.voted
      commit := hcommit.below (by simp only [hbase]; omega)
      applied := by simp only [hbase]; omega
      stands := nofun
      leads := fun role => by cases role }

/-- Nor does it change what is saved. -/
lemma Saved.restarted (A : Agrees s h v node.raft) (V : h.Valid (scheme s))
    (hs : Saved s h node) (now : Nat) : Saved s h (node.restarted s v now) := by
  unfold Saved Node.restarted at *
  cases hd : node.disk with
  | none => exact ⟨rfl, rfl, rfl⟩
  | some st =>
    simp only [hd] at hs ⊢
    obtain ⟨-, -, hlog, hbase, hseed, hcommit⟩ := hs
    have hne : st.log ≠ [] := hlog ▸ A.log_ne V
    rw [Raft.restore_eq _ st (if_neg (by simp [hne])) rfl]
    exact ⟨rfl, rfl, rfl, hbase, hseed, hcommit⟩

/-- Whether an event can drop entries from a log's front. -/
def Event.compacts (s : Setup) : Event → Bool
  | .tick .. => s.keep.isSome
  | .compact .. => true
  | _ => false

namespace Net

/-- Whether an event has a candidate count the vote of a node that is a learner to it. -/
def countsLearner (net : Net) : Event → Bool
  | .deliver p _ =>
    match p.message with
    | .voteReply term u true =>
      let r := net.raft p.dest
      r.role = .candidate && term = r.term && (r.members[u]?).any (·.state = .learner)
    | _ => false
  | _ => false

/-- Whether an event has a leader append a membership before it has committed an entry of its
own term, or while an earlier membership is still beyond its commit point. -/
def changesUnsettled (net : Net) : Event → Bool
  | .propose n d =>
    let r := net.raft n
    r.role = .leader && d.isMembers && !(r.termAt r.commit = some r.term &&
        (r.log.drop (r.commit + 1 - r.base)).all fun e => !e.decision.isMembers)
  | _ => false

end Net

/-- The runs the ledger covers. -/
structure OneStepAtATime (s : Setup) (net : Net) (e : Event) : Prop where
  whole : e.compacts s = false
  counted : net.countsLearner e = false
  settled : net.changesUnsettled e = false

lemma Follows.allowed {net : Net} (H : Follows s h net) {n : NodeId}
    (ok : OneStepAtATime s net e) (hc : e.cause s = some (n, c))
    (took : ∀ p now, e = .deliver p now → p ∈ net.sent) : Allowed s h n (net.raft n) c := by
  cases e with
  | tick n' now =>
    cases hc
    exact Option.not_isSome_iff_eq_none.1 (by simpa [Event.compacts] using ok.whole)
  | deliver p now =>
    cases hc
    refine ⟨H.backed p (took p now rfl), fun u hm role x hx hlearner => ?_⟩
    have := ok.counted
    simp [Net.countsLearner, hm, role, hx, hlearner] at this
  | propose n' d =>
    cases hc
    intro role hd
    have A := H.agrees n
    have hset := ok.settled
    simp only [Net.changesUnsettled, role, hd, decide_true, Bool.true_and, Bool.not_eq_false',
      Bool.and_eq_true, decide_eq_true_eq] at hset
    obtain ⟨hown, hquiet⟩ := hset
    obtain ⟨k, hk, hch⟩ := (A.leads role).own hown
    refine ⟨_, k, hch, hk, fun j x hj hx hconf => ?_⟩
    by_contra hlt
    rw [A.lead_eq H.valid role] at hx
    have hmem : x ∈ (net.raft n).log.drop ((net.raft n).commit + 1 - (net.raft n).base) := by
      refine mem_of_getElem? (i := j - ((net.raft n).commit + 1)) ?_
      rw [A.base, Nat.sub_zero, List.getElem?_drop, Nat.add_sub_cancel' (by omega), hx]
    have := all_eq_true.1 hquiet x hmem
    exact hconf (Decision.members?_eq_none (by simpa using this))
  | compact n' keep => exact absurd ok.whole (by simp [Event.compacts])
  | restart n' now => cases hc

/-- **One step of the network.** -/
lemma Follows.step {net : Net} (H : Follows s h net) (ok : OneStepAtATime s net e) :
    ∃ h', Extends h h' ∧ Follows s h' (net.step s e) := by
  have hturn := net.turn s e
  generalize net.step s e = net' at hturn ⊢
  cases hturn with
  | idle => exact ⟨h, .refl h, H⟩
  | @core n c past y hc acts own took =>
    have hallowed := H.allowed ok hc fun p now he => (took p now he).1
    obtain ⟨h', M, hsent⟩ := Agrees.acts H.valid H.fair (H.agrees n) hallowed acts
    refine ⟨h', M.grows, M.valid, M.fair, fun v => ?_, fun p hp => ?_, fun v => ?_, fun v i x hx => ?_⟩
    · by_cases hv : v = n
      · subst hv
        rw [raft_stepped_self]
        exact M.agrees
      · rw [raft_stepped_other hv]
        exact (H.agrees v).other M hv
    · rcases mem_stepped_sent.1 hp with hp | ⟨d, m, hm, rfl⟩
      · exact (H.backed p hp).extend M.grows
      · exact hsent d m hm
    · by_cases hv : v = n
      · subst hv
        rw [stepped_self]
        cases hpersist : y.2.persist with
        | true =>
          have A := M.agrees
          simp only [Saved, Node.after, hpersist, if_true]
          exact ⟨rfl, rfl, rfl, A.base, A.seed, A.commit⟩
        | false =>
          obtain ⟨hlog, -, -⟩ := acts.log_saved hallowed.keep? hpersist
          obtain ⟨hterm, hvote⟩ := acts.vote_saved hpersist
          have hold := (H.saved v).extend M.grows
          simp only [Saved, Node.after, hpersist] at hold ⊢
          rw [hlog, hterm, hvote]
          exact hold
      · rw [stepped_other hv]
        exact (H.saved v).extend M.grows
    · have lift : (∃ t k n, h.Chosen (scheme s) t k n ∧ i ≤ k ∧ (h.lead t)[i]? = some x) →
          ∃ t k n, h'.Chosen (scheme s) t k n ∧ i ≤ k ∧ (h'.lead t)[i]? = some x := by
        rintro ⟨t, k, n, hch, hik, hx⟩
        exact ⟨t, k, n, M.grows.chosen hch, hik, getElem?_of_isPrefix (M.grows.lead t) hx⟩
      by_cases hv : v = n
      · subst hv
        rw [stepped_self] at hx
        rcases mem_append.1 hx with hx | hx
        · exact lift (H.handed v i x hx)
        · exact M.agrees.handed hx
      · rw [stepped_other hv] at hx
        exact lift (H.handed v i x hx)
  | @restart n now he =>
    refine ⟨h, .refl h, H.valid, H.fair, fun v => ?_, H.backed, fun v => ?_, fun v i x hx => ?_⟩
    · by_cases hv : v = n
      · subst hv
        simp only [Net.raft, update_self]
        exact (H.agrees v).restarted H.valid (H.saved v) now
      · simp only [Net.raft, update_of_ne hv]
        exact H.agrees v
    · by_cases hv : v = n
      · subst hv
        simp only [update_self]
        exact (H.saved v).restarted (H.agrees v) H.valid now
      · simp only [update_of_ne hv]
        exact H.saved v
    · by_cases hv : v = n
      · subst hv
        simp only [update_self] at hx
        exact H.handed v i x hx
      · simp only [update_of_ne hv] at hx
        exact H.handed v i x hx

section
variable (H : Follows s h net)
include H

/-- **A whole run.** -/
lemma Follows.path (path : Path s (OneStepAtATime s) net net') : ∃ h', Extends h h' ∧ Follows s h' net' := by
  refine path.run (P := fun a => ∃ h', Extends h h' ∧ Follows s h' a) ⟨h, .refl h, H⟩ ?_
  rintro a e ok ⟨h₁, grows, H₁⟩
  obtain ⟨h₂, grows', H₂⟩ := H₁.step ok
  exact ⟨h₂, grows.trans grows', H₂⟩

/-! ## What the ledger rules out -/

/-- What a node has committed is in the log of every leader of its term or a later one. -/
lemma Follows.committed_stays (H' : Follows s h' net')
    (grows : Extends h h') {v w : NodeId} (hi : i ≤ (net.raft v).commit)
    (hw : (net'.raft w).role = .leader) (hterm : (net.raft v).term ≤ (net'.raft w).term) :
    ∃ e, (net.raft v).entryAt i = some e ∧ (net'.raft w).entryAt i = some e := by
  have A := H.agrees v
  have A' := H'.agrees w
  have hlog := A'.lead_eq H'.valid hw
  obtain ⟨l, hel⟩ := (A'.leads hw).elected
  simp only [Raft.entryAt, A.base, A'.base, Nat.zero_le, if_true, Nat.sub_zero]
  have hlt : i < (net.raft v).log.length := hi.trans_lt (A.commit.lt_length (A.log_ne H.valid))
  have hv : (net.raft v).log[i]? = some ((net.raft v).log[i]) := getElem?_eq_getElem hlt
  refine ⟨_, hv, ?_⟩
  rcases A.commit.below hi with rfl | ⟨t, k, n, hc, ht, hk, hp⟩
  · -- index zero is the root of every log
    have h1 := getElem?_of_isPrefix (A.log_root H.valid) (i := 0) rfl
    have h2 := getElem?_of_isPrefix (A'.log_root H'.valid) (i := 0) rfl
    rw [h2, ← h1, hv]
  have hlen : i < ((h.lead t).take (i + 1)).length := by
    rw [length_take]
    have := hc.1
    have := hc.2.1
    omega
  have hp' : (h.lead t).take (i + 1) <+: (net'.raft w).log := by
    rw [← grows.take_lead (by rw [length_take] at hlen; omega), ← hlog]
    exact (take_prefix_take_left (by omega)).trans ((grows.chosen hc).prefix_lead H'.valid (ht.trans hterm) hel)
  have he := getElem?_eq_getElem hlen
  rw [getElem?_of_isPrefix hp' he, ← getElem?_of_isPrefix hp he, hv]

end

/-- **Membership changes are safe one settled step at a time.** In every run without
compaction in which no learner's vote is counted and no leader appends a membership before
its own term has committed everything up to the previous one, a term has one leader and
whatever any node has committed is in the log of every leader of that or a later term. -/
theorem membership_changes_safe (s : Setup) {net net' : Net} (start : Path s (OneStepAtATime s) (Net.init s) net)
    (rest : Path s (OneStepAtATime s) net net') :
    (∀ a b, (net.raft a).role = .leader → (net'.raft b).role = .leader →
      (net.raft a).term = (net'.raft b).term → a = b) ∧
    ∀ v w i, i ≤ (net.raft v).commit → (net'.raft w).role = .leader → (net.raft v).term ≤ (net'.raft w).term →
      ∃ e, (net.raft v).entryAt i = some e ∧ (net'.raft w).entryAt i = some e := by
  obtain ⟨h, -, H⟩ := (follows_init s).path start
  obtain ⟨h', grows, H'⟩ := H.path rest
  refine ⟨fun a b ha hb ht => ?_, fun v w i hi hw ht => H.committed_stays H' grows hi hw ht⟩
  obtain ⟨l, hl⟩ := ((H.agrees a).leads ha).elected
  obtain ⟨l', hl'⟩ := ((H'.agrees b).leads hb).elected
  have := (grows.elected _ _ hl).symm.trans (ht ▸ hl')
  exact congrArg fst (some.inj this)

/-- Node 0 of three leads term 1, commits its first entry on node 1's word and then node 2's
departure, as the rule has it. -/
def settledChange : List (Net → Event) :=
  [fun _ => .tick 0 5000, pick 0 5001, pick 2 5002, pick 3 5003, pick 5 5004,
    fun _ => .propose 0 (.members [.named "a" .voter, .named "b" .voter, .named "c" .gone]),
    pick 6 5005, pick 8 5006]

/-- Node 1 is elected next, on node 0's vote. -/
def successor (vote : Nat) : List (Net → Event) :=
  [fun _ => .tick 1 20000, pick 9 20001, pick vote 20002]

/-- A test for the runs the ledger covers. -/
def oneStepTest (s : Setup) (net : Net) (e : Event) : Bool :=
  !e.compacts s && !net.countsLearner e && !net.changesUnsettled e

lemma oneStepTest_sound {s : Setup} (net : Net) (e : Event) (h : oneStepTest s net e = true) :
    OneStepAtATime s net e := by
  simp only [oneStepTest, Bool.and_eq_true, Bool.not_eq_true'] at h
  exact ⟨h.1.1, h.1.2, h.2⟩

/-- The committed departure is in the log of the leader of the next term. -/
theorem membership_changes_safe_trio :
    let s : Setup := ⟨trio, default, none⟩
    let net := (Net.init s).play s settledChange
    let net' := net.play s (successor 10)
    (net.raft 0).commit = 2 ∧ ∃ e, (net.raft 0).entryAt 2 = some e ∧ (net'.raft 1).entryAt 2 = some e :=
  ⟨by decide +kernel, (membership_changes_safe ⟨trio, default, none⟩
      (.play _ settledChange (by decide +kernel) oneStepTest_sound)
      (.play _ (successor 10) (by decide +kernel) oneStepTest_sound)).2 0 1 2 (by decide +kernel) (by decide +kernel)
      (by decide +kernel)⟩

/-- Node 0 of three leads term 1 and removes node 2 and then node 1 at once, each step one
slot from the one before: what it has left to count is itself. -/
def removeBoth : List (Net → Event) :=
  [fun _ => .tick 0 5000, pick 0 5001, pick 2 5002,
    fun _ => .propose 0 (.members [.named "a" .voter, .named "b" .voter, .named "c" .gone]),
    fun _ => .propose 0 (.members [.named "a" .voter, .named "b" .gone, .named "c" .gone])]

/-- Nodes 1 and 2, who have heard of neither, elect node 1 in term 2; node 0 is restarted and
elects itself. -/
def electBoth : List (Net → Event) :=
  [fun _ => .tick 1 20000, pick 9 20001, pick 10 20002, fun _ => .restart 0 30000, fun _ => .tick 0 40000]

/-- The rule the core enforces is not enough. Nobody is a learner and nothing is compacted,
and still term 2 has two leaders, one of which lacks an entry committed in term 1. -/
theorem unsettled_changes_unsafe :
    let s : Setup := ⟨trio, default, none⟩
    let premises := fun (net : Net) (e : Event) =>
      e.compacts s = false ∧ net.countsLearner e = false
    let net := (Net.init s).play s removeBoth
    let net' := net.play s electBoth
    Path s premises (Net.init s) net ∧ Path s premises net net' ∧
      (net'.raft 0).role = .leader ∧ (net'.raft 1).role = .leader ∧
      (net'.raft 0).term = (net'.raft 1).term ∧
      1 ≤ (net.raft 0).commit ∧ (net.raft 0).term < (net'.raft 1).term ∧
      (net.raft 0).entryAt 1 ≠ (net'.raft 1).entryAt 1 := by
  have imp : ∀ (net : Net) (e : Event), (!e.compacts ⟨trio, default, none⟩ && !net.countsLearner e) = true →
        e.compacts ⟨trio, default, none⟩ = false ∧ net.countsLearner e = false := by
    intro net e h
    simpa using h
  refine ⟨.play _ _ (by decide +kernel) imp, .play _ _ (by decide +kernel) imp, ?_⟩
  decide +kernel

/-! ## A fixed cluster of voters -/

/-- Whether an event is a step of the core protocol: no compaction and no change of
membership. -/
def Event.basic : Event → Bool
  | .propose _ d => !d.isMembers
  | .compact .. => false
  | _ => true

lemma Event.noMembers_of_basic (h : e.basic = true) : e.noMembers = true := by
  cases e <;> first | exact h | rfl

/-- In a cluster of voters the runs of the core protocol are runs the ledger covers. -/
lemma oneStepAtATime_of_basic {s : Setup} (hkeep : s.keep = none)
    (hvoters : ∀ m ∈ s.members, m.state = .voter) {net : Net} (H : Fixed s net)
    (ok : e.basic = true) : OneStepAtATime s net e where
  whole := by
    cases e with
    | tick n now => simp [Event.compacts, hkeep]
    | compact n keep => cases ok
    | _ => rfl
  counted := by
    cases e with
    | deliver p now =>
      unfold Net.countsLearner
      dsimp only
      split
      · next u _ =>
        rw [Bool.and_eq_false_iff, (H.core p.dest).members]
        right
        cases hm : s.members[u]? with
        | none => rfl
        | some m => simp [hvoters m (mem_of_getElem? hm)]
      · rfl
    | _ => rfl
  settled := by
    cases e with
    | propose n d =>
      have : d.isMembers = false := by simpa [Event.basic] using ok
      simp [Net.changesUnsettled, this]
    | _ => rfl

/-- **State-machine safety.** In a cluster of voters that compacts nothing, what two nodes have
applied at one index is the same entry, and what a leader has committed is in the log of
every leader of a higher term, whatever is delayed, reordered, repeated, lost or restarted. -/
theorem state_machine_safety (s : Setup) (hkeep : s.keep = none)
    (hvoters : ∀ m ∈ s.members, m.state = .voter) {net net' : Net}
    (start : Path s (fun _ e => e.basic) (Net.init s) net)
    (rest : Path s (fun _ e => e.basic) net net') :
    (∀ v w i e e', (i, e) ∈ (net.nodes v).handed → (i, e') ∈ (net'.nodes w).handed → e = e') ∧
    ∀ v w i, (net.raft v).role = .leader → i ≤ (net.raft v).commit →
      (net'.raft w).role = .leader → (net.raft v).term < (net'.raft w).term →
      ∃ e, (net.raft v).entryAt i = some e ∧ (net'.raft w).entryAt i = some e := by
  have fixed : ∀ a, Path s (fun _ e => e.basic) (Net.init s) a → Fixed s a :=
    fun a path => .path path fun _ _ => Event.noMembers_of_basic
  have start' := start.mono fun a e hp ok => oneStepAtATime_of_basic hkeep hvoters (fixed a hp) ok
  have rest' := rest.mono fun a e hp ok =>
    oneStepAtATime_of_basic hkeep hvoters (fixed a (start.trans hp)) ok
  obtain ⟨h, -, H⟩ := (follows_init s).path start'
  obtain ⟨h', grows, H'⟩ := H.path rest'
  refine ⟨fun v w i e e' hv hw => ?_, fun v w i _ hi hw ht => H.committed_stays H' grows hi hw ht.le⟩
  obtain ⟨t, k, n, hc, hik, he⟩ := H.handed v i e hv
  obtain ⟨t', k', n', hc', hik', he'⟩ := H'.handed w i e' hw
  have hagree := chosen_agree H'.valid (grows.chosen hc) hc' hik hik'
  rw [getElem?_of_isPrefix (grows.lead t) he, he'] at hagree
  exact some.inj hagree

/-- Node 0 of three leads term 1 and commits two entries on node 1's word, and node 1 hears of
the first. -/
def commitTwo : List (Net → Event) :=
  [fun _ => .tick 0 5000, pick 0 5001, pick 2 5002, pick 3 5003, pick 5 5004,
    fun _ => .propose 0 (.ranges default), pick 6 5005, pick 8 5006]

/-- Both have applied the first entry, and the leader of term 2 holds the second. -/
theorem state_machine_safety_trio :
    let s : Setup := ⟨trio, default, none⟩
    let net := (Net.init s).play s commitTwo
    let net' := net.play s (successor 11)
    (1 ∈ (net.nodes 0).handed.map fst ∧ 1 ∈ (net'.nodes 1).handed.map fst) ∧
      (∀ e e', (1, e) ∈ (net.nodes 0).handed → (1, e') ∈ (net'.nodes 1).handed → e = e') ∧
      ∃ e, (net.raft 0).entryAt 2 = some e ∧ (net'.raft 1).entryAt 2 = some e := by
  intro s net net'
  have start : Path s (fun _ e => e.basic) (Net.init s) net :=
    Run.play (fun _ e => e.basic) commitTwo (by decide +kernel) fun _ _ h => h
  have rest : Path s (fun _ e => e.basic) net net' :=
    Run.play (fun _ e => e.basic) (successor 11) (by decide +kernel) fun _ _ h => h
  have safe := state_machine_safety s rfl (by decide) start rest
  exact ⟨by decide +kernel, safe.1 0 1 1, safe.2 0 1 2 (by decide +kernel) (by decide +kernel)
    (by decide +kernel) (by decide +kernel)⟩

/-- **Log matching.** Two logs that have an entry of one term at one index are the same up to there, on
whichever nodes and at whatever moments of such a run. -/
theorem logs_match_across_changes (start : Path s (OneStepAtATime s) (Net.init s) net)
    (rest : Path s (OneStepAtATime s) net net') {w : NodeId} {i : Nat} {a b : Entry}
    (ha : (net.raft v).log[i]? = some a) (hb : (net'.raft w).log[i]? = some b) (same : a.term = b.term) :
    (net.raft v).log.take (i + 1) = (net'.raft w).log.take (i + 1) := by
  obtain ⟨h, -, H⟩ := (follows_init s).path start
  obtain ⟨h', grows, H'⟩ := H.path rest
  have old := grows.sound (H.valid.log_sound v)
  have new := H'.valid.log_sound w
  rw [(H.agrees v).log] at old
  rw [(H'.agrees w).log] at new
  exact old.matching new ha hb same

theorem logs_match_across_changes_trio : let s : Setup := ⟨trio, default, none⟩
    let net := (Net.init s).play s settledChange
    (net.raft 0).log.take 2 = (net.raft 1).log.take 2 :=
  @logs_match_across_changes _ 0 _ _ (.play _ _ (by decide +kernel) oneStepTest_sound) .refl 1 1 ⟨1, .noop⟩
    ⟨1, .noop⟩ (by decide +kernel) (by decide +kernel) rfl

end BigDb.Cluster
