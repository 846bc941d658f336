import BigDb.Lib.LedgerSteps
import BigDb.Cluster.Membership
import BigDb.Cluster.Network

/-!
# The core follows a ledger

While nothing is compacted away, what the cores of a network do is a run of the moves of
`BigDb.Lib.LedgerSteps`. `scheme` instantiates the ledger at this repository's entries,
members and majorities; `Agrees` relates one core to the ledger and `Backed` one message;
and every act of a core is matched by moves of the ledger that keep both (`Agrees.act`).
-/

namespace BigDb.Cluster
open Lib Lib.Ledger List Function Raft Prod

/-- The ledger of the agreement: memberships are configurations, majorities of their voters
decide, and one slot at a time may change. -/
def scheme (s : Setup) : Scheme Entry NodeId (List Member) where
  term := Entry.term
  conf? e := e.decision.members?
  seed := s.members
  root := root
  quorum := Majority
  near before after := differences before after ≤ 1
  term_root := rfl
  conf_root := rfl
  meet := Majority.meet
  meet_near := Majority.meet_near

variable {s : Setup} {h h' : Ledger Entry NodeId} {v : NodeId} {r : Raft}

/-! ## Committed prefixes -/

variable (s h) in
/-- A log's first `c + 1` entries were chosen in term `T` or before. -/
def Agreed (T c : Nat) (log : List Entry) : Prop :=
  c = 0 ∨ ∃ t k n, h.Chosen (scheme s) t k n ∧ t ≤ T ∧ c ≤ k ∧ (h.lead t).take (c + 1) <+: log

namespace Agreed
variable {T c : Nat} {log : List Entry}

section
variable (ha : Agreed s h T c log)
include ha

lemma extend (grows : Extends h h') : Agreed s h' T c log := by
  rcases ha with h0 | ⟨t, k, n, hc, ht, hk, hp⟩
  · exact .inl h0
  refine .inr ⟨t, k, n, grows.chosen hc, ht, hk, ?_⟩
  rw [grows.take_lead (by have := hc.1; have := hc.2.1; omega)]
  exact hp

lemma later {T' : Nat} (hT : T ≤ T') : Agreed s h T' c log := by
  rcases ha with h0 | ⟨t, k, n, hc, ht, hk, hp⟩
  · exact .inl h0
  · exact .inr ⟨t, k, n, hc, ht.trans hT, hk, hp⟩

lemma longer {log' : List Entry} (hl : log <+: log') : Agreed s h T c log' := by
  rcases ha with h0 | ⟨t, k, n, hc, ht, hk, hp⟩
  · exact .inl h0
  · exact .inr ⟨t, k, n, hc, ht, hk, hp.trans hl⟩

lemma below {c' : Nat} (hc' : c' ≤ c) : Agreed s h T c' log := by
  rcases ha with h0 | ⟨t, k, n, hc, ht, hk, hp⟩
  · exact .inl (by omega)
  · exact .inr ⟨t, k, n, hc, ht, hc'.trans hk, (take_prefix_take_left (by omega)).trans hp⟩

lemma lt_length (ne : log ≠ []) : c < log.length := by
  rcases ha with rfl | ⟨t, k, n, hc, -, hk, hp⟩
  · exact length_pos_iff.2 ne
  have hlen := hp.length_le
  rw [length_take] at hlen
  have := hc.1
  have := hc.2.1
  omega

end

/-- Taking a leader's entries leaves what was committed in place. -/
lemma merged (V : h.Valid (scheme s)) (ha : Agreed s h T c log) {l : List Entry} {u : NodeId}
    (hel : h.elected T = some (u, l)) {k : Nat} {log' : List Entry}
    (hm : Merged log ((h.lead T).take k) log') : Agreed s h T c log' := by
  rcases ha with h0 | ⟨t, k', n, hc, ht, hk, hp⟩
  · exact .inl h0
  · refine .inr ⟨t, k', n, hc, ht, hk, hm.keeps hp ?_⟩
    exact (take_prefix_take_left (by omega)).trans (hc.prefix_lead V ht hel)

end Agreed

/-! ## A core and the ledger -/

variable (h v r) in
/-- What is known of a candidate. -/
structure Stands : Prop where
  first : ∀ l, h.elected r.term ≠ some (v, l)
  ballot : h.ballot v r.term = some (v, r.log)
  votes : ∀ u ∈ r.votes, u ∈ r.voters ∧ ∃ l, h.ballot u r.term = some (v, l)

variable (s h v r) in
/-- What is known of a leader. -/
structure Leads : Prop where
  elected : ∃ l, h.elected r.term = some (v, l)
  matched : ∀ u i, r.matched u = some i → i = 0 ∨ h.acked u r.term i
  next : ∀ u i, r.next u = some i → 1 ≤ i ∧ i ≤ r.log.length
  /-- a commit point of its own term is one it counted itself -/
  own : r.termAt r.commit = some r.term → ∃ n, n ≤ r.log.length ∧ h.Chosen (scheme s) r.term r.commit n

variable (s h v r) in
/-- Node `v`'s core is as the ledger has it. -/
structure Agrees : Prop where
  id : r.id = v
  base : r.base = 0
  seed : r.seed = s.members
  listed : r.Listed
  term : h.term v = r.term
  log : h.log v = r.log
  voted : r.votedFor = (h.ballot v r.term).map fst
  commit : Agreed s h r.term r.commit r.log
  applied : r.applied ≤ r.commit
  stands : r.role = .candidate → Stands h v r
  leads : r.role = .leader → Leads s h v r

variable (s h) in
/-- Ballots go to candidates whose log is at least as up to date as the voter's. -/
def Fair : Prop :=
  ∀ v t c l, h.ballot v t = some (c, l) → ∃ l', h.ballot c t = some (c, l') ∧ (scheme s).AtLeast l' l

/-- A ballot cast for a candidate with a newer log keeps ballots fair. -/
lemma Fair.vote (F : Fair s h) {c : NodeId} (hfree : h.ballot v (h.term v) = none) {l : List Entry}
    (hc : (h.vote v c).ballot c (h.term v) = some (c, l)) (newer : (scheme s).AtLeast l (h.log v)) :
    Fair s (h.vote v c) := by
  intro u t d l' hb
  rcases ballot_vote hb with hb | ⟨rfl, rfl, rfl, rfl⟩
  · obtain ⟨l'', hd, hn⟩ := F u t d l' hb
    exact ⟨l'', (extends_vote hfree).ballot _ _ _ hd, hn⟩
  · exact ⟨l, hc, newer⟩

variable (s h) in
/-- What the ledger says about a message to `dest`. -/
def Backed (dest : NodeId) : Message → Prop
  | .requestVote T c li lt => ∃ l, h.ballot c T = some (c, l) ∧ li + 1 = l.length ∧
      lt = (scheme s).lastTerm l ∧ Reaches (latestMembers s.members l) dest
  | .voteReply T u granted => granted = true → ∃ l, h.ballot dest T = some (dest, l) ∧
      (∃ l', h.ballot u T = some (dest, l')) ∧ Reaches (latestMembers s.members l) u
  | .append T c prev pt entries cm => ∃ l, h.elected T = some (c, l) ∧ prev + 1 + entries.length ≤ (h.lead T).length ∧
      entries = ((h.lead T).drop (prev + 1)).take entries.length ∧
      (∃ e, (h.lead T)[prev]? = some e ∧ e.term = pt) ∧ cm < prev + 1 + entries.length ∧
      Agreed s h T cm ((h.lead T).take (prev + 1 + entries.length))
  | .appendReply T u success i => success = true → h.acked u T i
  | .snapshot .. => False

variable {dest : NodeId} {m : Message} {r' : Raft}

lemma Backed.extend (hb : Backed s h dest m) (grows : Extends h h') : Backed s h' dest m := by
  cases m with
  | requestVote T c li lt =>
    obtain ⟨l, hl, rest⟩ := hb
    exact ⟨l, grows.ballot _ _ _ hl, rest⟩
  | voteReply T u granted =>
    intro hg
    obtain ⟨l, hl, ⟨l', hl'⟩, hr⟩ := hb hg
    exact ⟨l, grows.ballot _ _ _ hl, ⟨l', grows.ballot _ _ _ hl'⟩, hr⟩
  | append T c prev pt entries cm =>
    obtain ⟨l, hel, hlen, hes, ⟨e, he, hpt⟩, hcm, hag⟩ := hb
    have htake := grows.take_lead hlen
    have hdrop : ∀ l : List Entry, (l.drop (prev + 1)).take entries.length =
        (l.take (prev + 1 + entries.length)).drop (prev + 1) := fun l => by
      rw [drop_take, Nat.add_sub_cancel_left]
    refine ⟨l, grows.elected _ _ hel, hlen.trans (grows.lead T).length_le, ?_,
      ⟨e, getElem?_of_isPrefix (grows.lead T) he, hpt⟩, hcm, ?_⟩
    · rw [hdrop, htake, ← hdrop]
      exact hes
    · rw [htake]
      exact hag.extend grows
  | appendReply T u success i => exact fun hs => grows.acked _ _ _ (hb hs)
  | snapshot T l index lt ranges members => exact hb

/-- The ledger moved on, on behalf of node `v` alone, whose core now is `r`. -/
structure Moved (s : Setup) (v : NodeId) (h h' : Ledger Entry NodeId) (r : Raft) : Prop where
  grows : Extends h h'
  valid : h'.Valid (scheme s)
  fair : Fair s h'
  agrees : Agrees s h' v r
  term : ∀ u, u ≠ v → h'.term u = h.term u
  log : ∀ u, u ≠ v → h'.log u = h.log u
  ballot : ∀ u, u ≠ v → h'.ballot u = h.ballot u
  elected : ∀ t u l, u ≠ v → h'.elected t = some (u, l) → h.elected t = some (u, l)

lemma Moved.refl (V : h.Valid (scheme s)) (F : Fair s h) (A : Agrees s h v r) : Moved s v h h r :=
  ⟨.refl h, V, F, A, fun _ _ => rfl, fun _ _ => rfl, fun _ _ => rfl, fun _ _ _ _ he => he⟩

lemma Moved.trans {h'' : Ledger Entry NodeId} (a : Moved s v h h' r)
    (b : Moved s v h' h'' r') : Moved s v h h'' r' where
  grows := a.grows.trans b.grows
  valid := b.valid
  fair := b.fair
  agrees := b.agrees
  term u hu := (b.term u hu).trans (a.term u hu)
  log u hu := (b.log u hu).trans (a.log u hu)
  ballot u hu := (b.ballot u hu).trans (a.ballot u hu)
  elected t u l hu he := a.elected t u l hu (b.elected t u l hu he)

lemma Leads.extend (L : Leads s h v r) (grows : Extends h h') : Leads s h' v r where
  elected := L.elected.imp fun _ => grows.elected _ _
  matched u i hi := (L.matched u i hi).imp_right (grows.acked u _ i)
  next := L.next
  own ho := (L.own ho).imp fun _ hn => ⟨hn.1, grows.chosen hn.2⟩

lemma Agrees.other {u : NodeId} (A : Agrees s h u r) (M : Moved s v h h' r') (hu : u ≠ v) : Agrees s h' u r :=
  { A with
    term := (M.term u hu).trans A.term
    log := (M.log u hu).trans A.log
    voted := by rw [M.ballot u hu]; exact A.voted
    commit := A.commit.extend M.grows
    stands := fun role => by
      have S := A.stands role
      refine ⟨fun l he => S.first l (M.elected _ u l hu he), M.grows.ballot _ _ _ S.ballot,
        fun w hw => ⟨(S.votes w hw).1, (S.votes w hw).2.imp fun _ => M.grows.ballot _ _ _⟩⟩
    leads := fun role => (A.leads role).extend M.grows }

lemma Agrees.members_eq (A : Agrees s h v r) : r.members = (scheme s).conf r.log := by
  rw [A.listed.members, A.seed]
  rfl

lemma role_ne {a b : Role} (role : r.role = a) (ne : a ≠ b) : r.role ≠ b := by
  rw [role]
  exact ne

section Acts
variable (V : h.Valid (scheme s)) (F : Fair s h) (A : Agrees s h v r)
include V A

lemma Agrees.log_root : [root] <+: r.log := A.log ▸ V.log_root v

lemma Agrees.log_ne : r.log ≠ [] := ne_nil_of_root (S := scheme s) (A.log_root V)

lemma Agrees.log_sound : h.Sound (scheme s) r.log := A.log ▸ V.log_sound v

lemma Agrees.lastIndex_eq : r.lastIndex + 1 = r.log.length := by
  have := length_pos_iff.2 (A.log_ne V)
  rw [lastIndex, A.base]
  omega

variable {u : NodeId} {prev pt cm : Nat} {l : NodeId} {T : Nat} {k : Nat}

lemma Agrees.ballot_none (hT : r.term < T) : h.ballot v T = none := by
  cases hb : h.ballot v T with
  | none => rfl
  | some b =>
    have := V.ballot_term v T b.1 b.2 hb
    rw [A.term] at this
    omega

lemma Agrees.lead_eq (role : r.role = .leader) : h.lead r.term = r.log := by
  obtain ⟨l, hel⟩ := (A.leads role).elected
  rw [← A.log]
  exact ((V.reign _ _ _ hel).leader_log A.term).symm

include F

/-! ## One act after another -/

lemma Agrees.stepDown (hT : r.term < T) : ∃ h', Moved s v h h' (r.stepDown T) := by
  have hle : h.term v ≤ T := by rw [A.term]; omega
  refine ⟨h.raise v T, extends_raise hle, V.raise hle, F, ?_, ?_, fun _ _ => rfl, fun _ _ => rfl, fun _ _ _ _ he => he⟩
  · exact { A with
      listed := ⟨A.listed.members, A.listed.voters⟩
      term := update_self ..
      voted := by
        show none = (h.ballot v T).map fst
        rw [A.ballot_none V hT]
        rfl
      commit := A.commit.later hT.le
      stands := nofun
      leads := fun role => by cases role }
  · intro u hu
    exact update_of_ne hu ..

lemma Agrees.followed (l : NodeId) (now : Nat) : ∃ h', Moved s v h h' (r.followed l now) := by
  refine ⟨h, .refl V F ?_⟩
  exact { A with
    listed := ⟨A.listed.members, A.listed.voters⟩
    stands := nofun
    leads := fun role => by cases role }

lemma Agrees.granted {c : NodeId} {li lt : Nat} (hb : Backed s h v (.requestVote r.term c li lt))
    (hg : r.grant r.term c li lt) : ∃ h', Moved s v h h' { r with votedFor := some c } ∧
      Backed s h' c (.voteReply r.term v true) := by
  obtain ⟨l, hl, hli, hlt, hreach⟩ := hb
  have newer : (scheme s).AtLeast l r.log := by
    have hlast := A.lastIndex_eq V
    have hterm : r.lastTerm = (scheme s).lastTerm r.log := rfl
    unfold grant at hg
    split_ifs at hg
    simp only [Bool.or_eq_true, decide_eq_true_eq, Bool.and_eq_true] at hg
    rcases hg with hlt' | ⟨heq, hle⟩
    · exact .inl (by omega)
    · exact .inr ⟨by omega, by omega⟩
  rcases vote_of_grant hg with hnone | hsame
  · have hfree : h.ballot v (h.term v) = none := by
      rw [A.term, ← Option.map_eq_none_iff (f := fst), ← A.voted, hnone]
    have hcv : c ≠ v := by
      rintro rfl
      rw [A.term, hl] at hfree
      cases hfree
    have grows := extends_vote (h := h) (c := c) hfree
    have hl' := grows.ballot _ _ _ hl
    have hself : (h.vote v c).ballot v r.term = some (c, r.log) := by
      simp [Ledger.vote, A.term, A.log]
    refine ⟨h.vote v c, ⟨grows, V.vote hfree fun hc => (hcv hc).elim,
      F.vote hfree (by rw [A.term]; exact hl') (by rw [A.log]; exact newer), ?_,
      fun _ _ => rfl, fun _ _ => rfl, ?_, fun _ _ _ _ he => he⟩, fun _ => ⟨l, hl', ⟨_, hself⟩, hreach⟩⟩
    · exact { A with
        listed := ⟨A.listed.members, A.listed.voters⟩
        voted := by
          show some c = ((h.vote v c).ballot v r.term).map fst
          rw [hself]
          rfl
        commit := A.commit.extend grows
        stands := fun role => by
          -- a candidate has voted for itself
          have := (A.stands role).ballot
          rw [A.term, this] at hfree
          cases hfree
        leads := fun role =>
          have L := (A.leads role).extend grows
          ⟨L.elected, L.matched, L.next, L.own⟩ }
    · intro u hu
      funext t
      simp [Ledger.vote, hu]
  · have hsame' : { r with votedFor := some c } = r := by rw [← hsame]
    rw [hsame']
    refine ⟨h, .refl V F A, fun _ => ⟨l, hl, ?_, hreach⟩⟩
    rw [A.voted] at hsame
    obtain ⟨⟨d, l'⟩, hb, rfl⟩ := Option.map_eq_some_iff.1 hsame
    exact ⟨l', hb⟩

lemma Agrees.standing (votes : r.iVote) : ∃ h', Moved s v h h' r.standing := by
  have hle : h.term v ≤ r.term + 1 := by rw [A.term]; omega
  have V1 := V.raise hle
  have hterm : (h.raise v (r.term + 1)).term v = r.term + 1 := update_self ..
  have hfree : (h.raise v (r.term + 1)).ballot v ((h.raise v (r.term + 1)).term v) = none := by
    rw [hterm]
    exact A.ballot_none V (Nat.lt_succ_self _)
  have V2 := V1.vote hfree (c := v) fun _ e he => by
    have := V.log_terms v e he
    rw [A.term] at this
    rw [hterm]
    exact Nat.lt_succ_of_le this
  have grows := (extends_raise hle).trans (extends_vote (c := v) hfree)
  have hself : ((h.raise v (r.term + 1)).vote v v).ballot v (r.term + 1) = some (v, r.log) := by
    have hlog : (h.raise v (r.term + 1)).log v = r.log := A.log
    simp [Ledger.vote, hterm, hlog]
  refine ⟨_, grows, V2, ?_, ?_, ?_, fun _ _ => rfl, ?_, fun _ _ _ _ he => he⟩
  · intro u t d l hb
    rcases ballot_vote hb with hb | ⟨rfl, rfl, rfl, rfl⟩
    · obtain ⟨l', hd, hn⟩ := F u t d l hb
      exact ⟨l', grows.ballot _ _ _ hd, hn⟩
    · rw [hterm]
      exact ⟨_, hself, .inr ⟨by rw [← A.log]; rfl, by rw [← A.log]; exact le_rfl⟩⟩
  · exact { A with
      listed := ⟨A.listed.members, A.listed.voters⟩
      term := hterm
      voted := by
        show some r.id = (((h.raise v (r.term + 1)).vote v v).ballot v (r.term + 1)).map fst
        rw [hself, A.id]
        rfl
      commit := (A.commit.later (Nat.le_succ _)).extend grows
      stands := fun _ => {
        first := fun l hel => by
          have := (V.reign _ _ _ hel).term_le
          rw [A.term] at this
          simp only [Raft.standing] at this
          omega
        ballot := hself
        votes := fun u hu => by
          obtain rfl : u = r.id := by simpa [Raft.standing] using hu
          refine ⟨by simpa [Raft.iVote, Raft.standing] using votes, r.log, ?_⟩
          rw [A.id]
          exact hself }
      leads := fun role => by cases role }
  · intro u hu
    exact update_of_ne hu ..
  · intro u hu
    funext t
    simp [Ledger.vote, Ledger.raise, hu]

lemma Agrees.counted (hb : Backed s h v (.voteReply r.term u true)) (role : r.role = .candidate)
    (hlearner : ∀ m, r.members[u]? = some m → m.state ≠ .learner) :
    ∃ h', Moved s v h h' { r with votes := insert u r.votes } := by
  obtain ⟨l, hl, hl', m, hm, hreach⟩ := hb rfl
  have S := A.stands role
  obtain rfl : r.log = l := by
    have := S.ballot.symm.trans hl
    simpa using this
  have hmem : u ∈ r.voters := by
    have hm' : r.members[u]? = some m := by rw [A.listed.members, A.seed, hm]
    rw [A.listed.voters, mem_votersOf]
    refine ⟨m, hm', ?_⟩
    have := hlearner m hm'
    revert this hreach
    unfold Member.reachable Member.votes
    cases m.state <;> simp
  refine ⟨h, .refl V F ?_⟩
  exact { A with
    listed := ⟨A.listed.members, A.listed.voters⟩
    stands := fun _ => ⟨S.first, S.ballot, fun w hw => by
      rcases Finset.mem_insert.1 hw with rfl | hw
      · exact ⟨hmem, hl'⟩
      · exact S.votes w hw⟩
    leads := fun hl => absurd hl (role_ne role (by decide)) }

/-- The ledger's side of winning: elected on the votes counted, then the first entry. -/
lemma Agrees.mandate (role : r.role = .candidate) (hq : r.majority ≤ r.votes.card) :
    h.Mandate (scheme s) (h.term v) v (h.log v) := by
  have S := A.stands role
  rw [A.term, A.log]
  refine ⟨A.log_sound V, A.log_root V, V.ballot_self v _ _ S.ballot, r.votes, ?_, fun u hu => ?_⟩
  · rw [← A.members_eq]
    refine ⟨fun u hu => ?_, ?_⟩
    · rw [voterSet, mem_toFinset, ← A.listed.voters]
      exact (S.votes u hu).1
    · rw [← A.listed.voters]
      exact hq
  · obtain ⟨l, hl⟩ := (S.votes u hu).2
    obtain ⟨l', hl', newer⟩ := F u _ _ _ hl
    obtain rfl : r.log = l' := by
      have := S.ballot.symm.trans hl'
      simpa using this
    exact ⟨l, hl, newer⟩

lemma Agrees.crowned {now : Nat} (role : r.role = .candidate) (hq : r.majority ≤ r.votes.card) :
    ∃ h', Moved s v h h' (r.crowned now) := by
  have S := A.stands role
  have M := A.mandate V F role hq
  have first : ∀ l, h.elected (h.term v) ≠ some (v, l) := by rw [A.term]; exact S.first
  have V1 := V.elect M first
  have hpos : h.term v ≠ 0 := by
    have := M.terms root (M.root.subset (mem_singleton_self _))
    omega
  have grows1 := extends_elect V hpos (V.elected_none M first)
  have hel : (h.elect v).elected ((h.elect v).term v) = some (v, h.log v) := by
    simp [Ledger.elect]
  have V2 := V1.append (e := Entry.mk r.term .noop) hel A.term.symm fun x hx => by cases hx
  have grows := grows1.trans (extends_append (h := h.elect v) (c := v) (e := Entry.mk r.term .noop))
  have hbase := A.base
  have hlast := A.lastIndex_eq V
  refine ⟨_, grows, V2, ?_, ?_, fun _ _ => rfl, ?_, fun _ _ => rfl, ?_⟩
  · exact fun u t d l hb => F u t d l hb
  · exact { A with
      listed := A.listed.crowned _
      log := by
        show update h.log v (h.log v ++ [Entry.mk r.term .noop]) v = _
        rw [update_self, A.log]
        rfl
      commit := (A.commit.longer (prefix_append _ _)).extend grows
      stands := fun role => by cases role
      leads := fun _ => {
        elected := ⟨h.log v, by rw [← hel]; show _ = (h.elect v).elected (h.term v); rw [A.term]; rfl⟩
        matched := fun u i hi => by
          simp only [Raft.crowned] at hi
          by_cases hu : u = r.id
          · subst hu
            rw [update_self] at hi
            cases hi
            refine .inr (.inr ⟨A.id, A.term.symm, ?_⟩)
            show r.base + r.log.length ≤ (h.log v).length
            rw [A.log]
            omega
          · rw [update_of_ne hu] at hi
            split at hi
            · cases hi
              exact .inl rfl
            · cases hi
        next := fun u i hi => by
          simp only [Raft.crowned] at hi ⊢
          split at hi
          · cases hi
            rw [length_append]
            omega
          · cases hi
        own := fun ho => by
          -- everything committed so far is of an earlier term
          obtain ⟨-, -, e, he, het⟩ := termAt_some ho
          have hlt := A.commit.lt_length (A.log_ne V)
          simp only [Raft.crowned, hbase, Nat.sub_zero] at he het
          rw [getElem?_append_left hlt] at he
          have := V.ballot_self v _ _ S.ballot e (mem_of_getElem? he)
          simp only [scheme] at this
          omega } }
  · intro u hu
    show update h.log v _ u = h.log u
    rw [update_of_ne hu]
  · intro t u l hu he
    have he' : update h.elected (h.term v) (some (v, h.log v)) t = some (u, l) := he
    by_cases ht : t = h.term v
    · subst ht
      rw [update_self] at he'
      cases he'
      exact (hu rfl).elim
    · rwa [update_of_ne ht] at he'

section
variable (role : r.role = .leader)
include role

lemma Agrees.appended {d : Decision} (rule : ∀ next, d.members? = some next → r.mayChangeMembers next)
    (may : d.isMembers → h.MayChange (scheme s) r.term r.log.length) : ∃ h', Moved s v h h' (r.appended d) := by
  have L := A.leads role
  obtain ⟨l, hel⟩ := L.elected
  have hel' : h.elected (h.term v) = some (v, l) := by rw [A.term]; exact hel
  have V1 := V.append (e := Entry.mk r.term d) hel' A.term.symm fun x hx => by
    have hx' : d.members? = some x := hx
    rw [A.log, A.term, ← A.members_eq]
    refine ⟨by simpa [mayChangeMembers, scheme] using rule x hx', may ?_⟩
    cases d <;> simp_all [Decision.members?, Decision.isMembers]
  have grows := extends_append (h := h) (c := v) (e := Entry.mk r.term d)
  have hbase := A.base
  refine ⟨_, grows, V1, F, ?_, fun _ _ => rfl, ?_, fun _ _ => rfl, fun _ _ _ _ he => he⟩
  · have hlisted := A.listed.appended d
    rw [appended_frame] at hlisted ⊢
    exact { A with
      listed := hlisted
      log := by
        show update h.log v (h.log v ++ [Entry.mk r.term d]) v = _
        rw [update_self, A.log]
      commit := (A.commit.longer (prefix_append _ _)).extend grows
      stands := fun hr => absurd hr (role_ne role (by decide))
      leads := fun _ => {
        elected := ⟨l, hel⟩
        matched := fun u i hi => by
          by_cases hu : u = r.id
          · subst hu
            simp only [update_self] at hi
            cases hi
            refine .inr (.inr ⟨A.id, A.term.symm, ?_⟩)
            rw [A.log]
            omega
          · simp only [update_of_ne hu] at hi
            exact (L.matched u i hi).imp_right .inl
        next := fun u i hi => by
          have := L.next u i hi
          simp only [length_append]
          omega
        own := fun ho => by
          have hlt := A.commit.lt_length (A.log_ne V)
          have ho' : r.termAt r.commit = some r.term := by
            obtain ⟨-, -, e, he, het⟩ := termAt_some ho
            simp only [hbase, Nat.sub_zero] at he
            rw [getElem?_append_left hlt] at he
            rw [r.termAt_eq (by omega), hbase, Nat.sub_zero, he, ← het]
            rfl
          obtain ⟨n, hn, hch⟩ := L.own ho'
          exact ⟨n, by simp only [length_append]; omega, grows.chosen hch⟩ } }
  · intro u hu
    show update h.log v _ u = h.log u
    rw [update_of_ne hu]

lemma Agrees.heardMatch {i : Nat}
    (hb : Backed s h v (.appendReply r.term u true i)) : ∃ h', Moved s v h h' (r.heardMatch u i) := by
  have L := A.leads role
  have hack : h.acked u r.term i := hb rfl
  refine ⟨h, .refl V F ?_⟩
  exact { A with
    listed := ⟨A.listed.members, A.listed.voters⟩
    stands := fun hr => absurd hr (role_ne role (by decide))
    leads := fun _ => { L with
      matched := fun w j hj => by
        by_cases hw : w = u
        · subst hw
          simp only [heardMatch, update_self] at hj
          cases hj
          exact .inr hack
        · simp only [Raft.heardMatch, update_of_ne hw] at hj
          exact L.matched w j hj
      next := fun w j hj => by
        by_cases hw : w = u
        · subst hw
          simp only [heardMatch, update_self] at hj
          cases hj
          have := V.acked_lt _ _ _ hack
          rw [A.lead_eq V role] at this
          exact ⟨by omega, this⟩
        · simp only [Raft.heardMatch, update_of_ne hw] at hj
          exact L.next w j hj } }

lemma Agrees.backedOff : ∃ h', Moved s v h h' (r.backedOff u) := by
  have L := A.leads role
  have hpos := length_pos_iff.2 (A.log_ne V)
  refine ⟨h, .refl V F ?_⟩
  exact { A with
    listed := ⟨A.listed.members, A.listed.voters⟩
    stands := fun hr => absurd hr (role_ne role (by decide))
    leads := fun _ => { L with
      next := fun w j hj => by
        by_cases hw : w = u
        · subst hw
          simp only [backedOff, update_self] at hj ⊢
          cases hj
          cases hn : r.next w with
          | none => simp only [Option.getD_none]; omega
          | some i =>
            have := L.next w i hn
            simp only [Option.getD_some]
            omega
        · simp only [Raft.backedOff, update_of_ne hw] at hj
          exact L.next w j hj } }

omit F in
lemma Agrees.chosen (hk : r.Committable k) : h.Chosen (scheme s) r.term k r.log.length := by
  have L := A.leads role
  have hlead := A.lead_eq V role
  have hlast := A.lastIndex_eq V
  obtain ⟨-, -, e, he, het⟩ := termAt_some hk.own
  rw [A.base, Nat.sub_zero] at he
  have hpast := hk.past
  refine ⟨by have := hk.held; omega, by rw [hlead], ⟨e, by rw [hlead]; exact he, het⟩, ?_⟩
  refine ⟨(r.voters.filter fun m => (r.matched m).any (k ≤ ·)).toFinset, ?_, fun u hu => ?_⟩
  · rw [hlead, take_length]
    rw [← A.members_eq]
    refine ⟨fun u hu => ?_, ?_⟩
    · rw [mem_toFinset] at hu
      rw [voterSet, mem_toFinset, ← A.listed.voters]
      exact (mem_filter.1 hu).1
    · have hnd : r.voters.Nodup := A.listed.voters ▸ votersOf_nodup _
      rw [toFinset_card_of_nodup (hnd.filter _), ← A.listed.voters]
      exact hk.majority
  · rw [mem_toFinset] at hu
    obtain ⟨i, hi, hki⟩ := (Option.any_eq_true _ _).1 (mem_filter.1 hu).2
    have hki : k ≤ i := by simpa using hki
    rcases L.matched u i hi with h0 | ha
    · omega
    · exact ⟨i, hki, ha⟩

lemma Agrees.committed (hk : r.Committable k) : ∃ h', Moved s v h h' (r.committed k) := by
  have L := A.leads role
  have hch := A.chosen V role hk
  refine ⟨h, .refl V F ?_⟩
  exact { A with
    listed := ⟨A.listed.members, A.listed.voters⟩
    commit := .inr ⟨r.term, k, _, hch, le_rfl, le_rfl, by
      rw [A.lead_eq V role]
      exact take_prefix _ _⟩
    applied := by
      have := A.applied
      have := hk.past
      simp only [Raft.committed]
      omega
    stands := fun hr => absurd hr (role_ne role (by decide))
    leads := fun _ => { L with
      own := fun _ => ⟨_, le_rfl, hch⟩ } }

omit F in
omit role in
/-- The loop over an append's entries merges the leader's log into the follower's. -/
lemma Agrees.merged {entries : List Entry}
    (hb : Backed s h v (.append r.term l prev pt entries cm)) (hprev : r.termAt prev = some pt) :
    Merged r.log ((h.lead r.term).take (prev + 1 + entries.length)) (r.filled prev entries false).raft.log := by
  obtain ⟨l₀, hel, hlen, hes, ⟨e₀, he₀, hpt⟩, -, -⟩ := hb
  have hbase := A.base
  have hsound := A.log_sound V
  have hsound' := V.lead_sound r.term
  have hentry : ∀ i e, entries[i]? = some e → (h.lead r.term)[prev + 1 + i]? = some e := by
    intro i e he
    have hi := lt_of_getElem? he
    rw [hes, getElem?_take_of_lt hi, getElem?_drop] at he
    exact he
  -- as far as the terms agree, so do the logs
  have hmatch : ∀ j, r.Agree prev (entries.take j) → j ≤ entries.length →
      r.log.take (prev + 1 + j) = (h.lead r.term).take (prev + 1 + j) := by
    intro j hj hjl
    rcases Nat.eq_zero_or_pos j with rfl | hpos
    · obtain ⟨-, -, e, he, het⟩ := termAt_some hprev
      rw [hbase, Nat.sub_zero] at he
      exact hsound.matching hsound' he he₀ (het.trans hpt.symm)
    have hin : entries[j - 1]? = some (entries[j - 1]) := getElem?_eq_getElem (by omega)
    have hin' : (entries.take j)[j - 1]? = some (entries[j - 1]) := by
      rw [getElem?_take_of_lt (by omega), hin]
    obtain ⟨-, -, e, he, het⟩ := termAt_some (hj _ _ hin')
    rw [hbase, Nat.sub_zero] at he
    have := hsound.matching hsound' he (hentry _ _ hin) het
    rwa [show prev + 1 + (j - 1) + 1 = prev + 1 + j by omega] at this
  rcases filled_cases entries hprev with ⟨hagree, hf⟩ | ⟨j, hcut, hf⟩
  · rw [hf]
    refine .inl ⟨?_, rfl⟩
    rw [← hmatch entries.length (by rwa [take_length]) le_rfl]
    exact take_prefix _ _
  rw [hf]
  have hj := hcut.lt
  have hdrop : entries.drop j = ((h.lead r.term).drop (prev + 1 + j)).take (entries.length - j) := by
    conv_lhs => rw [hes]
    rw [drop_take, drop_drop]
  refine .inr ⟨fun hpre => ?_, ?_⟩
  · have hin : entries[j]? = some (entries[j]) := getElem?_eq_getElem hj
    refine hcut.differ _ hin ?_
    have hat : ((h.lead r.term).take (prev + 1 + entries.length))[prev + 1 + j]? = some (entries[j]) := by
      rw [getElem?_take_of_lt (by omega)]
      exact hentry _ _ hin
    rw [termAt_eq _ (by omega), hbase, Nat.sub_zero, getElem?_of_isPrefix hpre hat]
    rfl
  · show r.log.take (prev + 1 + j - r.base) ++ entries.drop j = _
    rw [hbase, Nat.sub_zero, hmatch j hcut.agree hj.le, hdrop, ← take_add]
    congr 1
    omega

omit role in
lemma Agrees.accepted {entries : List Entry}
    (role : r.role = .follower) (hb : Backed s h v (.append r.term l prev pt entries cm))
    (hprev : r.termAt prev = some pt) : ∃ h', Moved s v h h' ((r.taken prev entries).caughtUp cm) ∧
      Backed s h' l (.appendReply r.term v true (prev + entries.length)) := by
  have hm := A.merged V hb hprev
  obtain ⟨l₀, hel, hlen, hes, -, hcm, hag⟩ := hb
  generalize hnew : (r.filled prev entries false).raft.log = log' at hm
  have hel' : h.elected (h.term v) = some (l, l₀) := by rw [A.term]; exact hel
  have V1 := V.accept (k := prev + 1 + entries.length) (l := log') hel' (by rw [A.term]; exact hlen) (by omega)
    (by rw [A.term, A.log]; exact hm)
  have grows := extends_accept (h := h) (v := v) (k := prev + 1 + entries.length) (l := log')
  have hcommit : Agreed s (h.accept v (prev + 1 + entries.length) log') r.term r.commit log' :=
    (A.commit.merged V hel hm).extend grows
  have hcommit' : Agreed s (h.accept v (prev + 1 + entries.length) log') r.term cm log' :=
    (hag.longer hm.prefix_of).extend grows
  have hlast : cm ≤ r.base + log'.length - 1 := by
    have := hm.prefix_of.length_le
    rw [length_take] at this
    omega
  have hlisted := A.listed.taken entries hprev
  have hlast' : (r.taken prev entries).lastIndex = r.base + log'.length - 1 := by
    rw [taken_frame, hnew]
    rfl
  have hcm' : (r.taken prev entries).commit = r.commit := by rw [taken_frame]
  have happ : (r.taken prev entries).applied = r.applied := by rw [taken_frame]
  refine ⟨_, ⟨grows, V1, F, ?_, fun _ _ => rfl, ?_, fun _ _ => rfl, fun _ _ _ _ he => he⟩,
    fun _ => .inr ⟨rfl, A.term.symm, by omega⟩⟩
  · have hc : ((r.taken prev entries).caughtUp cm).commit = max r.commit cm := by
      unfold caughtUp
      rw [hcm', hlast']
      split
      · simp only [Raft.committed]
        omega
      · rw [hcm']
        omega
    have ha : ((r.taken prev entries).caughtUp cm).applied ≤ ((r.taken prev entries).caughtUp cm).commit := by
      have := A.applied
      rw [hc]
      unfold caughtUp
      rw [hcm', hlast']
      split
      · simp only [Raft.committed, happ]
        omega
      · rw [happ]
        omega
    rw [caughtUp_frame] at hc ha ⊢
    rw [taken_frame, hnew] at hlisted hc ha ⊢
    exact { A with
      listed := ⟨hlisted.members, hlisted.voters⟩
      log := update_self ..
      commit := by
        rw [hc]
        rcases le_total r.commit cm with hle | hle
        · rw [max_eq_right hle]
          exact hcommit'
        · rw [max_eq_left hle]
          exact hcommit
      applied := ha
      stands := fun hr => absurd hr (role_ne role (by decide))
      leads := fun hr => absurd hr (role_ne role (by decide)) }
  · intro u hu
    exact update_of_ne hu ..

omit F in
lemma Agrees.backed_append (peer : NodeId) : Backed s h peer (r.appendTo peer) := by
  have L := A.leads role
  have hlead := A.lead_eq V role
  have hlast := A.lastIndex_eq V
  have hbase := A.base
  obtain ⟨l, hel⟩ := L.elected
  generalize hn : (r.next peer).getD (r.lastIndex + 1) = n
  have hnext : 1 ≤ n ∧ n ≤ r.log.length := by
    cases hp : r.next peer with
    | none =>
      rw [hp, Option.getD_none] at hn
      omega
    | some i =>
      rw [hp, Option.getD_some] at hn
      exact hn ▸ L.next peer i hp
  have hfrom : r.entriesFrom n = r.log.drop n := by
    rw [entriesFrom, if_pos (by omega), hbase, Nat.sub_zero]
  have hsum : n - 1 + 1 + (r.log.drop n).length = r.log.length := by
    rw [length_drop]
    omega
  have hterm : r.termAt (n - 1) = some (r.log[n - 1].term) := by
    rw [termAt_eq _ (by omega), hbase, Nat.sub_zero, getElem?_eq_getElem (by omega)]
    rfl
  unfold appendTo
  simp only [hn]
  rw [if_neg (by omega), hfrom, hterm, A.id]
  refine ⟨l, hel, ?_, ?_, ⟨_, ?_, rfl⟩, ?_, ?_⟩
  · rw [hsum, hlead]
  · rw [hlead, take_of_length_le]
    · congr 1
      omega
    · rw [length_drop, length_drop]
      omega
  · rw [hlead]
    exact getElem?_eq_getElem (by omega)
  · rw [hsum]
    exact A.commit.lt_length (A.log_ne V)
  · rw [hsum, hlead, take_length]
    exact A.commit

end

end Acts

end BigDb.Cluster
