import BigDb.Cluster.Raft

/-!
# The core's steps, act by act

`tick`, `deliver` and `propose` share most of what they do: observing a term, following a
leader, counting a vote, committing, replicating. `Act` lists these pieces with the guard
each is done under, and `tick_acts`, `deliver_acts` and `propose_acts` say that every step
of the core is a chain of them. An invariant is then proved act by act, once, for all three.
-/

namespace BigDb.Cluster
open List Function

/-- The entry every log starts from. -/
def root : Entry := ⟨0, .noop⟩

def Message.term : Message → Nat
  | .requestVote t .. | .voteReply t .. | .append t .. | .appendReply t .. | .snapshot t .. => t

/-- The leader a message comes from, when only a leader sends it. -/
def Message.leader? : Message → Option NodeId
  | .append _ l .. | .snapshot _ l .. => some l
  | _ => none

/-- A reply that grants nothing and acknowledges nothing. -/
def Message.refuses : Message → Bool
  | .voteReply _ _ false | .appendReply _ _ false _ => true
  | _ => false

namespace Raft

/-! ## Applying and committing -/

variable (r : Raft)

/-- The entry a node holds at a log position. -/
def entryAt (index : Nat) : Option Entry :=
  if r.base ≤ index then r.log[index - r.base]? else none

/-- What a step from `r` to `r'` applied, by position. -/
def handedBy (r r' : Raft) : List (Nat × Entry) :=
  (List.range' (r.applied + 1) (r'.applied - r.applied)).filterMap fun i =>
    (r'.entryAt i).map fun e => (i, e)

/-- `r` once everything up to `k` is committed and applied. -/
def committed (k : Nat) : Raft := { r with commit := k, applied := max r.applied k }

/-- The output of a step that went from `r` to `r'` by committing alone. -/
def handing (out : Output) (r r' : Raft) : Output :=
  { out with applied := out.applied ++ (r.handedBy r').map fun p => p.2.decision }

lemma applyLoop_eq (n : Nat) (r : Raft) (out : Output) : applyLoop n r out = ({ r with applied := r.applied + n },
      { out with applied := out.applied ++
          (List.range' (r.applied + 1) n).filterMap fun i => (r.entryAt i).map Entry.decision }) := by
  induction n generalizing r out with
  | zero => simp [applyLoop]
  | succ n ih =>
    rw [applyLoop, ih, range'_succ]
    simp only [entryAt, Prod.mk.injEq, Raft.mk.injEq, true_and, and_true]
    refine ⟨by omega, ?_⟩
    split <;> rename_i he <;> simp [he]

/-- `apply` moves `applied` up to `commit` and hands out what lies between. -/
lemma apply_eq (out : Output) : r.apply out = (r.committed r.commit, handing out r (r.committed r.commit)) := by
  rw [apply, applyLoop_eq]
  have hmax : r.applied + (r.commit - r.applied) = max r.applied r.commit := by omega
  simp only [committed, handing, handedBy, hmax, show max r.applied r.commit - r.applied =
    r.commit - r.applied by omega, map_filterMap, Option.map_map]
  rfl

/-- What `advanceCommit` looks for: an index past the commit point, of this term, that a
majority of the voters is known to hold. -/
structure Committable (k : Nat) : Prop where
  past : r.commit < k
  held : k ≤ r.lastIndex
  own : r.termAt k = some r.term
  majority : r.majority ≤ r.replicas k

lemma foldl_countIndex (l : List Nat) (c : Nat) :
    l.foldl r.countIndex c = c ∨ (l.foldl r.countIndex c ∈ l ∧ r.termAt (l.foldl r.countIndex c) = some r.term ∧
      r.majority ≤ r.replicas (l.foldl r.countIndex c)) := by
  induction l generalizing c with
  | nil => exact .inl rfl
  | cons i l ih =>
    rw [foldl_cons]
    rcases ih (r.countIndex c i) with h | ⟨h1, h2⟩
    · rw [h, countIndex]
      split
      · exact .inl rfl
      split
      · next h1 h2 => exact .inr ⟨mem_cons_self, not_not.1 h1, h2⟩
      · exact .inl rfl
    · exact .inr ⟨mem_cons_of_mem _ h1, h2⟩

/-- `advanceCommit` either finds nothing or commits a committable index. -/
lemma advanceCommit_cases (out : Output) : r.advanceCommit out = (r, out) ∨ ∃ k, r.Committable k ∧
      r.advanceCommit out = (r.committed k, handing out r (r.committed k)) := by
  unfold advanceCommit
  dsimp only
  split
  · next hlt =>
    right
    rcases r.foldl_countIndex (List.range' (r.commit + 1) (r.lastIndex - r.commit)) r.commit with
      h | ⟨hmem, hterm, hmaj⟩
    · omega
    · have := (mem_range'_1.1 hmem).2
      exact ⟨_, ⟨hlt, by omega, hterm, hmaj⟩, apply_eq _ _⟩
  · exact .inl rfl

/-! ## Pieces of the steps, as states -/

/-- A node that has seen a later term. -/
def stepDown (term : Nat) : Raft :=
  { r with term, votedFor := none, role := .follower, leader := none, votes := ∅ }

/-- A node that has heard from a leader of its term. -/
def followed (l : NodeId) (now : Nat) : Raft :=
  { r with role := .follower, leader := some l, leaderAt := some now }

/-- A node that stands for election in its next term. -/
def standing : Raft :=
  { r with
    term := r.term + 1, role := .candidate, votedFor := some r.id
    votes := {r.id}, leader := none }

/-- A node that has just won, with the entry it appends at once. -/
def crowned (now : Nat) : Raft :=
  { r with
    role := .leader, leader := some r.id, leaderAt := some now
    next := fun n => if n ∈ r.peers then some (r.lastIndex + 1) else none
    matched := update (fun n => if n ∈ r.peers then some 0 else none) r.id (some (r.base + r.log.length))
    log := r.log ++ [Entry.mk r.term .noop]
    heartbeatAt := now + r.timing.heartbeat }

def appended (d : Decision) : Raft :=
  let r := { r with log := r.log ++ [Entry.mk r.term d] }
  let r := if d.isMembers then r.refreshMembers else r
  { r with matched := update r.matched r.id (some r.lastIndex) }

/-- What a leader sends a peer. -/
def appendTo (peer : NodeId) : Message :=
  let next := (r.next peer).getD (r.lastIndex + 1)
  if next - 1 < r.base then
    .snapshot r.term r.id r.applied ((r.termAt r.applied).getD r.term) r.appliedState.1 r.appliedState.2
  else
    .append r.term r.id (next - 1) ((r.termAt (next - 1)).getD 0) (r.entriesFrom next) r.commit

/-- A leader that has been told how far a peer has got. -/
def heardMatch (peer : NodeId) (index : Nat) : Raft :=
  { r with
    matched := update r.matched peer (some index)
    next := update r.next peer (some (index + 1)) }

/-- A leader that steps back for a peer whose log does not reach so far. -/
def backedOff (peer : NodeId) : Raft :=
  { r with next := update r.next peer (some (max ((r.next peer).getD 1 - 1) 1)) }

/-- The log after the loop over an append's entries, and what the loop found out. -/
def filled (prevIndex : Nat) (entries : List Entry) (persist : Bool) : Filling :=
  entries.foldl fill ⟨r, prevIndex, false, persist⟩

/-- The node after that loop, with its membership as the log now has it. -/
def taken (prevIndex : Nat) (entries : List Entry) : Raft :=
  let f := r.filled prevIndex entries false
  if f.membershipMoved then f.raft.refreshMembers else f.raft

/-- The node after learning how far its leader has committed. -/
def caughtUp (commit : Nat) : Raft :=
  if r.commit < commit then r.committed (min commit r.lastIndex) else r

/-- A node that has taken a snapshot. -/
def installed (index : Nat) (lastTerm : Nat) (ranges : RangeMap) (members : List Member) : Raft :=
  { r with
    log := [⟨lastTerm, .ranges ranges⟩], base := index, commit := index, applied := index
    seed := members, members, voters := votersOf members }

/-- What `fill` computes of the log and the membership does not depend on `persist`, which
it only ever sets. -/
lemma foldl_fill_persist (entries : List Entry) (r : Raft) (i : Nat) (moved p : Bool) :
    entries.foldl fill ⟨r, i, moved, p⟩ =
      { entries.foldl fill ⟨r, i, moved, false⟩ with
        persist := p || (entries.foldl fill ⟨r, i, moved, false⟩).persist } := by
  induction entries generalizing r i moved p with
  | nil => simp
  | cons e entries ih =>
    simp only [foldl_cons, fill]
    cases r.termAt (i + 1) with
    | none =>
      simp only
      rw [ih]
      conv_rhs => rw [ih]
      simp
    | some t =>
      simp only
      split
      · rw [ih]
      rw [ih]
      conv_rhs => rw [ih]
      simp

/-- The loop changes nothing of the node but its log, and counts its turns. -/
lemma foldl_fill_frame (entries : List Entry) (f : Filling) :
    (entries.foldl fill f).raft = { f.raft with log := (entries.foldl fill f).raft.log } ∧
      (entries.foldl fill f).index = f.index + entries.length := by
  induction entries generalizing f with
  | nil => exact ⟨rfl, rfl⟩
  | cons e entries ih =>
    obtain ⟨hraft, hindex⟩ := ih (fill f e)
    have hone : (fill f e).raft = { f.raft with log := (fill f e).raft.log } ∧ (fill f e).index = f.index + 1 := by
      unfold fill
      dsimp only
      split
      · split <;> exact ⟨rfl, rfl⟩
      · exact ⟨rfl, rfl⟩
    rw [foldl_cons, length_cons]
    refine ⟨?_, by omega⟩
    rw [hraft, hone.1]

/-- A node that took entries differs in its log and its membership. -/
lemma taken_frame (prev : Nat) (entries : List Entry) : r.taken prev entries = { r with
      log := (r.filled prev entries false).raft.log
      members := (r.taken prev entries).members
      voters := (r.taken prev entries).voters } := by
  have h := (foldl_fill_frame entries ⟨r, prev, false, false⟩).1
  change (r.filled prev entries false).raft = _ at h
  unfold taken
  dsimp only
  split
  · rw [refreshMembers, h]
  · rw [h]

lemma compact_frame (keep : Nat) :
    r.compact keep = { r with log := (r.compact keep).log, base := (r.compact keep).base } := by
  unfold compact
  dsimp only
  split
  · rfl
  · split <;> rfl

lemma appended_frame (d : Decision) : r.appended d = { r with
      log := r.log ++ [Entry.mk r.term d]
      members := (r.appended d).members
      voters := (r.appended d).voters
      matched := update r.matched r.id (some (r.base + r.log.length)) } := by
  have hlast : r.base + (r.log ++ [Entry.mk r.term d]).length - 1 = r.base + r.log.length := by
    simp [← Nat.add_assoc]
  unfold appended
  split <;> simp only [lastIndex, refreshMembers, hlast]

lemma caughtUp_frame (commit : Nat) : r.caughtUp commit =
      { r with commit := (r.caughtUp commit).commit, applied := (r.caughtUp commit).applied } := by
  unfold caughtUp
  split <;> rfl

/-! ## The acts -/

/-- What a step of the core is an answer to. -/
inductive Cause where
  | clock (keep : Option Nat)
  | message (m : Message)
  | proposal (d : Decision)
  | compaction (keep : Nat)

/-- What `compact` may be called with. -/
def Cause.keep? : Cause → Option Nat
  | .clock keep => keep
  | .compaction keep => some keep
  | _ => none

/-- The leader being answered, when only a leader can have asked. -/
def Cause.leader? : Cause → Option NodeId
  | .message m => m.leader?
  | _ => none

/-- What can end in a won election: the clock and a vote. -/
def Cause.polls : Cause → Bool
  | .clock _ | .message (.voteReply ..) => true
  | _ => false

lemma Cause.leader?_of_polls {c : Cause} (h : c.polls = true) : c.leader? = none := by
  cases c with
  | message m => cases m <;> first | rfl | cases h
  | _ => rfl

/-- One piece of a step. -/
inductive Act (c : Cause) : Raft × Output → Raft × Output → Prop where
  /-- clocks and hints: nothing the agreement rests on -/
  | note {r out} (heard : NodeId → Option Nat) (leaderCommit electionAt heartbeatAt : Nat) :
      Act c (r, out) ({ r with heard, leaderCommit, electionAt, heartbeatAt }, out)
  | observe {r out} {msg : Message} (hm : c = .message msg) (later : r.term < msg.term) :
      Act c (r, out) (r.stepDown msg.term, { out with persist := true })
  | follow {r out} {msg : Message} (l : NodeId) (now : Nat) (hm : c = .message msg) (same : msg.term = r.term)
      (hl : msg.leader? = some l) :
      Act c (r, out) (r.followed l now, out)
  | refuse {r out} {dest : NodeId} {reply : Message} (h : reply.refuses) : Act c (r, out) (r, out.to dest reply)
  | grant {r out} {cand li lt} (hm : c = .message (.requestVote r.term cand li lt)) (h : r.grant r.term cand li lt) :
      Act c (r, out) ({ r with votedFor := some cand },
        { out with persist := true }.to cand (.voteReply r.term r.id true))
  | stand {r out} {keep} (hm : c = .clock keep) (role : r.role ≠ .leader) (votes : r.iVote) :
      Act c (r, out) (r.standing, { out with persist := true })
  | canvass {r out} {peer} (role : r.role = .candidate) (hp : peer ∈ r.peers) :
      Act c (r, out) (r, out.to peer (.requestVote r.term r.id r.lastIndex r.lastTerm))
  | count {r out} {u} (hm : c = .message (.voteReply r.term u true)) (role : r.role = .candidate) :
      Act c (r, out) ({ r with votes := insert u r.votes }, out)
  | win {r out} {now} (polls : c.polls = true) (role : r.role = .candidate) (h : r.majority ≤ r.votes.card) :
      Act c (r, out) (r.crowned now, { out with persist := true })
  | append {r out} {d : Decision} (hm : c = .proposal d) (first : out.persist = false)
      (role : r.role = .leader) (rule : ∀ next, d.members? = some next → r.mayChangeMembers next) :
      Act c (r, out) (r.appended d, { out with persist := true })
  | replicate {r out} {peer} (own : c.leader? = none) (role : r.role = .leader) :
      Act c (r, out) (r, out.to peer (r.appendTo peer))
  | heardMatch {r out} {u i} (hm : c = .message (.appendReply r.term u true i))
      (role : r.role = .leader) : Act c (r, out) (r.heardMatch u i, out)
  | backOff {r out} {u i} (hm : c = .message (.appendReply r.term u false i))
      (first : out.send = []) (role : r.role = .leader) :
      Act c (r, out) (r.backedOff u, out.to u ((r.backedOff u).appendTo u))
  | commit {r out} {k} (own : c.leader? = none) (role : r.role = .leader) (h : r.Committable k) :
      Act c (r, out) (r.committed k, handing out r (r.committed k))
  | accept {r out} {l prev pt entries commit}
      (hm : c = .message (.append r.term l prev pt entries commit)) (first : out.send = [])
      (role : r.role = .follower) (hprev : r.termAt prev = some pt) :
      Act c (r, out) ((r.taken prev entries).caughtUp commit,
        { handing out (r.taken prev entries) ((r.taken prev entries).caughtUp commit) with
            persist := out.persist || (r.filled prev entries false).persist }.to l
          (.appendReply r.term r.id true (prev + entries.length)))
  | install {r out} {l index lastTerm ranges members}
      (hm : c = .message (.snapshot r.term l index lastTerm ranges members))
      (first : out.send = []) (role : r.role = .follower) (hindex : r.base < index) :
      Act c (r, out) (r.installed index lastTerm ranges members,
        { out with persist := true, applied := out.applied ++ [Decision.ranges ranges] }.to l
          (.appendReply r.term r.id true index))
  | compact {r out} {keep : Nat} (hm : c.keep? = some keep) (role : r.role = .leader) :
      Act c (r, out) (r.compact keep, out)

abbrev Acts (c : Cause) : Raft × Output → Raft × Output → Prop :=
  Relation.ReflTransGen (Act c)

/-- The invariant rule: what holds at the start and is kept by every act of a chain holds at
its end. -/
lemma Acts.run {c : Cause} {P : Raft × Output → Prop} {x y : Raft × Output} (h : Acts c x y)
    (start : P x) (step : ∀ a b, Acts c x a → Act c a b → P a → P b) : P y := by
  induction h with
  | refl => exact start
  | tail hchain hact ih => exact step _ _ hchain hact ih

variable {c : Cause} {x : Raft × Output} {r} {out : Output}

/-! ## Every step is a chain of acts -/

lemma sendAppend_eq (r : Raft) (peer : NodeId) (out : Output) :
    r.sendAppend peer out = out.to peer (r.appendTo peer) := by
  unfold sendAppend appendTo
  dsimp only
  split <;> rfl

lemma acts_sendAppends (own : c.leader? = none) (role : r.role = .leader)
    (targets : List NodeId) (h : Acts c x (r, out)) : Acts c x (r, r.sendAppends targets out) := by
  induction targets generalizing out with
  | nil => exact h
  | cons peer targets ih =>
    rw [sendAppends, foldl_cons, sendAppend_eq]
    exact ih (h.tail (.replicate own role))

lemma acts_canvass (role : r.role = .candidate) (targets : List NodeId)
    (hp : ∀ p ∈ targets, p ∈ r.peers) (h : Acts c x (r, out)) : Acts c x (r, targets.foldl (fun out peer =>
      out.to peer (.requestVote r.term r.id r.lastIndex r.lastTerm)) out) := by
  induction targets generalizing out with
  | nil => exact h
  | cons peer targets ih =>
    rw [foldl_cons]
    exact ih (fun p hp' => hp p (mem_cons_of_mem _ hp')) (h.tail (.canvass role (hp peer mem_cons_self)))

lemma acts_advanceCommit (own : c.leader? = none) (role : r.role = .leader)
    (h : Acts c x (r, out)) : Acts c x (r.advanceCommit out) := by
  rcases r.advanceCommit_cases out with heq | ⟨k, hk, heq⟩
  · rw [heq]
    exact h
  · rw [heq]
    exact h.tail (.commit own role hk)

lemma acts_observe (msg : Message) (hm : c = .message msg) (h : Acts c x (r, out)) :
    ∃ r' out', r.observe msg.term out = (r', out') ∧ msg.term ≤ r'.term ∧ out'.send = out.send ∧
      Acts c x (r', out') := by
  unfold observe
  split
  · next hlt => exact ⟨_, _, rfl, le_rfl, rfl, h.tail (.observe hm hlt)⟩
  · next hge => exact ⟨r, out, rfl, Nat.le_of_not_lt hge, rfl, h⟩

lemma acts_hear (node : NodeId) (now : Nat) (h : Acts c x (r, out)) : Acts c x (r.hear node now, out) :=
  h.tail (.note _ r.leaderCommit r.electionAt r.heartbeatAt)

lemma acts_resetElection (now : Nat) (h : Acts c x (r, out)) : Acts c x (r.resetElection now, out) :=
  h.tail (.note r.heard r.leaderCommit _ r.heartbeatAt)

lemma win_eq (r : Raft) (now : Nat) (out : Output) : r.win now out = (r.crowned now).advanceCommit
      ((r.crowned now).sendAppends ((r.crowned now).peers.filter (· ≠ r.id)) { out with persist := true }) := by
  simp only [win, crowned, lastIndex, update_idem, length_append, length_singleton, ← Nat.add_assoc, Nat.add_sub_cancel]
  rfl

lemma acts_win (polls : c.polls = true) (role : r.role = .candidate)
    (hq : r.majority ≤ r.votes.card) (now : Nat) (h : Acts c x (r, out)) : Acts c x (r.win now out) := by
  rw [win_eq]
  have own := Cause.leader?_of_polls polls
  exact acts_advanceCommit own rfl (acts_sendAppends own rfl _ (h.tail (.win polls role hq)))

lemma acts_stand {keep} (hm : c = .clock keep) (role : r.role ≠ .leader) (now : Nat)
    (h : Acts c x (r, out)) : Acts c x (r.stand now out) := by
  unfold stand
  split
  · exact acts_resetElection now h
  · next hv =>
    have hs : Acts c x (r.standing.resetElection now, { out with persist := true }) :=
      acts_resetElection now (h.tail (.stand hm role (by simpa using hv)))
    dsimp only
    split
    · next hq => exact acts_win (by rw [hm]; rfl) rfl hq now hs
    · exact acts_canvass rfl _ (fun _ hp => hp) hs

/-- **Every tick is a chain of acts.** -/
lemma tick_acts (keep : Option Nat) (r : Raft) (now : Nat) :
    Acts (.clock keep) (r, default) (r.tickKeeping keep now) := by
  unfold tickKeeping
  split
  · next role =>
    split
    · have hn : Acts (.clock keep) (r, default) ({ r with heartbeatAt := now + r.timing.heartbeat }, default) :=
        .tail .refl (.note r.heard r.leaderCommit r.electionAt _)
      generalize hb : { r with heartbeatAt := now + r.timing.heartbeat } = r' at hn
      have role' : r'.role = .leader := hb ▸ role
      cases keep with
      | none => exact acts_sendAppends rfl role' _ hn
      | some keep =>
        have role'' : (r'.compact keep).role = .leader := by rw [compact_frame, role']
        exact acts_sendAppends rfl role'' _ (hn.tail (.compact rfl role'))
    · exact .refl
  · next role =>
    split
    · exact acts_stand rfl role now .refl
    · exact .refl

lemma compact_acts (keep : Nat) (r : Raft) : Acts (.compaction keep) (r, default) (r.compact keep, default) := by
  by_cases role : r.role = .leader
  · exact .tail .refl (.compact rfl role)
  · rw [compact, if_pos role]

variable {y : Raft × Output} {d : Decision} {l : NodeId}

/-- **Every accepted proposal is a chain of acts.** -/
lemma propose_acts (h : r.propose d = some y) : Acts (.proposal d) (r, default) y := by
  unfold propose at h
  split at h
  · cases h
  · next role =>
    split at h
    · cases h
    · next hrule =>
      have role : r.role = .leader := not_not.1 role
      have rule : ∀ next, d.members? = some next → r.mayChangeMembers next := by
        intro next hnext
        simpa [hnext] using hrule
      have role' : (r.appended d).role = .leader := by rw [appended_frame, role]
      cases h
      exact acts_advanceCommit rfl role' (acts_sendAppends rfl role' _ (.tail .refl (.append rfl rfl role rule)))

lemma propose_ranges (role : r.role = .leader) (m : RangeMap) : ∃ y, r.propose (.ranges m) = some y := by
  unfold propose
  rw [if_neg (not_not.2 role)]
  exact ⟨_, rfl⟩

lemma sendAppends_applied (r : Raft) (targets : List NodeId) (out : Output) :
    (r.sendAppends targets out).applied = out.applied := by
  induction targets generalizing out with
  | nil => rfl
  | cons peer targets ih =>
    rw [sendAppends, foldl_cons, sendAppend_eq]
    exact ih _

/-- A proposal is a leader's. It appends, and then looks for something to commit. -/
lemma propose_eq (h : r.propose d = some y) :
    r.role = .leader ∧ ∃ out : Output, out.applied = [] ∧ y = (r.appended d).advanceCommit out := by
  unfold propose at h
  split at h
  · cases h
  · next role =>
    split at h
    · cases h
    · cases h
      exact ⟨not_not.1 role, _, sendAppends_applied _ _ _, rfl⟩

lemma acts_deliverRequestVote (r : Raft) (term : Nat) (c : NodeId) (li lt now : Nat) :
    Acts (.message (.requestVote term c li lt)) (r, default) (r.deliverRequestVote term c li lt now) := by
  have h1 : Acts (.message (.requestVote term c li lt)) (r, default) (r.hear c now, default) :=
    acts_hear c now .refl
  unfold deliverRequestVote
  dsimp only
  split
  · exact h1.tail (.refuse rfl)
  obtain ⟨r', out, hobs, hle, -, h2⟩ := acts_observe _ rfl h1
  simp only [Message.term] at hobs hle
  rw [hobs]
  cases hg : r'.grant term c li lt with
  | true =>
    have hterm : term = r'.term := by
      unfold grant at hg
      split at hg
      · cases hg
      · omega
    subst hterm
    exact acts_resetElection now (h2.tail (.grant rfl hg))
  | false => exact h2.tail (.refuse rfl)

lemma acts_deliverVoteReply (r : Raft) (term : Nat) (u : NodeId) (granted : Bool) (now : Nat) :
    Acts (.message (.voteReply term u granted)) (r, default) (r.deliverVoteReply term u granted now) := by
  obtain ⟨r', out, hobs, -, -, h2⟩ := acts_observe (.voteReply term u granted) rfl
    (acts_hear u now (.refl (a := (r, default))))
  simp only [Message.term] at hobs
  unfold deliverVoteReply
  dsimp only
  rw [hobs]
  split
  · next hc =>
    obtain ⟨role, rfl, rfl⟩ := hc
    have h3 := h2.tail (.count rfl role)
    split
    · next hq => exact acts_win (r := { r' with votes := insert u r'.votes }) rfl role hq now h3
    · exact h3
  · exact h2

lemma caughtUp_eq (r : Raft) (commit : Nat) (out : Output) :
    (if r.commit < commit then { r with commit := min commit r.lastIndex }.apply out
      else (r, out)) = (r.caughtUp commit, handing out r (r.caughtUp commit)) := by
  unfold caughtUp
  split
  · exact apply_eq _ _
  · simp [handing, handedBy]

/-- What a node makes of an append that fits its log, after the comparison. -/
lemma accept_eq (r : Raft) (out : Output) (l : NodeId) (prev : Nat) (entries : List Entry) (commit : Nat) :
    (let f := entries.foldl fill ⟨r, prev, false, out.persist⟩
    let out := { out with persist := f.persist }
    let r := if f.membershipMoved then f.raft.refreshMembers else f.raft
    let (r, out) :=
      if r.commit < commit then { r with commit := min commit r.lastIndex }.apply out
      else (r, out)
    (r, out.to l (.appendReply r.term r.id true f.index))) =
    ((r.taken prev entries).caughtUp commit,
      (handing { out with persist := out.persist || (r.filled prev entries false).persist }
        (r.taken prev entries) ((r.taken prev entries).caughtUp commit)).to l
          (.appendReply r.term r.id true (prev + entries.length))) := by
  rw [foldl_fill_persist]
  dsimp only
  rw [caughtUp_eq]
  have hf : r.filled prev entries false = entries.foldl fill ⟨r, prev, false, false⟩ := rfl
  have ht : (if (r.filled prev entries false).membershipMoved then
      (r.filled prev entries false).raft.refreshMembers
      else (r.filled prev entries false).raft) = r.taken prev entries := rfl
  have hindex : (r.filled prev entries false).index = prev + entries.length :=
    (foldl_fill_frame entries _).2
  rw [← hf, ht, hindex]
  have hid : ((r.taken prev entries).caughtUp commit).id = r.id := by
    rw [caughtUp_frame, taken_frame]
  have hterm : ((r.taken prev entries).caughtUp commit).term = r.term := by
    rw [caughtUp_frame, taken_frame]
  rw [hid, hterm]

lemma acts_deliverAppend (r : Raft) (term : Nat) (l : NodeId) (prev pt : Nat)
    (entries : List Entry) (commit now : Nat) : Acts (.message (.append term l prev pt entries commit)) (r, default)
      (r.deliverAppend term l prev pt entries commit now) := by
  have h1 : Acts (.message (.append term l prev pt entries commit)) (r, default) (if (r.hear l now).term ≤ term then
        { r.hear l now with leaderCommit := max (r.hear l now).leaderCommit commit }
        else r.hear l now, default) := by
    split
    · exact (acts_hear l now .refl).tail
        (.note (r.hear l now).heard (max r.leaderCommit commit) r.electionAt r.heartbeatAt)
    · exact acts_hear l now .refl
  unfold deliverAppend
  dsimp only
  obtain ⟨r', out, hobs, hle, hsend, h2⟩ := acts_observe _ rfl h1
  simp only [Message.term] at hobs hle
  rw [hobs]
  dsimp only
  split
  · exact h2.tail (.refuse rfl)
  · next hge =>
    obtain rfl : term = r'.term := by omega
    have h3 := acts_resetElection now (h2.tail (.follow l now rfl rfl rfl))
    split
    · exact h3.tail (.refuse rfl)
    · next hprev =>
      have accepts := accept_eq ((r'.followed l now).resetElection now) out l prev entries commit
      refine (congrArg (Acts _ _) accepts).mpr ?_
      exact h3.tail (.accept rfl hsend rfl (not_not.1 hprev))

lemma acts_install {index lt : Nat} {ranges : RangeMap}
    {members : List Member} (first : out.send = []) (role : r.role = .follower) (hindex : r.base < index)
    (h : Acts (.message (.snapshot r.term l index lt ranges members)) x (r, out)) :
    Acts (.message (.snapshot r.term l index lt ranges members)) x
      (let r := { r with
        log := [⟨lt, .ranges ranges⟩], base := index, commit := index
        applied := index - 1, seed := members }
      let r := r.refreshMembers
      let (r, out) := r.apply out
      let out := { out with persist := true }
      (r, out.to l (.appendReply r.term r.id true r.lastIndex))) := by
  have h4 := h.tail (.install rfl first role hindex)
  have hone : index - (index - 1) = 1 := by omega
  have hat : index - 1 + 1 = index := by omega
  have hmax : max (index - 1) index = index := by omega
  simp only [apply_eq, refreshMembers, committed, handing, handedBy, entryAt, lastIndex, hone, hat,
    hmax, length_singleton, reverse_singleton, Nat.add_sub_cancel, range'_one,
    filterMap_cons, if_pos (le_refl index), Nat.sub_self]
  exact h4

lemma acts_deliverSnapshot (r : Raft) (term : Nat) (l : NodeId) (index lt : Nat)
    (ranges : RangeMap) (members : List Member) (now : Nat) :
    Acts (.message (.snapshot term l index lt ranges members)) (r, default)
      (r.deliverSnapshot term l index lt ranges members now) := by
  obtain ⟨r', out, hobs, hle, hsend, h2⟩ := acts_observe (.snapshot term l index lt ranges members) rfl
    (acts_hear l now (.refl (a := (r, default))))
  simp only [Message.term] at hobs hle
  unfold deliverSnapshot
  dsimp only
  rw [hobs]
  dsimp only
  split
  · exact h2.tail (.refuse rfl)
  · next hge =>
    obtain rfl : term = r'.term := by omega
    have h3 := acts_resetElection now (h2.tail (.follow l now rfl rfl rfl))
    exact acts_install (r := (r'.followed l now).resetElection now) hsend rfl (by show r'.base < index; omega) h3

lemma acts_deliverAppendReply (r : Raft) (term : Nat) (u : NodeId) (success : Bool) (i now : Nat) :
    Acts (.message (.appendReply term u success i)) (r, default) (r.deliverAppendReply term u success i now) := by
  obtain ⟨r', out, hobs, -, hsend, h2⟩ := acts_observe (.appendReply term u success i) rfl
    (acts_hear u now (.refl (a := (r, default))))
  simp only [Message.term] at hobs
  unfold deliverAppendReply
  dsimp only
  rw [hobs]
  split
  · exact h2
  · next hc =>
    push Not at hc
    obtain ⟨role, rfl⟩ := hc
    cases success with
    | true => exact acts_advanceCommit (r := r'.heardMatch u i) rfl role (h2.tail (.heardMatch rfl role))
    | false =>
      rw [if_neg (by simp), sendAppend_eq]
      exact h2.tail (.backOff rfl hsend role)

/-- **Every delivery is a chain of acts.** -/
lemma deliver_acts (r : Raft) (msg : Message) (now : Nat) : Acts (.message msg) (r, default) (r.deliver msg now) := by
  cases msg with
  | requestVote term c li lt => exact acts_deliverRequestVote r term c li lt now
  | voteReply term u granted => exact acts_deliverVoteReply r term u granted now
  | append term l prev pt entries commit =>
    exact acts_deliverAppend r term l prev pt entries commit now
  | appendReply term u success i => exact acts_deliverAppendReply r term u success i now
  | snapshot term l index lt ranges members =>
    exact acts_deliverSnapshot r term l index lt ranges members now

end Raft

end BigDb.Cluster
