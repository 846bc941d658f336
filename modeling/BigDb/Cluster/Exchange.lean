import BigDb.Cluster.Network

/-!
# A leader and one follower, by themselves

What becomes of a heartbeat when nothing but the messages between the two is delivered: an append
or a snapshot, its answer, and what the leader sends at once when the answer is a refusal, one after
another until an answer is not a refusal. A refused append makes the leader step back by one index,
so the chain ends at an index both hold, or at the leader's base, below which there is only the
snapshot. A snapshot that the follower is past is refused like an append, and the leader, which
looks only at the refusal, sends the same snapshot again.
-/

namespace BigDb.Cluster
open List

/-- The one message on its way between the two. -/
inductive Transit where
  | idle
  | toFollower (m : Message)
  | toLeader (m : Message)
deriving DecidableEq

structure Exchange where
  leader : Raft
  follower : Raft
  transit : Transit

/-- What a step sends to a node. -/
def Output.sentTo (out : Output) (node : NodeId) : Option Message :=
  (out.send.find? fun p => p.1 = node).map Prod.snd

namespace Exchange

/-- The message is delivered, and whatever the step sends to the other of the two is next. -/
def step (x : Exchange) (now : Nat) : Exchange :=
  match x.transit with
  | .idle => x
  | .toFollower m =>
    let (follower, out) := x.follower.deliver m now
    { x with follower, transit := (out.sentTo x.leader.id).elim .idle .toLeader }
  | .toLeader m =>
    let (leader, out) := x.leader.deliver m now
    { x with leader, transit := (out.sentTo x.follower.id).elim .idle .toFollower }

/-- A number of deliveries, each at its own time. -/
def after (clock : Nat → Nat) : Nat → Exchange → Exchange
  | 0, x => x
  | k + 1, x => after (fun i => clock (i + 1)) k (x.step (clock 0))

/-- The leader's clock moved, and what it sends to the follower is in flight. -/
def heartbeat (keep : Option Nat) (l f : Raft) (now : Nat) : Exchange :=
  let (leader, out) := l.tickKeeping keep now
  ⟨leader, f, (out.sentTo f.id).elim .idle .toFollower⟩

lemma after_idle (clock : Nat → Nat) (k : Nat) {x : Exchange} (h : x.transit = .idle) : x.after clock k = x := by
  induction k generalizing clock with
  | zero => rfl
  | succ k ih =>
    have still : x.step (clock 0) = x := by
      unfold step
      rw [h]
    rw [after, still]
    exact ih _

lemma after_add (clock : Nat → Nat) (j k : Nat) (x : Exchange) :
    x.after clock (j + k) = (x.after clock j).after (fun i => clock (i + j)) k := by
  induction j generalizing clock x with
  | zero => simp [after]
  | succ j ih =>
    rw [Nat.succ_add_eq_add_succ, Nat.add_succ, after, after, ih]
    simp [Nat.add_assoc]

/-- An exchange comes to one end. -/
lemma after_unique {clock : Nat → Nat} {j k : Nat} {x : Exchange} (hj : (x.after clock j).transit = .idle)
    (hk : (x.after clock k).transit = .idle) : x.after clock j = x.after clock k := by
  rcases Nat.le_total j k with h | h
  · obtain ⟨d, rfl⟩ := Nat.exists_eq_add_of_le h
    rw [after_add, after_idle _ _ hj]
  · obtain ⟨d, rfl⟩ := Nat.exists_eq_add_of_le h
    rw [after_add, after_idle _ _ hk]

end Exchange

/-- Heartbeats of the leader, each one's chain delivered to its end before the next. -/
inductive Rounds (keep : Option Nat) (l f : Raft) : Nat → Raft → Raft → Prop where
  | start : Rounds keep l f 0 l f
  | beat {n : Nat} {l' f' l'' f'' : Raft} {now : Nat} {clock : Nat → Nat} {k : Nat} : Rounds keep l f n l' f' →
      l'.heartbeatAt ≤ now → (Exchange.heartbeat keep l' f' now).after clock k = ⟨l'', f'', .idle⟩ →
      Rounds keep l f (n + 1) l'' f''

namespace Raft

/-! ## What each of the two does with a message -/

section Follower
variable {f : Raft} {t : Nat} (l : NodeId) {prev pt : Nat} (entries : List Entry) (commit now : Nat)

/-- The follower after a message of a leader whose term it follows. -/
structure Heeds (f f' : Raft) (t : Nat) : Prop where
  term : f'.term = t
  id : f'.id = f.id
  log : f'.log = f.log
  base : f'.base = f.base

lemma heeds_observe (fits : f.term ≤ t) (out : Output) :
    Heeds f (f.observe t out).1 t ∧ (f.observe t out).2.send = out.send := by
  unfold observe
  split
  · exact ⟨⟨rfl, rfl, rfl, rfl⟩, rfl⟩
  · next h => exact ⟨⟨Nat.le_antisymm fits (Nat.le_of_not_lt h), rfl, rfl, rfl⟩, rfl⟩

lemma Heeds.termAt {f' : Raft} (h : Heeds f f' t) (i : Nat) : f'.termAt i = f.termAt i := by
  rw [Raft.termAt, Raft.termAt, h.log, h.base]

lemma deliver_append_refused (fits : f.term ≤ t) (miss : f.termAt prev ≠ some pt) :
    ∃ f' out, f.deliver (.append t l prev pt entries commit) now = (f', out) ∧
      out.send = [(l, .appendReply t f.id false 0)] ∧ Heeds f f' t := by
  rw [deliver, deliverAppend]
  dsimp only
  rw [if_pos (show (f.hear l now).term ≤ t from fits)]
  obtain ⟨heeds, hsend⟩ := heeds_observe
    (f := { f.hear l now with leaderCommit := max (f.hear l now).leaderCommit commit }) (t := t) fits default
  generalize observe _ t default = seen at heeds hsend ⊢
  have same := heeds.termAt prev
  rw [if_neg (by rw [heeds.term]; exact lt_irrefl t), if_pos]
  · refine ⟨_, _, rfl, ?_, ⟨heeds.term, heeds.id, heeds.log, heeds.base⟩⟩
    show seen.2.send ++ _ = _
    rw [hsend]
    show _ ++ [(l, Message.appendReply seen.1.term seen.1.id false 0)] = _
    rw [heeds.term, heeds.id]
    rfl
  · exact fun hit => miss (same.symm.trans hit)

/-- What an append leaves of a log it fits: the log itself where every entry agrees, or what
comes before the first that does not, and the rest of the append. -/
inductive Fills (f : Raft) (prev : Nat) (entries log : List Entry) : Prop where
  | agree : f.Agree prev entries → log = f.log → Fills f prev entries log
  | cut {j : Nat} : f.Cut prev entries j →
      log = f.log.take (prev + 1 + j - f.base) ++ entries.drop j → Fills f prev entries log

/-- The node that has taken an append. -/
lemma Heeds.taken {r : Raft} (heeds : Heeds f r t) (hit : f.termAt prev = some pt) :
    ((r.taken prev entries).caughtUp commit).term = t ∧ ((r.taken prev entries).caughtUp commit).id = f.id ∧
      ((r.taken prev entries).caughtUp commit).base = f.base ∧
      Fills f prev entries ((r.taken prev entries).caughtUp commit).log := by
  rw [caughtUp_frame, taken_frame]
  refine ⟨heeds.term, heeds.id, heeds.base, ?_⟩
  rcases filled_cases entries (heeds.termAt prev ▸ hit) with ⟨agree, hf⟩ | ⟨j, cut, hf⟩
  · rw [hf]
    exact .agree (fun i e he => heeds.termAt _ ▸ agree i e he) heeds.log
  · rw [hf]
    refine .cut ⟨cut.lt, fun i e he => heeds.termAt _ ▸ cut.agree i e he, fun e he => ?_⟩ ?_
    · exact heeds.termAt _ ▸ cut.differ e he
    · rw [heeds.log, heeds.base]

lemma deliver_append_taken (fits : f.term ≤ t) (hit : f.termAt prev = some pt) :
    ∃ f' out, f.deliver (.append t l prev pt entries commit) now = (f', out) ∧
      out.send = [(l, .appendReply t f.id true (prev + entries.length))] ∧
      f'.term = t ∧ f'.id = f.id ∧ f'.base = f.base ∧ Fills f prev entries f'.log := by
  rw [deliver, deliverAppend]
  dsimp only
  rw [if_pos (show (f.hear l now).term ≤ t from fits)]
  obtain ⟨heeds, hsend⟩ := heeds_observe
    (f := { f.hear l now with leaderCommit := max (f.hear l now).leaderCommit commit }) (t := t) fits default
  generalize observe _ t default = seen at heeds hsend ⊢
  have heeds' : Heeds f ((seen.1.followed l now).resetElection now) t :=
    ⟨heeds.term, heeds.id, heeds.log, heeds.base⟩
  rw [if_neg (by rw [heeds.term]; exact lt_irrefl t)]
  change ∃ f' out, (if ((seen.1.followed l now).resetElection now).termAt prev ≠ some pt then _ else _) = _ ∧ _
  rw [if_neg (by rw [heeds'.termAt]; exact not_not.2 hit)]
  have taken := accept_eq ((seen.1.followed l now).resetElection now) seen.2 l prev entries commit
  refine ⟨_, _, taken, ?_, heeds'.taken entries commit hit⟩
  show seen.2.send ++ _ = _
  rw [hsend, heeds'.term, heeds'.id]
  rfl

/-- A snapshot past the base is taken. -/
lemma deliver_snapshot_installs {index : Nat} (lt : Nat) (ranges : RangeMap) (members : List Member)
    (fits : f.term ≤ t) (past : f.base < index) :
    ∃ f' out, f.deliver (.snapshot t l index lt ranges members) now = (f', out) ∧
      out.send = [(l, .appendReply t f.id true index)] ∧
      f'.term = t ∧ f'.id = f.id ∧ f'.base = index ∧ f'.log = [⟨lt, .ranges ranges⟩] := by
  rw [deliver, deliverSnapshot]
  dsimp only
  obtain ⟨heeds, hsend⟩ := heeds_observe (f := f.hear l now) (t := t) fits default
  generalize observe _ t default = seen at heeds hsend ⊢
  have taken : ¬ (t < seen.1.term ∨ index ≤ seen.1.base) := by
    rw [heeds.term, heeds.base]
    show ¬ (t < t ∨ index ≤ f.base)
    omega
  rw [if_neg taken, apply_eq]
  refine ⟨_, _, rfl, ?_, heeds.term, heeds.id, rfl, rfl⟩
  show seen.2.send ++ [(l, .appendReply seen.1.term seen.1.id true (index + 1 - 1))] = _
  rw [hsend, heeds.term, heeds.id]
  rfl

/-- A snapshot that the follower is past is refused. -/
lemma deliver_snapshot_declined {index : Nat} (lt : Nat) (ranges : RangeMap) (members : List Member)
    (fits : f.term ≤ t) (past : index ≤ f.base) :
    ∃ f' out, f.deliver (.snapshot t l index lt ranges members) now = (f', out) ∧
      out.send = [(l, .appendReply t f.id false f.lastIndex)] ∧ Heeds f f' t := by
  obtain ⟨heeds, hsend⟩ := heeds_observe (f := f.hear l now) (t := t) fits default
  refine ⟨_, _, deliver_snapshot_refuses l lt ranges members now (.inr past), ?_,
    heeds.term, heeds.id, heeds.log, heeds.base⟩
  show Output.send _ ++ [(l, .appendReply _ _ false _)] = _
  rw [hsend, heeds.term, heeds.id, lastIndex, heeds.base, heeds.log]
  rfl

end Follower

section Leader
variable {l : Raft} (u : NodeId) (i now : Nat)

/-- What the leader keeps through an answer. -/
structure Leads (l l' : Raft) : Prop where
  id : l'.id = l.id
  term : l'.term = l.term
  role : l'.role = l.role
  log : l'.log = l.log
  base : l'.base = l.base
  members : l'.members = l.members

variable {l' : Raft}

lemma Leads.termAt (h : Leads l l') (i : Nat) : l'.termAt i = l.termAt i := by
  rw [Raft.termAt, Raft.termAt, h.log, h.base]

lemma Leads.lastIndex (h : Leads l l') : l'.lastIndex = l.lastIndex := by
  rw [Raft.lastIndex, Raft.lastIndex, h.log, h.base]

lemma Leads.peers (h : Leads l l') : l'.peers = l.peers := by
  rw [Raft.peers, Raft.peers, h.members, h.id]

/-- A refusal makes the leader step back and send again. -/
lemma deliver_refusal (role : l.role = .leader) :
    ∃ out, l.deliver (.appendReply l.term u false i) now = ((l.hear u now).backedOff u, out) ∧
      out.send = [(u, ((l.hear u now).backedOff u).appendTo u)] := by
  rw [deliver, deliverAppendReply]
  rw [observe, if_neg (show ¬ (l.hear u now).term < l.term from lt_irrefl _)]
  dsimp only
  rw [if_neg, if_neg Bool.false_ne_true, sendAppend_eq]
  · exact ⟨_, rfl, rfl⟩
  · rintro (hrole | hterm)
    · exact hrole role
    · exact hterm rfl

/-- An acknowledgement is recorded, and nothing is sent. -/
lemma deliver_acknowledgement (role : l.role = .leader) (behind : l.applied ≤ l.lastIndex) :
    ∃ l' out, l.deliver (.appendReply l.term u true i) now = (l', out) ∧ out.send = [] ∧ Leads l l' ∧
      l'.next u = some (i + 1) ∧ l'.applied ≤ l'.lastIndex := by
  rw [deliver, deliverAppendReply]
  rw [observe, if_neg (show ¬ (l.hear u now).term < l.term from lt_irrefl _)]
  dsimp only
  rw [if_neg, if_pos rfl]
  · have noted : Leads l ((l.hear u now).heardMatch u i) := ⟨rfl, rfl, rfl, rfl, rfl, rfl⟩
    have next : ((l.hear u now).heardMatch u i).next u = some (i + 1) := by simp [heardMatch]
    rcases ((l.hear u now).heardMatch u i).advanceCommit_cases default with same | ⟨k, committable, more⟩
    · exact ⟨_, _, same, rfl, noted, next, behind⟩
    · refine ⟨_, _, more, rfl, ⟨rfl, rfl, rfl, rfl, rfl, rfl⟩, next, ?_⟩
      exact max_le behind committable.held
  · rintro (hrole | hterm)
    · exact hrole role
    · exact hterm rfl

/-- The leader after the clock has moved to its next heartbeat. -/
def beaten (l : Raft) (keep : Option Nat) (now : Nat) : Raft :=
  match keep with
  | some keep => { l with heartbeatAt := now + l.timing.heartbeat }.compact keep
  | none => { l with heartbeatAt := now + l.timing.heartbeat }

lemma sendAppends_send (targets : List NodeId) (out : Output) :
    (l.sendAppends targets out).send = out.send ++ targets.map fun peer => (peer, l.appendTo peer) := by
  induction targets generalizing out with
  | nil => simp [sendAppends]
  | cons peer targets ih =>
    change (l.sendAppends targets (l.sendAppend peer out)).send = _
    rw [ih, sendAppend_eq]
    simp [Output.to]

lemma sentTo_sendAppends {targets : List NodeId} {peer : NodeId} (h : peer ∈ targets) :
    (l.sendAppends targets default).sentTo peer = some (l.appendTo peer) := by
  have found : (targets.map fun p => (p, l.appendTo p)).find? (fun q => q.1 = peer) = some (peer, l.appendTo peer) := by
    induction targets with
    | nil => cases h
    | cons p targets ih =>
      by_cases hp : p = peer
      · simp [hp]
      · have h := (mem_cons.1 h).resolve_left (Ne.symm hp)
        simpa [hp] using ih h
  unfold Output.sentTo
  rw [sendAppends_send]
  exact congrArg (Option.map Prod.snd) found

section
variable (keep : Option Nat)
include keep

lemma tick_beats (role : l.role = .leader) (due : l.heartbeatAt ≤ now) :
    l.tickKeeping keep now = (l.beaten keep now, (l.beaten keep now).sendAppends
      ((l.beaten keep now).peers.filter (· ≠ (l.beaten keep now).id)) default) := by
  unfold tickKeeping
  split
  · rw [if_pos due]
    cases keep with
    | none | some keep => rfl
  · next other => exact absurd role other

/-- A heartbeat may cut the log, and leaves the rest of the leader as it was. -/
lemma beaten_frame : l.beaten keep now =
    { l with heartbeatAt := now + l.timing.heartbeat, log := (l.beaten keep now).log, base := (l.beaten keep now).base } := by
  cases keep with
  | none => rfl
  | some keep =>
    unfold beaten
    dsimp only
    rw [compact_frame]

/-- What is cut off lies below what has been applied. -/
lemma beaten_cases : ((l.beaten keep now).log = l.log ∧ (l.beaten keep now).base = l.base) ∨
    ∃ d, 0 < d ∧ l.base + d ≤ l.applied ∧ (l.beaten keep now).log = l.log.drop d ∧
      (l.beaten keep now).base = l.base + d := by
  cases keep with
  | none => exact .inl ⟨rfl, rfl⟩
  | some keep =>
    unfold beaten
    dsimp only
    rcases ({ l with heartbeatAt := now + l.timing.heartbeat } : Raft).compact_cases keep with
      same | ⟨d, pos, -, short, -, cut⟩
    · rw [same]
      exact .inl ⟨rfl, rfl⟩
    · rw [cut]
      have safe := safe_le_applied { l with heartbeatAt := now + l.timing.heartbeat }
      refine .inr ⟨d, pos, ?_, rfl, rfl⟩
      exact (short.trans (Nat.sub_le _ _)).trans safe

lemma beaten_lastIndex (behind : l.applied ≤ l.lastIndex) : (l.beaten keep now).lastIndex = l.lastIndex := by
  unfold lastIndex at *
  rcases l.beaten_cases now keep with ⟨hlog, hbase⟩ | ⟨d, pos, short, hlog, hbase⟩
  · rw [hlog, hbase]
  · rw [hlog, hbase, length_drop]
    omega

lemma beaten_termAt {i : Nat} (held : (l.beaten keep now).base ≤ i) : (l.beaten keep now).termAt i = l.termAt i := by
  rcases l.beaten_cases now keep with ⟨hlog, hbase⟩ | ⟨d, -, -, hlog, hbase⟩
  · rw [termAt, termAt, hlog, hbase]
  rw [hbase] at held
  rw [termAt, hlog, hbase, if_pos held, termAt_eq l (by omega), getElem?_drop]
  congr 2
  omega

/-- What a heartbeat sends the follower. -/
lemma heartbeat_eq {f : Raft} (role : l.role = .leader) (due : l.heartbeatAt ≤ now)
    (peer : f.id ∈ l.peers) : Exchange.heartbeat keep l f now =
      ⟨l.beaten keep now, f, .toFollower ((l.beaten keep now).appendTo f.id)⟩ := by
  have peer' : f.id ∈ (l.beaten keep now).peers := by
    rw [beaten_frame]
    exact peer
  have other := (mem_filter.1 peer').2
  rw [Bool.and_eq_true, decide_eq_true_eq] at other
  have target : f.id ∈ (l.beaten keep now).peers.filter (· ≠ (l.beaten keep now).id) :=
    mem_filter.2 ⟨peer', decide_eq_true other.1⟩
  have sent := sentTo_sendAppends (l := l.beaten keep now) target
  unfold Exchange.heartbeat
  rw [tick_beats now keep role due]
  dsimp only
  rw [sent]
  rfl

end

end Leader

/-! ## Catching up -/

variable (l f : Raft)

/-- A leader and a node it replicates to whose term it has reached, where the leader's log is as an
undisturbed agreement leaves it: it reaches what was applied and what the follower is thought to
have, and a follower with its last entry ends there. -/
structure Paired : Prop where
  role : l.role = .leader
  peer : f.id ∈ l.peers
  term : f.term ≤ l.term
  applied : l.applied ≤ l.lastIndex
  next : ∀ n, l.next f.id = some n → 0 < n ∧ n ≤ l.lastIndex + 1
  ends : f.termAt l.lastIndex = l.termAt l.lastIndex → f.lastIndex ≤ l.lastIndex

/-- An index below `n` at which the two logs agree. -/
def Meets (n : Nat) : Prop := ∃ p t, p < n ∧ l.termAt p = some t ∧ f.termAt p = some t

/-- A snapshot of the leader is more than the follower has. -/
structure Seeds : Prop where
  cut : 0 < l.base
  applied : l.base ≤ l.applied
  past : f.base < l.applied

/-- Where stepping back ends: at an index both hold, or at a snapshot. -/
def Route : Prop := Meets l f ((l.next f.id).getD 1) ∨ Seeds l f

/-- The follower has the leader's log, and the leader knows. -/
structure Level : Prop where
  next : l.next f.id = some (l.lastIndex + 1)
  last : f.lastIndex = l.lastIndex
  meets : ∃ t, l.termAt l.lastIndex = some t ∧ f.termAt l.lastIndex = some t

/-- The follower has a snapshot of the leader's and nothing after it, and the leader knows. -/
structure Seeded : Prop where
  next : l.next f.id = some (f.base + 1)
  last : f.lastIndex = f.base
  meets : ∃ t, l.termAt f.base = some t ∧ f.termAt f.base = some t

variable {l f}

lemma Level.route (h : Level l f) : Route l f := by
  obtain ⟨t, hl, hf⟩ := h.meets
  exact .inl ⟨l.lastIndex, t, by rw [h.next]; exact Nat.lt_succ_self _, hl, hf⟩

lemma Seeded.route (h : Seeded l f) : Route l f := by
  obtain ⟨t, hl, hf⟩ := h.meets
  exact .inl ⟨f.base, t, by rw [h.next]; exact Nat.lt_succ_self _, hl, hf⟩

/-- A leader with a way to the follower holds something. -/
lemma Route.log_pos (h : Route l f) (applied : l.applied ≤ l.lastIndex) : 0 < l.log.length := by
  rcases h with ⟨p, t, -, hp, -⟩ | seeds
  · have := termAt_some hp
    omega
  · have := seeds.cut
    have := seeds.applied
    unfold lastIndex at applied
    omega

lemma termAt_of_held {l : Raft} {i : Nat} (low : l.base ≤ i) (high : i ≤ l.lastIndex)
    (held : 0 < l.log.length) : ∃ t, l.termAt i = some t := by
  unfold lastIndex at high
  rw [termAt_eq l low, getElem?_eq_getElem (by omega)]
  exact ⟨_, rfl⟩

section Filled
variable {l f f' : Raft} {p t : Nat}

/-- The entries sent after an index are those the leader holds there. -/
lemma termAt_entriesFrom (low : l.base ≤ p) {i : Nat} {e : Entry}
    (h : (l.entriesFrom (p + 1))[i]? = some e) : l.termAt (p + 1 + i) = some e.term := by
  rw [entriesFrom, if_pos (by omega), getElem?_drop] at h
  rw [termAt_eq l (by omega), show p + 1 + i - l.base = p + 1 - l.base + i by omega, h]
  rfl

lemma length_entriesFrom (hl : l.termAt p = some t) : p + (l.entriesFrom (p + 1)).length = l.lastIndex := by
  obtain ⟨low, high, -⟩ := termAt_some hl
  rw [entriesFrom, if_pos (by omega), length_drop, lastIndex]
  omega

/-- A follower that has taken everything from an index both hold has the leader's log to its end. -/
lemma Fills.level (hl : l.termAt p = some t) (hf : f.termAt p = some t) (base : f'.base = f.base)
    (fills : Fills f p (l.entriesFrom (p + 1)) f'.log)
    (ends : f.termAt l.lastIndex = l.termAt l.lastIndex → f.lastIndex ≤ l.lastIndex) :
    f'.lastIndex = l.lastIndex ∧ ∃ t', l.termAt l.lastIndex = some t' ∧ f'.termAt l.lastIndex = some t' := by
  have hlen := length_entriesFrom hl
  obtain ⟨low, -, -⟩ := termAt_some hl
  cases fills with
  | agree agree hlog =>
    -- the last of the entries, or the index itself where there are none
    have same : ∃ t', l.termAt l.lastIndex = some t' ∧ f.termAt l.lastIndex = some t' := by
      cases hlast : (l.entriesFrom (p + 1)).length with
      | zero =>
        rw [hlast, Nat.add_zero] at hlen
        rw [← hlen]
        exact ⟨t, hl, hf⟩
      | succ k =>
        obtain ⟨e, he⟩ : ∃ e, (l.entriesFrom (p + 1))[k]? = some e :=
          ⟨_, getElem?_eq_getElem (by omega)⟩
        rw [show l.lastIndex = p + 1 + k by omega]
        exact ⟨e.term, termAt_entriesFrom low he, agree k e he⟩
    obtain ⟨t', hl', hf'⟩ := same
    have high := ends (hf'.trans hl'.symm)
    have held := (termAt_some hf').2.1
    have here : ∀ i, f'.termAt i = f.termAt i := fun i => by rw [termAt, termAt, hlog, base]
    refine ⟨?_, t', hl', (here _).trans hf'⟩
    have hlast : f.lastIndex = f.base + f.log.length - 1 := rfl
    rw [lastIndex, hlog, base]
    omega
  | @cut j cut hlog =>
    have reach := cut.reach (termAt_some hf).2.1
    have lowf := (termAt_some hf).1
    have hj := cut.lt
    have htake : (f.log.take (p + 1 + j - f.base)).length = p + 1 + j - f.base := by
      rw [length_take]
      omega
    obtain ⟨e, he⟩ : ∃ e, (l.entriesFrom (p + 1))[(l.entriesFrom (p + 1)).length - 1]? = some e :=
      ⟨_, getElem?_eq_getElem (by omega)⟩
    refine ⟨?_, e.term, ?_, ?_⟩
    · rw [lastIndex, hlog, base, length_append, htake, length_drop]
      omega
    · rw [show l.lastIndex = p + 1 + ((l.entriesFrom (p + 1)).length - 1) by omega]
      exact termAt_entriesFrom low he
    · rw [termAt_eq f' (by omega), hlog, base, getElem?_append_right (by rw [htake]; omega), htake,
        getElem?_drop, show j + (l.lastIndex - f.base - (p + 1 + j - f.base)) =
          (l.entriesFrom (p + 1)).length - 1 by omega, he]
      rfl

end Filled

/-! ### One try -/

section Try
variable {l f : Raft} {n : Nat}

def sending (l f : Raft) : Exchange := ⟨l, f, .toFollower (l.appendTo f.id)⟩

variable {out : Output} {l' f' : Raft}

lemma step_toFollower {m answer : Message} {f' : Raft} {now : Nat}
    (h : f.deliver m now = (f', out)) (sent : out.send = [(l.id, answer)]) :
    Exchange.step ⟨l, f, .toFollower m⟩ now = ⟨l, f', .toLeader answer⟩ := by
  unfold Exchange.step
  dsimp only
  rw [h]
  simp [Output.sentTo, sent]

lemma step_toLeader {m : Message} {l' : Raft} {now : Nat} (h : l.deliver m now = (l', out)) :
    Exchange.step ⟨l, f, .toLeader m⟩ now = ⟨l', f, (out.sentTo f.id).elim .idle .toFollower⟩ := by
  unfold Exchange.step
  dsimp only
  rw [h]

/-- What the leader sends from its base up. -/
lemma appendTo_append {p : Nat} (hn : (l.next f.id).getD (l.lastIndex + 1) = p + 1) (low : l.base ≤ p) :
    l.appendTo f.id = .append l.term l.id p ((l.termAt p).getD 0) (l.entriesFrom (p + 1)) l.commit := by
  unfold appendTo
  dsimp only
  rw [hn, Nat.add_sub_cancel, if_neg (not_lt.2 low)]

section
variable (paired : Paired l f)
include paired

/-- At an index both hold, the follower takes what is missing. -/
lemma Paired.tries_append {p t : Nat} (hn : (l.next f.id).getD (l.lastIndex + 1) = p + 1)
    (hl : l.termAt p = some t) (hf : f.termAt p = some t) (first second : Nat) :
    ∃ l' f', ((sending l f).step first).step second = ⟨l', f', .idle⟩ ∧ Paired l' f' ∧ Level l' f' ∧
      l'.lastIndex = l.lastIndex := by
  obtain ⟨low, -, -⟩ := termAt_some hl
  obtain ⟨f', out, hdeliver, hsend, hterm, hid, hbase, fills⟩ := deliver_append_taken l.id
    (l.entriesFrom (p + 1)) l.commit first paired.term hf
  obtain ⟨l', out', hack, hquiet, leads, hnext, happlied⟩ := deliver_acknowledgement f.id
    (p + (l.entriesFrom (p + 1)).length) second paired.role paired.applied
  obtain ⟨last, t', hl', hf'⟩ := fills.level hl hf hbase paired.ends
  rw [length_entriesFrom hl] at hnext
  have level : Level l' f' :=
    ⟨by rw [hid, hnext, leads.lastIndex], by rw [leads.lastIndex, last],
      t', by rw [leads.lastIndex, leads.termAt, hl'], by rw [leads.lastIndex, hf']⟩
  refine ⟨l', f', ?_, ?_, level, leads.lastIndex⟩
  · rw [sending, appendTo_append hn low, hl, Option.getD_some, step_toFollower hdeliver hsend]
    rw [step_toLeader hack]
    simp [Output.sentTo, hquiet]
  refine ⟨leads.role.trans paired.role, ?_, by rw [hterm, leads.term], happlied, ?_, fun _ => level.last.le⟩
  · rw [hid, leads.peers]
    exact paired.peer
  · intro n hn
    rw [level.next] at hn
    cases hn
    omega

/-- Below its base the leader's snapshot is taken by a follower that is not past it. -/
lemma Paired.tries_snapshot (seeds : Seeds l f)
    (below : (l.next f.id).getD (l.lastIndex + 1) - 1 < l.base) (first second : Nat) :
    ∃ l' f', ((sending l f).step first).step second = ⟨l', f', .idle⟩ ∧ Paired l' f' ∧ Seeded l' f' ∧
      l'.lastIndex = l.lastIndex ∧ f.base < f'.base ∧ f'.base ≤ l.lastIndex := by
  have held : 0 < l.log.length := Route.log_pos (.inr seeds) paired.applied
  obtain ⟨t, ht⟩ := termAt_of_held seeds.applied paired.applied held
  obtain ⟨f', out, hdeliver, hsend, hterm, hid, hbase, hlog⟩ := deliver_snapshot_installs l.id first
    ((l.termAt l.applied).getD l.term) l.appliedState.1 l.appliedState.2 paired.term seeds.past
  obtain ⟨l', out', hack, hquiet, leads, hnext, happlied⟩ := deliver_acknowledgement f.id l.applied second
    paired.role paired.applied
  have hlast : f'.lastIndex = f'.base := by
    rw [lastIndex, hlog]
    rfl
  have hf' : f'.termAt f'.base = some t := by
    rw [termAt_eq f' le_rfl, hlog, Nat.sub_self, ht]
    rfl
  have seeded : Seeded l' f' :=
    ⟨by rw [hid, hnext, hbase], hlast, t, by rw [hbase, leads.termAt, ht], hf'⟩
  refine ⟨l', f', ?_, ?_, seeded, leads.lastIndex, by rw [hbase]; exact seeds.past, by rw [hbase]; exact paired.applied⟩
  · rw [sending, show l.appendTo f.id = _ from if_pos below, step_toFollower hdeliver hsend]
    rw [step_toLeader hack]
    simp [Output.sentTo, hquiet]
  have high : f'.lastIndex ≤ l'.lastIndex := by
    rw [hlast, hbase, leads.lastIndex]
    exact paired.applied
  refine ⟨leads.role.trans paired.role, ?_, by rw [hterm, leads.term], happlied, ?_, fun _ => high⟩
  · rw [hid, leads.peers]
    exact paired.peer
  · intro n hn
    rw [seeded.next] at hn
    cases hn
    omega

/-- At an index at which they differ, the leader steps back. -/
lemma Paired.tries_refused {p : Nat} (hn : (l.next f.id).getD (l.lastIndex + 1) = p + 1)
    (low : l.base ≤ p) (miss : f.termAt p ≠ some ((l.termAt p).getD 0)) (first second : Nat) :
    ∃ l' f', ((sending l f).step first).step second = sending l' f' ∧ Leads l l' ∧ Heeds f f' l.term ∧
      l'.applied = l.applied ∧ l'.next f.id = some (max ((l.next f.id).getD 1 - 1) 1) := by
  obtain ⟨f', out, hdeliver, hsend, heeds⟩ := deliver_append_refused l.id (l.entriesFrom (p + 1)) l.commit first
    paired.term miss
  obtain ⟨out', hrefusal, hagain⟩ := deliver_refusal f'.id 0 second paired.role
  rw [← heeds.id] at hsend
  refine ⟨(l.hear f'.id second).backedOff f'.id, f', ?_, ⟨rfl, rfl, rfl, rfl, rfl, rfl⟩, heeds, rfl, ?_⟩
  · rw [sending, appendTo_append hn low, step_toFollower hdeliver hsend]
    rw [step_toLeader hrefusal]
    simp [Output.sentTo, hagain, sending]
  · rw [heeds.id]
    simp [backedOff, hear]

/-- A step back leaves the two as they were, but for the index tried. -/
lemma Paired.backed {l' f' : Raft} (leads : Leads l l') (heeds : Heeds f f' l.term)
    (applied : l'.applied = l.applied) (hnext : l'.next f.id = some n) (pos : 0 < n) (high : n ≤ l.lastIndex + 1) :
    Paired l' f' := by
  refine ⟨leads.role.trans paired.role, ?_, by rw [heeds.term, leads.term], ?_, ?_, ?_⟩
  · rw [heeds.id, leads.peers]
    exact paired.peer
  · rw [applied, leads.lastIndex]
    exact paired.applied
  · intro m hm
    rw [heeds.id, hnext] at hm
    cases hm
    rw [leads.lastIndex]
    exact ⟨pos, high⟩
  · rw [leads.lastIndex, leads.termAt, heeds.termAt]
    rw [show f'.lastIndex = f.lastIndex by rw [lastIndex, lastIndex, heeds.log, heeds.base]]
    exact paired.ends

end

lemma Route.backed (leads : Leads l l') (heeds : Heeds f f' l.term)
    (applied : l'.applied = l.applied) (hnext : l'.next f.id = some n) (route : Meets l f n ∨ Seeds l f) :
    Route l' f' := by
  rcases route with ⟨p, t, hp, hl, hf⟩ | seeds
  · exact .inl ⟨p, t, by rw [heeds.id, hnext]; exact hp, by rw [leads.termAt, hl], by rw [heeds.termAt, hf]⟩
  refine .inr ⟨?_, ?_, ?_⟩
  · rw [leads.base]
    exact seeds.cut
  · rw [leads.base, applied]
    exact seeds.applied
  · rw [heeds.base, applied]
    exact seeds.past

/-- How an exchange ends. -/
structure Outcome (l f l' f' : Raft) : Prop where
  paired : Paired l' f'
  last : l'.lastIndex = l.lastIndex
  gain : Level l' f' ∨ Seeded l' f' ∧ f.base < f'.base ∧ f'.base ≤ l.lastIndex

lemma Outcome.route (h : Outcome l f l' f') : Route l' f' := by
  rcases h.gain with level | ⟨seeded, -⟩
  · exact level.route
  · exact seeded.route

lemma Outcome.backed {l₁ f₁ l' f' : Raft} (leads : Leads l l₁) (heeds : Heeds f f₁ l.term)
    (h : Outcome l₁ f₁ l' f') : Outcome l f l' f' := by
  refine ⟨h.paired, h.last.trans leads.lastIndex, ?_⟩
  have gain := h.gain
  rw [heeds.base, leads.lastIndex] at gain
  exact gain

abbrev Settles (l f : Raft) (clock : Nat → Nat) : Prop :=
  ∃ k l' f', (sending l f).after clock k = ⟨l', f', .idle⟩ ∧ Outcome l f l' f'

/-- A try that is taken, or refused and followed by what steps back to `b`. -/
lemma Paired.settles_try {p b : Nat} (paired : Paired l f) (route : Route l f) (clock : Nat → Nat)
    (hn : (l.next f.id).getD (l.lastIndex + 1) = p + 1) (low : l.base ≤ p) (high : p ≤ l.lastIndex) (bound : b ≤ l.lastIndex + 1)
    (rest : f.termAt p ≠ l.termAt p → max ((l.next f.id).getD 1 - 1) 1 = b ∧ (Meets l f b ∨ Seeds l f))
    (onward : ∀ {l₁ f₁ : Raft}, Paired l₁ f₁ → Route l₁ f₁ → l₁.next f₁.id = some b → ∀ clock, Settles l₁ f₁ clock) :
    Settles l f clock := by
  obtain ⟨t, hl⟩ := termAt_of_held low high (route.log_pos paired.applied)
  by_cases hf : f.termAt p = some t
  · obtain ⟨l', f', hsteps, paired', level, last⟩ := paired.tries_append hn hl hf (clock 0) (clock 1)
    exact ⟨2, l', f', hsteps, paired', last, .inl level⟩
  obtain ⟨l₁, f₁, hsteps, leads, heeds, happlied, hback⟩ := paired.tries_refused hn low
    (by rw [hl]; exact hf) (clock 0) (clock 1)
  obtain ⟨rfl, rest⟩ := rest (by rw [hl]; exact hf)
  have paired₁ := paired.backed leads heeds happlied hback (by omega) bound
  have route₁ := Route.backed leads heeds happlied hback rest
  obtain ⟨k, l', f', hrest, outcome⟩ := onward paired₁ route₁ (heeds.id ▸ hback) fun i => clock (i + 1 + 1)
  refine ⟨k + 2, l', f', ?_, outcome.backed leads heeds⟩
  show Exchange.after _ k (((sending l f).step (clock 0)).step (clock 1)) = _
  rw [hsteps]
  exact hrest

/-- The first try at an index the leader knows of, and the rest by stepping back. -/
lemma Paired.settles_next (n : Nat) : ∀ {l f : Raft}, Paired l f → Route l f → l.next f.id = some n →
    ∀ clock, Settles l f clock := by
  induction n with
  | zero =>
    intro l f paired _ hnext
    exact absurd (paired.next 0 hnext).1 (lt_irrefl 0)
  | succ p ih =>
    intro l f paired route hnext clock
    have high := (paired.next _ hnext).2
    have hn : (l.next f.id).getD (l.lastIndex + 1) = p + 1 := by rw [hnext]; rfl
    have tries : Meets l f (p + 1) ∨ Seeds l f := by
      rw [Route, hnext] at route
      exact route
    by_cases low : l.base ≤ p
    · refine paired.settles_try route clock hn low (by omega) (by omega) (fun miss => ?_) ih
      -- what is left of the route lies below
      have rest : Meets l f p ∨ Seeds l f := by
        refine tries.imp_left ?_
        rintro ⟨q, t, hq, hlq, hfq⟩
        refine ⟨q, t, Nat.lt_of_le_of_ne (Nat.le_of_lt_succ hq) ?_, hlq, hfq⟩
        rintro rfl
        exact miss (hfq.trans hlq.symm)
      have pos : 0 < p := by
        rcases rest with ⟨q, -, hq, -⟩ | seeds
        · omega
        · exact seeds.cut.trans_le low
      rw [hnext, Option.getD_some, Nat.add_sub_cancel, max_eq_left pos]
      exact ⟨rfl, rest⟩
    · -- below the base there is only the snapshot
      have seeds : Seeds l f := by
        refine tries.resolve_left ?_
        rintro ⟨q, t, hq, hlq, -⟩
        have := (termAt_some hlq).1
        omega
      obtain ⟨l', f', hsteps, paired', seeded, last, gain⟩ := paired.tries_snapshot seeds
        (by rw [hn]; omega) (clock 0) (clock 1)
      exact ⟨2, l', f', hsteps, paired', last, .inr ⟨seeded, gain⟩⟩

/-- **An exchange ends**, with the follower level or with a snapshot it did not have. -/
lemma Paired.settles (paired : Paired l f) (route : Route l f) (clock : Nat → Nat) : Settles l f clock := by
  cases hnext : l.next f.id with
  | some n => exact paired.settles_next n route hnext clock
  | none =>
    -- a follower the leader has never heard of is tried at the end, and then at the beginning
    have held := route.log_pos paired.applied
    have hn : (l.next f.id).getD (l.lastIndex + 1) = l.lastIndex + 1 := by rw [hnext]; rfl
    have low : l.base ≤ l.lastIndex := by
      unfold lastIndex
      omega
    refine paired.settles_try route clock hn low le_rfl (by omega) (fun _ => ?_) fun paired₁ route₁ => paired₁.settles_next 1 route₁
    rw [Route, hnext] at route
    rw [hnext]
    exact ⟨rfl, route⟩

end Try

/-! ### Heartbeat after heartbeat -/

section Beats
variable {l f : Raft} (keep : Option Nat) (now : Nat)

/-- The last entry is not cut off. -/
lemma beaten_termAt_last (applied : l.applied ≤ l.lastIndex) :
    (l.beaten keep now).termAt l.lastIndex = l.termAt l.lastIndex := by
  rcases l.beaten_cases now keep with ⟨hlog, hbase⟩ | ⟨d, -, short, -, hbase⟩
  · rw [termAt, termAt, hlog, hbase]
  · exact beaten_termAt now keep (by omega)

lemma Paired.beaten (paired : Paired l f) : Paired (l.beaten keep now) f := by
  have last := l.beaten_lastIndex now keep paired.applied
  refine ⟨?_, ?_, ?_, ?_, ?_, ?_⟩
  · rw [beaten_frame]
    exact paired.role
  · rw [beaten_frame]
    exact paired.peer
  · rw [beaten_frame]
    exact paired.term
  · rw [last, beaten_frame]
    exact paired.applied
  · rw [last, beaten_frame]
    exact paired.next
  · rw [last, beaten_termAt_last keep now paired.applied]
    exact paired.ends

lemma Seeds.beaten (seeds : Seeds l f) : Seeds (l.beaten keep now) f := by
  have same : (l.beaten keep now).applied = l.applied := by rw [beaten_frame]
  have := seeds.cut
  have := seeds.applied
  rcases l.beaten_cases now keep with ⟨-, hbase⟩ | ⟨d, -, short, -, hbase⟩
  · exact ⟨by omega, by omega, by rw [same]; exact seeds.past⟩
  · exact ⟨by omega, by omega, by rw [same]; exact seeds.past⟩

/-- What the two agree on may be cut off, and is then in the snapshot. -/
lemma Route.beaten (route : Route l f) : Route (l.beaten keep now) f := by
  have same : (l.beaten keep now).applied = l.applied ∧ (l.beaten keep now).next = l.next := by
    rw [beaten_frame]
    exact ⟨rfl, rfl⟩
  rcases route with ⟨p, t, hp, hl, hf⟩ | seeds
  · by_cases held : (l.beaten keep now).base ≤ p
    · exact .inl ⟨p, t, by rw [same.2]; exact hp, by rw [beaten_termAt now keep held, hl], hf⟩
    have low := (termAt_some hl).1
    have lowf := (termAt_some hf).1
    rcases l.beaten_cases now keep with ⟨-, hbase⟩ | ⟨d, -, short, -, hbase⟩
    · omega
    · exact .inr ⟨by omega, by omega, by omega⟩
  · exact .inr (seeds.beaten keep now)

lemma Level.beaten (level : Level l f) (applied : l.applied ≤ l.lastIndex) : Level (l.beaten keep now) f := by
  have last := l.beaten_lastIndex now keep applied
  obtain ⟨t, hl, hf⟩ := level.meets
  refine ⟨?_, last ▸ level.last, t, ?_, last ▸ hf⟩
  · rw [last, beaten_frame]
    exact level.next
  · rw [last, beaten_termAt_last keep now applied, hl]

lemma Level.settles (level : Level l f) (paired : Paired l f) (clock : Nat → Nat) :
    ∃ k l' f', (sending l f).after clock k = ⟨l', f', .idle⟩ ∧ Level l' f' := by
  obtain ⟨t, hl, hf⟩ := level.meets
  obtain ⟨l', f', hsteps, -, level', -⟩ := paired.tries_append (by rw [level.next]; rfl) hl hf (clock 0) (clock 1)
  exact ⟨2, l', f', hsteps, level'⟩

/-- What holds after a number of heartbeats: the follower is level, or each has brought it a
snapshot it did not have. -/
structure Nearing (goal n : Nat) (l f : Raft) : Prop where
  paired : Paired l f
  route : Route l f
  last : l.lastIndex = goal
  gain : Level l f ∨ n ≤ f.base ∧ (n = 0 ∨ f.base ≤ goal)

lemma Nearing.beat {goal n : Nat} {l' f' : Raft} {clock : Nat → Nat} {k : Nat} (h : Nearing goal n l f)
    (due : l.heartbeatAt ≤ now) (ends : (Exchange.heartbeat keep l f now).after clock k = ⟨l', f', .idle⟩) :
    Nearing goal (n + 1) l' f' := by
  have paired := h.paired.beaten keep now
  have hlast := l.beaten_lastIndex now keep h.paired.applied
  rw [heartbeat_eq now keep h.paired.role due h.paired.peer] at ends
  obtain ⟨k₁, l₁, f₁, hrest, outcome⟩ := paired.settles (h.route.beaten keep now) clock
  have same : Exchange.mk l₁ f₁ .idle = ⟨l', f', .idle⟩ := by
    rw [← hrest, ← ends]
    exact Exchange.after_unique (congrArg Exchange.transit hrest) (congrArg Exchange.transit ends)
  cases same
  refine ⟨outcome.paired, outcome.route, (outcome.last.trans hlast).trans h.last, ?_⟩
  rcases h.gain with level | ⟨far, -⟩
  · obtain ⟨k₂, l₂, f₂, hlevel, level'⟩ := (level.beaten keep now h.paired.applied).settles paired clock
    have same : Exchange.mk l₂ f₂ .idle = ⟨l', f', .idle⟩ := by
      rw [← hlevel, ← hrest]
      exact Exchange.after_unique (congrArg Exchange.transit hlevel) (congrArg Exchange.transit hrest)
    cases same
    exact .inl level'
  · refine outcome.gain.imp_right ?_
    rintro ⟨-, more, high⟩
    rw [hlast, h.last] at high
    exact ⟨by omega, .inr high⟩

end Beats

end Raft

open Raft

/-- **Catching up ends**, where the leader's snapshot or an index below its next one for the
follower is a way to it: no heartbeat starts a chain of messages without an end, and after as many
heartbeats as the leader has entries the follower's last index is the leader's. -/
theorem catch_up_ends (keep : Option Nat) (l f : Raft) (paired : Paired l f) (route : Route l f) (n : Nat)
    (l' f' : Raft) (rounds : Rounds keep l f n l' f') :
    (∀ now clock, l'.heartbeatAt ≤ now → ∃ k, ((Exchange.heartbeat keep l' f' now).after clock k).transit = .idle) ∧
    (l.lastIndex < n → f'.lastIndex = l'.lastIndex) := by
  have nearing : Nearing l.lastIndex n l' f' := by
    induction rounds with
    | start => exact ⟨paired, route, rfl, .inr ⟨Nat.zero_le _, .inl rfl⟩⟩
    | beat _ due ends ih => exact ih.beat keep _ due ends
  constructor
  · intro now clock due
    rw [heartbeat_eq now keep nearing.paired.role due nearing.paired.peer]
    obtain ⟨k, l₁, f₁, hrest, -⟩ :=
      (nearing.paired.beaten keep now).settles (nearing.route.beaten keep now) clock
    exact ⟨k, congrArg Exchange.transit hrest⟩
  · intro many
    rcases nearing.gain with level | ⟨far, none | high⟩
    · exact level.last
    · omega
    · omega

lemma Rounds.extend {keep : Option Nat} {l f l' f' : Raft} {n now : Nat} (rounds : Rounds keep l f n l' f')
    (due : l'.heartbeatAt ≤ now) {clock : Nat → Nat}
    (ends : ∃ k, ((Exchange.heartbeat keep l' f' now).after clock k).transit = .idle) :
    ∃ l'' f'', Rounds keep l f (n + 1) l'' f'' := by
  obtain ⟨k, hidle⟩ := ends
  generalize hx : (Exchange.heartbeat keep l' f' now).after clock k = x at hidle
  obtain ⟨l'', f'', transit⟩ := x
  cases hidle
  exact ⟨l'', f'', .beat rounds due hx⟩

/-- A leader that has just won, and a learner that has heard nothing yet. -/
theorem catch_up_ends_learner :
    let s : Setup := ⟨[.named "a" .voter, .named "b" .learner], default, some Raft.keepEntries⟩
    let net := (Net.init s).play s [fun _ => .tick 0 5000]
    (net.raft 0).lastIndex = 1 ∧ (net.raft 1).lastIndex = 0 ∧
      ∃ l' f', Rounds s.keep (net.raft 0) (net.raft 1) 2 l' f' ∧ f'.lastIndex = l'.lastIndex := by
  intro s net
  have id : (net.raft 1).id = 1 := by decide +kernel
  have paired : Paired (net.raft 0) (net.raft 1) := by
    refine ⟨by decide +kernel, ?_, by decide +kernel, by decide +kernel, ?_, by decide +kernel⟩
    · rw [id]
      decide +kernel
    · intro n hn
      have one : (net.raft 0).next (net.raft 1).id = some 1 := by decide +kernel
      rw [one] at hn
      cases hn
      decide +kernel
  have route : Route (net.raft 0) (net.raft 1) := .inl ⟨0, 0, by decide +kernel⟩
  have ends := catch_up_ends s.keep _ _ paired route
  obtain ⟨l₁, f₁, once⟩ := Rounds.extend .start le_rfl ((ends 0 _ _ .start).1 _ (fun i => i) le_rfl)
  obtain ⟨l₂, f₂, twice⟩ := Rounds.extend once le_rfl ((ends 1 _ _ once).1 _ (fun i => i) le_rfl)
  have last : (net.raft 0).lastIndex = 1 := by decide +kernel
  exact ⟨last, by decide +kernel, l₂, f₂, twice, (ends 2 _ _ twice).2 (by rw [last]; decide)⟩

/-! ## A follower that is past the snapshot -/

namespace Raft

/-- A leader that has only its snapshot for a follower, and a follower that is past it. -/
structure Stuck (l f : Raft) : Prop where
  role : l.role = .leader
  term : f.term ≤ l.term
  cut : 0 < l.base
  next : ∃ n, l.next f.id = some n ∧ n ≤ l.base
  past : l.applied ≤ f.base

variable {l f : Raft}

lemma Stuck.again (stuck : Stuck l f) (first second : Nat) : ∃ l' f' answer,
    (sending l f).step first = ⟨l, f', .toLeader answer⟩ ∧
      ((sending l f).step first).step second = sending l' f' ∧ Stuck l' f' := by
  obtain ⟨n, hnext, low⟩ := stuck.next
  have cut := stuck.cut
  have below : (l.next f.id).getD (l.lastIndex + 1) - 1 < l.base := by
    rw [hnext, Option.getD_some]
    omega
  obtain ⟨f', out, hdeliver, hsend, heeds⟩ := deliver_snapshot_declined l.id first
    ((l.termAt l.applied).getD l.term) l.appliedState.1 l.appliedState.2 stuck.term stuck.past
  obtain ⟨out', hrefusal, hagain⟩ := deliver_refusal f'.id f.lastIndex second stuck.role
  rw [← heeds.id] at hsend
  have answered : (sending l f).step first = ⟨l, f', .toLeader (.appendReply l.term f'.id false f.lastIndex)⟩ := by
    rw [sending, show l.appendTo f.id = _ from if_pos below]
    exact step_toFollower hdeliver hsend
  refine ⟨(l.hear f'.id second).backedOff f'.id, f', _, answered, ?_, ?_⟩
  · rw [answered]
    rw [step_toLeader hrefusal]
    simp [Output.sentTo, hagain, sending]
  have hback : ((l.hear f'.id second).backedOff f'.id).next f'.id = some (max (n - 1) 1) := by
    rw [heeds.id]
    simp [backedOff, hear, hnext]
  refine ⟨stuck.role, heeds.term.le, cut, ⟨_, hback, ?_⟩, ?_⟩
  · show max (n - 1) 1 ≤ l.base
    omega
  · rw [heeds.base]
    exact stuck.past

/-- The snapshot is sent and refused without an end. -/
lemma Stuck.forever (k : Nat) : ∀ {l f : Raft}, Stuck l f → ∀ clock,
    ((sending l f).after clock k).transit ≠ .idle := by
  induction k using Nat.twoStepInduction with
  | zero =>
    intro l f _ clock h
    cases h
  | one =>
    intro l f stuck clock
    obtain ⟨-, f', answer, answered, -⟩ := stuck.again (clock 0) (clock 1)
    show ((sending l f).step (clock 0)).transit ≠ .idle
    rw [answered]
    intro h
    cases h
  | more k ih _ =>
    intro l f stuck clock
    obtain ⟨l', f', -, -, hagain, stuck'⟩ := stuck.again (clock 0) (clock 1)
    show (Exchange.after _ k (((sending l f).step (clock 0)).step (clock 1))).transit ≠ .idle
    rw [hagain]
    exact ih stuck' _

lemma Stuck.beaten (stuck : Stuck l f) (keep : Option Nat) (now : Nat) : Stuck (l.beaten keep now) f := by
  obtain ⟨n, hnext, low⟩ := stuck.next
  have grows : l.base ≤ (l.beaten keep now).base := by
    rcases l.beaten_cases now keep with ⟨-, hbase⟩ | ⟨d, -, -, -, hbase⟩
    · exact hbase.ge
    · omega
  refine ⟨?_, ?_, stuck.cut.trans_le grows, ⟨n, ?_, low.trans grows⟩, ?_⟩
  · rw [beaten_frame]
    exact stuck.role
  · rw [beaten_frame]
    exact stuck.term
  · rw [beaten_frame]
    exact hnext
  · rw [beaten_frame]
    exact stuck.past

end Raft

/-- A voter and a learner. The voter leads, decides as many maps as make it cut its log, and sends
the learner a snapshot, whose acknowledgement is lost. -/
def lostAcknowledgement : List (Net → Event) :=
  [fun _ => .tick 0 5000] ++ replicate 66 (fun _ => .propose 0 (.ranges default)) ++
    [fun _ => .tick 0 10000, pick 67 10001]

/-- The next heartbeat starts a chain of messages that has no end. -/
theorem refused_snapshot_has_no_end :
    let s : Setup := ⟨[.named "a" .voter, .named "b" .learner], default, some Raft.keepEntries⟩
    let net := (Net.init s).play s lostAcknowledgement
    (net.raft 0).role = .leader ∧ 1 ∈ (net.raft 0).peers ∧ (net.raft 1).term = (net.raft 0).term ∧
      (net.raft 1).leader = some 0 ∧
      ∀ now clock k, (net.raft 0).heartbeatAt ≤ now →
        ((Exchange.heartbeat s.keep (net.raft 0) (net.raft 1) now).after clock k).transit ≠ .idle := by
  intro s net
  have facts : (net.raft 0).role = .leader ∧ 1 ∈ (net.raft 0).peers ∧ (net.raft 1).term = (net.raft 0).term ∧
      (net.raft 1).leader = some 0 ∧ (net.raft 1).id = 1 ∧ 0 < (net.raft 0).base ∧
      (net.raft 0).next 1 = some 1 ∧ (net.raft 0).applied ≤ (net.raft 1).base := by
    decide +kernel
  obtain ⟨role, peer, term, leader, id, cut, next, past⟩ := facts
  refine ⟨role, peer, term, leader, fun now clock k due => ?_⟩
  have stuck : Stuck (net.raft 0) (net.raft 1) := ⟨role, term.le, cut, ⟨1, by rw [id]; exact next, cut⟩, past⟩
  rw [heartbeat_eq now s.keep role due (by rw [id]; exact peer)]
  exact (stuck.beaten s.keep now).forever k clock

end BigDb.Cluster
