import BigDb.Cluster.Recall

/-!
# Compaction, and what a node can still replay

`compact` keeps the newest map and the newest membership the log holds, committed or not.
When the newest is not committed, the one it would replace may be dropped, although it is
the one that has been applied and the one to go back to should the newest be cut off again.

`Net.careful` is what a run has to respect so that this does not happen: every compaction
leaves the newest applied map and membership in the log, and a few things the rest of the
agreement is to guarantee. In such a run every node's log replays to what the history
behind it does.
-/

namespace BigDb.Cluster
open Lib List Function Raft Bool

namespace Raft

/-! ## What a compaction drops -/

/-- Where the newest applied decision of a kind is, if the log still holds one. -/
def appliedAnchor (r : Raft) (want : Decision → Bool) : Option Nat :=
  (rposition want (r.log.take (r.applied + 1 - r.base))).map (r.base + ·)

/-- The newest applied map and the newest applied membership are no earlier than one of the
three things a compaction stops at. -/
def compactsSafely (r : Raft) (keep : Nat) : Bool :=
  r.role ≠ .leader || [Decision.isRanges, Decision.isMembers].all fun want =>
    (r.appliedAnchor want).all fun i => r.safe - keep ≤ i ||
      [Decision.isRanges, Decision.isMembers].any fun kind => (r.anchor kind).any (· ≤ i)

/-- A safe compaction leaves what was applied last of either kind. -/
lemma compactsSafely_keeps {r : Raft} {keep d : Nat} (ok : r.compactsSafely keep = true)
    (role : r.role = .leader) (hsafe : r.base + d ≤ r.safe - keep)
    (hanchor : ∀ kind ∈ [Decision.isRanges, Decision.isMembers], ∀ a, r.anchor kind = some a → r.base + d ≤ a) :
    ∀ want ∈ [Decision.isRanges, Decision.isMembers],
      (∀ e ∈ (r.log.take (r.applied + 1 - r.base)).take d, want e.decision = false) ∨
        ∃ e ∈ (r.log.take (r.applied + 1 - r.base)).drop d, want e.decision = true := by
  intro want hwant
  cases hpos : rposition want (r.log.take (r.applied + 1 - r.base)) with
  | none =>
    left
    intro e he
    exact rposition_none hpos e (mem_of_mem_take he)
  | some i =>
    right
    obtain ⟨e, he, hw⟩ := rposition_some hpos
    have hle : r.base + d ≤ r.base + i := by
      unfold compactsSafely at ok
      simp only [role, ne_eq, not_true_eq_false, decide_false, Bool.false_or] at ok
      have hone := all_eq_true.1 ok want hwant
      rw [appliedAnchor, hpos, Option.map_some, Option.all_some, or_eq_true] at hone
      rcases hone with hs | hk
      · exact hsafe.trans (of_decide_eq_true hs)
      obtain ⟨kind, hkind, ha⟩ := any_eq_true.1 hk
      obtain ⟨a, ha, hai⟩ := (Option.any_eq_true _ _).1 ha
      exact (hanchor kind hkind a ha).trans (of_decide_eq_true hai)
    refine ⟨e, mem_of_getElem? (i := i - d) ?_, hw⟩
    rw [getElem?_drop, Nat.add_sub_cancel' (by omega)]
    exact he

/-! ## What a run has to respect -/

/-- What the messages a node is given have to be like. An append it accepts agrees with
everything it has committed. A snapshot names at least one member. And a leader that has
not replayed its log since it was restarted is told nothing that makes it send a snapshot. -/
def welcomes (r : Raft) : Message → Bool
  | .append term _ prev pt entries _ =>
    term < r.term || r.termAt prev ≠ some pt ||
      entries.zipIdx.all fun p => r.commit < prev + 1 + p.2 || r.termAt (prev + 1 + p.2) = some p.1.term
  | .snapshot _ _ _ _ _ members => !members.isEmpty
  | .appendReply term u success i =>
    r.role ≠ .leader || term ≠ r.term || r.base ≤ r.applied ||
      (if success then decide (r.base ≤ i) else decide (r.base + 1 < (r.next u).getD 1))
  | _ => true

end Raft

/-- The events of a run in which nothing that is needed is dropped. -/
def Net.careful (s : Setup) (net : Net) : Event → Bool
  | .tick n _ => s.keep.all (net.raft n).compactsSafely
  | .compact n keep => (net.raft n).compactsSafely keep
  | .deliver p _ => (net.raft p.dest).welcomes p.message
  | _ => true

/-! ## One node -/

/-- The node's log replays to what the history behind it does. `stale` is whether the node
has ever been restarted: after a restart nothing is applied until the next commit. -/
structure Keeps (members : List Member) (stale : Prop) (r : Raft) (history : List Entry) : Prop where
  recalls : Recalls members r.seed r.log r.base r.commit history
  listed : r.Listed
  ready : r.applied = r.commit ∨ (stale ∧ r.applied = r.base - 1)
  /-- until it has replayed its log, a leader has no peer that needs a snapshot -/
  waits : r.role = .leader → r.applied < r.base → ∀ peer, r.base < (r.next peer).getD (r.lastIndex + 1)

/-- A snapshot says what a history says at its index. -/
def Message.Tells (members : List Member) (history : List Entry) : Message → Prop
  | .snapshot _ _ index _ ranges ms =>
    index < history.length ∧ replay members (history.take (index + 1)) = (ranges, ms)
  | _ => True

namespace Keeps
variable {members : List Member} {stale : Prop} {r : Raft} {history : List Entry}

section
variable (K : Keeps members stale r history)
include K

lemma applied_le : r.applied ≤ r.commit := by
  have := K.recalls.low
  rcases K.ready with h | ⟨-, h⟩ <;> omega

lemma lastIndex_eq : r.lastIndex + 1 = history.length := by
  have := K.recalls.length
  have := length_pos_iff.2 K.recalls.held
  unfold lastIndex
  omega

/-- A node that has applied what it holds replays to what the history says it applied. -/
lemma appliedState (hb : r.base ≤ r.applied) : r.appliedState = replay members (history.take (r.applied + 1)) := by
  rcases K.ready with h | ⟨-, h⟩
  · rw [Raft.appliedState, h]
    exact K.recalls.replays
  · obtain ⟨hseed, hlog⟩ := K.recalls.whole (by omega)
    rw [Raft.appliedState, hseed, hlog, show r.base = 0 by omega]
    rfl

lemma tells (role : r.role = .leader) (peer : NodeId) : (r.appendTo peer).Tells members history := by
  unfold appendTo
  dsimp only
  split
  · next hlt =>
    have hb : r.base ≤ r.applied := by
      by_contra hn
      have := K.waits role (by omega) peer
      omega
    exact ⟨lt_of_le_of_lt K.applied_le K.recalls.high, (K.appliedState hb).symm⟩
  · trivial

lemma compact {keep : Nat} (ok : r.compactsSafely keep = true) : Keeps members stale (r.compact keep) history := by
  rcases r.compact_cases keep with heq | ⟨d, hd, role, hsafe, hanchor, heq⟩
  · rw [heq]
    exact K
  have hle := r.safe_le_applied
  have hready : r.applied = r.commit := by
    rcases K.ready with h | ⟨-, h⟩ <;> omega
  have R : Recalls members r.seed (r.log.drop d) (r.base + d) r.commit history := by
    apply K.recalls.shorten
    · omega
    · rw [← hready]
      exact compactsSafely_keeps ok role hsafe hanchor
  rw [heq]
  refine ⟨R, ⟨?_, K.listed.voters⟩, .inl hready, ?_⟩
  · show r.members = latestMembers r.seed (r.log.drop d)
    rw [R.latest, ← K.recalls.latest]
    exact K.listed.members
  · intro _ hlt
    have : r.applied < r.base + d := hlt
    omega

/-- A leader wins, and appends its first entry. -/
lemma crowned (now : Nat) : Keeps members stale (r.crowned now) (history ++ [⟨r.term, .noop⟩]) := by
  have hlast := K.lastIndex_eq
  have hreach := K.recalls.reach
  refine ⟨K.recalls.push _, K.listed.crowned now, K.ready, ?_⟩
  intro _ _ peer
  show r.base < (if peer ∈ r.peers then some (r.lastIndex + 1) else none).getD
    (r.base + (r.log ++ [Entry.mk r.term .noop]).length - 1 + 1)
  split
  · rw [Option.getD_some]
    omega
  · rw [Option.getD_none, length_append, length_singleton]
    omega

lemma appended (d : Decision) : Keeps members stale (r.appended d) (history ++ [⟨r.term, d⟩]) := by
  have L := K.listed.appended d
  rw [appended_frame] at L ⊢
  refine ⟨K.recalls.push _, L, K.ready, ?_⟩
  intro role hlt peer
  have hnext := K.waits role hlt peer
  have hmono : r.lastIndex + 1 ≤ r.base + (r.log ++ [Entry.mk r.term d]).length - 1 + 1 := by
    rw [length_append]
    unfold lastIndex
    omega
  show r.base < (r.next peer).getD (r.base + (r.log ++ [Entry.mk r.term d]).length - 1 + 1)
  cases hn : r.next peer with
  | some n => rwa [hn] at hnext
  | none =>
    rw [hn] at hnext
    exact lt_of_lt_of_le hnext hmono

lemma heardMatch {u : NodeId} {i : Nat} (hi : r.role = .leader → r.applied < r.base → r.base ≤ i) :
    Keeps members stale (r.heardMatch u i) history := by
  refine ⟨K.recalls, ⟨K.listed.members, K.listed.voters⟩, K.ready, ?_⟩
  intro role hlt peer
  show r.base < (update r.next u (some (i + 1)) peer).getD (r.lastIndex + 1)
  by_cases hp : peer = u
  · rw [hp, update_self, Option.getD_some]
    exact Nat.lt_succ_of_le (hi role hlt)
  · rw [update_of_ne hp]
    exact K.waits role hlt peer

lemma backedOff {u : NodeId} (hu : r.role = .leader → r.applied < r.base → r.base + 1 < (r.next u).getD 1) :
    Keeps members stale (r.backedOff u) history := by
  refine ⟨K.recalls, ⟨K.listed.members, K.listed.voters⟩, K.ready, ?_⟩
  intro role hlt peer
  show r.base < (update r.next u (some (max ((r.next u).getD 1 - 1) 1)) peer).getD (r.lastIndex + 1)
  by_cases hp : peer = u
  · have := hu role hlt
    rw [hp, update_self, Option.getD_some]
    exact lt_of_lt_of_le (by omega) (le_max_left _ _)
  · rw [update_of_ne hp]
    exact K.waits role hlt peer

/-- The commit point moves up, and everything below it is applied. -/
lemma committed {k : Nat} (hk : r.commit ≤ k)
    (hlast : k ≤ r.lastIndex) : Keeps members stale (r.committed k) history := by
  have hlen := K.lastIndex_eq
  have happlied := K.applied_le
  have hlow := K.recalls.low
  have high : k < history.length := by omega
  have R := K.recalls
  refine ⟨⟨R.held, R.reach, R.tail, R.low.trans hk, high, R.replays_at hk, R.whole, R.seeded⟩, ⟨K.listed.members, K.listed.voters⟩,
    .inl (max_eq_right (by omega)), ?_⟩
  intro _ hb
  have : max r.applied k < r.base := hb
  omega

lemma caughtUp (commit : Nat) : Keeps members stale (r.caughtUp commit) history := by
  unfold Raft.caughtUp
  split
  · have hlast := K.lastIndex_eq
    have hhigh := K.recalls.high
    exact K.committed (by omega) (min_le_right _ _)
  · exact K

end

lemma installed {index lt : Nat} {ranges : RangeMap} {ms : List Member} (hindex : 0 < index)
    (role : r.role = .follower) (hms : ms ≠ []) (hlt : index < history.length)
    (tells : replay members (history.take (index + 1)) = (ranges, ms)) :
    Keeps members stale (r.installed index lt ranges ms) (history.take (index + 1)) := by
  have recalls : Recalls members ms [⟨lt, .ranges ranges⟩] index index (history.take (index + 1)) := {
    held := cons_ne_nil _ _
    reach := by rw [length_take]; omega
    tail := by rw [drop_take, Nat.sub_self, take_zero]; rfl
    low := le_rfl
    high := by rw [length_take]; omega
    replays := by
      rw [take_take, min_self, tells, Nat.add_sub_cancel_left]
      rfl
    whole := fun h0 => by omega
    seeded := fun h => absurd h hms }
  refine ⟨recalls, ⟨rfl, rfl⟩, .inl rfl, ?_⟩
  intro hr
  exact absurd (role.symm.trans hr) (by simp)

/-- Entries are taken from a leader that agree with everything committed. -/
lemma taken (K : Keeps members stale r history) (role : r.role = .follower) {prev pt : Nat}
    {entries : List Entry} (hprev : r.termAt prev = some pt)
    (agree : ∀ i e, entries[i]? = some e → prev + 1 + i ≤ r.commit → r.termAt (prev + 1 + i) = some e.term) :
    ∃ h', Keeps members stale (r.taken prev entries) h' ∧ h'.take (r.base + 1) = history.take (r.base + 1) ∧
      ((r.filled prev entries false).persist = false → h' = history) := by
  have L := K.listed.taken entries hprev
  rw [taken_frame] at L ⊢
  rcases filled_cases entries hprev with ⟨-, hf⟩ | ⟨j, hcut, hf⟩
  · rw [hf] at L ⊢
    exact ⟨history, ⟨K.recalls, L, K.ready, K.waits⟩, rfl, fun _ => rfl⟩
  obtain ⟨hbase, hend, -⟩ := termAt_some hprev
  have hlen := K.recalls.length
  have hj : r.commit < prev + 1 + j := by
    by_contra hle
    have he := getElem?_eq_getElem hcut.lt
    exact hcut.differ _ he (agree j _ he (by omega))
  have hreach := hcut.reach hend
  have R := K.recalls.cut (m := prev + 1 + j - r.base) (entries.drop j) (by omega) (by omega)
  rw [hf] at L ⊢
  refine ⟨_, ⟨R, L, K.ready, ?_⟩, ?_, nofun⟩
  · intro hr
    exact absurd (role.symm.trans hr) (by simp)
  · rw [take_append_of_le_length (by rw [length_take]; omega), take_take, min_eq_left (by omega)]

end Keeps

/-! ## One step -/

namespace Raft
variable {y : Raft × Output} {r : Raft}

/-- Until a node answers a leader it has done nothing to its log. -/
lemma Acts.unanswered {m : Message} {l : NodeId} (hl : m.leader? = some l)
    (h : Acts (.message m) (r, default) y) (hs : y.2.send = []) :
    y.1.log = r.log ∧ y.1.base = r.base ∧ y.1.commit = r.commit ∧ r.term ≤ y.1.term := by
  revert hs
  refine h.run (P := fun x => x.2.send = [] → x.1.log = r.log ∧ x.1.base = r.base ∧
    x.1.commit = r.commit ∧ r.term ≤ x.1.term) (fun _ => ⟨rfl, rfl, rfl, le_rfl⟩)
    fun a b _ hact ih hs => ?_
  cases hact with
  | note | follow => exact ih hs
  | observe _ later =>
    obtain ⟨h1, h2, h3, h4⟩ := ih hs
    exact ⟨h1, h2, h3, h4.trans later.le⟩
  | refuse | grant | canvass | replicate | backOff | accept | install =>
    simp [Output.to] at hs
  | stand hm | append hm | compact hm => cases hm
  | count hm | heardMatch hm =>
    cases hm
    cases hl
  | win polls =>
    have := Cause.leader?_of_polls polls
    exact absurd (hl.symm.trans this) (by simp)
  | commit own => exact absurd (hl.symm.trans own) (by simp)

/-- A node that leads after an answer led before it, and its own `next` is what the answer
made of it. -/
lemma Acts.answering {t i : Nat} {u : NodeId} {ok : Bool}
    (h : Acts (.message (.appendReply t u ok i)) (r, default) y) (role : y.1.role = .leader) :
    r.role = .leader ∧ y.1.term = r.term ∧ y.1.base = r.base ∧ r.applied ≤ y.1.applied ∧
      (ok = false → y.2.send = [] → y.1.next = r.next) := by
  revert role
  refine h.run (P := fun x => x.1.role = .leader → r.role = .leader ∧ x.1.term = r.term ∧
    x.1.base = r.base ∧ r.applied ≤ x.1.applied ∧ (ok = false → x.2.send = [] → x.1.next = r.next))
    (fun role => ⟨role, rfl, rfl, le_rfl, fun _ _ => rfl⟩) fun a b _ hact ih role => ?_
  cases hact with
  | note => exact ih role
  | observe | follow => cases role
  | refuse | canvass | replicate | backOff =>
    obtain ⟨h1, h2, h3, h4, -⟩ := ih role
    exact ⟨h1, h2, h3, h4, fun _ hs => by simp [Output.to] at hs⟩
  | heardMatch hm =>
    obtain ⟨h1, h2, h3, h4, -⟩ := ih role
    cases hm
    exact ⟨h1, h2, h3, h4, nofun⟩
  | commit =>
    obtain ⟨h1, h2, h3, h4, h5⟩ := ih role
    exact ⟨h1, h2, h3, h4.trans (le_max_left _ _), h5⟩
  | win polls | grant polls | stand polls | count polls | append polls | accept polls
  | install polls | compact polls => cases polls

end Raft

/-- A node in the middle of a step. `past` is the history it continues from, which is
another's once a snapshot has moved its base. -/
structure Kept (members : List Member) (stale : Prop) (own : List Entry) (past : Nat → List Entry)
    (history : List Entry) (x : Raft × Output) : Prop where
  keeps : Keeps members stale x.1 history
  past : history.take (x.1.base + 1) = (past x.1.base).take (x.1.base + 1)
  sends : ∀ d m, (d, m) ∈ x.2.send → m.Tells members history
  unsaved : x.2.persist = false → history = own

namespace Kept
variable {members : List Member} {stale : Prop} {own history : List Entry}
  {past : Nat → List Entry} {r r' : Raft} {out out' : Output}

/-- The log, and what is known of it, is as it was. -/
lemma same (H : Kept members stale own past history (r, out))
    (K : Keeps members stale r' history) (hbase : r'.base = r.base)
    (sends : ∀ d m, (d, m) ∈ out'.send → (d, m) ∈ out.send ∨ m.Tells members history)
    (hp : out'.persist = false → out.persist = false) : Kept members stale own past history (r', out') where
  keeps := K
  past := by rw [hbase]; exact H.past
  sends d m hm := (sends d m hm).elim (H.sends d m) id
  unsaved h := H.unsaved (hp h)

/-- An entry was appended, and the step will be saved. -/
lemma push (H : Kept members stale own past history (r, out)) (e : Entry)
    (K : Keeps members stale r' (history ++ [e])) (hbase : r'.base = r.base)
    (hsend : out'.send = out.send) (hp : out'.persist = true) :
    Kept members stale own past (history ++ [e]) (r', out') where
  keeps := K
  past := by
    rw [hbase, take_append_of_le_length H.keeps.recalls.reach]
    exact H.past
  sends d m hm := by
    have tells := H.sends d m (hsend ▸ hm)
    cases m with
    | snapshot term l index lt ranges ms =>
      obtain ⟨hlt, hreplay⟩ := tells
      refine ⟨hlt.trans (by simp), ?_⟩
      rw [← hreplay, take_append_of_le_length hlt]
    | _ => trivial
  unsaved h := by rw [hp] at h; cases h


section Act
variable {x y : Raft × Output}

/-- One act, of a step that does not compact. -/
lemma act {c : Raft.Cause} (H : Kept members stale own past history x) (hact : Raft.Act c x y)
    (hkeep : c.keep? = none)
    (agree : ∀ l prev pt entries commit, c = .message (.append x.1.term l prev pt entries commit) →
      x.2.send = [] → x.1.termAt prev = some pt → ∀ i e, entries[i]? = some e →
      prev + 1 + i ≤ x.1.commit → x.1.termAt (prev + 1 + i) = some e.term)
    (reply : ∀ u ok i, c = .message (.appendReply x.1.term u ok i) → x.1.role = .leader →
      x.1.applied < x.1.base → (ok = true → x.1.base ≤ i) ∧
        (ok = false → x.2.send = [] → x.1.base + 1 < (x.1.next u).getD 1))
    (given : ∀ l index lt ranges ms, c = .message (.snapshot x.1.term l index lt ranges ms) →
      x.2.send = [] → x.1.base < index → ms ≠ [] ∧ index < (past index).length ∧
        replay members ((past index).take (index + 1)) = (ranges, ms)) :
    ∃ h', Kept members stale own past h' y := by
  have K := H.keeps
  have sending : ∀ {out : Output} {dest : NodeId} {m : Message}, m.Tells members history →
      ∀ d m', (d, m') ∈ (out.to dest m).send → (d, m') ∈ out.send ∨ m'.Tells members history := by
    intro out dest m hm d m' hmem
    rcases mem_append.1 hmem with hmem | hmem
    · exact .inl hmem
    · cases mem_singleton.1 hmem
      exact .inr hm
  have silent : ∀ {send : List (NodeId × Message)} (d : NodeId) (m : Message), (d, m) ∈ send →
      (d, m) ∈ send ∨ m.Tells members history := fun d m hm => .inl hm
  cases hact with
  | note | count =>
    exact ⟨history, H.same ⟨K.recalls, ⟨K.listed.members, K.listed.voters⟩, K.ready, K.waits⟩ rfl silent id⟩
  | observe | follow | stand =>
    refine ⟨history, H.same ⟨K.recalls, ⟨K.listed.members, K.listed.voters⟩, K.ready, ?_⟩ rfl silent ?_⟩
    · intro role
      cases role
    · intro hp
      first | exact hp | cases hp
  | refuse hr =>
    refine ⟨history, H.same K rfl (sending ?_) id⟩
    revert hr
    cases ‹Message› <;> simp [Message.refuses, Message.Tells]
  | grant =>
    refine ⟨history, H.same ⟨K.recalls, ⟨K.listed.members, K.listed.voters⟩, K.ready, K.waits⟩ rfl (sending trivial) ?_⟩
    intro hp
    cases hp
  | canvass => exact ⟨history, H.same K rfl (sending trivial) id⟩
  | replicate _ role => exact ⟨history, H.same K rfl (sending (K.tells role _)) id⟩
  | win => exact ⟨_, H.push _ (K.crowned _) rfl rfl rfl⟩
  | append =>
    refine ⟨_, H.push _ (K.appended _) ?_ rfl rfl⟩
    rw [appended_frame]
  | @heardMatch r out u i hm role =>
    have K' := K.heardMatch (u := u) fun role hlt => (reply u true i hm role hlt).1 rfl
    exact ⟨history, H.same K' rfl silent id⟩
  | backOff hm first role =>
    have K' := K.backedOff fun role hlt => (reply _ false _ hm role hlt).2 rfl first
    exact ⟨history, H.same K' rfl (sending (K'.tells role _)) id⟩
  | commit _ role hk => exact ⟨history, H.same (K.committed hk.past.le hk.held) rfl silent id⟩
  | @accept r out l prev pt entries commit hm first role hprev =>
    obtain ⟨h', K', hpast, hsame⟩ := K.taken role hprev (agree l prev pt entries commit hm first hprev)
    have hbase : ((r.taken prev entries).caughtUp commit).base = r.base := by
      rw [caughtUp_frame, taken_frame]
    refine ⟨h', K'.caughtUp commit, ?_, ?_, ?_⟩
    · rw [hbase, hpast]
      exact H.past
    · intro d m hmem
      cases eq_of_mem_concat first hmem
      trivial
    · intro hp
      obtain ⟨hout, hfill⟩ := or_eq_false_iff.1 hp
      rw [hsame hfill]
      exact H.unsaved hout
  | @install r out l index lt ranges ms hm first role hindex =>
    obtain ⟨hms, hlt, htells⟩ := given l index lt ranges ms hm first hindex
    refine ⟨(past index).take (index + 1), .installed (Nat.zero_lt_of_lt hindex) role hms hlt htells, ?_, ?_, ?_⟩
    · rw [show (r.installed index lt ranges ms).base = index from rfl, take_take, min_self]
    · intro d m hmem
      cases eq_of_mem_concat first hmem
      trivial
    · intro hp
      cases hp
  | compact hm =>
    rw [hkeep] at hm
    cases hm

end Act

end Kept

lemma Raft.termAt_congr {r r' : Raft} (hlog : r'.log = r.log) (hbase : r'.base = r.base) (i : Nat) :
    r'.termAt i = r.termAt i := by
  rw [termAt, termAt, hlog, hbase]

variable {y : Raft × Output}

/-- **A whole step of a core**, compaction apart: its log still replays to what its history
says, and so does every snapshot it sends. -/
lemma Keeps.acts {members : List Member} {stale : Prop} {own : List Entry}
    {past : Nat → List Entry} {r : Raft} {c : Raft.Cause}
    (K : Keeps members stale r own) (acts : Raft.Acts c (r, default) y) (hkeep : c.keep? = none)
    (hmsg : ∀ m, c = .message m → r.welcomes m = true) (hown : past r.base = own)
    (hgiven : ∀ t l index lt ranges ms, c = .message (.snapshot t l index lt ranges ms) →
      r.base < index → index < (past index).length ∧ replay members ((past index).take (index + 1)) = (ranges, ms)) :
    ∃ h, Kept members stale own past h y := by
  refine acts.run (P := fun x => ∃ h, Kept members stale own past h x) ⟨own, K, by rw [hown], nofun, fun _ => rfl⟩ ?_
  rintro a b chain hact ⟨h, H⟩
  refine H.act hact hkeep ?_ ?_ ?_
  · intro l prev pt entries commit hc hsend hprev i e he hle
    rw [hc] at chain
    obtain ⟨hlog, hbase, hcommit, hterm⟩ := Raft.Acts.unanswered (l := l) rfl chain hsend
    have hw := hmsg _ hc
    simp only [welcomes, or_eq_true, decide_eq_true_eq, all_eq_true] at hw
    rw [termAt_congr hlog hbase] at hprev ⊢
    have hall := hw.resolve_left (by
      rintro (hlt | hne)
      · omega
      · exact hne hprev)
    have := hall (e, i) (mk_mem_zipIdx_iff_getElem?.2 he)
    exact this.resolve_left (by simp only; omega)
  · intro u ok i hc role hlt
    rw [hc] at chain
    obtain ⟨hrole, hterm, hbase, happlied, hnext⟩ := Raft.Acts.answering chain role
    have hw := hmsg _ hc
    simp only [welcomes, or_eq_true, decide_eq_true_eq] at hw
    have hw := hw.resolve_left (by
      rintro ((h | h) | h)
      · exact h hrole
      · exact h hterm
      · omega)
    cases ok with
    | true => exact ⟨fun _ => by simpa [hbase] using hw, nofun⟩
    | false =>
      refine ⟨nofun, fun _ hsend => ?_⟩
      rw [hbase, hnext rfl hsend]
      simpa using hw
  · intro l index lt ranges ms hc hsend hindex
    rw [hc] at chain
    obtain ⟨-, hbase, -, -⟩ := Raft.Acts.unanswered (l := l) rfl chain hsend
    have hw := hmsg _ hc
    refine ⟨?_, hgiven _ l index lt ranges ms hc (hbase ▸ hindex)⟩
    rintro rfl
    cases hw

/-- A tick is a chain of acts that compacts nothing, after the one compaction it may start
with. -/
lemma Raft.tick_acts_after (keep : Option Nat) (r : Raft) (now : Nat) :
    Acts (.clock none) (r, default) (r.tickKeeping keep now) ∨ ∃ k due, keep = some k ∧
        Acts (.clock none) ({ r with heartbeatAt := due }.compact k, default) (r.tickKeeping keep now) := by
  cases keep with
  | none => exact .inl (tick_acts none r now)
  | some k =>
    by_cases h : r.role = .leader ∧ r.heartbeatAt ≤ now
    · right
      refine ⟨k, now + r.timing.heartbeat, rfl, ?_⟩
      have role : ({ r with heartbeatAt := now + r.timing.heartbeat }.compact k).role = .leader := by
        rw [compact_frame]
        exact h.1
      unfold tickKeeping
      split
      · rw [if_pos h.2]
        exact acts_sendAppends (c := .clock none) rfl role _ .refl
      · next hne => exact absurd h.1 hne
    · left
      have hsame : r.tickKeeping (some k) now = r.tickKeeping none now := by
        unfold tickKeeping
        split
        · next role => rw [if_neg fun hd => h ⟨role, hd⟩, if_neg fun hd => h ⟨role, hd⟩]
        · rfl
      rw [hsame]
      exact tick_acts none r now

/-! ## Starting and restarting -/

section Restart
variable {members : List Member} {stale : Prop} {history : List Entry}

lemma keeps_new (n : NodeId) (members : List Member) (timing : Timing) (now : Nat) (stale : Prop) :
    Keeps members stale (Raft.new n members timing now) [root] where
  recalls := {
    held := cons_ne_nil _ _
    reach := Nat.one_pos
    tail := rfl
    low := le_rfl
    high := Nat.one_pos
    replays := rfl
    whole := fun _ => ⟨rfl, rfl⟩
    seeded := fun _ => rfl }
  listed := ⟨rfl, rfl⟩
  ready := .inl rfl
  waits role := by cases role

variable {st : State}

section
variable (R : Recalls members st.seed st.log st.base st.commit history)
include R

variable (n : NodeId)

/-- A node restored from a saved state is where that state left it, with nothing applied. -/
lemma restore_saved (timing : Timing) (now : Nat) : (Raft.new n members timing now).restore st =
      { Raft.new n members timing now with
        term := st.term, votedFor := st.votedFor, log := st.log, seed := st.seed
        members := latestMembers st.seed st.log, voters := votersOf (latestMembers st.seed st.log)
        base := st.base, commit := st.commit, applied := st.base - 1 } := by
  have hlog : (if st.log.isEmpty then (Raft.new n members timing now).log else st.log) = st.log := by
    rw [if_neg]
    simpa using R.held
  have hseed : (if st.seed.isEmpty then (Raft.new n members timing now).seed else st.seed) = st.seed := by
    split
    · next h => exact (R.seeded (isEmpty_iff.1 h)).symm
    · rfl
  have hcommit : min (max st.commit st.base) (st.base + st.log.length - 1) = st.commit := by
    have := R.low
    have := R.high
    have := R.length
    omega
  rw [restore_eq _ st hlog hseed, hcommit]

lemma keeps_restore (timing : Timing) (now : Nat) (restarted : stale) :
    Keeps members stale ((Raft.new n members timing now).restore st) history := by
  rw [restore_saved R]
  refine ⟨R, ⟨rfl, rfl⟩, .inr ⟨restarted, rfl⟩, ?_⟩
  intro role
  cases role

lemma restore_replays (timing : Timing) (now : Nat) :
    (((Raft.new n members timing now).restore st).apply default).1.appliedState =
      replay members (history.take (st.commit + 1)) := by
  have K : Keeps members True _ history := keeps_restore R n timing now trivial
  have hcommit : ((Raft.new n members timing now).restore st).commit = st.commit := by
    rw [restore_saved R]
  rw [apply_eq]
  generalize (Raft.new n members timing now).restore st = r at K hcommit
  have hlast := K.lastIndex_eq
  have hhigh := K.recalls.high
  have K' := K.committed (k := r.commit) le_rfl (by omega)
  have happlied : (r.committed r.commit).applied = st.commit := by
    rw [← hcommit]
    exact max_eq_right K.applied_le
  have hstate := K'.appliedState (by rw [happlied, ← hcommit]; exact K.recalls.low)
  rw [happlied] at hstate
  exact hstate

end

end Restart

/-! ## Every node of a run -/

/-- What is known of a node and its disk. -/
structure Node.Replays (s : Setup) (stale : Prop) (node : Node) : Prop where
  keeps : Keeps s.members stale node.raft node.history
  saved : ∀ st, node.disk = some st → Recalls s.members st.seed st.log st.base st.commit node.history
  blank : node.disk = none → node.history = [root]
  same : node.savedHistory = node.history

/-- What is known of a network; `stale` holds of the nodes that are restarted at all. -/
structure Net.Replays (s : Setup) (stale : NodeId → Prop) (net : Net) : Prop where
  nodes : ∀ n, (net.nodes n).Replays s (stale n)
  sent : ∀ p ∈ net.sent, p.message.Tells s.members p.history

namespace Net
variable {s : Setup} {stale : NodeId → Prop} {net : Net}

lemma replays_init (s : Setup) (stale : NodeId → Prop) : (init s).Replays s stale where
  nodes n :=
    { keeps := keeps_new n s.members s.timing 0 (stale n)
      saved := nofun
      blank := fun _ => rfl
      same := rfl }
  sent _ hp := by cases hp

/-- A step of one core, once it has compacted what it compacts. -/
lemma Replays.stepped (N : net.Replays s stale) (past : Nat → List Entry) {n : NodeId} {r : Raft}
    (K : Keeps s.members (stale n) r (net.nodes n).history) {c : Raft.Cause}
    (acts : Raft.Acts c (r, default) y) (hkeep : c.keep? = none) (hmsg : ∀ m, c = .message m → r.welcomes m = true)
    (hown : past r.base = (net.nodes n).history)
    (hgiven : ∀ t l index lt ranges ms, c = .message (.snapshot t l index lt ranges ms) →
      r.base < index → index < (past index).length ∧ replay s.members ((past index).take (index + 1)) = (ranges, ms)) :
    (net.stepped n (past y.1.base) y).Replays s stale := by
  obtain ⟨h, H⟩ := K.acts acts hkeep hmsg hown hgiven
  have hist : Node.historyOf (past y.1.base) y.1 = h := by
    rw [Node.historyOf, ← H.past, ← H.keeps.recalls.tail, take_append_drop]
  refine ⟨?_, ?_⟩
  · intro v
    by_cases hv : v = n
    · subst hv
      rw [stepped_self, Node.after, hist]
      cases hp : y.2.persist with
      | true =>
        refine ⟨H.keeps, ?_, ?_, rfl⟩
        · intro st hst
          cases hst
          exact H.keeps.recalls
        · intro hd
          cases hd
      | false =>
        have hown := H.unsaved hp
        have hk := H.keeps
        rw [hown] at hk ⊢
        exact ⟨hk, (N.nodes v).saved, (N.nodes v).blank, (N.nodes v).same⟩
    · rw [stepped_other hv]
      exact N.nodes v
  · intro p hp
    rcases mem_stepped_sent.1 hp with hp | ⟨d, m, hm, rfl⟩
    · exact N.sent p hp
    show m.Tells s.members (Node.historyOf _ _)
    rw [hist]
    exact H.sends d m hm

lemma Replays.restarted (N : net.Replays s stale) (n : NodeId) (now : Nat) (hn : stale n) :
    ((net.nodes n).restarted s n now).Replays s (stale n) := by
  obtain ⟨-, hsaved, hblank, hsame⟩ := N.nodes n
  unfold Node.restarted
  rw [hsame]
  cases hd : (net.nodes n).disk with
  | none =>
    refine ⟨?_, nofun, fun _ => hblank hd, rfl⟩
    show Keeps s.members (stale n) (Raft.new n s.members s.timing now) (net.nodes n).history
    rw [hblank hd]
    exact keeps_new n s.members s.timing now (stale n)
  | some st =>
    refine ⟨keeps_restore (hsaved st hd) n s.timing now hn, ?_, nofun, rfl⟩
    intro st' h
    cases h
    exact hsaved st hd

/-- **One event.** -/
lemma Replays.step (N : net.Replays s stale) {e : Event} (ok : net.careful s e = true)
    (hr : ∀ n now, e = .restart n now → stale n) : (net.step s e).Replays s stale := by
  cases e with
  | tick n now =>
    have K := (N.nodes n).keeps
    rcases tick_acts_after s.keep (net.raft n) now with acts | ⟨k, due, hk, acts⟩
    · exact N.stepped (fun _ => (net.nodes n).history) K acts rfl (fun _ h => by cases h) rfl
        (fun _ _ _ _ _ _ h => by cases h)
    have ok : (net.raft n).compactsSafely k = true := by
      have : s.keep.all (net.raft n).compactsSafely = true := ok
      rwa [hk] at this
    have K' : Keeps s.members (stale n) { net.raft n with heartbeatAt := due } (net.nodes n).history :=
      ⟨K.recalls, ⟨K.listed.members, K.listed.voters⟩, K.ready, K.waits⟩
    exact N.stepped (fun _ => (net.nodes n).history) (K'.compact ok) acts rfl
      (fun _ h => by cases h) rfl (fun _ _ _ _ _ _ h => by cases h)
  | deliver p now =>
    rw [Net.step]
    split
    · next hp =>
      refine N.stepped (fun b => net.pastAfter p { net.raft p.dest with base := b })
        (N.nodes p.dest).keeps (deliver_acts _ p.message now) rfl ?_ ?_ ?_
      · intro m hm
        cases hm
        exact ok
      · unfold pastAfter
        split
        · exact if_pos rfl
        · rfl
      intro t l index lt ranges ms hm hlt
      have hm : p.message = .snapshot t l index lt ranges ms := by injection hm
      have hpast : net.pastAfter p { net.raft p.dest with base := index } = p.history := by
        unfold pastAfter
        rw [hm]
        exact if_neg (Nat.ne_of_gt hlt)
      have htells := N.sent p hp
      rw [hm] at htells
      rw [hpast]
      exact htells
    · exact N
  | propose n d =>
    rw [Net.step]
    split
    · next y hy =>
      exact N.stepped (fun _ => (net.nodes n).history) (N.nodes n).keeps
        (propose_acts hy) rfl (fun _ h => by cases h) rfl (fun _ _ _ _ _ _ h => by cases h)
    · exact N
  | compact n keep =>
    exact N.stepped (fun _ => (net.nodes n).history) ((N.nodes n).keeps.compact ok)
      (c := .clock none) .refl rfl (fun _ h => by cases h) rfl (fun _ _ _ _ _ _ h => by cases h)
  | restart n now =>
    refine ⟨fun v => ?_, N.sent⟩
    show (update net.nodes n _ v).Replays s (stale v)
    by_cases hv : v = n
    · subst hv
      rw [update_self]
      exact N.restarted v now (hr v now rfl)
    · rw [update_of_ne hv]
      exact N.nodes v

end Net

def Event.isRestart : Event → Bool
  | .restart .. => true
  | _ => false

/-- The steps of a careful run in which only the nodes `restarted` says are restarted. -/
def Careful (s : Setup) (restarted : NodeId → Prop) (net : Net) (e : Event) : Prop :=
  net.careful s e = true ∧ ∀ n now, e = .restart n now → restarted n

lemma Careful.replays {s : Setup} {restarted : NodeId → Prop} {net : Net}
    (h : Path s (Careful s restarted) (Net.init s) net) : net.Replays s restarted :=
  h.run (Net.replays_init s restarted) fun _ _ ok N => N.step ok.1 ok.2

/-- **Compaction preserves the state machine**, in every careful run. What a node replays
from its log is what its whole history leads to up to the last entry it applied, a node
apart that was restarted and has applied nothing since; and the state it last saved,
restored and replayed up to its commit point, is what the history leads to there. -/
theorem careful_runs_replay (s : Setup) (restarted : NodeId → Prop) (net : Net)
    (h : Path s (Careful s restarted) (Net.init s) net) (n : NodeId) :
    (¬ restarted n ∨ (net.raft n).base ≤ (net.raft n).applied → (net.raft n).appliedState =
      replay s.members ((net.nodes n).history.take ((net.raft n).applied + 1))) ∧
    ∀ st now, (net.nodes n).disk = some st →
      (((Raft.new n s.members s.timing now).restore st).apply default).1.appliedState =
        replay s.members ((net.nodes n).history.take (st.commit + 1)) := by
  obtain ⟨K, saved, -, -⟩ := (Careful.replays h).nodes n
  constructor
  · intro hn
    apply K.appliedState
    rcases hn with hn | hb
    · rcases K.ready with hready | ⟨hr, -⟩
      · show (net.raft n).base ≤ (net.nodes n).raft.applied
        rw [hready]
        exact K.recalls.low
      · exact absurd hr hn
    · exact hb
  · intro st now hst
    exact restore_replays (saved st hst) n s.timing now

/-- A map that is not the one every node starts with. -/
def mapAt (epoch : Nat) : RangeMap := { (default : RangeMap) with epoch }

/-- Node 0 leads, and decides a map at index 2 and nothing at index 3; both are committed. -/
def decidedMap : List (Net → Event) :=
  [fun _ => .tick 0 5000, pick 0 5001, pick 1 5002, pick 2 5003, pick 3 5004,
    fun _ => .propose 0 (.ranges (mapAt 1)), pick 4 5005, pick 5 5006,
    fun _ => .propose 0 .noop, pick 6 5007, pick 7 5008]

theorem careful_runs_replay_duo :
    let s : Setup := ⟨duo, default, some keepEntries⟩
    let net := (Net.init s).play s (decidedMap ++ [fun _ => .compact 0 0])
    (net.raft 0).base = 2 ∧ (net.raft 0).appliedState =
      replay s.members ((net.nodes 0).history.take ((net.raft 0).applied + 1)) := by
  intro s net
  have hpath : Path s (Careful s fun _ => False) (Net.init s) net :=
    Run.play (fun net e => net.careful s e && !e.isRestart) _ (by decide +kernel) (by
      intro a e h
      obtain ⟨hcareful, hrestart⟩ := and_eq_true_iff.1 h
      refine ⟨hcareful, ?_⟩
      rintro n now rfl
      cases hrestart)
  exact ⟨by decide +kernel, (careful_runs_replay s _ net hpath 0).1 (.inl id)⟩

/-- With a second map in its log that nobody else has, node 0 compacts the first away, and
saves its log once more. -/
def undecidedMap : List (Net → Event) :=
  decidedMap ++ [fun _ => .propose 0 (.ranges (mapAt 2)), fun _ => .compact 0 0, fun _ => .propose 0 .noop]

/-- The applied map is gone, from the log and from what is saved. -/
theorem compaction_drops_applied_map :
    let s : Setup := ⟨duo, default, some keepEntries⟩
    let net := (Net.init s).play s undecidedMap
    (net.raft 0).role = .leader ∧ (net.raft 0).appliedState ≠
        replay s.members ((net.nodes 0).history.take ((net.raft 0).applied + 1)) ∧
      ∃ st, (net.nodes 0).disk = some st ∧
        (((Raft.new 0 s.members s.timing 0).restore st).apply default).1.appliedState ≠
          replay s.members ((net.nodes 0).history.take (st.commit + 1)) := by
  intro s net
  refine ⟨by decide +kernel, by decide +kernel, ?_⟩
  exact ⟨((net.nodes 0).disk.getD ⟨0, none, 0, 0, [], []⟩), by decide +kernel⟩

end BigDb.Cluster
