import BigDb.Cluster.Network

/-!
# A leader and its challengers

A node that is in touch with a leader ignores a request to vote, and a leader is meant to be
in touch with itself. What a leader compares with, though, is the moment it won: nothing it
hears afterwards moves that. `undisturbed_iff` says of every leader of every run exactly when
a challenger of a higher term leaves it alone.
-/

namespace BigDb.Cluster
open Raft List Net

namespace Raft

/-- `r'` leads, and has done so since before `r`. -/
structure StillLeads (r r' : Raft) : Prop where
  role : r.role = .leader
  term : r'.term = r.term
  leader : r'.leader = r.leader
  leaderAt : r'.leaderAt = r.leaderAt

/-- `r'` has won at `now`, and `r` did not lead. -/
structure JustWon (r r' : Raft) (now : Nat) : Prop where
  role : r.role ≠ .leader
  leader : r'.leader = some r.id
  leaderAt : r'.leaderAt = some now

variable {r : Raft} {now : Nat}

lemma StillLeads.refl (role : r.role = .leader) : StillLeads r r := ⟨role, rfl, rfl, rfl⟩

/-- Only the clock and a vote make a leader. -/
lemma Acts.leads {c : Cause} (hc : c.polls = false) {out : Output} {y : Raft × Output}
    (h : Acts c (r, out) y) (role : y.1.role = .leader) : StillLeads r y.1 := by
  revert role
  refine h.run (P := fun x => x.1.role = .leader → StillLeads r x.1) .refl fun a b _ hact ih role => ?_
  cases hact with
  | note | grant | count | heardMatch | backOff | commit =>
    obtain ⟨hrole, hterm, hleader, hat⟩ := ih role
    exact ⟨hrole, hterm, hleader, hat⟩
  | refuse | canvass | replicate => exact ih role
  | observe | follow | stand => cases role
  | win polls =>
    rw [hc] at polls
    cases polls
  | append _ _ hrole =>
    obtain ⟨hrole, hterm, hleader, hat⟩ := ih hrole
    rw [appended_frame]
    exact ⟨hrole, hterm, hleader, hat⟩
  | accept _ _ hrole =>
    rw [caughtUp_frame, taken_frame] at role
    exact absurd (hrole.symm.trans role) (by simp)
  | install _ _ hrole => exact absurd (hrole.symm.trans role) (by simp)
  | compact _ hrole =>
    obtain ⟨hrole, hterm, hleader, hat⟩ := ih hrole
    rw [compact_frame]
    exact ⟨hrole, hterm, hleader, hat⟩

lemma win_leads (r : Raft) (now : Nat) (out : Output) :
    (r.win now out).1.leader = some r.id ∧ (r.win now out).1.leaderAt = some now := by
  rw [win_eq]
  rcases (r.crowned now).advanceCommit_cases _ with heq | ⟨k, -, heq⟩
  · rw [heq]
    exact ⟨rfl, rfl⟩
  · rw [heq]
    exact ⟨rfl, rfl⟩

lemma stand_leads (hr : r.role ≠ .leader) {out : Output}
    (role : (r.stand now out).1.role = .leader) : JustWon r (r.stand now out).1 now := by
  unfold stand at role ⊢
  split at role
  · cases r
    exact absurd role hr
  · next hv =>
    rw [if_neg hv]
    dsimp only at role ⊢
    generalize hs : resetElection _ now = r' at role ⊢
    have hid : r'.id = r.id := by rw [← hs]; rfl
    have hcand : r'.role = .candidate := by rw [← hs]; rfl
    split at role
    · next hq =>
      rw [if_pos hq]
      obtain ⟨hleader, hat⟩ := win_leads r' now { out with persist := true }
      exact ⟨hr, hid ▸ hleader, hat⟩
    · exact absurd (hcand.symm.trans role) (by simp)

lemma tick_leads {keep : Option Nat} (role : (r.tickKeeping keep now).1.role = .leader) :
    StillLeads r (r.tickKeeping keep now).1 ∨ JustWon r (r.tickKeeping keep now).1 now := by
  by_cases hr : r.role = .leader
  · left
    unfold tickKeeping
    split
    · split
      · cases keep with
        | none => exact ⟨hr, rfl, rfl, rfl⟩
        | some k =>
          dsimp only
          rw [compact_frame]
          exact ⟨hr, rfl, rfl, rfl⟩
      · exact .refl hr
    · next hne => exact absurd hr hne
  · right
    have hstand : r.tickKeeping keep now =
        if r.electionAt ≤ now then r.stand now default else (r, default) := by
      unfold tickKeeping
      split
      · next hl => exact absurd hl hr
      · rfl
    rw [hstand] at role ⊢
    split at role
    · next hdue =>
      rw [if_pos hdue]
      exact stand_leads hr role
    · exact absurd role hr

lemma deliver_leads {m : Message} (role : (r.deliver m now).1.role = .leader) :
    StillLeads r (r.deliver m now).1 ∨ JustWon r (r.deliver m now).1 now := by
  cases m with
  | voteReply term u granted =>
    rw [deliver] at role ⊢
    unfold deliverVoteReply at role ⊢
    dsimp only at role ⊢
    unfold observe at role ⊢
    by_cases hterm : (r.hear u now).term < term
    · -- a later term makes it a follower, which no vote is for
      rw [if_pos hterm] at role
      rw [if_neg (by rintro ⟨h, -⟩; cases h)] at role
      cases role
    rw [if_neg hterm] at role ⊢
    split at role
    · next hc =>
      rw [if_pos hc]
      have hr : r.role ≠ .leader := by
        have hcand : r.role = .candidate := hc.1
        rw [hcand]
        simp
      dsimp only at role ⊢
      split at role
      · next hq =>
        rw [if_pos hq]
        obtain ⟨hleader, hat⟩ := win_leads { r.hear u now with votes := insert u r.votes } now default
        exact .inr ⟨hr, hleader, hat⟩
      · exact absurd role hr
    · next hc =>
      rw [if_neg hc]
      exact .inl ⟨role, rfl, rfl, rfl⟩
  | _ => exact .inl ((deliver_acts r _ now).leads rfl role)

lemma role_restore (r : Raft) (st : State) : (r.restore st).role = r.role := by
  rw [restore_eq r st rfl rfl]

/-! ## One request -/

/-- Term, role and vote are as they were. -/
def Undisturbed (r r' : Raft) : Prop :=
  r'.term = r.term ∧ r'.role = r.role ∧ r'.votedFor = r.votedFor

/-- A request of a higher term is ignored exactly as long as the node counts itself in touch
with a leader. -/
lemma requestVote_undisturbed {term w : Nat} (hl : r.leader ≠ none)
    (hat : r.leaderAt = some w) (hterm : r.term < term) (c : NodeId) (li lt now : Nat) :
    r.Undisturbed (r.deliver (.requestVote term c li lt) now).1 ↔ now - w < r.timing.electionMin := by
  have htouch : (r.hear c now).leaderInTouch now = decide (now - w < r.timing.electionMin) := by
    show r.leaderInTouch now = _
    unfold leaderInTouch
    cases hr : r.leader with
    | none => exact absurd hr hl
    | some l =>
      rw [hat]
  rw [deliver, deliverRequestVote]
  dsimp only
  rw [htouch]
  by_cases h : now - w < r.timing.electionMin
  · rw [if_pos (decide_eq_true h)]
    exact ⟨fun _ => h, fun _ => ⟨rfl, rfl, rfl⟩⟩
  rw [if_neg (by simpa using h)]
  -- whatever becomes of the vote, the term has moved
  have hobs : ((r.hear c now).observe term default).1.term = term := by
    unfold observe
    rw [if_pos (show (r.hear c now).term < term from hterm)]
  refine ⟨?_, fun hn => absurd hn h⟩
  rintro ⟨ht, -⟩
  exfalso
  split at ht <;> exact absurd (hobs.symm.trans ht) (by omega)

end Raft

/-! ## Over whole runs -/

/-- When an event happens, for those that carry a time. -/
def Event.time? : Event → Option Nat
  | .tick _ now | .deliver _ now | .restart _ now => some now
  | _ => none

variable (s : Setup)

/-- A step after which a node leads left it leading, or is the one it won by. -/
lemma Net.step_leads (net : Net) (e : Event) {n : NodeId} (role : ((net.step s e).raft n).role = .leader) :
    (net.raft n).StillLeads ((net.step s e).raft n) ∨
      ∃ now, e.time? = some now ∧ (net.raft n).JustWon ((net.step s e).raft n) now := by
  have other : ∀ {m : NodeId} {past : List Entry} {y : Raft × Output}, n ≠ m →
      ((net.stepped m past y).raft n).role = .leader →
      (net.raft n).StillLeads ((net.stepped m past y).raft n) := by
    intro m past y hn role
    rw [raft_stepped_other hn] at role ⊢
    exact .refl role
  cases e with
  | tick m now =>
    by_cases hn : n = m
    · subst hn
      rw [Net.step, raft_stepped_self] at role ⊢
      exact (tick_leads role).imp_right fun h => ⟨now, rfl, h⟩
    · exact .inl (other hn role)
  | deliver p now =>
    rw [Net.step] at role ⊢
    split at role
    · next hp =>
      rw [if_pos hp]
      by_cases hn : n = p.dest
      · subst hn
        rw [raft_stepped_self] at role ⊢
        exact (deliver_leads role).imp_right fun h => ⟨now, rfl, h⟩
      · exact .inl (other hn role)
    · next hp =>
      rw [if_neg hp]
      exact .inl (.refl role)
  | propose m d =>
    rw [Net.step] at role ⊢
    cases hy : (net.raft m).propose d with
    | none =>
      rw [hy] at role
      exact .inl (.refl role)
    | some y =>
      rw [hy] at role
      dsimp only at role ⊢
      by_cases hn : n = m
      · subst hn
        rw [raft_stepped_self] at role ⊢
        exact .inl ((propose_acts hy).leads rfl role)
      · exact .inl (other hn role)
  | compact m keep =>
    by_cases hn : n = m
    · subst hn
      rw [Net.step, raft_stepped_self] at role ⊢
      exact .inl ((compact_acts keep _).leads rfl role)
    · exact .inl (other hn role)
  | restart m now =>
    left
    by_cases hn : n = m
    · subst hn
      have hrole : ((net.step s (.restart n now)).raft n).role = .follower := by
        rw [Net.step, raft]
        dsimp only
        rw [Function.update_self, Node.restarted]
        cases (net.nodes n).disk with
        | none => rfl
        | some st => exact role_restore _ st
      rw [hrole] at role
      cases role
    · have hsame : (net.step s (.restart m now)).raft n = net.raft n := by
        rw [Net.step, raft, raft]
        dsimp only
        rw [Function.update_of_ne hn]
      rw [hsame] at role ⊢
      exact .refl role

def Net.Leads (net : Net) (n : NodeId) (t : Nat) : Prop :=
  (net.raft n).role = .leader ∧ (net.raft n).term = t

variable (events : List Event)

/-- The moment of the run at which a node came to lead the term it is in at its end. -/
def CrownedAt (n : NodeId) (w : Nat) : Prop :=
  ∃ i e, events[i]? = some e ∧ e.time? = some w ∧
    ¬ ((Net.init s).exec s (events.take i)).Leads n (((Net.init s).exec s events).raft n).term ∧
    ∀ j, i < j → j ≤ events.length →
      ((Net.init s).exec s (events.take j)).Leads n (((Net.init s).exec s events).raft n).term

lemma Net.exec_concat (net : Net) (events : List Event) (e : Event) :
    net.exec s (events ++ [e]) = (net.exec s events).step s e := by
  rw [exec, foldl_append]
  rfl

/-- What a leader believes about itself is that it has been in touch since it won. -/
lemma crowned_leaderAt (n : NodeId) (role : (((Net.init s).exec s events).raft n).role = .leader) :
    ∃ w, CrownedAt s events n w ∧ (((Net.init s).exec s events).raft n).leaderAt = some w ∧
      (((Net.init s).exec s events).raft n).leader ≠ none := by
  induction events using reverseRecOn with
  | nil => cases role
  | append_singleton events e ih =>
    unfold CrownedAt
    rw [exec_concat] at role ⊢
    have hlen : (events ++ [e]).length = events.length + 1 := by simp
    -- up to the last event this is the shorter run
    have hshort : ∀ j, j ≤ events.length → (events ++ [e]).take j = events.take j :=
      fun j hj => take_append_of_le_length hj
    have hfull : (events ++ [e]).take (events.length + 1) = events ++ [e] :=
      take_of_length_le hlen.le
    rcases step_leads s _ e role with still | ⟨now, htime, won⟩
    · obtain ⟨w, ⟨i, e', he', htime, hnot, hleads⟩, hat, hleader⟩ := ih still.role
      have hi := Lib.lt_of_getElem? he'
      refine ⟨w, ⟨i, e', ?_, htime, ?_, ?_⟩, still.leaderAt.trans hat, still.leader ▸ hleader⟩
      · rw [getElem?_append_left hi, he']
      · rw [hshort i hi.le, still.term]
        exact hnot
      intro j hij hj
      rcases Nat.lt_or_ge events.length j with hgt | hle
      · obtain rfl : j = events.length + 1 := by omega
        rw [hfull, exec_concat]
        exact ⟨role, rfl⟩
      · rw [hshort j hle, still.term]
        exact hleads j hij hle
    · refine ⟨now, ⟨events.length, e, by simp, htime, ?_, ?_⟩, won.leaderAt, ?_⟩
      · rw [hshort _ le_rfl, take_length]
        intro h
        exact won.role h.1
      · intro j hij hj
        obtain rfl : j = events.length + 1 := by omega
        rw [hfull, exec_concat]
        exact ⟨role, rfl⟩
      · rw [won.leader]
        simp

/-- **When a leader is left alone.** In every run, a request to vote of a higher term leaves a
leader's term, role and vote as they are if and only if the leader won its election less than
`electionMin` ago, whatever it has heard from its followers since. -/
theorem undisturbed_iff (n : NodeId)
    (role : (((Net.init s).exec s events).raft n).role = .leader) :
    ∃ w, CrownedAt s events n w ∧ ∀ term c li lt now, (((Net.init s).exec s events).raft n).term < term →
      ((((Net.init s).exec s events).raft n).Undisturbed
        ((((Net.init s).exec s events).raft n).deliver (.requestVote term c li lt) now).1 ↔
      now - w < (((Net.init s).exec s events).raft n).timing.electionMin) := by
  obtain ⟨w, hw, hat, hleader⟩ := crowned_leaderAt s events n role
  refine ⟨w, hw, ?_⟩
  intro term c li lt now hterm
  exact requestVote_undisturbed hleader hat hterm c li lt now

theorem undisturbed_iff_duo :
    let s : Setup := ⟨duo, default, some keepEntries⟩
    let events := transcript s (Net.init s) [fun _ => .tick 0 5000, pick 0 5001, pick 1 5002]
    let r := ((Net.init s).exec s events).raft 0
    r.role = .leader ∧ ∃ w, CrownedAt s events 0 w ∧ ∀ now,
      r.Undisturbed (r.deliver (.requestVote 2 1 0 0) now).1 ↔ now - w < r.timing.electionMin := by
  intro s events r
  have role : r.role = .leader := by decide +kernel
  have hterm : r.term < 2 := by decide +kernel
  obtain ⟨w, hw, hiff⟩ := undisturbed_iff s events 0 role
  exact ⟨role, w, hw, fun now => hiff 2 1 0 0 now hterm⟩

/-- A node is told by `u`, within `window` of `now`, that it holds what it was sent in term `t`. -/
def Event.heeds (n : NodeId) (t window now : Nat) (u : NodeId) : Event → Bool
  | .deliver ⟨dest, .appendReply t' u' true _, _⟩ heard =>
    dest = n && t' = t && u' = u && now - heard < window
  | _ => false

/-- A node has been told so by a majority of its voters. -/
def Net.heeded (n : NodeId) (now : Nat) : Bool :=
  let r := ((Net.init s).exec s events).raft n
  r.majority ≤ (r.voters.filter fun u =>
    events.any (Event.heeds n r.term r.timing.electionMin now u)).length

def quintet : List Member := trio ++ [.named "d" .voter, .named "e" .voter]

/-- Node 0 wins at 5004, and at 9006 it has just heard from nodes 1, 2 and 3. Node 4, which hears
nothing, stands for the second time. -/
def liveLeader : List (Net → Event) :=
  [fun _ => .tick 0 5000, pick 0 5001, pick 1 5002, pick 4 5003, pick 5 5004,
    fun _ => .tick 4 5100, fun _ => .tick 4 9000, fun _ => .tick 0 9000,
    pick 18 9001, pick 19 9002, pick 20 9003, pick 22 9004, pick 23 9005, pick 24 9006]

/-- Node 4's request deposes it. -/
theorem live_leader_deposed :
    let s : Setup := ⟨quintet, default, some keepEntries⟩
    let events := transcript s (Net.init s) liveLeader
    let net := (Net.init s).exec s events
    (net.raft 0).role = .leader ∧ (net.raft 0).term = 1 ∧ heeded s events 0 9010 = true ∧
      ∃ p ∈ net.sent, p.dest = 0 ∧ p.message = .requestVote 2 4 0 0 ∧
        ((net.step s (.deliver p 9010)).raft 0).role = .follower ∧
        ((net.step s (.deliver p 9010)).raft 0).term = 2 := by
  intro s events net
  refine ⟨by decide +kernel, by decide +kernel, by decide +kernel, ?_⟩
  exact ⟨net.sent.getD 14 default, by decide +kernel⟩

end BigDb.Cluster
