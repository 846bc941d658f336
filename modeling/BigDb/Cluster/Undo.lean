import BigDb.Cluster.Compaction

/-!
# Taking a membership back

A membership counts from the moment it is appended, so it has to be taken back when the entry
is cut off again. `refreshMembers` reads it off what is left of the log, and off the seed if
nothing is left. That is the membership of the whole history as long as the run is careful;
a compaction that dropped the membership to go back to leaves only the seed.
-/

namespace BigDb.Cluster
open Lib

namespace Raft

/-- An append of `term` that the node accepts and that is not what it holds from position
`prev + 1 + j` on: what it holds there, if anything, is cut off. -/
structure Truncates (r : Raft) (term prev pt : Nat) (entries : List Entry) (j : Nat) : Prop where
  current : r.term ≤ term
  follows : r.termAt prev = some pt
  cut : r.Cut prev entries j

variable {entries : List Entry}

lemma Cut.congr {r r' : Raft} (hlog : r'.log = r.log) (hbase : r'.base = r.base) {prev j : Nat}
    (h : r.Cut prev entries j) : r'.Cut prev entries j where
  lt := h.lt
  agree i e he := by rw [termAt_congr hlog hbase]; exact h.agree i e he
  differ e he := by rw [termAt_congr hlog hbase]; exact h.differ e he

/-- The log after an append that was accepted. -/
lemma deliver_append_cut {r : Raft} {term prev pt j : Nat}
    (h : r.Truncates term prev pt entries j) (l : NodeId) (commit now : Nat) :
    (r.deliver (.append term l prev pt entries commit) now).1.log =
      r.log.take (prev + 1 + j - r.base) ++ entries.drop j ∧
    (r.deliver (.append term l prev pt entries commit) now).1.base = r.base := by
  obtain ⟨hterm, hprev, hcut⟩ := h
  rw [deliver, deliverAppend]
  dsimp only
  rw [if_pos (show (r.hear l now).term ≤ term from hterm)]
  generalize hobs : observe _ term default = obs
  -- nothing before the loop touches the log
  have hkeeps : obs.1.log = r.log ∧ obs.1.base = r.base ∧ obs.1.term ≤ term := by
    subst hobs
    unfold observe
    split
    · exact ⟨rfl, rfl, le_rfl⟩
    · exact ⟨rfl, rfl, hterm⟩
  obtain ⟨hlog, hbase, hle⟩ := hkeeps
  rw [if_neg (by omega)]
  generalize hr : resetElection _ now = r'
  have hlog' : r'.log = r.log := by rw [← hr]; exact hlog
  have hbase' : r'.base = r.base := by rw [← hr]; exact hbase
  rw [if_neg (by rw [termAt_congr hlog' hbase', hprev]; simp), foldl_fill_persist]
  rw [caughtUp_eq]
  obtain ⟨hb, hend, -⟩ := termAt_some hprev
  have hfill := foldl_fill_cut (r := r') (by omega) (by rw [hlog']; omega) (hcut.congr hlog' hbase')
  rw [filled] at hfill
  rw [hfill, caughtUp_frame, hlog', hbase']
  split <;> exact ⟨rfl, rfl⟩

end Raft

/-- **Membership undo.** In every careful run, an append that cuts entries off leaves a node
with the newest membership of its whole history up to the cut, or of the file the cluster
was started from if there is none, and then whatever membership the append itself brings. -/
theorem membership_undone (s : Setup) (net : Net) (h : Path s (fun net e => net.careful s e = true) (Net.init s) net)
    (p : Packet) (now term : Nat) (l : NodeId) (prev pt : Nat) (entries : List Entry) (commit j : Nat)
    (hp : p ∈ net.sent) (hm : p.message = .append term l prev pt entries commit)
    (ok : net.careful s (.deliver p now) = true)
    (cut : (net.raft p.dest).Truncates term prev pt entries j) :
    ((net.step s (.deliver p now)).raft p.dest).members =
      latestMembers (latestMembers s.members ((net.nodes p.dest).history.take (prev + 1 + j))) (entries.drop j) ∧
    ((net.step s (.deliver p now)).raft p.dest).voters =
      votersOf ((net.step s (.deliver p now)).raft p.dest).members := by
  have N : net.Replays s fun _ => True :=
    Careful.replays (h.mono fun _ _ _ ok => ⟨ok, fun _ _ _ => trivial⟩)
  have K := (N.nodes p.dest).keeps
  have K' := ((N.step ok fun _ _ _ => trivial).nodes p.dest).keeps
  have hist : ((net.step s (.deliver p now)).nodes p.dest).history =
      (net.nodes p.dest).history.take (prev + 1 + j) ++ entries.drop j := by
    obtain ⟨hlog, hbase⟩ := Raft.deliver_append_cut cut l commit now
    obtain ⟨hb, hend, -⟩ := Raft.termAt_some cut.follows
    have hne : (net.raft p.dest).log.take (prev + 1 + j - (net.raft p.dest).base) ≠ [] := by
      apply List.length_pos_iff.1
      rw [List.length_take]
      omega
    have hpast : ∀ r, net.pastAfter p r = (net.nodes p.dest).history := by
      intro r
      rw [Net.pastAfter, hm]
    -- up to the base the history is what it was, and past it the log is the history
    have htake := K.recalls.take_eq (m := prev + 1 + j - (net.raft p.dest).base) (by omega)
    have hsum : (net.raft p.dest).base + (prev + 1 + j - (net.raft p.dest).base) = prev + 1 + j := by
      omega
    rw [show (net.nodes p.dest).raft.base = (net.raft p.dest).base from rfl, hsum] at htake
    rw [Net.step, if_pos hp, Net.stepped_self]
    show Node.historyOf (net.pastAfter p _) _ = _
    rw [hpast, Node.historyOf, hm, hlog, hbase, List.tail_append_of_ne_nil hne, ← List.append_assoc, htake]
    rfl
  have hmembers := K'.listed.members
  rw [K'.recalls.latest, hist, latestMembers_append] at hmembers
  exact ⟨hmembers, K'.listed.voters⟩

/-- The cluster with node 2 on its way out. -/
def trioLeaving : List Member := [.named "a" .voter, .named "b" .voter, .named "c" .draining]

/-- The cluster with nodes 1 and 2 on their way out. -/
def pairLeaving : List Member := [.named "a" .voter, .named "b" .draining, .named "c" .draining]

/-- Node 0 leads; a membership at index 2 and a map at index 3 are on all three nodes. -/
def firstChange : List (Net → Event) :=
  [fun _ => .tick 0 5000, pick 0 5001, pick 2 5002, pick 3 5003, pick 4 5004, pick 5 5005, pick 6 5006,
    fun _ => .propose 0 (.members trioLeaving), pick 7 5007, pick 8 5008, pick 9 5009, pick 10 5010,
    fun _ => .propose 0 (.ranges default), pick 11 5011, pick 12 5012, pick 13 5013, pick 14 5014]

/-- A second membership is proposed at index 4 and reaches nobody; node 1 is elected. -/
def secondChange : List (Net → Event) :=
  [fun _ => .propose 0 (.members pairLeaving), fun _ => .tick 1 20000, pick 18 20001, pick 19 20002]

theorem membership_undone_trio :
    let s : Setup := ⟨trio, default, some Raft.keepEntries⟩
    let net := (Net.init s).play s (firstChange ++ [fun _ => .compact 0 0] ++ secondChange)
    (net.raft 0).base = 2 ∧ (net.raft 0).members = pairLeaving ∧
      ((net.step s (pick 20 20003 net)).raft 0).members = trioLeaving := by
  intro s net
  have hpath : Path s (fun net e => net.careful s e = true) (Net.init s) net :=
    Run.play (fun net e => net.careful s e) _ (by decide +kernel) fun _ _ h => h
  have facts : ∃ p, pick 20 20003 net = .deliver p 20003 ∧ p.dest = 0 ∧ p ∈ net.sent ∧
      p.message = .append 2 1 3 1 [⟨2, .noop⟩] 2 ∧ net.careful s (.deliver p 20003) = true :=
    ⟨net.sent.getD 20 default, by decide +kernel⟩
  have hstate : (net.raft 0).base = 2 ∧ (net.raft 0).members = pairLeaving ∧
      (net.raft 0).term ≤ 2 ∧ (net.raft 0).termAt 3 = some 1 ∧ (net.raft 0).termAt 4 = some 1 ∧
      latestMembers (latestMembers s.members ((net.nodes 0).history.take 4)) [⟨2, .noop⟩] = trioLeaving := by
    decide +kernel
  clear_value net
  obtain ⟨p, hpick, hdest, hp, hm, hok⟩ := facts
  obtain ⟨hbase, hmembers, hterm, hprev, hat, hlatest⟩ := hstate
  have hcut : (net.raft p.dest).Truncates 2 3 1 [⟨2, .noop⟩] 0 := by
    rw [hdest]
    refine ⟨hterm, hprev, by decide, ?_, ?_⟩
    · intro i e he
      cases he
    · intro e he
      cases he
      rw [hat]
      decide
  have undone := membership_undone s net hpath p 20003 2 1 3 1 [⟨2, .noop⟩] 2 0 hp hm hok hcut
  rw [hdest] at undone
  refine ⟨hbase, hmembers, ?_⟩
  rw [hpick, undone.1]
  exact hlatest

/-- The second membership is in the log when node 0 compacts, and the first is dropped: cut off
again, it leaves node 0 with the file's membership. -/
theorem undo_falls_back_to_file :
    let s : Setup := ⟨trio, default, some Raft.keepEntries⟩
    let net := (Net.init s).play s
      (firstChange ++ secondChange.take 1 ++ [fun _ => .compact 0 0] ++ secondChange.drop 1)
    let after := net.step s (pick 20 20003 net)
    (net.raft 0).log.any (·.decision.isMembers) = true ∧ (net.raft 0).commit = 3 ∧
      (after.raft 0).log.any (·.decision.isMembers) = false ∧ (after.raft 0).members = trio ∧
      latestMembers s.members ((net.nodes 0).history.take 4) = trioLeaving := by
  decide +kernel

end BigDb.Cluster
