import BigDb.Cluster.RangeMap
import Mathlib.Data.Finset.Card

/-!
# The agreement core

`Raft` of `big-cluster`: one node's view of the agreement, with no I/O and no clock. Every
step is a function of the state, the message and a timestamp handed in, and every effect
comes back in an `Output`. The methods keep the source's order of assignments, with the
mutable `self` and `out` passed along explicitly.

Terms, indexes and times are `Nat`; the one place where the source wraps on purpose is the
hash in `timeout`, which is computed modulo `2 ^ 64`. The sorted maps `next`, `matched` and
`heard` are partial functions and the set `votes` is a `Finset`.
-/

namespace BigDb.Cluster
open Function

/-- What one log entry decides. -/
inductive Decision where
  | noop
  | ranges (m : RangeMap)
  | members (ms : List Member)
deriving DecidableEq, Repr, Inhabited

/-- `matches!(d, Decision::Ranges(_))`. -/
def Decision.isRanges : Decision → Bool
  | .ranges _ => true
  | _ => false

/-- `matches!(d, Decision::Members(_))`. -/
def Decision.isMembers : Decision → Bool
  | .members _ => true
  | _ => false

def Decision.members? : Decision → Option (List Member)
  | .members ms => some ms
  | _ => none

def Decision.ranges? : Decision → Option RangeMap
  | .ranges m => some m
  | _ => none

structure Entry where
  term : Nat
  decision : Decision
deriving DecidableEq, Repr, Inhabited

inductive Role where
  | follower
  | candidate
  | leader
deriving DecidableEq, Repr, Inhabited

/-- One message between nodes. -/
inductive Message where
  | requestVote (term : Nat) (candidate : NodeId) (lastIndex : Nat) (lastTerm : Nat)
  | voteReply (term : Nat) (sender : NodeId) (granted : Bool)
  | append (term : Nat) (leader : NodeId) (prevIndex : Nat) (prevTerm : Nat) (entries : List Entry) (commit : Nat)
  | appendReply (term : Nat) (sender : NodeId) (success : Bool) (matchIndex : Nat)
  | snapshot (term : Nat) (leader : NodeId) (index : Nat) (lastTerm : Nat) (ranges : RangeMap) (members : List Member)
deriving DecidableEq, Repr

/-- How long a node waits before doing anything about silence, in milliseconds. -/
structure Timing where
  electionMin : Nat
  electionSpread : Nat
  heartbeat : Nat
deriving DecidableEq, Repr

/-- `Timing::default()`. -/
instance : Inhabited Timing := ⟨⟨1500, 1500, 400⟩⟩

/-- Everything a step produced. The caller does the I/O. -/
structure Output where
  send : List (NodeId × Message)
  persist : Bool
  applied : List Decision
deriving Repr

/-- `Output::default()`. -/
instance : Inhabited Output := ⟨⟨[], false, []⟩⟩

/-- `Output::to`. -/
def Output.to (out : Output) (node : NodeId) (m : Message) : Output :=
  { out with send := out.send ++ [(node, m)] }

/-- What a restart may not lose. -/
structure State where
  term : Nat
  votedFor : Option NodeId
  commit : Nat
  base : Nat
  log : List Entry
  seed : List Member
deriving DecidableEq, Repr

/-- One node's view of the agreement. -/
structure Raft where
  id : NodeId
  seed : List Member
  members : List Member
  voters : List NodeId
  leaderCommit : Nat
  timing : Timing
  term : Nat
  votedFor : Option NodeId
  log : List Entry
  base : Nat
  role : Role
  leader : Option NodeId
  commit : Nat
  applied : Nat
  votes : Finset NodeId
  next : NodeId → Option Nat
  matched : NodeId → Option Nat
  electionAt : Nat
  heartbeatAt : Nat
  leaderAt : Option Nat
  heard : NodeId → Option Nat

namespace Raft

/-- How many committed entries a leader keeps beyond what every follower has stored. -/
def keepEntries : Nat := 64

/-! ## Reading the state -/

variable (r : Raft)

def lastIndex : Nat := r.base + r.log.length - 1

def settled : Bool := r.commit = r.lastIndex

def lastTerm : Nat := (r.log.getLast?.map Entry.term).getD 0

/-- The term of an entry, or `none` when it is off either end of what is held. -/
def termAt (index : Nat) : Option Nat :=
  if r.base ≤ index then (r.log[index - r.base]?).map Entry.term else none

/-- The entries from `first` onward, empty when `first` is past the end. -/
def entriesFrom (first : Nat) : List Entry :=
  if r.base ≤ first then r.log.drop (first - r.base) else []

/-- Of the voters, not of everybody replicated to. -/
def majority : Nat := r.voters.length / 2 + 1

def iVote : Bool := r.id ∈ r.voters

/-- Every node this one sends to: everybody but itself that has not left. -/
def peers : List NodeId :=
  (List.range r.members.length).filter fun n =>
    n ≠ r.id && (r.members[n]?).any Member.reachable

/-- Whether the leader has been told of something this node has not committed. -/
def behind : Bool := r.commit < r.leaderCommit

/-- The randomised election timeout, derived from the node and the term. -/
def timeout : Nat :=
  let h := (r.id * 0x9e3779b97f4a7c15 % 2 ^ 64) ^^^ r.term
  let h := h ^^^ (h >>> 33)
  let h := h * 0xff51afd7ed558ccd % 2 ^ 64
  let h := h ^^^ (h >>> 29)
  r.timing.electionMin + h % max r.timing.electionSpread 1

/-- Whether this node is still hearing from a leader it believes in. -/
def leaderInTouch (now : Nat) : Bool :=
  match r.leader, r.leaderAt with
  | some _, some heardAt => now - heardAt < r.timing.electionMin
  | _, _ => false

/-- Folds one decision into the state machine: the map and the members. -/
def foldDecision (state : RangeMap × List Member) (e : Entry) : RangeMap × List Member :=
  match e.decision with
  | .ranges m => (m, state.2)
  | .members ms => (state.1, ms)
  | .noop => state

/-- The state machine as this node has applied it, replayed from what the log still
holds. -/
def appliedState : RangeMap × List Member :=
  (r.log.take (r.applied + 1 - r.base)).foldl foldDecision (default, r.seed)

/-- Everything this node needs written down, as one value. -/
def state : State := ⟨r.term, r.votedFor, r.commit, r.base, r.log, r.seed⟩

/-! ## Building a node -/

def resetElection (now : Nat) : Raft := { r with electionAt := now + r.timeout }

/-- A node in a cluster described by a file, before the log has said anything. -/
def new (id : NodeId) (members : List Member) (timing : Timing) (now : Nat) : Raft :=
  let raft : Raft :=
    { id, seed := members, members, voters := votersOf members, leaderCommit := 0, timing
      term := 0, votedFor := none, log := [⟨0, .noop⟩], base := 0
      role := .follower, leader := none, commit := 0, applied := 0, votes := ∅
      next := fun _ => none, matched := fun _ => none
      electionAt := 0, heartbeatAt := 0, leaderAt := none, heard := fun _ => none }
  raft.resetElection now

/-- Recomputes the membership from the log, falling back to the seed. -/
def refreshMembers : Raft :=
  let latest := r.log.reverse.findSome? fun e => e.decision.members?
  let members := latest.getD r.seed
  { r with members, voters := votersOf members }

/-- Restores what was on disk, and the commit point with it. -/
def restore (state : State) : Raft :=
  let r := { r with term := state.term, votedFor := state.votedFor }
  let r := if state.log.isEmpty then r else { r with log := state.log }
  let r := if state.seed.isEmpty then r else { r with seed := state.seed }
  let r := r.refreshMembers
  let r := { r with base := state.base }
  let r := { r with commit := min (max state.commit r.base) r.lastIndex }
  { r with applied := r.base - 1 }

/-! ## Compaction -/

/-- `Iterator::rposition`. -/
def rposition (want : Decision → Bool) (log : List Entry) : Option Nat :=
  (log.reverse.findIdx? fun e => want e.decision).map fun i => log.length - 1 - i

/-- The log position of the newest decision of a kind. -/
def anchor (want : Decision → Bool) : Option Nat :=
  (rposition want r.log).map (r.base + ·)

/-- The furthest every voter is known to have stored, and no further than applied. -/
def safe : Nat :=
  min ((r.voters.map fun n => (r.matched n).getD 0).min?.getD 0) r.applied

/-- Throws away the prefix of the log every voter has already stored, `keep` entries short
of it and never past the newest map or membership the log holds. -/
def compact (keep : Nat) : Raft :=
  if r.role ≠ .leader then r
  else
    let target := r.safe - keep
    let keepFrom := ([r.anchor Decision.isRanges, r.anchor Decision.isMembers].filterMap fun found => found).min?
    let target := (keepFrom.map (min target)).getD target
    if target ≤ r.base then r
    else { r with log := r.log.drop (target - r.base), base := target }

/-! ## Committing -/

/-- The `while` of `apply`, one turn for each index between `applied` and `commit`. -/
def applyLoop : Nat → Raft → Output → Raft × Output
  | 0, r, out => (r, out)
  | n + 1, r, out =>
    let r := { r with applied := r.applied + 1 }
    let entry := if r.base ≤ r.applied then r.log[r.applied - r.base]? else none
    let out := match entry with
      | some e => { out with applied := out.applied ++ [e.decision] }
      | none => out
    applyLoop n r out

/-- Hands every committed decision to the caller. -/
def apply (out : Output) : Raft × Output := applyLoop (r.commit - r.applied) r out

/-- How many voters are known to hold `index`. -/
def replicas (index : Nat) : Nat :=
  (r.voters.filter fun m => (r.matched m).any (index ≤ ·)).length

/-- One turn of the loop of `advanceCommit`: `index` is the new candidate if it is of this
term and a majority holds it. -/
def countIndex (candidate index : Nat) : Nat :=
  if r.termAt index ≠ some r.term then candidate
  else if r.majority ≤ r.replicas index then index
  else candidate

/-- The highest index a majority holds, of this term. -/
def advanceCommit (out : Output) : Raft × Output :=
  let candidate := (List.range' (r.commit + 1) (r.lastIndex - r.commit)).foldl r.countIndex r.commit
  if r.commit < candidate then { r with commit := candidate }.apply out else (r, out)

/-! ## Replicating -/

/-- Sends `peer` what it is missing: the entries it has not stored, or the state machine
itself when those entries are gone. -/
def sendAppend (peer : NodeId) (out : Output) : Output :=
  let next := (r.next peer).getD (r.lastIndex + 1)
  let prevIndex := next - 1
  if prevIndex < r.base then
    let (ranges, members) := r.appliedState
    out.to peer (.snapshot r.term r.id r.applied ((r.termAt r.applied).getD r.term) ranges members)
  else
    let prevTerm := (r.termAt prevIndex).getD 0
    out.to peer (.append r.term r.id prevIndex prevTerm (r.entriesFrom next) r.commit)

/-- `sendAppend` to each node of a list, in order. -/
def sendAppends (targets : List NodeId) (out : Output) : Output :=
  targets.foldl (fun out peer => r.sendAppend peer out) out

/-- Whether this membership is one step from the current one. -/
def mayChangeMembers (next : List Member) : Bool := differences r.members next ≤ 1

/-- Appends one decision of this node's own, as the leader. -/
def propose (decision : Decision) : Option (Raft × Output) :=
  if r.role ≠ .leader then none
  else if decision.members?.any fun next => !r.mayChangeMembers next then none
  else
    let out : Output := { (default : Output) with persist := true }
    let outgoing := r.peers
    let r := { r with log := r.log ++ [Entry.mk r.term decision] }
    let r := if decision.isMembers then r.refreshMembers else r
    let r := { r with matched := update r.matched r.id (some r.lastIndex) }
    -- the union of both configurations: whoever this entry removes still hears about it
    let targets := r.peers ++ outgoing.filter (· ∉ r.peers)
    some (r.advanceCommit (r.sendAppends targets out))

/-! ## Elections -/

variable (term : Nat)

/-- A higher term is not an opinion: this node is a follower now. -/
def observe (out : Output) : Raft × Output :=
  if r.term < term then
    ({ r with term, votedFor := none, role := .follower, leader := none, votes := ∅ }, { out with persist := true })
  else (r, out)

def win (now : Nat) (out : Output) : Raft × Output :=
  let r := { r with role := .leader, leader := some r.id, leaderAt := some now }
  let r := { r with
    next := fun n => if n ∈ r.peers then some (r.lastIndex + 1) else none
    matched := fun n => if n ∈ r.peers then some 0 else none }
  let r := { r with matched := update r.matched r.id (some r.lastIndex) }
  -- the entry that makes everything before it committable
  let r := { r with log := r.log ++ [Entry.mk r.term .noop] }
  let r := { r with matched := update r.matched r.id (some r.lastIndex) }
  let out := { out with persist := true }
  let r := { r with heartbeatAt := now + r.timing.heartbeat }
  r.advanceCommit (r.sendAppends (r.peers.filter (· ≠ r.id)) out)

/-- Stands for election in the next term. A node that does not vote does not stand. -/
def stand (now : Nat) (out : Output) : Raft × Output :=
  if !r.iVote then (r.resetElection now, out)
  else
    let r := { r with
      term := r.term + 1, role := .candidate, votedFor := some r.id
      votes := {r.id}, leader := none }
    let out := { out with persist := true }
    let r := r.resetElection now
    if r.majority ≤ r.votes.card then r.win now out
    else
      (r, r.peers.foldl (fun out peer =>
        out.to peer (.requestVote r.term r.id r.lastIndex r.lastTerm)) out)

/-- At most one vote per term, and never to a log that is behind. -/
def grant (candidate : NodeId) (lastIndex : Nat) (lastTerm : Nat) :
    Bool :=
  if term < r.term then false
  else if candidate ∉ r.voters then false
  else if r.votedFor.any (· ≠ candidate) then false
  else r.lastTerm < lastTerm || (lastTerm = r.lastTerm && r.lastIndex ≤ lastIndex)

/-- The clock moved. `keep` is what `compact` is called with on a leader's heartbeat, and
`none` leaves the call out. -/
def tickKeeping (keep : Option Nat) (r : Raft) (now : Nat) : Raft × Output :=
  match r.role with
  | .leader =>
    if r.heartbeatAt ≤ now then
      let r := { r with heartbeatAt := now + r.timing.heartbeat }
      let r := match keep with
        | some keep => r.compact keep
        | none => r
      (r, r.sendAppends (r.peers.filter (· ≠ r.id)) default)
    else (r, default)
  | _ => if r.electionAt ≤ now then r.stand now default else (r, default)

/-- The clock moved. Everything time-driven happens here and nowhere else. -/
def tick (now : Nat) : Raft × Output := tickKeeping (some keepEntries) r now

/-! ## One message from another node -/

def hear (node : NodeId) (now : Nat) : Raft :=
  { r with heard := update r.heard node (some now) }

def deliverRequestVote (candidate : NodeId) (lastIndex : Nat)
    (lastTerm : Nat) (now : Nat) : Raft × Output :=
  let r := r.hear candidate now
  -- a node in touch with a leader does not help depose it
  if r.leaderInTouch now then
    (r, (default : Output).to candidate (.voteReply r.term r.id false))
  else
    let (r, out) := r.observe term default
    let granted := r.grant term candidate lastIndex lastTerm
    let r := if granted then { r with votedFor := some candidate }.resetElection now else r
    let out := if granted then { out with persist := true } else out
    (r, out.to candidate (.voteReply r.term r.id granted))

def deliverSnapshot (leader : NodeId) (index : Nat) (lastTerm : Nat)
    (ranges : RangeMap) (members : List Member) (now : Nat) : Raft × Output :=
  let r := r.hear leader now
  let (r, out) := r.observe term default
  if term < r.term ∨ index ≤ r.base then
    (r, out.to leader (.appendReply r.term r.id false r.lastIndex))
  else
    let r := { r with role := .follower, leader := some leader, leaderAt := some now }
    let r := r.resetElection now
    let r := { r with
      log := [⟨lastTerm, .ranges ranges⟩], base := index, commit := index
      -- one short of the base, so that the sentinel itself is handed to the caller
      applied := index - 1, seed := members }
    let r := r.refreshMembers
    let (r, out) := r.apply out
    let out := { out with persist := true }
    (r, out.to leader (.appendReply r.term r.id true r.lastIndex))

def deliverVoteReply (sender : NodeId) (granted : Bool) (now : Nat) : Raft × Output :=
  let r := r.hear sender now
  let (r, out) := r.observe term default
  if r.role = .candidate ∧ term = r.term ∧ granted then
    let r := { r with votes := insert sender r.votes }
    if r.majority ≤ r.votes.card then r.win now out else (r, out)
  else (r, out)

/-- What the loop over an append's entries carries from one entry to the next. -/
structure Filling where
  raft : Raft
  index : Nat
  membershipMoved : Bool
  persist : Bool

/-- One turn of that loop. Entries that agree are left alone; the first that does not
truncates whatever disagreed. -/
def fill (f : Filling) (entry : Entry) : Filling :=
  let index := f.index + 1
  let carriesMembers := entry.decision.isMembers
  match f.raft.termAt index with
  | some t =>
    if t = entry.term then { f with index }
    else
      let pos := index - f.raft.base
      let moved := f.membershipMoved || (f.raft.log.drop pos).any (·.decision.isMembers)
      { raft := { f.raft with log := f.raft.log.take pos ++ [entry] }
        index
        membershipMoved := moved || carriesMembers
        persist := true }
  | none =>
    { raft := { f.raft with log := f.raft.log ++ [entry] }
      index
      membershipMoved := f.membershipMoved || carriesMembers
      persist := true }

def deliverAppend (leader : NodeId) (prevIndex : Nat) (prevTerm : Nat)
    (entries : List Entry) (commit : Nat) (now : Nat) : Raft × Output :=
  let r := r.hear leader now
  let r := if r.term ≤ term then { r with leaderCommit := max r.leaderCommit commit } else r
  let (r, out) := r.observe term default
  if term < r.term then
    (r, out.to leader (.appendReply r.term r.id false 0))
  else
    -- a leader of this term exists, so this node is not standing for election in it
    let r := { r with role := .follower, leader := some leader, leaderAt := some now }
    let r := r.resetElection now
    if r.termAt prevIndex ≠ some prevTerm then
      (r, out.to leader (.appendReply r.term r.id false 0))
    else
      let f := entries.foldl fill ⟨r, prevIndex, false, out.persist⟩
      let out := { out with persist := f.persist }
      let r := if f.membershipMoved then f.raft.refreshMembers else f.raft
      let (r, out) :=
        if r.commit < commit then { r with commit := min commit r.lastIndex }.apply out
        else (r, out)
      (r, out.to leader (.appendReply r.term r.id true f.index))

def deliverAppendReply (sender : NodeId) (success : Bool)
    (matchIndex : Nat) (now : Nat) : Raft × Output :=
  let r := r.hear sender now
  let (r, out) := r.observe term default
  if r.role ≠ .leader ∨ term ≠ r.term then (r, out)
  else if success then
    let r := { r with
      matched := update r.matched sender (some matchIndex)
      next := update r.next sender (some (matchIndex + 1)) }
    r.advanceCommit out
  else
    let next := max (((r.next sender).getD 1) - 1) 1
    let r := { r with next := update r.next sender (some next) }
    (r, r.sendAppend sender out)

/-- One message from another node. -/
def deliver (m : Message) (now : Nat) : Raft × Output :=
  match m with
  | .requestVote term candidate lastIndex lastTerm =>
    r.deliverRequestVote term candidate lastIndex lastTerm now
  | .snapshot term leader index lastTerm ranges members =>
    r.deliverSnapshot term leader index lastTerm ranges members now
  | .voteReply term sender granted => r.deliverVoteReply term sender granted now
  | .append term leader prevIndex prevTerm entries commit =>
    r.deliverAppend term leader prevIndex prevTerm entries commit now
  | .appendReply term sender success matchIndex =>
    r.deliverAppendReply term sender success matchIndex now

end Raft

end BigDb.Cluster
