import BigDb.Cluster.Filling
import BigDb.Lib.Runs

/-!
# A cluster of cores over an asynchronous network

Nodes that run `Raft`, a disk each, and every message ever sent. Nothing is ever removed
from `Net.sent`, so a message can be delivered late, out of order, any number of times or
never. A step saves the node's `State` before its messages are sent whenever the core asks
for it, which is the contract of `Output.persist`; a restart rebuilds the node from the
`State` it last saved.

Three fields are history variables, which no step reads: `Node.history` is the log a node
would hold had nothing been compacted away, `Packet.history` is that log of the sender when
it sent the packet, and `Node.handed` lists what the node has applied, over all its
restarts.
-/

namespace BigDb.Cluster
open Lib Function

/-- The file every node of a cluster is started from, and whether leaders compact: `keep`
is what `tick` hands to `compact`, and `none` turns compaction off. -/
structure Setup where
  members : List Member
  timing : Timing
  keep : Option Nat

/-- One message on its way to one node. -/
structure Packet where
  dest : NodeId
  message : Message
  history : List Entry
deriving DecidableEq, Repr

/-- A core, the state it last saved, and its history variables. -/
structure Node where
  raft : Raft
  disk : Option State
  history : List Entry
  savedHistory : List Entry
  handed : List (Nat × Entry)

structure Net where
  nodes : NodeId → Node
  sent : List Packet

/-- What can happen next. -/
inductive Event where
  | tick (n : NodeId) (now : Nat)
  | deliver (p : Packet) (now : Nat)
  | propose (n : NodeId) (d : Decision)
  | compact (n : NodeId) (keep : Nat)
  | restart (n : NodeId) (now : Nat)
deriving DecidableEq, Repr

namespace Node

/-- A node that has never run. -/
def fresh (s : Setup) (n : NodeId) : Node :=
  ⟨Raft.new n s.members s.timing 0, none, [root], [root], []⟩

/-- The history behind a core that now is `r`: below its base what `past` says, above it
what it holds. The entry at the base is history's, a snapshot having put a stand-in there. -/
def historyOf (past : List Entry) (r : Raft) : List Entry :=
  past.take (r.base + 1) ++ r.log.tail

/-- The node after a step of its core: saved if the step asks for it. -/
def after (node : Node) (past : List Entry) (r : Raft) (out : Output) : Node :=
  let history := historyOf past r
  { raft := r
    disk := if out.persist then some r.state else node.disk
    history
    savedHistory := if out.persist then history else node.savedHistory
    handed := node.handed ++ node.raft.handedBy r }

/-- A process started again: a new core, with whatever the disk holds. -/
def restarted (s : Setup) (node : Node) (n : NodeId) (now : Nat) : Node :=
  let fresh := Raft.new n s.members s.timing now
  let raft := match node.disk with
    | some state => fresh.restore state
    | none => fresh
  { node with raft, history := node.savedHistory }

end Node

namespace Net

def init (s : Setup) : Net := ⟨Node.fresh s, []⟩

def raft (net : Net) (n : NodeId) : Raft := (net.nodes n).raft

/-- Node `n` took a step: its state is replaced, and what the step sends is in flight. -/
def stepped (net : Net) (n : NodeId) (past : List Entry) (step : Raft × Output) : Net :=
  let node := (net.nodes n).after past step.1 step.2
  { nodes := update net.nodes n node
    sent := net.sent ++ step.2.send.map fun p => ⟨p.1, p.2, node.history⟩ }

/-- The history a node continues from when it takes a packet: its own, unless a snapshot
moved its base, and then the sender's. -/
def pastAfter (net : Net) (p : Packet) (r : Raft) : List Entry :=
  match p.message with
  | .snapshot .. => if r.base = (net.raft p.dest).base then (net.nodes p.dest).history else p.history
  | _ => (net.nodes p.dest).history

/-- One event. A packet that was never sent cannot be delivered, and a proposal the core
refuses changes nothing. -/
def step (s : Setup) (net : Net) : Event → Net
  | .tick n now => net.stepped n (net.nodes n).history ((net.raft n).tickKeeping s.keep now)
  | .deliver p now =>
    if p ∈ net.sent then
      let stepped := (net.raft p.dest).deliver p.message now
      net.stepped p.dest (net.pastAfter p stepped.1) stepped
    else net
  | .propose n d =>
    match (net.raft n).propose d with
    | some stepped => net.stepped n (net.nodes n).history stepped
    | none => net
  | .compact n keep =>
    net.stepped n (net.nodes n).history ((net.raft n).compact keep, default)
  | .restart n now =>
    { net with nodes := update net.nodes n ((net.nodes n).restarted s n now) }

/-- A whole run. -/
def exec (s : Setup) (net : Net) (events : List Event) : Net := events.foldl (step s) net

end Net

variable (s : Setup)

/-! ## What a step does -/

/-- Whose core an event runs, and as an answer to what. -/
def Event.cause : Event → Option (NodeId × Raft.Cause)
  | .tick n _ => some (n, .clock s.keep)
  | .deliver p _ => some (p.dest, .message p.message)
  | .propose n d => some (n, .proposal d)
  | .compact n keep => some (n, .compaction keep)
  | .restart .. => none

namespace Net

/-- A step of the network: nothing, a chain of acts of one core, or a restart. -/
inductive Turn (s : Setup) (net : Net) (e : Event) : Net → Prop where
  | idle : Turn s net e net
  | core {n c past y} (hc : e.cause s = some (n, c)) (acts : Raft.Acts c (net.raft n, default) y)
      (own : (∀ p now, e ≠ .deliver p now) → past = (net.nodes n).history)
      (took : ∀ p now, e = .deliver p now → p ∈ net.sent ∧ past = net.pastAfter p y.1) :
      Turn s net e (net.stepped n past y)
  | restart {n now} (he : e = .restart n now) :
      Turn s net e { net with nodes := update net.nodes n ((net.nodes n).restarted s n now) }

lemma turn (net : Net) (e : Event) : Turn s net e (net.step s e) := by
  cases e with
  | tick n now => exact .core rfl (Raft.tick_acts s.keep _ now) (fun _ => rfl) (by simp)
  | deliver p now =>
    rw [step]
    split
    · next hp =>
      exact .core rfl (Raft.deliver_acts _ p.message now) (fun h => (h p now rfl).elim)
        (by rintro _ _ ⟨rfl, rfl⟩; exact ⟨hp, rfl⟩)
    · exact .idle
  | propose n d =>
    rw [step]
    split
    · next y hy => exact .core rfl (Raft.propose_acts hy) (fun _ => rfl) (by simp)
    · exact .idle
  | compact n keep => exact .core rfl (Raft.compact_acts keep _) (fun _ => rfl) (by simp)
  | restart n now => exact .restart rfl

variable {net : Net} {n : NodeId} {past : List Entry} {y : Raft × Output}

@[simp] lemma stepped_self : (net.stepped n past y).nodes n = (net.nodes n).after past y.1 y.2 := by
  simp [stepped]

lemma stepped_other {v : NodeId} (h : v ≠ n) : (net.stepped n past y).nodes v = net.nodes v := by
  simp [stepped, h]

@[simp] lemma raft_stepped_self : (net.stepped n past y).raft n = y.1 := by
  simp [raft, Node.after]

lemma raft_stepped_other {v : NodeId} (h : v ≠ n) : (net.stepped n past y).raft v = net.raft v := by
  rw [raft, raft, stepped_other h]

lemma mem_stepped_sent {p : Packet} : p ∈ (net.stepped n past y).sent ↔
    p ∈ net.sent ∨ ∃ d m, (d, m) ∈ y.2.send ∧ p = ⟨d, m, Node.historyOf past y.1⟩ := by
  unfold stepped
  rw [List.mem_append, List.mem_map]
  refine or_congr Iff.rfl ⟨?_, ?_⟩
  · rintro ⟨⟨d, m⟩, hmem, rfl⟩
    exact ⟨d, m, hmem, rfl⟩
  · rintro ⟨d, m, hmem, rfl⟩
    exact ⟨(d, m), hmem, rfl⟩

end Net

/-! ## A snapshot that is refused -/

section Deliver
variable {r : Raft} {term index : Nat} (l : NodeId) (lt : Nat) (ranges : RangeMap) (members : List Member) (now : Nat)

lemma observe_keeps (r : Raft) (term : Nat) (out : Output) :
    (r.observe term out).1.base = r.base ∧ (r.observe term out).1.log = r.log ∧
      (r.observe term out).1.commit = r.commit ∧
      (r.observe term out).1.term = max r.term term := by
  unfold Raft.observe
  split
  · next h => exact ⟨rfl, rfl, rfl, (max_eq_right h.le).symm⟩
  · next h => exact ⟨rfl, rfl, rfl, (max_eq_left (Nat.le_of_not_lt h)).symm⟩

/-- A snapshot that is over, or no further than the base, is answered and left. -/
lemma deliver_snapshot_refuses (h : term < r.term ∨ index ≤ r.base) : let seen := (r.hear l now).observe term default
    r.deliver (.snapshot term l index lt ranges members) now =
      (seen.1, seen.2.to l (.appendReply seen.1.term seen.1.id false seen.1.lastIndex)) := by
  obtain ⟨hbase, -, -, hterm⟩ := observe_keeps (r.hear l now) term default
  rw [Raft.deliver, Raft.deliverSnapshot]
  dsimp only
  rw [if_pos]
  rw [hbase, hterm]
  apply h.imp
  · intro hlt
    exact lt_max_of_lt_left hlt
  · intro hle
    exact hle

end Deliver

/-- The runs whose every step satisfies `ok`, from one state to another. -/
abbrev Path (ok : Net → Event → Prop) : Net → Net → Prop := Run (Net.step s) ok

/-! ## Runs written down -/

instance : Inhabited Packet := ⟨⟨0, .voteReply 0 0 false, []⟩⟩

def Member.named (name : String) (state : MemberState) : Member := ⟨name, name, state⟩

def duo : List Member := [.named "a" .voter, .named "b" .voter]

def trio : List Member := [.named "a" .voter, .named "b" .voter, .named "c" .voter]

/-- The delivery of the `i`-th packet ever sent. -/
def pick (i now : Nat) : Net → Event := fun net => .deliver (net.sent.getD i default) now

namespace Net

/-- A run in which each event may depend on what has happened so far. -/
abbrev play (s : Setup) (net : Net) (script : List (Net → Event)) : Net :=
  Lib.play (step s) net script

/-- The events of such a run. -/
def transcript (s : Setup) : Net → List (Net → Event) → List Event
  | _, [] => []
  | net, event :: script => event net :: transcript s (net.step s (event net)) script

end Net

end BigDb.Cluster
