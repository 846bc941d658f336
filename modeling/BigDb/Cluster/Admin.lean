import BigDb.Cluster.Controller
import BigDb.Lib.Updates

/-!
# The callers that change the map

Every verb of the cluster that changes the map goes the same way, most of them through
`with_map`: read the whole map, change the copy, wait until nothing is in flight, propose the
copy whole, and wait until the map the node reads has reached the proposal's epoch and nothing
is in flight again. Each of these is a step of its own here, since nothing is held in between,
and any number of callers are at it while the driver runs.

What a verb asks of other nodes before it touches the map (that a range is empty, that a copy
has caught up) is left out: a verb that is refused there does not get this far.

`changes` is a history variable: every change of the map the core has accepted, whoever made
it, by log index, with the map its maker had read.
-/

namespace BigDb.Cluster
open Lib

/-- What the verbs do to the map they have read. -/
inductive Verb where
  | splitRange (pos : Nat) (target : Option NodeId)
  | mergeRange (id : RangeId)
  | beginMove (id : RangeId) (target : NodeId)
  | cutover (id : RangeId)
  | finishMove (id : RangeId)
  | cancelMove (id : RangeId)
  | addReplica (id : RangeId) (target : NodeId)
  | dropReplica (id : RangeId) (target : NodeId)
  | moveSchema (target : NodeId)
  | finishSchemaHandover (successor : NodeId)
  | reserve (table : String) (upto : Nat)
deriving DecidableEq, Repr

/-- Why a verb did not change the map. -/
inductive Refusal where
  | split (e : SplitError)
  | merge (e : MergeError)
  | move (e : MoveError)
  | map (e : MapError)
  /-- the namespace moved again while it was being handed over -/
  | movedAgain
deriving DecidableEq, Repr

def Verb.change (m : RangeMap) : Verb → Except Refusal RangeMap
  | .splitRange pos target => do
    let (next, id) ← (m.split pos).mapError .split
    match target with
    | none => .ok next
    | some target => (next.assign id [target]).mapError .map
  | .mergeRange id => (m.merge id).mapError .merge
  | .beginMove id target => (m.beginMove id target).mapError .move
  | .cutover id => (m.setMoveState id .cutover).mapError .move
  | .finishMove id => (m.finishMove id).mapError .move
  | .cancelMove id => (m.cancelMove id).mapError .move
  | .addReplica id target => (m.addHolder id target).mapError .map
  | .dropReplica id target => (m.dropHolder id target).mapError .map
  | .moveSchema target => .ok { m with schemaLeader := target, schemaReady := true }
  | .finishSchemaHandover successor =>
    if m.schemaLeader ≠ successor then .error .movedAgain else .ok { m with schemaReady := true }
  | .reserve table upto => .ok (m.reserve table upto)

inductive Caller where
  | idle
  /-- it has read the map and changed the copy, and waits for the log to settle -/
  | changed (base next : RangeMap)
  /-- it is about to propose -/
  | ready (base next : RangeMap)
  /-- its proposal was accepted, and it waits for the epoch -/
  | waiting (change : Update RangeMap) (epoch : Nat)
  /-- it was told that its change succeeded -/
  | told (change : Update RangeMap)
  /-- it was told that it did not -/
  | refused
deriving DecidableEq, Repr

/-- Whether a call is under way. -/
def Caller.busy : Caller → Bool
  | .changed .. | .ready .. | .waiting .. => true
  | _ => false

/-- The map an action of the node itself proposes: a promotion of its driver, or a copy that
has caught up. -/
def Controller.proposes (config : ClusterConfig) (c : Controller) : Controller.Action → Option (Update RangeMap)
  | .turn incoming now =>
    match c.phase with
    | .idle =>
      let r := ((Controller.delivered c.raft incoming now).1.tick now).1
      if !c.wedged && r.role = .leader then
        (promotionFor config.leases r now c.ranges).map fun m => ⟨r.lastIndex + 1, c.ranges, m⟩
      else none
    | _ => none
  | .markRepaired node =>
    if c.refuses (.markRepaired node) then none
    else some ⟨c.raft.lastIndex + 1, c.ranges, Controller.repaired c.ranges node⟩
  | _ => none

structure Admin where
  node : Controller
  callers : Nat → Caller
  changes : List (Update RangeMap)

namespace Admin

inductive Action where
  /-- anything the node does that is not a caller's `propose_map` -/
  | node (action : Controller.Action)
  | read (t : Nat) (verb : Verb)
  | settle (t : Nat)
  | propose (t : Nat)
  | poll (t : Nat)
  | giveUp (t : Nat)
deriving DecidableEq, Repr

def start (node : Controller) : Admin := ⟨node, fun _ => .idle, []⟩

def set (s : Admin) (t : Nat) (caller : Caller) : Admin :=
  { s with callers := Function.update s.callers t caller }

variable (config : ClusterConfig)

/-- `propose_map`, by a caller that has read `base` and made `next` of it. -/
def proposing (s : Admin) (t : Nat) (base next : RangeMap) : Admin :=
  match s.node.proposeMap next with
  | .ok (epoch, node) =>
    let change : Update RangeMap := ⟨s.node.raft.lastIndex + 1, base, { next with epoch }⟩
    { s.set t (.waiting change epoch) with node, changes := s.changes ++ [change] }
  | .error _ => s.set t .refused

/-- One action. What a caller is not about to do does not happen. -/
def step (s : Admin) : Action → Admin
  | .node (.proposeMap _) => s
  | .node .restart => { s with node := s.node.step config .restart, callers := fun _ => .idle }
  | .node action =>
    { s with
      node := s.node.step config action
      changes := s.changes ++ (s.node.proposes config action).toList }
  | .read t verb =>
    if (s.callers t).busy then s
    else
      match verb.change s.node.ranges with
      | .ok next => s.set t (.changed s.node.ranges next)
      | .error _ => s.set t .refused
  | .settle t =>
    match s.callers t with
    | .changed base next => if s.node.raft.settled then s.set t (.ready base next) else s
    | _ => s
  | .propose t =>
    match s.callers t with
    | .ready base next => s.proposing t base next
    | _ => s
  | .poll t =>
    match s.callers t with
    | .waiting change epoch =>
      if epoch ≤ s.node.ranges.epoch ∧ s.node.raft.settled then s.set t (.told change) else s
    | _ => s
  -- the deadline of either wait
  | .giveUp t =>
    match s.callers t with
    | .changed .. | .waiting .. => s.set t .refused
    | _ => s

/-- A whole run. -/
abbrev exec (s : Admin) (actions : List Action) : Admin :=
  play (step config) s (actions.map fun a _ => a)

end Admin

end BigDb.Cluster
