import BigDb.Cluster.KeyStore
import BigDb.Cluster.Ownership
import BigDb.Lib.Runs

/-!
# The node that names things

One node, the schema leader, makes up row keys and record ids for everybody. Which one it is, is
in the map, and a node that is asked goes by the map it has applied (`guard`): it must be named,
not stood down past that map's epoch, ready, and in touch with the agreement. The check is made
before the work, so a request that has passed it is done later.

Record ids of one table come from three sources: one past the highest id the serving nodes hold,
a floor in the leader's memory, and a ceiling in the map below which ids may be handed out without
asking the agreement. `allocate_here` holds a lock, so a node has one allocation at a time. Whom
to ask for which range is read off the map first, then all of them are asked at once.

`move_schema_leader` is taken as the node that runs it takes it, one request after another. Maps
are decided in one order and applied by each node in its own time; any map can be decided, which
is what a failover does. A node that is restarted forgets its floor and that it was stood down,
and may come back with an older map. Whether it is in touch, and knows that it is not behind, can
change at any time. Ids are `u64` and addition saturates. Explicit writes land anywhere.

`made` and `issued` are history variables, and so are `Clerk.seen`, `Allocation.present` and
`Allocation.begun`.
-/

namespace BigDb.Cluster

def idMax : Nat := 2 ^ 64 - 1

/-- `u64::saturating_add`. -/
def satAdd (a b : Nat) : Nat := min (a + b) idMax

def reserveBlock : Nat := 65536

def onePast (ids : List Nat) : Nat := (ids.max?).elim 0 (satAdd · 1)

inductive AllocStage where
  /-- the ranges still to be asked for, each with the node to ask, and the highest answer so far -/
  | asking (todo : List (Nat × NodeId)) (best : Nat)
  /-- the ceiling has to be raised first -/
  | reserving (start stop upto : Nat)
  /-- raised by the map at a position, which this node has to apply -/
  | awaiting (start stop upto position : Nat)
deriving DecidableEq, Repr

structure Allocation where
  count : Nat
  stage : AllocStage
  /-- every id any node held when it began -/
  present : List Nat
  /-- how many runs had been handed out by then -/
  begun : Nat
deriving DecidableEq, Repr

/-- A run of ids that was handed out. -/
structure Issued where
  node : NodeId
  start : Nat
  count : Nat
  present : List Nat
deriving DecidableEq, Repr

/-- What a node has for the job. -/
structure Clerk where
  /-- the position, among the decided maps, of the one it has applied -/
  applied : Nat
  stoodDownAt : Nat
  floor : Option Nat
  /-- how many runs had been handed out when the floor was last raised past them all -/
  seen : Nat
  keys : KeyStore
  /-- keys it was asked for, past the check -/
  asked : List (Scope × String)
  /-- whether it is in touch with the agreement and not behind it -/
  inTouch : Bool
  allocating : Option Allocation

/-- A row that was given out, by a node, under the leader of the latest map, and whether the
node had been told to stand down by then. -/
structure Made where
  node : NodeId
  key : RowKey
  leader : NodeId
  stoodDown : Bool
deriving DecidableEq, Repr

inductive HandoverStage where
  | copying (todo : List Nat)
  | carrying (keys : List RowKey) (todo : List Nat)
  | copied
  /-- the epoch of the map is known -/
  | read (epoch : Nat)
  /-- the source has stood down -/
  | stood
  /-- its floor, and what it had seen -/
  | floor (value seen : Nat)
  | seeded
  | proposing (next : RangeMap)
  | decided
  | failed
deriving DecidableEq, Repr

/-- Whether the source has stood down and nothing is decided. -/
def HandoverStage.down : HandoverStage → Bool
  | .stood | .floor .. | .seeded | .proposing _ => true
  | _ => false

/-- A move of the namespace. -/
structure Handover where
  coordinator : NodeId
  source : NodeId
  target : NodeId
  stage : HandoverStage
deriving DecidableEq, Repr

structure Namespace where
  decided : List RangeMap
  node : NodeId → Clerk
  /-- who holds which record ids of the table -/
  held : List (NodeId × Nat)
  handover : Option Handover
  made : List Made
  issued : List Issued

inductive NamespaceAction where
  | decide (m : RangeMap)
  | learn (n : NodeId)
  | touch (n : NodeId) (inTouch : Bool)
  | restart (n : NodeId) (applied : Nat)
  | write (n : NodeId) (ids : List Nat)
  /-- a request for a key passes the check, and is carried out -/
  | ask (n : NodeId) (scope : Scope) (name : String)
  | intern (n : NodeId) (i : Nat)
  /-- a request for ids passes the check, and comes to its next step; the agreement's leader
  takes a reservation for it -/
  | allocate (n : NodeId) (count : Nat)
  | proceed (n : NodeId) (i : Nat)
  | reserve (n leader : NodeId)
  | giveUp (n : NodeId)
  /-- a move begins, with the tables of the source that have no keys, comes to its next step, or fails -/
  | move (coordinator target : NodeId) (tables : List Nat)
  | next
  | fail
deriving DecidableEq, Repr

namespace Namespace

def begin (seed : RangeMap) (keys : NodeId → KeyStore) (held : List (NodeId × Nat)) : Namespace where
  decided := [seed]
  node n := ⟨0, 0, none, 0, keys n, [], true, none⟩
  held
  handover := none
  made := (keys seed.schemaLeader).entries.map fun e => ⟨seed.schemaLeader, e, seed.schemaLeader, false⟩
  issued := []

section Steps
variable (table : String) (s : Namespace) (n : NodeId)

def mapOf : RangeMap := (s.decided[(s.node n).applied]?).getD default

def current : RangeMap := s.decided.getLast?.getD default

def set (c : Clerk) : Namespace := { s with node := Function.update s.node n c }

/-- `guard_schema`: whether a node would take a request. -/
def guard : Bool :=
  let m := s.mapOf n
  m.schemaLeader = n && (s.node n).stoodDownAt ≤ m.epoch && m.schemaReady && (s.node n).inTouch

def idsIn (shards : ShardRange) : List Nat :=
  (s.held.filter fun h => h.1 = n ∧ shards.holds h.2).map Prod.snd

/-- Whether a node has been told to stand down, until a later map than the latest or by a move
that is on its way. -/
def standsDown : Bool :=
  s.current.epoch < (s.node n).stoodDownAt || s.handover.any fun h => h.source = n && h.stage.down

/-- The next step of an allocation, or the answer to one of its questions. -/
def proceed (i : Nat) (a : Allocation) : Namespace :=
  let c := s.node n
  let m := s.mapOf n
  let finish (start stop : Nat) : Namespace :=
    { s.set n { c with floor := some stop, seen := s.issued.length + 1, allocating := none } with
      issued := s.issued ++ [⟨n, start, a.count, a.present⟩] }
  match a.stage with
  | .asking (ask :: todo) best =>
    match (ask :: todo)[i]? with
    | some (range, node) =>
      let answer := onePast (s.idsIn node (m.shardsOfRange range))
      s.set n { c with allocating := some { a with
        stage := .asking ((ask :: todo).eraseIdx i) (max best answer) } }
    | none => s
  | .asking [] best =>
    let ceiling := m.reservedFor table
    let start := max best (c.floor.getD ceiling)
    let stop := satAdd start a.count
    if ceiling < stop then
      let upto := satAdd start (max a.count reserveBlock)
      s.set n { c with allocating := some { a with stage := .reserving start stop upto } }
    else finish start stop
  | .reserving .. => s
  | .awaiting start stop upto position =>
    if position ≤ c.applied ∨ upto ≤ m.reservedFor table then finish start stop else s

def reserve (n leader : NodeId) (a : Allocation) : Namespace :=
  match a.stage with
  | .reserving start stop upto =>
    let m := s.mapOf leader
    let s' := s.set n { s.node n with allocating := some { a with
      stage := .awaiting start stop upto s.decided.length } }
    { s' with decided := s.decided ++ [{ m.reserve table upto with epoch := m.epoch + 1 }] }
  | _ => s

def floorOf : Nat :=
  max (max (onePast ((s.held.filter fun h => h.1 = n).map Prod.snd)) ((s.node n).floor.getD 0))
    ((s.mapOf n).reservedFor table)

/-- The next step of a move. -/
def advance (h : Handover) : Namespace :=
  let source := s.node h.source
  let target := s.node h.target
  match h.stage with
  | .copying (t :: todo) =>
    { s with handover := some { h with
      stage := .carrying (source.keys.entries.filter fun e => e.scope.1 = t) todo } }
  | .copying [] => { s with handover := some { h with stage := .copied } }
  | .carrying keys todo =>
    match KeyStore.assignAll keys target.keys with
    | .ok keys =>
      { s.set h.target { target with keys } with
        handover := some { h with stage := .copying todo } }
    | .error _ => { s with handover := some { h with stage := .failed } }
  | .copied =>
    { s with handover := some { h with stage := .read (s.mapOf h.coordinator).epoch } }
  | .read epoch =>
    { s.set h.source { source with stoodDownAt := max source.stoodDownAt (satAdd epoch 1) } with
      handover := some { h with stage := .stood } }
  | .stood =>
    { s with handover := some { h with stage := .floor (s.floorOf table h.source) s.issued.length } }
  | .floor value seen =>
    { s.set h.target { target with
        floor := some (max (target.floor.getD 0) value), seen := max target.seen seen } with
      handover := some { h with stage := .seeded } }
  | .seeded =>
    let next := { s.mapOf h.coordinator with schemaLeader := h.target, schemaReady := true }
    { s with handover := some { h with stage := .proposing next } }
  | .proposing next =>
    { s with
      decided := s.decided ++ [{ next with epoch := (s.mapOf h.coordinator).epoch + 1 }]
      handover := some { h with stage := .decided } }
  | .decided | .failed => s

/-- Whether a move is on its way. -/
def moving : Bool :=
  s.handover.any fun h =>
    match h.stage with
    | .decided | .failed => false
    | _ => true

def step (s : Namespace) : NamespaceAction → Namespace
  | .decide m => { s with decided := s.decided ++ [m] }
  | .learn n =>
    if (s.node n).applied + 1 < s.decided.length then
      s.set n { s.node n with applied := (s.node n).applied + 1 }
    else s
  | .touch n inTouch => s.set n { s.node n with inTouch }
  | .restart n applied =>
    if applied ≤ (s.node n).applied then
      { s.set n ⟨applied, 0, none, 0, (s.node n).keys, [], false, none⟩ with
        handover := s.handover.map fun h =>
          -- a move ends with the process that runs it
          if h.coordinator = n ∧ h.stage ≠ .decided then { h with stage := .failed } else h }
    else s
  | .write n ids => { s with held := s.held ++ ids.map (n, ·) }
  | .ask n scope name =>
    if s.guard n then s.set n { s.node n with asked := (s.node n).asked ++ [(scope, name)] } else s
  | .intern n i =>
    match (s.node n).asked[i]? with
    | some (scope, name) =>
      let c := { s.node n with asked := (s.node n).asked.eraseIdx i }
      match c.keys.intern scope name with
      | .ok (row, keys) =>
        { s.set n { c with keys } with
          made := s.made ++ [⟨n, ⟨scope, name, row⟩, s.current.schemaLeader, s.standsDown n⟩] }
      | .error _ => s.set n c
    | none => s
  | .allocate n count =>
    if s.guard n ∧ (s.node n).allocating = none then
      let candidates := (s.mapOf n).ranges.zipIdx.map fun r => (r.2, r.1.primary)
      let a : Allocation := ⟨count, .asking candidates 0, s.held.map Prod.snd, s.issued.length⟩
      s.set n { s.node n with allocating := some a }
    else s
  | .proceed n i =>
    match (s.node n).allocating with
    | some a => s.proceed table n i a
    | none => s
  | .reserve n leader =>
    match (s.node n).allocating with
    | some a => s.reserve table n leader a
    | none => s
  | .giveUp n => s.set n { s.node n with allocating := none }
  | .move coordinator target tables =>
    let source := (s.mapOf coordinator).schemaLeader
    if s.moving ∨ source = target then s
    else { s with handover := some ⟨coordinator, source, target,
      .copying (tables ++ (s.node source).keys.entries.map (·.scope.1)).dedup⟩ }
  | .next =>
    match s.handover with
    | some h => s.advance table h
    | none => s
  | .fail =>
    match s.handover with
    | some h => if s.moving then { s with handover := some { h with stage := .failed } } else s
    | none => s

end Steps

end Namespace

end BigDb.Cluster
