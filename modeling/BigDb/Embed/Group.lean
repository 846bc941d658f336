import Mathlib.Algebra.GroupWithZero.Nat
import Mathlib.Data.List.Basic

/-!
# Many writes, one commit

The first writer to arrive leads: it opens a transaction, takes along what has queued, commits, answers
everyone it carried, and then elects the oldest waiter, or clears the flag. A write that asks for an
early answer is put in the queue and answered at once; it has no thread of its own, so it is never
elected. If the group cannot be committed it is halved until the offender is alone.

A call is a process that takes one step after another; steps of different calls interleave. The queue
is read and changed under one lock, so that what a call does with it is one step. The store's write
lock is held from `db.write` to the commit, so that applying a range and committing it is one step of
the store. `history` is a history variable: no step reads it.
-/

namespace BigDb.Embed
open Function

/-- When a write is answered. -/
inductive Ack where
  | sync
  | async
deriving DecidableEq, Repr

inductive WhenFull where
  | block
  | refuse
deriving DecidableEq, Repr

structure GroupConfig where
  /-- jobs one commit may carry -/
  maxJobs : Nat
  /-- facts one commit may carry; a larger job goes alone -/
  maxFacts : Nat
  asyncWrites : Bool
  maxAsyncBytes : Nat
  whenFull : WhenFull
deriving DecidableEq, Repr

inductive ApiError (ε : Type) where
  | busy (why : String)
  | value (why : String)
  /-- what the database said -/
  | engine (e : ε)
deriving DecidableEq, Repr

structure Accepted where
  count : Nat
  /-- none when the answer came before there was a transaction -/
  txn : Option Nat
deriving DecidableEq, Repr

/-- What the group knows of a job and of the database. -/
structure Engine (ω σ ε : Type) where
  weight : ω → Nat
  bytes : ω → Nat
  /-- a job is at least as large as its own header -/
  bytes_pos : ∀ w, 0 < bytes w
  /-- one job into an open transaction: the new state, and how many facts it wrote -/
  applyOne : σ → ω → Except ε (σ × Nat)

variable {ω σ ε : Type}

/-- What a submitter is waiting on. -/
inductive Slot (ω ε : Type) where
  | waiting (w : ω)
  | taken
  | lead (w : ω)
  | done (result : Except (ApiError ε) Accepted)

/-- On whose behalf a thread leads. -/
inductive Caller where
  | submitter (job : Nat)
  | flusher
  /-- a `stop` that has carried so many jobs so far -/
  | stopper (carried : Nat)
deriving DecidableEq, Repr

def Caller.own : Caller → Option Nat
  | .submitter job => some job
  | _ => none

inductive Stage (ω ε : Type) where
  /-- it waits for the store's write lock -/
  | write
  /-- it is about to take the group -/
  | take
  /-- the whole group is to be applied and committed -/
  | attempt (taken : List (Nat × ω))
  /-- answers still to be given, and the ranges still to be isolated -/
  | settle (answers : List (Nat × Except (ApiError ε) Accepted)) (agenda : List (List (Nat × ω)))
  /-- the ranges still to be isolated, the first one next -/
  | isolate (agenda : List (List (Nat × ω)))
  /-- a job that failed alone and is run once more by itself -/
  | alone (job : Nat × ω) (agenda : List (List (Nat × ω)))
  | handOver

/-- A call. -/
inductive Proc (ω ε : Type) where
  /-- a submitter that waits on its ticket -/
  | parked (job : Nat)
  /-- it leads; `carried` jobs are in its group -/
  | leading (caller : Caller) (carried : Nat) (stage : Stage ω ε)
  /-- a `stop` that is about to flush -/
  | stopping (carried : Nat)
  /-- a `stop` whose flush has carried nothing -/
  | looking (carried : Nat)
  | returned

inductive Event (ω σ : Type) where
  | submitted (job : Nat) (w : ω)
  /-- answered before it is committed -/
  | acknowledged (job : Nat)
  /-- refused without being queued -/
  | turnedAway (job : Nat)
  | elected (job : Nat)
  | committed (jobs : List (Nat × ω))
  /-- a job could not be committed by itself; `stored` is whether it was the commit that failed -/
  | refused (job : Nat) (w : ω) (stored : Bool)
  | answered (job : Nat) (ok : Bool)
  /-- somebody else has committed -/
  | outside (state : σ)
  | stopCalled (call : Nat)
  | stopReturned (call : Nat)

structure Group (ω σ ε : Type) where
  store : σ
  /-- transactions so far -/
  txns : Nat
  pending : List Nat
  leading : Bool
  asyncBytes : Nat
  stopping : Bool
  asyncFailed : Nat
  /-- how many jobs and calls there have been; they are numbered as they come -/
  jobs : Nat
  calls : Nat
  slot : Nat → Slot ω ε
  /-- what a job counts against the ceiling: 0 when somebody is waiting on it -/
  held : Nat → Nat
  proc : Nat → Proc ω ε
  history : List (Event ω σ)

inductive Action (ω σ ε : Type) where
  | submit (w : ω) (ack : Ack)
  | flush
  | stop
  /-- the next step of a call; if it commits and there is a fault, the commit fails -/
  | step (call : Nat) (fault : Option ε)
  /-- a leader unwinds, and whoever called it catches that -/
  | panic (call : Nat)
  | outside (state : σ)

namespace Group

/-- A database that was just opened. -/
def start (store : σ) : Group ω σ ε where
  store
  txns := 0
  pending := []
  leading := false
  asyncBytes := 0
  stopping := false
  asyncFailed := 0
  jobs := 0
  calls := 0
  slot _ := .taken
  held _ := 0
  proc _ := .returned
  history := []

variable (s : Group ω σ ε)

def log (event : Event ω σ) : Group ω σ ε := { s with history := s.history ++ [event] }

def setProc (call : Nat) (p : Proc ω ε) : Group ω σ ε :=
  { s with proc := update s.proc call p }

def setSlot (job : Nat) (slot : Slot ω ε) : Group ω σ ε :=
  { s with slot := update s.slot job slot }

/-- A new call, in the state it is left in. -/
def call (p : Proc ω ε) : Group ω σ ε := { s.setProc s.calls p with calls := s.calls + 1 }

variable (cfg : GroupConfig) (engine : Engine ω σ ε)

/-! ## Submitting -/

variable (s : Group ω σ ε)

/-- The next job, that has been let in. -/
def enter (w : ω) (held : Nat) : Group ω σ ε :=
  { s.setSlot s.jobs (.waiting w) with
    held := update s.held s.jobs held
    jobs := s.jobs + 1 }.log (.submitted s.jobs w)

/-- The next job is refused. -/
def turnAway : Group ω σ ε :=
  { s with jobs := s.jobs + 1 }.log (.turnedAway s.jobs)

/-- A submitter that is answered after the commit: it waits, or leads. -/
def submitSync (w : ω) : Group ω σ ε :=
  let entered := s.enter w 0
  if s.leading then { entered.call (.parked s.jobs) with pending := s.pending ++ [s.jobs] }
  else { entered.call (.leading (.submitter s.jobs) 0 .write) with leading := true }.log (.elected s.jobs)

def submit (w : ω) (ack : Ack) : Group ω σ ε :=
  if s.stopping then s.turnAway
  else if ack = .async ∧ cfg.asyncWrites then
    let bytes := engine.bytes w
    if s.asyncBytes = 0 ∨ s.asyncBytes + bytes ≤ cfg.maxAsyncBytes then
      { s.enter w (max bytes 1) with
        asyncBytes := s.asyncBytes + bytes
        pending := s.pending ++ [s.jobs] }.log (.acknowledged s.jobs)
    else if cfg.whenFull = .refuse then s.turnAway
    else s.submitSync w
  else s.submitSync w

/-! ## Leading -/

/-- The jobs a leader takes off the queue, and what it leaves, with `n` jobs and so many facts in hand. -/
def takeLoop (slot : Nat → Slot ω ε) : Nat → Nat → List Nat → List (Nat × ω) × List Nat
  | _, _, [] => ([], [])
  | n, facts, job :: rest =>
    if n < cfg.maxJobs then
      match slot job with
      | .waiting w =>
        if n ≠ 0 ∧ cfg.maxFacts < facts + engine.weight w then ([], job :: rest)
        else
          let (taken, left) := takeLoop slot (n + 1) (facts + engine.weight w) rest
          ((job, w) :: taken, left)
      -- not a job anybody waits for: it leaves the queue
      | _ => takeLoop slot n facts rest
    else ([], job :: rest)

def ownWork (caller : Caller) : List (Nat × ω) :=
  match caller.own with
  | none => []
  | some job =>
    match s.slot job with
    | .waiting w | .lead w => [(job, w)]
    | _ => []

/-- Takes up to the caps off the queue, with this thread's own job first. -/
def takeGroup (caller : Caller) : List (Nat × ω) × Group ω σ ε :=
  let own := s.ownWork caller
  let (queued, left) := takeLoop cfg engine s.slot own.length (own.map fun x => engine.weight x.2).sum s.pending
  let taken := own ++ queued
  (taken, { s with
    pending := left
    asyncBytes := queued.foldl (fun bytes x => bytes - s.held x.1) s.asyncBytes
    slot := fun job => if job ∈ taken.map Prod.fst then .taken else s.slot job })

/-- Applies jobs one after the other; their counts. -/
def applyRange (state : σ) : List (Nat × ω) → Option (σ × List Nat)
  | [] => some (state, [])
  | x :: rest =>
    match engine.applyOne state x.2 with
    | .ok (next, count) => (applyRange next rest).map fun r => (r.1, count :: r.2)
    | .error _ => none

/-- A transaction that is durable. -/
def commit (state : σ) (jobs : List (Nat × ω)) : Group ω σ ε :=
  { s with store := state, txns := s.txns + 1 }.log (.committed jobs)

variable (jobs : List (Nat × ω))

/-- The answers for jobs that were committed by the last transaction. -/
def accepted (counts : List Nat) :
    List (Nat × Except (ApiError ε) Accepted) :=
  (jobs.zip counts).map fun x => (x.1.1, .ok ⟨x.2, some s.txns⟩)

/-- Answers one job, counting it if the answer is a failure nobody is waiting for. -/
def settle (job : Nat) (result : Except (ApiError ε) Accepted) : Group ω σ ε :=
  { s.setSlot job (.done result) with
    asyncFailed := if !result.isOk && 0 < s.held job then s.asyncFailed + 1 else s.asyncFailed
  }.log (.answered job result.isOk)

/-- The halves of a range that failed. -/
def halves : List (List (Nat × ω)) :=
  [jobs.take (jobs.length / 2), jobs.drop (jobs.length / 2)]

/-- The whole group has just failed. -/
def split (taken : List (Nat × ω)) : List (List (Nat × ω)) :=
  if taken.length ≤ 1 then [taken] else halves taken

/-- Jobs are applied and committed; if that fails, what is to be done next. -/
def attempt (fault : Option ε) (agenda : List (List (Nat × ω)))
    (otherwise : Stage ω ε) : Group ω σ ε × Stage ω ε :=
  match applyRange engine s.store jobs, fault with
  | some (state, counts), none =>
    let s := s.commit state jobs
    (s, .settle (s.accepted jobs counts) agenda)
  | _, _ => (s, otherwise)

/-- A job that failed alone is run once more, for the error. -/
def runAlone (x : Nat × ω) (fault : Option ε) (agenda : List (List (Nat × ω))) :
    Group ω σ ε × Stage ω ε :=
  match engine.applyOne s.store x.2, fault with
  | .ok (state, count), none =>
    let s := s.commit state [x]
    (s, .settle [(x.1, .ok ⟨count, some s.txns⟩)] agenda)
  | .ok _, some e => (s.log (.refused x.1 x.2 true), .settle [(x.1, .error (.engine e))] agenda)
  | .error e, _ => (s.log (.refused x.1 x.2 false), .settle [(x.1, .error (.engine e))] agenda)

/-- The oldest waiter, and the queue without it. -/
def elect (slot : Nat → Slot ω ε) (held : Nat → Nat) : List Nat → Option (Nat × ω) × List Nat
  | [] => (none, [])
  | job :: rest =>
    if 0 < held job then
      -- nobody would lead for it
      let (elected, left) := elect slot held rest
      (elected, job :: left)
    else
      match slot job with
      | .waiting w => (some (job, w), rest)
      | _ => elect slot held rest

def handOver : Group ω σ ε :=
  match elect s.slot s.held s.pending with
  | (some (job, w), left) => ({ s with pending := left }.setSlot job (.lead w)).log (.elected job)
  | (none, left) => { s with pending := left, leading := false }

def afterwards (caller : Caller) (carried : Nat) : Proc ω ε :=
  match caller with
  | .stopper before => if 0 < carried then .stopping (before + carried) else .looking before
  | _ => .returned

/-- The next step of a leader. -/
def lead (i : Nat) (caller : Caller) (carried : Nat) (fault : Option ε) : Stage ω ε → Group ω σ ε
  | .write => s.setProc i (.leading caller carried .take)
  | .take =>
    let (taken, s) := s.takeGroup cfg engine caller
    s.setProc i (.leading caller taken.length (if taken.isEmpty then .handOver else .attempt taken))
  | .attempt taken =>
    let (s, stage) := s.attempt engine taken fault [] (.isolate (split taken))
    s.setProc i (.leading caller carried stage)
  | .settle ((job, result) :: rest) agenda =>
    (s.settle job result).setProc i (.leading caller carried (.settle rest agenda))
  | .settle [] agenda => s.setProc i (.leading caller carried (.isolate agenda))
  | .isolate [] => s.setProc i (.leading caller carried .handOver)
  | .isolate ([] :: agenda) => s.setProc i (.leading caller carried (.isolate agenda))
  | .isolate ([x] :: agenda) =>
    let (s, stage) := s.attempt engine [x] fault agenda (.alone x agenda)
    s.setProc i (.leading caller carried stage)
  | .isolate ((x :: y :: rest) :: agenda) =>
    let jobs := x :: y :: rest
    let (s, stage) := s.attempt engine jobs fault agenda (.isolate (halves jobs ++ agenda))
    s.setProc i (.leading caller carried stage)
  | .alone x agenda =>
    let (s, stage) := s.runAlone engine x fault agenda
    s.setProc i (.leading caller carried stage)
  | .handOver => s.handOver.setProc i (afterwards caller carried)

/-- A flush leads if nobody else does and something is queued. -/
def startFlush : Bool := !s.leading && !s.pending.isEmpty

/-- The next step of a call. -/
def advance (i : Nat) (fault : Option ε) : Group ω σ ε :=
  match s.proc i with
  | .parked job =>
    match s.slot job with
    | .done _ => (s.setSlot job .taken).setProc i .returned
    -- the work comes back with the job, on a ticket of the leader's own
    | .lead w => (s.setSlot job (.waiting w)).setProc i (.leading (.submitter job) 0 .write)
    | _ => s
  | .leading caller carried stage => s.lead cfg engine i caller carried fault stage
  | .stopping carried =>
    if s.startFlush then { s.setProc i (.leading (.stopper carried) 0 .write) with leading := true }
    else s.setProc i (.looking carried)
  | .looking carried =>
    if s.pending.isEmpty then (s.setProc i .returned).log (.stopReturned i)
    else s.setProc i (.stopping carried)
  | .returned => s

/-! ## Unwinding -/

/-- The jobs a leader has taken and not answered, as the destructor of its group finds them. -/
def Stage.unanswered : Stage ω ε → List Nat
  | .attempt taken => taken.map Prod.fst
  | .settle answers agenda => answers.map Prod.fst ++ agenda.flatten.map Prod.fst
  | .isolate agenda => agenda.flatten.map Prod.fst
  -- the work of a job that is run alone has been taken out
  | .alone _ agenda => agenda.flatten.map Prod.fst
  | _ => []

def panic (i : Nat) : Group ω σ ε :=
  match s.proc i with
  | .leading _ _ stage =>
    ((Stage.unanswered stage).foldl
      (fun s job => s.settle job (.error (.value "the writer that took this batch did not finish"))) s).setProc i .returned
  | _ => s

def step (s : Group ω σ ε) : Action ω σ ε → Group ω σ ε
  | .submit w ack => s.submit cfg engine w ack
  | .flush =>
    if s.startFlush then { s.call (.leading .flusher 0 .write) with leading := true } else s.call .returned
  | .stop => ({ s with stopping := true }.call (.stopping 0)).log (.stopCalled s.calls)
  | .step call fault => s.advance cfg engine call fault
  | .panic call => s.panic call
  | .outside state => { s with store := state, txns := s.txns + 1 }.log (.outside state)

end Group

end BigDb.Embed
