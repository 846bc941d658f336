import Mathlib.Data.List.Basic
import Mathlib.Data.Set.Basic

/-!
# Sending a request

`Upstream::send` has a pooled connection or none, and a fresh one if that did not answer. `Pool::send` goes from node to
node, and `Peer::post` is the cluster's own client. What a connection does is not theirs to decide: whether it takes a
deadline, how much of the request arrives at the node and what is read in the end is the input here.
-/

namespace BigDb.Proxy
open List
variable {ρ : Type}

inductive Repeatable where
  | yes
  | no
deriving DecidableEq

/-- How much of a request a node gets. -/
inductive Arrived where
  | nothing
  | part
  | whole
deriving DecidableEq

/-- An error of a socket: it took too long, or anything else. -/
inductive Fault where
  | late
  | broken

inductive ReadFault where
  | late
  | broken
  | closed
  | unreadable
  | tooLarge

/-- What one connection does with a request. -/
structure Trip (ρ : Type) where
  /-- the deadline before the write -/
  ready : Option Fault
  arrived : Arrived
  /-- the write and the flush -/
  written : Option Fault
  /-- the deadline before the answer -/
  waiting : Option Fault
  answer : Except ReadFault ρ

def Trip.delivered (trip : Trip ρ) : Arrived := if trip.ready.isSome then .nothing else trip.arrived

/-! ## One node -/

inductive UpstreamError where
  | notSent
  | sent
  | timeout
  | unreadable
deriving DecidableEq

def timeoutOr (otherwise : UpstreamError) : Fault → UpstreamError
  | .late => .timeout
  | .broken => otherwise

def setDeadline : Option Fault → Except UpstreamError Unit
  | none => .ok ()
  | some fault => .error (timeoutOr .notSent fault)

/-- `write_all` and `flush`. -/
def writeAll : Option Fault → Except UpstreamError Unit
  | none => .ok ()
  | some fault => .error (timeoutOr .sent fault)

def readResponse : Except ReadFault ρ → Except UpstreamError ρ
  | .ok response => .ok response
  | .error .late => .error .timeout
  | .error .broken | .error .closed => .error .sent
  | .error .unreadable | .error .tooLarge => .error .unreadable

/-- `exchange` of an upstream. -/
def exchange (trip : Trip ρ) : Except UpstreamError ρ := do
  setDeadline trip.ready
  writeAll trip.written
  setDeadline trip.waiting
  readResponse trip.answer

/-- What a node is met with: whether there is a slot in time, a pooled connection that looks open, and what comes of
connecting. -/
structure Visit (ρ : Type) where
  slot : Bool
  idle : Option (Trip ρ)
  connect : Except Fault (Trip ρ)

variable (visit : Visit ρ)

/-- The request on a fresh connection. -/
def Visit.afresh : List Arrived × Except UpstreamError ρ :=
  match visit.connect with
  | .error fault => ([], .error (timeoutOr .notSent fault))
  | .ok trip => ([trip.delivered], exchange trip)

/-- `Upstream::send`, with what arrives at the node. -/
def Visit.send : List Arrived × Except UpstreamError ρ :=
  if visit.slot then
    match visit.idle with
    | none => visit.afresh
    | some trip =>
      match exchange trip with
      | .ok response => ([trip.delivered], .ok response)
      | .error .timeout => ([trip.delivered], .error .timeout)
      | .error .unreadable => ([trip.delivered], .error .unreadable)
      | .error _ => (trip.delivered :: visit.afresh.1, visit.afresh.2)
  else ([], .error .timeout)

/-! ## All nodes -/

inductive NoNode where
  | noneInRotation
  | allFailed

/-- The loop of `Pool::send`. `busy` tells the answers that ask for a retry. -/
def attempts (busy : ρ → Bool) (repeatable : Repeatable) :
    Option UpstreamError → List (Visit ρ) → List Arrived × Except (NoNode × Option UpstreamError) ρ
  | last, [] => ([], .error (.allFailed, last))
  | last, visit :: more =>
    match visit.send with
    | (arrived, .ok answer) =>
      if more ≠ [] ∧ repeatable = .yes ∧ busy answer then
        (attempts busy repeatable last more).map (arrived ++ ·) id
      else (arrived, .ok answer)
    | (arrived, .error e) =>
      if more ≠ [] ∧ (e = .notSent ∨ repeatable = .yes) ∧ e ≠ .timeout then
        (attempts busy repeatable (some e) more).map (arrived ++ ·) id
      else (arrived, .error (.allFailed, some e))

/-- `Pool::send`. -/
def send (busy : ρ → Bool) (repeatable : Repeatable) (maxRetries : Nat) (candidates : List (Visit ρ)) :
    List Arrived × Except (NoNode × Option UpstreamError) ρ :=
  if candidates = [] then ([], .error (.noneInRotation, none))
  else attempts busy repeatable none (candidates.take (min candidates.length (maxRetries + 1)))

/-! ## The cluster's own client -/

inductive ClientError where
  | unreachable
  | io
  | tls
  | timeout
  | malformed
  | tooLarge
deriving DecidableEq

structure PeerVisit (ρ : Type) where
  slot : Bool
  idle : Option (Trip ρ)
  connect : Except ClientError (Trip ρ)

def setTimeouts : Option Fault → Except ClientError Unit
  | none => .ok ()
  | some .late => .error .timeout
  | some .broken => .error .io

def readPeer : Except ReadFault ρ → Except ClientError ρ
  | .ok response => .ok response
  | .error .late => .error .timeout
  | .error .broken => .error .io
  | .error .closed | .error .unreadable => .error .malformed
  | .error .tooLarge => .error .tooLarge

/-- `exchange` of a peer. -/
def peerExchange (trip : Trip ρ) : Except ClientError ρ := do
  setTimeouts trip.ready
  if trip.written.isSome then
    throw .io
  setTimeouts trip.waiting
  readPeer trip.answer

/-- `Peer::post`, with what arrives at the peer. -/
def PeerVisit.post (repeatable : Repeatable) (visit : PeerVisit ρ) : List Arrived × Except ClientError ρ :=
  let afresh : List Arrived × Except ClientError ρ :=
    match visit.connect with
    | .error e => ([], .error e)
    | .ok trip => ([trip.delivered], peerExchange trip)
  if visit.slot then
    match visit.idle with
    | none => afresh
    | some trip =>
      match peerExchange trip with
      | .ok response => ([trip.delivered], .ok response)
      | .error e =>
        if repeatable = .no ∨ e = .timeout then ([trip.delivered], .error e)
        else (trip.delivered :: afresh.1, afresh.2)
  else ([], .error .timeout)

/-! ## How often a request arrives -/

/-- The request is at the node no more than once, and not at all if the error says so. -/
def AtMostOnce {ε : Type} (unsent : ε → Prop) (x : List Arrived × Except ε ρ) : Prop :=
  x.1.count .whole ≤ 1 ∧ ∀ e, x.2 = .error e → unsent e → ∀ a ∈ x.1, a = .nothing

/-- A connection that broke or was closed without an answer. -/
def Trip.Lost (trip : Trip ρ) : Prop :=
  match trip.written, trip.waiting, trip.answer with
  | some .broken, _, _ | none, some .broken, _ | none, none, .error .broken | none, none, .error .closed => True
  | _, _, _ => False

/-- A connection that takes no deadline once the request is written. -/
def Trip.Stuck (trip : Trip ρ) : Prop := trip.written = none ∧ trip.waiting = some .broken

/-- Of a pooled connection that is lost and of a fresh one that is stuck nothing has arrived. -/
structure Unheard (pooled fresh : Set (Trip ρ)) : Prop where
  pooled : ∀ trip ∈ pooled, trip.ready = none → trip.Lost → trip.arrived = .nothing
  fresh : ∀ trip ∈ fresh, trip.ready = none → trip.Stuck → trip.arrived = .nothing

/-- The connections that a node is met with. -/
structure Visit.Uses (pooled fresh : Set (Trip ρ)) : Prop where
  idle : ∀ trip, visit.idle = some trip → trip ∈ pooled
  connect : ∀ trip, visit.connect = .ok trip → trip ∈ fresh

variable {trip : Trip ρ} {visit} {e : UpstreamError} {pooled fresh : Set (Trip ρ)}

lemma exchange_failed (ready : trip.ready = none) :
    (trip.Lost ↔ exchange trip = .error .sent ∨ exchange trip = .error .notSent) ∧
      (trip.Stuck ↔ exchange trip = .error .notSent) := by
  obtain ⟨r, a, w, d, x⟩ := trip
  obtain rfl : r = none := ready
  rcases w with _ | _ | _ <;> rcases d with _ | _ | _ <;> rcases x with (_ | _ | _ | _ | _) | _ <;>
    simp [Trip.Lost, Trip.Stuck, exchange, setDeadline, writeAll, timeoutOr, readResponse, bind, Except.bind]

/-- Nothing is delivered over a connection that was not ready. -/
lemma Trip.delivered_eq (sure : trip.ready = none → trip.arrived = .nothing) : trip.delivered = .nothing := by
  unfold delivered
  split
  · rfl
  · next ready => exact sure (by simpa using ready)

section
variable (sure : Unheard pooled fresh)
include sure

lemma Visit.afresh_once (uses : visit.Uses pooled fresh) : AtMostOnce (· = .notSent) visit.afresh := by
  unfold afresh
  cases connect : visit.connect with
  | error fault => exact ⟨Nat.zero_le _, fun _ _ _ => nofun⟩
  | ok trip =>
    refine ⟨count_le_length, fun e failed unsent a ha => ?_⟩
    rw [mem_singleton.1 ha]
    subst unsent
    exact trip.delivered_eq fun ready => sure.fresh trip (uses.connect trip connect) ready ((exchange_failed ready).2.2 failed)

lemma Visit.send_once (uses : visit.Uses pooled fresh) : AtMostOnce (· = .notSent) visit.send := by
  have again := visit.afresh_once sure uses
  unfold send
  split
  · cases idle : visit.idle with
    | none => exact again
    | some trip =>
      have lost (failed : exchange trip = .error .sent ∨ exchange trip = .error .notSent) : trip.delivered = .nothing :=
        trip.delivered_eq fun ready => sure.pooled trip (uses.idle trip idle) ready ((exchange_failed ready).1.2 failed)
      dsimp only
      split
      · exact ⟨count_le_length, nofun⟩
      · exact ⟨count_le_length, by rintro _ ⟨⟩ ⟨⟩⟩
      · exact ⟨count_le_length, by rintro _ ⟨⟩ ⟨⟩⟩
      · next e timely readable failed =>
        -- the request goes out again, and the node has heard nothing of the first one
        have nothing : trip.delivered = .nothing := by
          cases e with
          | sent => exact lost (.inl failed)
          | notSent => exact lost (.inr failed)
          | timeout => exact absurd rfl timely
          | unreadable => exact absurd rfl readable
        rw [nothing]
        refine ⟨by simpa using again.1, fun e failed unsent a ha => ?_⟩
        rcases mem_cons.1 ha with rfl | ha
        · rfl
        · exact again.2 e failed unsent a ha
  · exact ⟨Nat.zero_le _, fun _ _ _ => nofun⟩

lemma attempts_once (busy : ρ → Bool) (last : Option UpstreamError)
    {visits : List (Visit ρ)} (uses : ∀ visit ∈ visits, visit.Uses pooled fresh) :
    AtMostOnce (·.2 = some .notSent) (attempts busy .no last visits) := by
  induction visits generalizing last with
  | nil => exact ⟨Nat.zero_le _, fun _ _ _ => nofun⟩
  | cons visit more ih =>
    obtain ⟨once, unheard⟩ := visit.send_once sure (uses visit mem_cons_self)
    unfold attempts
    split
    · next arrived answer sent =>
      rw [sent] at once
      rw [if_neg (by simp)]
      exact ⟨once, nofun⟩
    · next arrived e failed =>
      rw [failed] at once unheard
      split
      · next retry =>
        -- only an error that says so is followed by another node
        have none := unheard e rfl (retry.2.1.resolve_right (by decide))
        obtain ⟨once', unheard'⟩ := ih (some e) fun visit hv => uses visit (mem_cons_of_mem _ hv)
        have zero : arrived.count .whole = 0 := count_eq_zero.2 fun whole => by cases none _ whole
        refine ⟨?_, fun e failed unsent a ha => ?_⟩
        · show List.count _ (arrived ++ _) ≤ 1
          rw [count_append, zero, Nat.zero_add]
          exact once'
        · rcases mem_append.1 ha with ha | ha
          · exact none a ha
          · exact unheard' e failed unsent a ha
      · refine ⟨once, ?_⟩
        rintro _ ⟨⟩ unsent
        exact unheard e rfl (Option.some.inj unsent)

end

/-- A pool of one node that is met with what it does not report. -/
lemma nothing_of_once {busy : ρ → Bool} (once : AtMostOnce (·.2 = some .notSent) (send busy .no 0 [visit]))
    (failed : visit.send = ([trip.delivered], .error .notSent)) (ready : trip.ready = none) : trip.arrived = .nothing := by
  have sent : send busy .no 0 [visit] = ([trip.delivered], .error (.allFailed, some .notSent)) := by
    simp [send, attempts, failed]
  rw [sent] at once
  have nothing := once.2 _ rfl rfl trip.delivered (mem_singleton_self _)
  simpa [Trip.delivered, ready] using nothing

/-- `Peer::post` gives up after a pooled connection. -/
lemma PeerVisit.post_once (visit : PeerVisit ρ) : (visit.post .no).1.count .whole ≤ 1 := by
  have short : (visit.post .no).1.length ≤ 1 := by
    unfold post
    dsimp only
    split
    · cases visit.idle with
      | none => cases visit.connect with
        | error e => exact Nat.zero_le _
        | ok trip => exact le_rfl
      | some trip =>
        dsimp only
        split
        · exact le_rfl
        · rw [if_pos (.inl rfl)]
          exact le_rfl
    · exact Nat.zero_le _
  exact count_le_length.trans short

/-- A request that must not be repeated arrives at most once by `Pool::send`, and not at all if that is the error, in all
pools with these pooled and fresh connections exactly if no pooled connection is lost and no fresh one stuck after something
arrived. By `Peer::post` it arrives at most once whatever the connections do. -/
theorem request_arrives_at_most_once (pooled fresh : Set (Trip ρ)) (busy : ρ → Bool) :
    ((∀ maxRetries candidates, (∀ visit ∈ candidates, visit.Uses pooled fresh) →
        AtMostOnce (·.2 = some .notSent) (send busy .no maxRetries candidates)) ↔ Unheard pooled fresh) ∧
      ∀ visit : PeerVisit ρ, (visit.post .no).1.count .whole ≤ 1 := by
  refine ⟨⟨fun all => ⟨fun trip mem ready lost => ?_, fun trip mem ready stuck => ?_⟩, fun sure maxRetries candidates uses => ?_⟩,
    PeerVisit.post_once⟩
  · -- connecting fails after the pooled connection is lost
    have uses : Visit.Uses ⟨true, some trip, .error .broken⟩ pooled fresh := ⟨by simpa using mem, nofun⟩
    refine nothing_of_once (all 0 [_] (by simpa using uses)) ?_ ready
    rcases (exchange_failed ready).1.1 lost with failed | failed <;> simp [Visit.send, Visit.afresh, failed, timeoutOr]
  · have uses : Visit.Uses ⟨true, none, .ok trip⟩ pooled fresh := ⟨nofun, by simpa using mem⟩
    refine nothing_of_once (all 0 [_] (by simpa using uses)) ?_ ready
    simp [Visit.send, Visit.afresh, (exchange_failed ready).2.1 stuck]
  · unfold send
    split
    · exact ⟨Nat.zero_le _, fun _ _ _ => nofun⟩
    · exact attempts_once sure busy none fun visit hv => uses visit (mem_of_mem_take hv)

/-- A pooled connection that was closed before the request, and a node that answers on a fresh one. -/
def closedTrip (arrived : Arrived) : Trip Unit := ⟨none, arrived, none, none, .error .closed⟩

def answeredTrip : Trip Unit := ⟨none, .whole, none, none, .ok ()⟩

theorem request_arrives_at_most_once_closed : AtMostOnce (·.2 = some .notSent)
      (send (fun _ => false) .no 1 [⟨true, some (closedTrip .nothing), .ok answeredTrip⟩]) := by
  apply (request_arrives_at_most_once {closedTrip .nothing} {answeredTrip} fun _ => false).1.2
  · constructor
    · rintro _ rfl _ _
      rfl
    · rintro _ rfl _ ⟨-, stuck⟩
      cases stuck
  · intro visit hv
    rw [mem_singleton.1 hv]
    exact ⟨fun _ same => Option.some.inj same.symm, fun _ same => by cases same; rfl⟩

/-- The node takes the request and closes the pooled connection without an answer. It gets the request again, and if it
cannot be connected to, the error is that nothing was sent. -/
theorem request_arrives_twice :
    (send (fun _ => false) .no 0 [⟨true, some (closedTrip .whole), .ok answeredTrip⟩]).1 = [.whole, .whole] ∧
      send (fun _ => false) .no 0 [⟨true, some (closedTrip .whole), .error .broken⟩] =
        ([.whole], .error (.allFailed, some .notSent)) := ⟨rfl, rfl⟩

end BigDb.Proxy
