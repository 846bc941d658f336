import BigDb.Embed.Ledger

/-!
# The group keeps the ledger

Every step of the group is a move of the ledger or none: the queue, the slots and the leader's stage
together say where each job is. The flag is what makes that work: while it is set there is one leader, a
thread that leads or one that was elected and has not woken up yet.
-/

namespace BigDb.Embed
open List Function Bool Proc Prod
variable {ω σ ε : Type}

/-- The jobs a leader has, with its own ones before it has taken the group. -/
def Stage.hand (own : List (Nat × ω)) : Stage ω ε → List (Nat × ω)
  | .write | .take => own
  | .attempt taken => taken
  | .settle _ agenda | .isolate agenda => agenda.flatten
  | .alone x agenda => x :: agenda.flatten
  | .handOver => []

def Stage.verdicts : Stage ω ε → List (Nat × Bool)
  | .settle answers _ => answers.map fun x => (x.1, x.2.isOk)
  | _ => []

/-- The job of a call that waits or leads for one. -/
def Proc.job : Proc ω ε → Option Nat
  | .parked j => some j
  | .leading caller _ _ => caller.own
  | _ => none

/-- It neither waits nor leads. -/
def Proc.idle : Proc ω ε → Bool
  | .parked _ | .leading _ _ _ => false
  | _ => true

variable {p : Proc ω ε}

lemma Proc.ne_parked {j : Nat} (idle : p.idle = true) : p ≠ .parked j := by
  rintro rfl
  cases idle

lemma Proc.job_of_idle (p : Proc ω ε) (idle : p.idle = true) : p.job = none := by
  cases p with
  | parked j | leading caller carried stage => cases idle
  | _ => rfl

namespace Group
variable (s : Group ω σ ε)

/-- What a call has in its hands if it is the leader, or elected. -/
def turn (i : Nat) : Option (List (Nat × ω) × List (Nat × Bool)) :=
  match s.proc i with
  | .parked j =>
    match s.slot j with
    | .lead w => some ([(j, w)], [])
    | _ => none
  | .leading caller _ stage => some (stage.hand (s.ownWork caller), stage.verdicts)
  | _ => none

/-- There is one leader while the flag is set, and none otherwise. -/
inductive Led (s : Group ω σ ε) (hand : List (Nat × ω)) (verdicts : List (Nat × Bool)) : Prop where
  | free (flag : s.leading = false) (hand : hand = []) (verdicts : verdicts = []) (none : ∀ i, s.turn i = none)
  | held (flag : s.leading = true) (i : Nat) (leads : s.turn i = some (hand, verdicts))
      (others : ∀ i', i' ≠ i → s.turn i' = none)

/-- Calls are numbered as they come, and each waits or leads for a job of its own. -/
structure Calls : Prop where
  numbered : ∀ i j, (s.proc i).job = some j → j < s.jobs
  distinct : ∀ i i' j, (s.proc i).job = some j → (s.proc i').job = some j → i = i'
  unused : ∀ i, s.calls ≤ i → s.proc i = .returned

structure Shows (l : Ledger ω σ) : Prop where
  history : l.history = s.history
  jobs : l.jobs = s.jobs
  store : l.store = s.store
  pending : s.pending = l.queue.map fst
  queued : ∀ x ∈ l.queue, s.slot x.1 = .waiting x.2
  led : s.Led l.hand l.verdicts
  calls : s.Calls
  waiters : ∀ x ∈ l.queue, s.held x.1 = 0 → ∃ i, s.proc i = .parked x.1

variable {cfg : GroupConfig} {engine : Engine ω σ ε} {s s' : Group ω σ ε} {l : Ledger ω σ} {first : σ} {i : Nat}

/-! ## Who leads -/

lemma turn_congr (proc : s'.proc i = s.proc i) (slot : ∀ j, (s.proc i).job = some j → s'.slot j = s.slot j) :
    s'.turn i = s.turn i := by
  unfold turn
  rw [proc]
  cases h : s.proc i with
  | parked j => simp only [slot j (by rw [h]; rfl)]
  | leading caller carried stage =>
    have own : s'.ownWork caller = s.ownWork caller := by
      unfold ownWork
      cases hc : caller.own with
      | none => rfl
      | some j => simp only [slot j (by rw [h]; exact hc)]
    simp only [own]
  | _ => rfl

lemma turn_of_idle (idle : (s.proc i).idle = true) : s.turn i = none := by
  unfold turn
  cases h : s.proc i with
  | parked j | leading caller carried stage =>
    rw [h] at idle
    cases idle
  | _ => rfl

lemma Led.keep {hand : List (Nat × ω)} {verdicts : List (Nat × Bool)} (led : s.Led hand verdicts)
    (flag : s'.leading = s.leading) (turns : ∀ i, s'.turn i = s.turn i) : s'.Led hand verdicts := by
  cases led with
  | free flag' hand verdicts none => exact .free (flag.trans flag') hand verdicts fun i => (turns i).trans (none i)
  | held flag' i leads others =>
    exact .held (flag.trans flag') i ((turns i).trans leads) fun i' ne => (turns i').trans (others i' ne)

variable {hand hand' : List (Nat × ω)} {verdicts verdicts' : List (Nat × Bool)}

lemma Led.change (led : s.Led hand verdicts)
    (leads : s.turn i ≠ none) (flag : s'.leading = s.leading) (now : s'.turn i = some (hand', verdicts'))
    (turns : ∀ i', i' ≠ i → s.turn i' = none → s'.turn i' = none) : s'.Led hand' verdicts' := by
  cases led with
  | free flag' hand verdicts none => exact (leads (none i)).elim
  | held flag' i₀ leads₀ others =>
    obtain rfl : i = i₀ := by
      by_contra ne
      exact leads (others i ne)
    exact .held (flag.trans flag') i now fun i' ne => turns i' ne (others i' ne)

/-- What the leader has is what the ledger says. -/
lemma Led.eq (led : s.Led hand verdicts) (leads : s.turn i = some (hand', verdicts')) :
    s.leading = true ∧ hand = hand' ∧ verdicts = verdicts' ∧ ∀ i', i' ≠ i → s.turn i' = none := by
  cases led with
  | free flag' hand verdicts none => simp [none i] at leads
  | held flag' i₀ leads₀ others =>
    obtain rfl : i = i₀ := by
      by_contra ne
      simp [others i ne] at leads
    simp only [leads₀, Option.some.injEq, Prod.mk.injEq] at leads
    exact ⟨flag', leads.1, leads.2, others⟩

/-! ## Calls -/

lemma Calls.setProc (c : s.Calls) (used : s.proc i ≠ .returned)
    (job : ∀ j, p.job = some j → (s.proc i).job = some j) : (s.setProc i p).Calls := by
  have old : ∀ i' j, ((s.setProc i p).proc i').job = some j → (s.proc i').job = some j := by
    intro i' j h
    simp only [Group.setProc, update_apply] at h
    split at h
    · next same => exact same ▸ job j h
    · exact h
  refine ⟨fun i' j h => c.numbered i' j (old i' j h), fun i₁ i₂ j h₁ h₂ => c.distinct i₁ i₂ j (old _ _ h₁) (old _ _ h₂),
    fun i' le => ?_⟩
  have ne : i' ≠ i := by
    rintro rfl
    exact used (c.unused _ le)
  simp only [Group.setProc, update_of_ne ne]
  exact c.unused i' le

lemma Calls.of_eq (c : s.Calls) (proc : s'.proc = s.proc) (calls : s'.calls = s.calls) (jobs : s.jobs ≤ s'.jobs) :
    s'.Calls := by
  refine ⟨fun i j h => ?_, fun i i' j h h' => ?_, fun i le => ?_⟩
  · rw [proc] at h
    exact Nat.lt_of_lt_of_le (c.numbered i j h) jobs
  · rw [proc] at h h'
    exact c.distinct i i' j h h'
  · rw [proc]
    exact c.unused i (calls ▸ le)

/-- A new call, for the next job or for none. -/
lemma Calls.call (c : s.Calls) (proc : s'.proc = update s.proc s.calls p)
    (calls : s'.calls = s.calls + 1) (jobs : s.jobs ≤ s'.jobs)
    (job : ∀ j, p.job = some j → j = s.jobs ∧ s'.jobs = s.jobs + 1) : s'.Calls := by
  refine ⟨fun i j h => ?_, fun i i' j h h' => ?_, fun i le => ?_⟩
  · rw [proc, update_apply] at h
    split at h
    · have := job j h
      omega
    · have := c.numbered i j h
      omega
  · rw [proc, update_apply] at h h'
    split at h <;> split at h'
    · omega
    · have := c.numbered i' j h'
      have := job j h
      omega
    · have := c.numbered i j h
      have := job j h'
      omega
    · exact c.distinct i i' j h h'
  · rw [calls] at le
    rw [proc, update_of_ne (by omega)]
    exact c.unused i (by omega)

lemma Calls.fresh (c : s.Calls) (h : (s.proc i).job = some s.jobs) : False := by
  have := c.numbered i _ h
  omega

/-! ## The queue -/

variable {slot : Nat → Slot ω ε}

variable (cfg engine) in
lemma takeLoop_eq (queue : List (Nat × ω))
    (waiting : ∀ x ∈ queue, slot x.1 = .waiting x.2) (n facts : Nat) : ∃ taken left, queue = taken ++ left ∧
      takeLoop cfg engine slot n facts (queue.map fst) = (taken, left.map fst) := by
  induction queue generalizing n facts with
  | nil => exact ⟨[], [], rfl, rfl⟩
  | cons x queue ih =>
    have first := waiting x mem_cons_self
    simp only [map_cons, takeLoop, first]
    split
    · split
      · exact ⟨[], x :: queue, rfl, rfl⟩
      obtain ⟨taken, left, rfl, eq⟩ := ih (fun y hy => waiting y (mem_cons_of_mem _ hy)) (n + 1)
        (facts + engine.weight x.2)
      exact ⟨x :: taken, left, rfl, by rw [eq]⟩
    · exact ⟨[], x :: queue, rfl, rfl⟩

/-- The oldest waiter is elected; if there is none, nobody in the queue has a thread. -/
lemma elect_eq (held : Nat → Nat) (queue : List (Nat × ω)) (waiting : ∀ x ∈ queue, slot x.1 = .waiting x.2) :
    (∃ before x after, queue = before ++ x :: after ∧ (∀ y ∈ before, 0 < held y.1) ∧ held x.1 = 0 ∧
      elect slot held (queue.map fst) = (some x, (before ++ after).map fst)) ∨
    (∀ y ∈ queue, 0 < held y.1) ∧ elect slot held (queue.map fst) = (none, queue.map fst) := by
  induction queue with
  | nil => exact .inr ⟨by simp, rfl⟩
  | cons x queue ih =>
    have first := waiting x mem_cons_self
    simp only [map_cons, elect, first]
    split
    · next early =>
      rcases ih fun y hy => waiting y (mem_cons_of_mem _ hy) with ⟨before, y, after, rfl, skipped, sync, eq⟩ | ⟨all, eq⟩
      · exact .inl ⟨x :: before, y, after, rfl, by simpa [early] using skipped, sync, by rw [eq]; rfl⟩
      · exact .inr ⟨by simpa [early] using all, by rw [eq]⟩
    · next sync => exact .inl ⟨[], x, queue, rfl, by simp, by omega, rfl⟩

variable {agenda : List (List (Nat × ω))} {jobs : List (Nat × ω)} {stage' : Stage ω ε} {counts : List Nat}

lemma length_applyRange {state : σ} {r : σ × List Nat}
    (h : applyRange engine state jobs = some r) : r.2.length = jobs.length := by
  induction jobs generalizing state r with
  | nil =>
    cases h
    rfl
  | cons x jobs ih =>
    simp only [applyRange] at h
    split at h
    · obtain ⟨r', hr', rfl⟩ := Option.map_eq_some_iff.1 h
      simpa using ih hr'
    · cases h

lemma verdicts_accepted (len : counts.length = jobs.length) :
    (s.accepted jobs counts).map (fun x => (x.1, x.2.isOk)) = jobs.map fun x => (x.1, true) := by
  induction jobs generalizing counts with
  | nil => rfl
  | cons x jobs ih =>
    cases counts with
    | nil => simp at len
    | cons c counts =>
      simp only [length_cons, Nat.add_right_cancel_iff] at len
      have rest := ih len
      simp only [accepted, zip_cons_cons, map_cons] at rest ⊢
      rw [rest]
      rfl

lemma flatten_halves (jobs : List (Nat × ω)) : (halves jobs).flatten = jobs := by simp [halves]

lemma flatten_split (jobs : List (Nat × ω)) : (split jobs).flatten = jobs := by
  unfold split
  split
  · simp
  · exact flatten_halves jobs

/-! ## Leading -/

variable (engine l) in
/-- A step is a move of the ledger, or none. -/
def Follows (s' : Group ω σ ε) : Prop :=
  ∃ l', (l' = l ∨ Ledger.Move engine l l') ∧ s'.Shows l'

variable {caller : Caller} {carried : Nat} {stage : Stage ω ε} {p : Proc ω ε}

section
variable (sh : s.Shows l)
include sh

lemma Shows.leader (leading : s.proc i = .leading caller carried stage) :
    s.leading = true ∧ l.hand = stage.hand (s.ownWork caller) ∧ l.verdicts = stage.verdicts ∧
      ∀ i', i' ≠ i → s.turn i' = none :=
  sh.led.eq (i := i) (by simp [turn, leading])

omit sh in
/-- Nobody is elected by a change that makes no slot a leader's. -/
lemma turn_none (proc : s'.proc i = s.proc i) (slots : ∀ j w, s'.slot j = .lead w → ∃ w, s.slot j = .lead w)
    (idle : s.turn i = none) : s'.turn i = none := by
  unfold turn at *
  rw [proc]
  cases h : s.proc i with
  | parked j =>
    simp only [h] at idle
    dsimp only
    split
    · next w elected =>
      obtain ⟨w', elected'⟩ := slots j w elected
      simp [elected'] at idle
    · rfl
  | leading caller carried stage => simp [h] at idle
  | _ => rfl

section
variable (leading : s.proc i = .leading caller carried stage)
include leading

lemma Shows.goes {s₁ : Group ω σ ε} {l' : Ledger ω σ} {carried' : Nat}
    (same : s₁.jobs = s.jobs ∧ s₁.calls = s.calls ∧ s₁.leading = s.leading ∧ s₁.proc = s.proc ∧ s₁.held = s.held)
    (history : l'.history = s₁.history) (jobs : l'.jobs = l.jobs) (store : l'.store = s₁.store)
    (pending : s₁.pending = l'.queue.map fst) (fewer : ∀ x ∈ l'.queue, x ∈ l.queue)
    (queued : ∀ x ∈ l'.queue, s₁.slot x.1 = .waiting x.2) (slots : ∀ j w, s₁.slot j = .lead w → ∃ w, s.slot j = .lead w)
    (hand : l'.hand = stage'.hand (s₁.ownWork caller)) (verdicts : l'.verdicts = stage'.verdicts) :
    (s₁.setProc i (.leading caller carried' stage')).Shows l' := by
  obtain ⟨sameJobs, sameCalls, flag, proc, held⟩ := same
  obtain ⟨-, -, -, others⟩ := sh.leader leading
  have own : (s₁.setProc i (.leading caller carried' stage')).ownWork caller = s₁.ownWork caller := rfl
  have calls : s₁.Calls := sh.calls.of_eq proc sameCalls (Nat.le_of_eq sameJobs.symm)
  refine ⟨history, jobs.trans (sh.jobs.trans sameJobs.symm), store, pending, queued, ?_, ?_, fun x hx sync => ?_⟩
  · refine sh.led.change (i := i) (by simp [turn, leading]) flag ?_ fun i' ne none => ?_
    · rw [hand, verdicts, ← own]
      simp only [turn, setProc, update_self]
    · exact turn_none (by simp only [setProc, update_of_ne ne, proc]) slots none
  · refine calls.setProc (by simp [proc, leading]) fun j h => ?_
    rw [proc, leading]
    exact h
  · obtain ⟨i', parked⟩ := sh.waiters x (fewer x hx) (held ▸ sync)
    have ne : i' ≠ i := by
      rintro rfl
      simp [leading] at parked
    exact ⟨i', by simp [setProc, update_of_ne ne, proc, parked]⟩

lemma Shows.restage {carried' : Nat}
    (hand : stage'.hand (s.ownWork caller) = stage.hand (s.ownWork caller)) (verdicts : stage'.verdicts = stage.verdicts) :
    (s.setProc i (.leading caller carried' stage')).Shows l := by
  obtain ⟨-, hand', verdicts', -⟩ := sh.leader leading
  exact sh.goes leading ⟨rfl, rfl, rfl, rfl, rfl⟩ sh.history rfl sh.store sh.pending (fun _ hx => hx) sh.queued
    (fun j w h => ⟨w, h⟩) (hand'.trans hand.symm) (verdicts'.trans verdicts.symm)

omit leading in
lemma Shows.take (p : l.Lined) (leading : s.proc i = .leading caller carried .take) (fault : Option ε) :
    Follows engine l (s.lead cfg engine i caller carried fault .take) := by
  obtain ⟨-, hand, verdicts, -⟩ := sh.leader leading
  obtain ⟨taken, left, split, eq⟩ := takeLoop_eq cfg engine l.queue sh.queued
    (s.ownWork caller).length ((s.ownWork caller).map fun x => engine.weight x.2).sum
  rw [lead, takeGroup, sh.pending]
  simp only [eq]
  refine ⟨_, .inr (.take split), sh.goes leading ⟨rfl, rfl, rfl, rfl, rfl⟩ sh.history rfl sh.store rfl ?_ ?_ ?_ ?_ ?_⟩
  · intro x hx
    rw [split]
    exact mem_append_right _ hx
  · intro x hx
    have nodup := p.nodup
    simp only [Ledger.line, hand, split, Stage.hand, map_append, append_assoc] at nodup
    have apart := (nodup_append.1 (nodup_append.1 nodup).2.1).2.2
    have rest := (nodup_append.1 (nodup_append.1 (nodup_append.1 nodup).2.1).2.1).2.2
    have out : x.1 ∉ (s.ownWork caller ++ taken).map fst := by
      have here := mem_map_of_mem (f := fst) hx
      rw [map_append, mem_append]
      rintro (mem | mem)
      · exact apart _ mem _ (mem_append_right _ here) rfl
      · exact rest _ mem _ here rfl
    dsimp only
    rw [if_neg out]
    exact sh.queued x (by rw [split]; exact mem_append_right _ hx)
  · intro j w h
    dsimp only at h
    split at h
    · cases h
    · exact ⟨w, h⟩
  · dsimp only
    rw [hand]
    split
    · next none =>
      rw [List.isEmpty_iff] at none
      simp [Stage.hand, none]
    · rfl
  · dsimp only
    rw [verdicts]
    split <;> rfl

lemma Shows.commits {state : σ} {answers : List (Nat × Except (ApiError ε) Accepted)}
    (hand : stage.hand (s.ownWork caller) = jobs ++ agenda.flatten) (verdicts : stage.verdicts = [])
    (applies : applyRange engine s.store jobs = some (state, counts))
    (answered : answers.map (fun x => (x.1, x.2.isOk)) = jobs.map fun x => (x.1, true)) :
    Follows engine l ((s.commit state jobs).setProc i (.leading caller carried (.settle answers agenda))) := by
  obtain ⟨-, hand', verdicts', -⟩ := sh.leader leading
  rw [← sh.store] at applies
  refine ⟨_, .inr (.commit (hand'.trans hand) (verdicts'.trans verdicts) applies), sh.goes leading ⟨rfl, rfl, rfl, rfl, rfl⟩ ?_
    rfl rfl sh.pending (fun _ hx => hx) sh.queued (fun j w h => ⟨w, h⟩) rfl answered.symm⟩
  dsimp only [commit, log]
  rw [sh.history]

lemma Shows.attempts {otherwise : Stage ω ε} (fault : Option ε)
    (hand : stage.hand (s.ownWork caller) = jobs ++ agenda.flatten) (verdicts : stage.verdicts = [])
    (hand' : otherwise.hand (s.ownWork caller) = jobs ++ agenda.flatten) (verdicts' : otherwise.verdicts = []) :
    Follows engine l ((s.attempt engine jobs fault agenda otherwise).1.setProc i
      (.leading caller carried (s.attempt engine jobs fault agenda otherwise).2)) := by
  unfold attempt
  split
  · next state counts applies =>
    exact sh.commits leading hand verdicts applies (verdicts_accepted (length_applyRange applies))
  · exact ⟨l, .inl rfl, sh.restage leading (hand'.trans hand.symm) (verdicts'.trans verdicts.symm)⟩

end

lemma Shows.alone {x : Nat × ω} (leading : s.proc i = .leading caller carried (.alone x agenda)) (fault : Option ε) :
    Follows engine l (s.lead cfg engine i caller carried fault (.alone x agenda)) := by
  obtain ⟨-, hand, verdicts, -⟩ := sh.leader leading
  have refuses : ∀ (stored : Bool) (e : ε), (stored = false → ∃ e, engine.applyOne s.store x.2 = .error e) →
      Follows engine l ((s.log (.refused x.1 x.2 stored)).setProc i
        (.leading caller carried (.settle [(x.1, .error (.engine e))] agenda))) := by
    intro stored e why
    rw [← sh.store] at why
    refine ⟨_, .inr (.refuse hand verdicts why), sh.goes leading ⟨rfl, rfl, rfl, rfl, rfl⟩ ?_ rfl sh.store sh.pending
      (fun _ hx => hx) sh.queued (fun j w h => ⟨w, h⟩) rfl rfl⟩
    dsimp only [log]
    rw [sh.history]
  rw [lead]
  unfold runAlone
  cases apply : engine.applyOne s.store x.2 with
  | ok r =>
    cases fault with
    | none =>
      have applies : applyRange engine s.store [x] = some (r.1, [r.2]) := by simp [applyRange, apply]
      exact sh.commits leading rfl rfl applies rfl
    | some e => exact refuses true e nofun
  | error e => exact refuses false e fun _ => ⟨e, apply⟩

variable {j : Nat} {result : Except (ApiError ε) Accepted}

lemma Shows.settles {rest : List (Nat × Except (ApiError ε) Accepted)} (p : l.Lined) (f : l.Fates engine first)
    (leading : s.proc i = .leading caller carried (.settle ((j, result) :: rest) agenda)) (fault : Option ε) :
    Follows engine l (s.lead cfg engine i caller carried fault (.settle ((j, result) :: rest) agenda)) := by
  obtain ⟨-, hand, verdicts, -⟩ := sh.leader leading
  refine ⟨_, .inr (.answer verdicts), sh.goes leading ⟨rfl, rfl, rfl, rfl, rfl⟩ ?_ rfl sh.store sh.pending
    (fun _ hx => hx) ?_ ?_ hand rfl⟩
  · dsimp only [settle, log, setSlot]
    rw [sh.history]
  · intro x hx
    have ne : x.1 ≠ j := by
      rintro rfl
      exact f.decided p (by rw [verdicts]; exact mem_cons_self) (mem_map_of_mem hx)
    simp only [settle, log, setSlot, update_of_ne ne]
    exact sh.queued x hx
  · intro k w h
    simp only [settle, log, setSlot, update_apply] at h
    split at h
    · cases h
    · exact ⟨w, h⟩

omit sh in
lemma afterwards_idle (caller : Caller) (carried : Nat) : (afterwards caller carried : Proc ω ε).idle = true := by
  cases caller with
  | stopper before =>
    simp only [afterwards]
    split <;> rfl
  | _ => rfl

lemma Shows.handsOver (p : l.Lined) (leading : s.proc i = .leading caller carried .handOver) (fault : Option ε) :
    Follows engine l (s.lead cfg engine i caller carried fault .handOver) := by
  obtain ⟨flag, hand, verdicts, others⟩ := sh.leader leading
  have waits : ∀ x ∈ l.queue, s.held x.1 = 0 → ∃ i', i' ≠ i ∧ s.proc i' = .parked x.1 := by
    intro x hx sync
    obtain ⟨i', parked⟩ := sh.waiters x hx sync
    refine ⟨i', ?_, parked⟩
    rintro rfl
    simp [leading] at parked
  have calls : (s.setProc i (afterwards caller carried)).Calls :=
    sh.calls.setProc (by simp [leading]) fun j h => by
      simp [(afterwards caller carried).job_of_idle (afterwards_idle ..)] at h
  have idle : ∀ {s' : Group ω σ ε}, s'.proc i = afterwards caller carried → s'.turn i = none := fun h =>
    turn_of_idle (by rw [h]; exact afterwards_idle ..)
  rw [lead, handOver, sh.pending]
  rcases elect_eq s.held l.queue sh.queued with
    ⟨before, x, after, split, -, sync, eq⟩ | ⟨early, eq⟩
  · -- the oldest waiter is the leader from now on, although it is still asleep
    obtain ⟨elected, ne, parked⟩ := waits x (by simp [split]) sync
    rw [eq]
    refine ⟨_, .inr (.elect split hand), ⟨?_, sh.jobs, sh.store, rfl, fun y hy => ?_, .held flag elected ?_ ?_, ?_, ?_⟩⟩
    · dsimp only [setProc, log, setSlot]
      rw [sh.history]
    · have other : y.1 ≠ x.1 := p.other split hy
      simp only [setProc, log, setSlot, update_of_ne other]
      exact sh.queued y (by grind)
    · simp [turn, setProc, log, setSlot, update_of_ne ne, parked, verdicts, Stage.verdicts]
    · intro i' ne'
      by_cases same : i' = i
      · subst same
        exact idle (by simp [setProc])
      rw [turn_congr (s := s)]
      · exact others i' same
      · simp [setProc, log, setSlot, update_of_ne same]
      · intro j job
        have : j ≠ x.1 := by
          rintro rfl
          exact ne' (sh.calls.distinct i' elected _ job (by rw [parked]; rfl))
        simp [setProc, log, setSlot, update_of_ne this]
    · exact ⟨calls.numbered, calls.distinct, calls.unused⟩
    · intro y hy sync
      obtain ⟨i', ne, parked⟩ := waits y (by grind) sync
      exact ⟨i', by simp [setProc, log, setSlot, update_of_ne ne, parked]⟩
  · rw [eq]
    refine ⟨l, .inl rfl, ⟨sh.history, sh.jobs, sh.store, rfl, sh.queued, .free rfl hand verdicts ?_, ?_, ?_⟩⟩
    · intro i'
      by_cases same : i' = i
      · subst same
        exact idle (by simp [setProc])
      · rw [turn_congr (s := s)]
        · exact others i' same
        · simp [setProc, update_of_ne same]
        · exact fun _ _ => rfl
    · exact ⟨calls.numbered, calls.distinct, calls.unused⟩
    · intro y hy sync
      obtain ⟨i', ne, parked⟩ := waits y hy sync
      exact ⟨i', by simp [setProc, update_of_ne ne, parked]⟩

lemma Shows.leads (p : l.Lined) (f : l.Fates engine first)
    (leading : s.proc i = .leading caller carried stage) (fault : Option ε) :
    Follows engine l (s.lead cfg engine i caller carried fault stage) := by
  have stays : ∀ {stage' : Stage ω ε}, stage'.hand (s.ownWork caller) = stage.hand (s.ownWork caller) →
      stage'.verdicts = stage.verdicts → Follows engine l (s.setProc i (.leading caller carried stage')) :=
    fun hand verdicts => ⟨l, .inl rfl, sh.restage leading hand verdicts⟩
  cases stage with
  | write => exact stays rfl rfl
  | take => exact sh.take p leading fault
  | attempt taken =>
    exact sh.attempts leading fault (by simp [Stage.hand]) rfl (by simp [Stage.hand, flatten_split]) rfl
  | settle answers agenda =>
    cases answers with
    | nil => exact stays rfl rfl
    | cons x rest => exact sh.settles p f leading fault
  | isolate agenda =>
    match agenda with
    | [] => exact stays rfl rfl
    | [] :: agenda => exact stays rfl rfl
    | [x] :: agenda => exact sh.attempts leading fault rfl rfl rfl rfl
    | (x :: y :: rest) :: agenda =>
      refine sh.attempts leading fault rfl rfl ?_ rfl
      simp only [Stage.hand, flatten_append, flatten_halves]
  | alone x agenda => exact sh.alone leading fault
  | handOver => exact sh.handsOver p leading fault

end

/-! ## Calls that do not lead -/

/-- What no step of a call that is idle touches. -/
structure Same (s s' : Group ω σ ε) : Prop where
  history : s'.history = s.history
  jobs : s'.jobs = s.jobs
  store : s'.store = s.store
  pending : s'.pending = s.pending
  slot : s'.slot = s.slot
  held : s'.held = s.held

section
variable (sh : s.Shows l)
include sh

lemma Shows.still_parked {x : Nat × ω} (was : s.proc i ≠ .parked x.1) (proc : s'.proc = update s.proc i p)
    (hx : x ∈ l.queue) (sync : s.held x.1 = 0) : ∃ i', s'.proc i' = .parked x.1 := by
  obtain ⟨i', parked⟩ := sh.waiters x hx sync
  have ne : i' ≠ i := by
    rintro rfl
    exact was parked
  exact ⟨i', by rw [proc, update_of_ne ne, parked]⟩

/-- An idle call goes on, or there is one more. -/
lemma Shows.idles (same : s.Same s') (flag : s'.leading = s.leading) (was : (s.proc i).idle = true)
    (proc : s'.proc = update s.proc i p) (idle : p.idle = true) (calls : s'.Calls) : s'.Shows l := by
  refine ⟨sh.history.trans same.history.symm, sh.jobs.trans same.jobs.symm, sh.store.trans same.store.symm,
    same.pending.trans sh.pending, fun x hx => by rw [same.slot, sh.queued x hx], sh.led.keep flag fun i' => ?_, calls,
    fun x hx sync => sh.still_parked (ne_parked was) proc hx (same.held ▸ sync)⟩
  by_cases here : i' = i
  · subst here
    rw [turn_of_idle was, turn_of_idle (by rw [proc, update_self]; exact idle)]
  · exact turn_congr (by rw [proc, update_of_ne here]) fun j _ => by rw [same.slot]

/-- A call that has no job of its own becomes the leader. -/
lemma Shows.starts (same : s.Same s') (free : s.leading = false) (flag : s'.leading = true)
    (was : (s.proc i).idle = true) (own : caller.own = none)
    (proc : s'.proc = update s.proc i (.leading caller 0 .write)) (calls : s'.Calls) : s'.Shows l := by
  refine ⟨sh.history.trans same.history.symm, sh.jobs.trans same.jobs.symm, sh.store.trans same.store.symm,
    same.pending.trans sh.pending, fun x hx => by rw [same.slot, sh.queued x hx], ?_, calls,
    fun x hx sync => sh.still_parked (ne_parked was) proc hx (same.held ▸ sync)⟩
  cases sh.led with
  | held flag' => simp [free] at flag'
  | free flag' hand verdicts none =>
    refine .held flag i ?_ fun i' ne => ?_
    · simp [turn, proc, hand, verdicts, Stage.hand, Stage.verdicts, ownWork, own]
    · refine Eq.trans (turn_congr (by rw [proc, update_of_ne ne]) fun j _ => ?_) (none i')
      rw [same.slot]

/-- Something that is not about jobs is noted. -/
lemma Shows.notes (e : Event ω σ) (silent : ∀ j, ¬e.Mentions j)
    (keeps : ∀ state, replay engine state [e] = state) : Follows engine l (s.log e) := by
  refine ⟨_, .inr (.note e silent keeps), ⟨?_, sh.jobs, sh.store, sh.pending, sh.queued, ?_, ?_, sh.waiters⟩⟩
  · dsimp only [log]
    rw [sh.history]
  · exact sh.led.keep rfl fun i => turn_congr rfl fun _ _ => rfl
  · exact sh.calls.of_eq rfl rfl (Nat.le_refl _)

lemma Shows.wakes {w : ω} (parked : s.proc i = .parked j) (elected : s.slot j = .lead w) :
    ((s.setSlot j (.waiting w)).setProc i (.leading (.submitter j) 0 .write)).Shows l := by
  have leads : s.turn i = some ([(j, w)], []) := by simp [turn, parked, elected]
  obtain ⟨flag, hand, verdicts, others⟩ := sh.led.eq leads
  have out : ∀ x ∈ l.queue, x.1 ≠ j := by
    rintro x hx rfl
    simp [sh.queued x hx] at elected
  refine ⟨sh.history, sh.jobs, sh.store, sh.pending, fun x hx => ?_, .held flag i ?_ fun i' ne => ?_, ?_,
    fun x hx sync => ?_⟩
  · simp only [setProc, setSlot, update_of_ne (out x hx)]
    exact sh.queued x hx
  · simp [turn, setProc, setSlot, ownWork, Caller.own, Stage.hand, Stage.verdicts, hand, verdicts]
  · refine turn_none (s := s) (by simp [setProc, setSlot, update_of_ne ne]) (fun k w' h => ?_) (others i' ne)
    simp only [setProc, setSlot, update_apply] at h
    split at h
    · cases h
    · exact ⟨w', h⟩
  · have calls : (s.setSlot j (.waiting w)).Calls := sh.calls.of_eq rfl rfl (Nat.le_refl _)
    refine calls.setProc (i := i) (by simp [setSlot, parked]) fun k h => ?_
    simp only [setSlot, parked]
    exact h
  · refine sh.still_parked ?_ rfl hx sync
    rw [parked]
    exact fun same => out x hx (Proc.parked.inj same).symm

/-- A waiter that was answered returns. -/
lemma Shows.returns (parked : s.proc i = .parked j)
    (done : s.slot j = .done result) : ((s.setSlot j .taken).setProc i .returned).Shows l := by
  have out : ∀ x ∈ l.queue, x.1 ≠ j := by
    rintro x hx rfl
    simp [sh.queued x hx] at done
  refine ⟨sh.history, sh.jobs, sh.store, sh.pending, fun x hx => ?_, sh.led.keep rfl fun i' => ?_, ?_, fun x hx sync => ?_⟩
  · simp only [setProc, setSlot, update_of_ne (out x hx)]
    exact sh.queued x hx
  · by_cases here : i' = i
    · subst here
      simp [turn, setProc, setSlot, parked, done]
    · refine turn_congr (by simp [setProc, setSlot, update_of_ne here]) fun k job => ?_
      have ne : k ≠ j := by
        rintro rfl
        exact here (sh.calls.distinct i' i _ job (by rw [parked]; rfl))
      simp [setProc, setSlot, update_of_ne ne]
  · have calls : (s.setSlot j .taken).Calls := sh.calls.of_eq rfl rfl (Nat.le_refl _)
    exact calls.setProc (i := i) (by simp [setSlot, parked]) nofun
  · refine sh.still_parked ?_ rfl hx sync
    rw [parked]
    exact fun same => out x hx (Proc.parked.inj same).symm

/-! ## Submitting -/

lemma Shows.turnsAway : Follows engine l s.turnAway := by
  refine ⟨_, .inr .turnAway, ⟨?_, ?_, sh.store, sh.pending, sh.queued, ?_, ?_, sh.waiters⟩⟩
  · dsimp only [turnAway, log]
    rw [sh.history, sh.jobs]
  · dsimp only [turnAway, log]
    rw [sh.jobs]
  · exact sh.led.keep rfl fun i => turn_congr rfl fun _ _ => rfl
  · exact sh.calls.of_eq rfl rfl (Nat.le_succ _)

/-- The slot of the next job is nobody's. -/
lemma Shows.turn_enter (w : ω) (proc : s'.proc i = s.proc i)
    (slot : s'.slot = update s.slot s.jobs (.waiting w)) : s'.turn i = s.turn i := by
  refine turn_congr proc fun j job => ?_
  have ne : j ≠ s.jobs := by
    rintro rfl
    exact sh.calls.fresh job
  rw [slot, update_of_ne ne]

/-- The queue with one more job at its end. -/
lemma Shows.queued_enter (p : l.Lined) (w : ω) (slot : s'.slot = update s.slot s.jobs (.waiting w)) :
    ∀ x ∈ l.queue ++ [(l.jobs, w)], s'.slot x.1 = .waiting x.2 := by
  intro x hx
  rw [slot]
  rcases mem_append.1 hx with old | new
  · have lt := p.lt (x := x) (by simp [Ledger.line, old])
    rw [sh.jobs] at lt
    rw [update_of_ne (by omega)]
    exact sh.queued x old
  · rw [mem_singleton.1 new, sh.jobs, update_self]

lemma Shows.waiters_enter (p : l.Lined) (w : ω) {held : Nat}
    (held' : s'.held = update s.held s.jobs held) (proc : ∀ i, i < s.calls → s'.proc i = s.proc i)
    (new : held = 0 → ∃ i, s'.proc i = .parked s.jobs) :
    ∀ x ∈ l.queue ++ [(l.jobs, w)], s'.held x.1 = 0 → ∃ i, s'.proc i = .parked x.1 := by
  intro x hx sync
  rw [held'] at sync
  rcases mem_append.1 hx with old | last
  · have lt := p.lt (x := x) (by simp [Ledger.line, old])
    rw [sh.jobs] at lt
    rw [update_of_ne (by omega)] at sync
    obtain ⟨i, parked⟩ := sh.waiters x old sync
    refine ⟨i, (proc i ?_).trans parked⟩
    by_contra le
    simp [sh.calls.unused i (by omega)] at parked
  · rw [mem_singleton.1 last, sh.jobs, update_self] at sync
    rw [mem_singleton.1 last, sh.jobs]
    exact new sync

lemma Shows.submits_async (p : l.Lined) (w : ω) {held : Nat} (pos : 0 < held) (bytes : Nat) :
    Follows engine l ({ s.enter w held with
      asyncBytes := bytes
      pending := s.pending ++ [s.jobs] }.log (.acknowledged s.jobs)) := by
  refine ⟨_, .inr (.enqueue w [.acknowledged l.jobs] (.inr rfl)), ⟨?_, ?_, sh.store, ?_, ?_, ?_, ?_, ?_⟩⟩
  · simp only [log, enter, setSlot, sh.history, sh.jobs]
  · simp only [log, enter, setSlot, sh.jobs]
  · simp only [log, enter, setSlot, sh.pending, sh.jobs, map_append, map_cons, map_nil]
  · exact sh.queued_enter p w rfl
  · exact sh.led.keep rfl fun i => sh.turn_enter w rfl rfl
  · exact sh.calls.of_eq rfl rfl (Nat.le_succ _)
  · exact sh.waiters_enter p w rfl (fun _ _ => rfl) (by omega)

lemma Shows.submits (p : l.Lined) (w : ω) : Follows engine l (s.submitSync w) := by
  have idle : (s.proc s.calls).idle = true := by
    rw [sh.calls.unused _ (Nat.le_refl _)]
    rfl
  unfold submitSync
  dsimp only [log, enter, setSlot, call, setProc]
  split
  · next flag =>
    -- it is queued, behind everything else
    refine ⟨_, .inr (.enqueue w [] (.inl rfl)), ⟨?_, ?_, sh.store, ?_, ?_, ?_, ?_, ?_⟩⟩
    · simp [sh.history, sh.jobs]
    · simp [sh.jobs]
    · simp [sh.pending, sh.jobs]
    · exact sh.queued_enter p w rfl
    · refine sh.led.keep rfl fun i => ?_
      by_cases here : i = s.calls
      · subst here
        rw [turn_of_idle idle]
        simp [turn]
      · exact sh.turn_enter w (by simp [update_of_ne here]) rfl
    · refine sh.calls.call rfl rfl (Nat.le_succ _) fun j h => ?_
      cases h
      exact ⟨rfl, rfl⟩
    · refine sh.waiters_enter p w rfl (fun i lt => ?_) fun _ => ⟨s.calls, ?_⟩
      · simp [update_of_ne (Nat.ne_of_lt lt)]
      · simp
  · next flag =>
    cases sh.led with
    | held flag' => exact (flag flag').elim
    | free flag' hand verdicts none =>
      refine ⟨_, .inr (.lead w hand), ⟨?_, ?_, sh.store, sh.pending, ?_, .held rfl s.calls ?_ fun i ne => ?_, ?_, ?_⟩⟩
      · simp [sh.history, sh.jobs]
      · simp [sh.jobs]
      · intro x hx
        exact sh.queued_enter p w rfl x (mem_append_left _ hx)
      · simp [turn, ownWork, Caller.own, Stage.hand, Stage.verdicts, verdicts, sh.jobs]
      · rw [← none i]
        exact sh.turn_enter w (by simp [update_of_ne ne]) rfl
      · refine sh.calls.call rfl rfl (Nat.le_succ _) fun j h => ?_
        cases h
        exact ⟨rfl, rfl⟩
      · intro x hx sync
        have lt := p.lt (x := x) (by simp [Ledger.line, hx])
        rw [sh.jobs] at lt
        refine sh.still_parked (ne_parked idle) rfl hx ?_
        simpa [update_of_ne (Nat.ne_of_lt lt)] using sync

/-! ## Steps -/

lemma Shows.advances (p : l.Lined) (f : l.Fates engine first) (fault : Option ε) :
    Follows engine l (s.advance cfg engine i fault) := by
  unfold advance
  cases h : s.proc i with
  | parked j =>
    dsimp only
    split
    · next done => exact ⟨l, .inl rfl, sh.returns h done⟩
    · next elected => exact ⟨l, .inl rfl, sh.wakes h elected⟩
    · exact ⟨l, .inl rfl, sh⟩
  | leading caller carried stage => exact sh.leads p f h fault
  | stopping carried =>
    have was : (s.proc i).idle = true := by rw [h]; rfl
    have used : s.proc i ≠ .returned := by simp [h]
    dsimp only
    split
    · next start =>
      simp only [startFlush, and_eq_true, not_eq_true'] at start
      refine ⟨l, .inl rfl, sh.starts (i := i) ⟨rfl, rfl, rfl, rfl, rfl, rfl⟩ start.1 rfl was rfl rfl ?_⟩
      exact (sh.calls.setProc used fun j h => by cases h).of_eq rfl rfl (Nat.le_refl _)
    · exact ⟨l, .inl rfl, sh.idles ⟨rfl, rfl, rfl, rfl, rfl, rfl⟩ rfl was rfl rfl (sh.calls.setProc used nofun)⟩
  | looking carried =>
    have was : (s.proc i).idle = true := by rw [h]; rfl
    have used : s.proc i ≠ .returned := by simp [h]
    have goes : ∀ {p : Proc ω ε}, p.idle = true → (s.setProc i p).Shows l := fun idle =>
      sh.idles ⟨rfl, rfl, rfl, rfl, rfl, rfl⟩ rfl was rfl idle
        (sh.calls.setProc used fun j h => by simp [job_of_idle _ idle] at h)
    dsimp only
    split
    · exact (goes rfl).notes _ (fun _ => id) fun _ => rfl
    · exact ⟨l, .inl rfl, goes rfl⟩
  | returned => exact ⟨l, .inl rfl, sh⟩

/-- Every step that is not a panic is a move of the ledger, or none. -/
lemma Shows.step (p : l.Lined) (f : l.Fates engine first) (a : Action ω σ ε)
    (calm : ∀ i, a ≠ .panic i) : Follows engine l (s.step cfg engine a) := by
  have idle : (s.proc s.calls).idle = true := by
    rw [sh.calls.unused _ (Nat.le_refl _)]
    rfl
  have new : ∀ {p : Proc ω ε}, p.job = none → (s.call p).Calls := fun job =>
    sh.calls.call rfl rfl (Nat.le_refl _) fun j h => by simp [job] at h
  cases a with
  | submit w ack =>
    simp only [Group.step, submit]
    split
    · exact sh.turnsAway
    split
    · split
      · exact sh.submits_async p w (by have := engine.bytes_pos w; omega) _
      split
      · exact sh.turnsAway
      · exact sh.submits p w
    · exact sh.submits p w
  | flush =>
    simp only [Group.step]
    split
    · next start =>
      simp only [startFlush, and_eq_true, not_eq_true'] at start
      exact ⟨l, .inl rfl, sh.starts ⟨rfl, rfl, rfl, rfl, rfl, rfl⟩ start.1 rfl idle rfl rfl
        ((new rfl).of_eq rfl rfl (Nat.le_refl _))⟩
    · exact ⟨l, .inl rfl, sh.idles ⟨rfl, rfl, rfl, rfl, rfl, rfl⟩ rfl idle rfl rfl (new rfl)⟩
  | stop =>
    have called : ({ s with stopping := true }.call (.stopping 0)).Shows l :=
      sh.idles ⟨rfl, rfl, rfl, rfl, rfl, rfl⟩ rfl idle rfl rfl ((new rfl).of_eq rfl rfl (Nat.le_refl _))
    exact called.notes _ (fun _ => id) fun _ => rfl
  | step call fault => exact sh.advances p f fault
  | panic call => exact (calm call rfl).elim
  | outside state =>
    refine ⟨_, .inr (.outside state), ⟨?_, sh.jobs, rfl, sh.pending, sh.queued, ?_, ?_, sh.waiters⟩⟩
    · simp only [Group.step, log, sh.history]
    · exact sh.led.keep rfl fun i => turn_congr rfl fun _ _ => rfl
    · exact sh.calls.of_eq rfl rfl (Nat.le_refl _)

end

end Group

end BigDb.Embed
