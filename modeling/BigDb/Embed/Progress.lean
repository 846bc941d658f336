import BigDb.Embed.Atomic
import Mathlib.Data.Prod.Lex

/-!
# A leader gets done

A leader takes a bounded number of steps, however its commits fail, and then hands over. A waiter that is
not taken along moves up in the queue by that, because only waiters are elected and the oldest one is.
-/

namespace BigDb.Embed
open Lib List Function
variable {ω σ ε : Type}

/-! ## How much is left to do -/

/-- Steps that isolating these ranges may take. -/
def agendaSteps (agenda : List (List (Nat × ω))) : Nat := (agenda.map fun jobs => max 1 (6 * jobs.length - 1)).sum

/-- What a leader has to do before it hands over: whether it has taken its group, and then how many steps. -/
def Stage.toGo : Stage ω ε → Nat ×ₗ Nat
  | .write => toLex (2, 0)
  | .take => toLex (1, 0)
  | .attempt taken => toLex (0, 6 * taken.length + 3)
  | .settle answers agenda => toLex (0, 2 + answers.length + agendaSteps agenda)
  | .isolate agenda => toLex (0, 1 + agendaSteps agenda)
  | .alone _ agenda => toLex (0, 4 + agendaSteps agenda)
  | .handOver => toLex (0, 0)

/-- An elected waiter has to wake up first. -/
def Proc.toGo : Proc ω ε → Nat ×ₗ Nat
  | .leading _ _ stage => stage.toGo
  | _ => toLex (3, 0)

@[simp] lemma agendaSteps_nil : agendaSteps ([] : List (List (Nat × ω))) = 0 := rfl

variable (jobs : List (Nat × ω))

@[simp] lemma agendaSteps_cons (agenda : List (List (Nat × ω))) :
    agendaSteps (jobs :: agenda) = max 1 (6 * jobs.length - 1) + agendaSteps agenda := rfl

@[simp] lemma agendaSteps_append (a b : List (List (Nat × ω))) : agendaSteps (a ++ b) = agendaSteps a + agendaSteps b := by
  simp [agendaSteps]

lemma agendaSteps_halves (many : 2 ≤ jobs.length) : agendaSteps (Group.halves jobs) + 1 ≤ 6 * jobs.length - 1 := by
  simp only [Group.halves, agendaSteps_cons, length_take, length_drop, agendaSteps_nil]
  omega

lemma agendaSteps_split : agendaSteps (Group.split jobs) ≤ 6 * jobs.length + 1 := by
  unfold Group.split
  split
  · simp only [agendaSteps_cons, agendaSteps_nil]
    omega
  · have := agendaSteps_halves jobs (by omega)
    omega

lemma toLex_right_lt {a b c : Nat} (h : b < c) : toLex (a, b) < toLex (a, c) :=
  Prod.Lex.toLex_lt_toLex.2 (.inr ⟨rfl, h⟩)

namespace Group
variable {cfg : GroupConfig} {engine : Engine ω σ ε} {s s' : Group ω σ ε} {l : Ledger ω σ} {store : σ} {i : Nat}
  {caller : Caller} {carried : Nat} {stage : Stage ω ε}

/-- What an attempt leads to is nearer to the end than `m` steps. -/
lemma attempt_toGo {jobs : List (Nat × ω)} {fault : Option ε} {agenda : List (List (Nat × ω))} {otherwise : Stage ω ε}
    {m : Nat} (settle : 2 + jobs.length + agendaSteps agenda < m) (other : otherwise.toGo < toLex (0, m)) :
    (s.attempt engine jobs fault agenda otherwise).2.toGo < toLex (0, m) := by
  unfold attempt
  split
  · next state counts applies =>
    have len := length_applyRange applies
    refine toLex_right_lt ?_
    simpa [accepted, length_zip, len] using settle
  · exact other

variable (cfg engine s) in
/-- Every step of a leader but the last one brings it nearer to the end. -/
lemma lead_toGo (i : Nat) (caller : Caller) (carried : Nat) (fault : Option ε)
    (more : stage ≠ .handOver) : ∃ carried' stage',
      (s.lead cfg engine i caller carried fault stage).proc i = .leading caller carried' stage' ∧
      stage'.toGo < stage.toGo := by
  cases stage with
  | write => exact ⟨carried, .take, update_self .., Prod.Lex.toLex_lt_toLex.2 (.inl (by decide))⟩
  | take =>
    refine ⟨_, _, update_self .., ?_⟩
    split <;> exact Prod.Lex.toLex_lt_toLex.2 (.inl Nat.one_pos)
  | attempt taken =>
    refine ⟨carried, _, update_self .., attempt_toGo ?_ (toLex_right_lt ?_)⟩
    · simp only [agendaSteps_nil]
      omega
    · have := agendaSteps_split taken
      omega
  | settle answers agenda =>
    cases answers with
    | nil => exact ⟨carried, .isolate agenda, update_self .., toLex_right_lt (by simp)⟩
    | cons x rest => exact ⟨carried, .settle rest agenda, update_self .., toLex_right_lt (by simp)⟩
  | isolate agenda =>
    match agenda with
    | [] => exact ⟨carried, .handOver, update_self .., toLex_right_lt Nat.one_pos⟩
    | [] :: agenda => exact ⟨carried, .isolate agenda, update_self .., toLex_right_lt (by simp)⟩
    | [x] :: agenda =>
      refine ⟨carried, _, update_self .., attempt_toGo ?_ (toLex_right_lt ?_)⟩
      · simp only [agendaSteps_cons, length_singleton]
        omega
      · simp only [agendaSteps_cons, length_singleton]
        omega
    | (x :: y :: rest) :: agenda =>
      have halved := agendaSteps_halves (x :: y :: rest) (by simp)
      refine ⟨carried, _, update_self .., attempt_toGo ?_ (toLex_right_lt ?_)⟩
      · simp only [agendaSteps_cons, length_cons]
        omega
      · simp only [agendaSteps_cons, agendaSteps_append]
        omega
  | alone x agenda =>
    refine ⟨carried, _, update_self .., ?_⟩
    split <;> exact toLex_right_lt (by simp)
  | handOver => exact (more rfl).elim

/-! ## What others do meanwhile -/

lemma Touch.proc {s₁ : Group ω σ ε} (touch : s.Touch cfg engine s₁) : s₁.proc = s.proc := by
  cases touch with
  | _ => rfl

lemma advance_proc {i' : Nat} (ne : i ≠ i') (fault : Option ε) : (s.advance cfg engine i' fault).proc i = s.proc i := by
  unfold advance
  cases s.proc i' with
  | parked j =>
    dsimp only
    split
    · exact update_of_ne ne ..
    · exact update_of_ne ne ..
    · rfl
  | leading caller carried stage =>
    rcases lead_touch cfg engine s i' caller carried fault stage with rfl | ⟨s₁, p, eq, touch⟩
    · simp only [lead, handOver]
      split <;> exact update_of_ne ne ..
    · simp only [eq, setProc, touch.proc, update_of_ne ne]
  | stopping carried | looking carried =>
    dsimp only
    split <;> exact update_of_ne ne ..
  | returned => rfl

variable (cfg engine s) in
lemma submit_eq (w : ω) (ack : Ack) : s.submit cfg engine w ack = s.turnAway ∨
    s.submit cfg engine w ack = { s.enter w (max (engine.bytes w) 1) with
      asyncBytes := s.asyncBytes + engine.bytes w
      pending := s.pending ++ [s.jobs] }.log (.acknowledged s.jobs) ∨
    s.submit cfg engine w ack = s.submitSync w := by
  unfold submit
  split
  · exact .inl rfl
  split
  · dsimp only
    split
    · exact .inr (.inl rfl)
    split
    · exact .inl rfl
    · exact .inr (.inr rfl)
  · exact .inr (.inr rfl)

/-- A step of somebody else. -/
def Foreign (i : Nat) (a : Action ω σ ε) : Prop := ∀ fault, a ≠ .step i fault

variable {a : Action ω σ ε}

lemma proc_step (used : i < s.calls) (calm : s.Calm a) (foreign : Foreign i a) :
    (s.step cfg engine a).proc i = s.proc i := by
  have old : i ≠ s.calls := Nat.ne_of_lt used
  cases a with
  | submit w ack =>
    rw [step]
    rcases submit_eq cfg engine s w ack with eq | eq | eq
    · rw [eq]
      rfl
    · rw [eq]
      rfl
    · rw [eq, submitSync]
      split <;> exact update_of_ne old ..
  | flush =>
    simp only [step]
    split <;> exact update_of_ne old ..
  | stop => exact update_of_ne old ..
  | step call fault =>
    refine advance_proc ?_ fault
    rintro rfl
    exact foreign fault rfl
  | panic call => exact (calm call rfl).elim
  | outside state => rfl

/-- Whoever is elected stays so until it wakes up. -/
lemma Shows.stays_elected (sh : s.Shows l) {j : Nat} {w : ω} (parked : s.proc i = .parked j)
    (elected : s.slot j = .lead w) (calm : s.Calm a) (foreign : Foreign i a) : (s.step cfg engine a).slot j = .lead w := by
  have job : (s.proc i).job = some j := by rw [parked]; rfl
  have old : j ≠ s.jobs := Nat.ne_of_lt (sh.calls.numbered i j job)
  have leads : s.turn i = some ([(j, w)], []) := by simp [turn, parked, elected]
  obtain ⟨-, -, -, others⟩ := sh.led.eq leads
  cases a with
  | submit w ack =>
    rw [Group.step]
    rcases submit_eq cfg engine s w ack with eq | eq | eq
    · rw [eq]
      exact elected
    · rw [eq]
      exact (update_of_ne old ..).trans elected
    · rw [eq, submitSync]
      split <;> exact (update_of_ne old ..).trans elected
  | flush =>
    simp only [Group.step]
    split <;> exact elected
  | stop | outside state => exact elected
  | step i' fault =>
    have ne : i' ≠ i := by
      rintro rfl
      exact foreign fault rfl
    rw [Group.step]
    unfold advance
    cases h : s.proc i' with
    | parked j' =>
      have other : j ≠ j' := by
        rintro rfl
        exact ne (sh.calls.distinct i' i j (by rw [h]; rfl) job)
      dsimp only
      split
      · exact (update_of_ne other ..).trans elected
      · exact (update_of_ne other ..).trans elected
      · exact elected
    | leading caller carried stage =>
      have none := others i' ne
      simp [turn, h] at none
    | stopping carried | looking carried =>
      dsimp only
      split <;> exact elected
    | returned => exact elected
  | panic call => exact (calm call rfl).elim

def Leads (s : Group ω σ ε) (i : Nat) : Prop := s.turn i ≠ none

lemma leads_iff : s.Leads i ↔ (∃ caller carried stage, s.proc i = .leading caller carried stage) ∨
    ∃ j w, s.proc i = .parked j ∧ s.slot j = .lead w := by
  unfold Leads turn
  cases s.proc i with
  | parked j =>
    cases h : s.slot j with
    | lead w => simp [h]
    | _ => simp [h]
  | _ => simp

lemma Calls.used (c : s.Calls) (h : s.proc i ≠ .returned) : i < s.calls := by
  by_contra le
  exact h (c.unused i (by omega))

/-- The turn stays with the call until it takes a step. -/
lemma Shows.stays_leader (sh : s.Shows l) (leads : s.Leads i) (calm : s.Calm a) (foreign : Foreign i a) :
    (s.step cfg engine a).Leads i ∧ (s.step cfg engine a).proc i = s.proc i := by
  have same : (s.step cfg engine a).proc i = s.proc i := by
    refine proc_step (sh.calls.used ?_) calm foreign
    intro returned
    rcases leads_iff.1 leads with ⟨caller, carried, stage, leading⟩ | ⟨j, w, parked, -⟩
    · simp [leading] at returned
    · simp [parked] at returned
  refine ⟨leads_iff.2 ?_, same⟩
  rw [same]
  rcases leads_iff.1 leads with leading | ⟨j, w, parked, elected⟩
  · exact .inl leading
  · exact .inr ⟨j, w, parked, sh.stays_elected parked elected calm foreign⟩

/-- The queue only grows at its end while somebody else takes a step. -/
lemma Shows.pending_foreign (cfg : GroupConfig) (engine : Engine ω σ ε) (sh : s.Shows l) (leads : s.Leads i) (calm : s.Calm a)
    (foreign : Foreign i a) : ∃ new, (s.step cfg engine a).pending = s.pending ++ new ∧ ∀ k ∈ new, k = s.jobs := by
  have same : ∀ {q : List Nat}, q = s.pending → ∃ new, q = s.pending ++ new ∧ ∀ k ∈ new, k = s.jobs :=
    fun eq => ⟨[], by simp [eq], by simp⟩
  cases a with
  | submit w ack =>
    rw [Group.step]
    rcases submit_eq cfg engine s w ack with eq | eq | eq
    · rw [eq]
      exact same rfl
    · rw [eq]
      exact ⟨[s.jobs], rfl, by simp⟩
    · rw [eq, submitSync]
      split
      · exact ⟨[s.jobs], rfl, by simp⟩
      · exact same rfl
  | flush =>
    simp only [Group.step]
    split <;> exact same rfl
  | stop | outside state => exact same rfl
  | step i' fault =>
    have ne : i' ≠ i := by
      rintro rfl
      exact foreign fault rfl
    rw [Group.step]
    unfold advance
    cases h : s.proc i' with
    | parked j' =>
      dsimp only
      split <;> exact same rfl
    | leading caller carried stage =>
      -- there is no other leader
      obtain ⟨-, -, -, others⟩ := sh.leader h
      exact (leads (others i ne.symm)).elim
    | stopping carried | looking carried =>
      dsimp only
      split <;> exact same rfl
    | returned => exact same rfl
  | panic call => exact (calm call rfl).elim

/-- Until it hands over, a leader only takes jobs off the front of the queue. -/
lemma Shows.pending_lead (sh : s.Shows l) (i : Nat) (caller : Caller) (carried : Nat) (fault : Option ε)
    (more : stage ≠ .handOver) : ∃ gone, s.pending = gone ++ (s.lead cfg engine i caller carried fault stage).pending := by
  obtain ⟨s₁, p, eq, touch⟩ := (lead_touch cfg engine s i caller carried fault stage).resolve_left more
  rw [eq]
  cases touch with
  | take caller =>
    obtain ⟨taken, left, split, eq⟩ := takeLoop_eq cfg engine l.queue sh.queued
      (s.ownWork caller).length ((s.ownWork caller).map fun x => engine.weight x.2).sum
    refine ⟨taken.map Prod.fst, ?_⟩
    simp only [takeGroup, setProc, sh.pending, eq]
    rw [split, map_append]
  | _ => exact ⟨[], rfl⟩

/-! ## Handing over -/

section Fair
variable {events : Nat → Action ω σ ε} {j : Nat} {a : Action ω σ ε}

/-- The call takes a step at that time. -/
def Acts (events : Nat → Action ω σ ε) (n i : Nat) : Prop := ∃ fault, events n = .step i fault

/-- Every call takes its next step sooner or later. -/
def Fair (events : Nat → Action ω σ ε) : Prop := ∀ i n, ∃ m, n ≤ m ∧ Acts events m i

lemma foreign_iff {n : Nat} : Foreign i (events n) ↔ ¬Acts events n i := by simp [Foreign, Acts]

/-- What a step of the one whose turn it is does, unless it hands over. -/
lemma Shows.nearer (cfg : GroupConfig) (engine : Engine ω σ ε) (sh : s.Shows l) (leads : s.Leads i)
    (more : ∀ caller carried, s.proc i ≠ .leading caller carried .handOver) (fault : Option ε) :
    (s.advance cfg engine i fault).Leads i ∧ ((s.advance cfg engine i fault).proc i).toGo < (s.proc i).toGo ∧
      ∃ gone, s.pending = gone ++ (s.advance cfg engine i fault).pending := by
  rcases leads_iff.1 leads with ⟨caller, carried, stage, leading⟩ | ⟨j, w, parked, elected⟩
  · have notYet : stage ≠ .handOver := by
      rintro rfl
      exact more _ _ leading
    have eq : s.advance cfg engine i fault = s.lead cfg engine i caller carried fault stage := by simp only [advance, leading]
    obtain ⟨carried', stage', now, less⟩ := lead_toGo cfg engine s i caller carried fault notYet
    rw [eq]
    refine ⟨leads_iff.2 (.inl ⟨_, _, _, now⟩), ?_, sh.pending_lead i caller carried fault notYet⟩
    rw [now, leading]
    exact less
  · have eq : s.advance cfg engine i fault =
        (s.setSlot j (.waiting w)).setProc i (.leading (.submitter j) 0 .write) := by simp only [advance, parked, elected]
    have now : (s.advance cfg engine i fault).proc i = .leading (.submitter j) 0 .write := by
      rw [eq]
      exact update_self ..
    refine ⟨leads_iff.2 (.inl ⟨_, _, _, now⟩), ?_, [], by rw [eq]; rfl⟩
    rw [now, parked]
    exact Prod.Lex.toLex_lt_toLex.2 (.inl (by decide))

section
variable {now : Nat → Group ω σ ε} (runs : now = states (Group.step cfg engine) (.start store) events)
  (calm : ∀ n, (now n).Calm (events n)) {n : Nat}
include runs

lemma now_succ : now (n + 1) = (now n).step cfg engine (events n) := by
  rw [runs, states]

include calm

lemma kept_now (n : Nat) : ∃ l, Kept engine store (now n) l := by
  subst runs
  exact Kept.run (run_states calm n)

lemma hands_over (fair : Fair events) (leads : (now n).Leads i) : ∃ m, n ≤ m ∧ ∃ i caller carried fault,
    (now m).proc i = .leading caller carried .handOver ∧ events m = .step i fault := by
  refine eventually_of_fair fair (fun n i r => (now n).Leads i ∧ r = ((now n).proc i).toGo) ?_ ⟨leads, rfl⟩
  rintro n i r ⟨leads, rfl⟩
  obtain ⟨l, k⟩ := kept_now runs calm n
  rw [now_succ runs]
  by_cases foreign : Foreign i (events n)
  · obtain ⟨leads', same⟩ := k.shows.stays_leader leads (calm n) foreign
    exact .inr (.inr (.inr ⟨⟨leads', by rw [same]⟩, foreign_iff.1 foreign⟩))
  obtain ⟨fault, act⟩ := not_not.1 (foreign_iff.not.1 foreign)
  by_cases last : ∃ caller carried, (now n).proc i = .leading caller carried .handOver
  · obtain ⟨caller, carried, last⟩ := last
    exact .inl ⟨i, caller, carried, fault, last, act⟩
  · obtain ⟨leads', less, -⟩ := k.shows.nearer cfg engine leads
      (fun caller carried h => last ⟨caller, carried, h⟩) fault
    rw [act, Group.step]
    exact .inr (.inr (.inl ⟨i, _, less, leads', rfl⟩))

end

/-! ## Waiters -/

def place (j : Nat) (queue : List Nat) : Nat := if j ∈ queue then queue.idxOf j + 1 else 0

lemma place_append {queue new : List Nat} (out : j ∉ new) : place j (queue ++ new) = place j queue := by
  unfold place
  by_cases mem : j ∈ queue
  · simp [mem, idxOf_append_of_mem mem]
  · simp [mem, out]

lemma place_le_append (j : Nat) {gone queue : List Nat} (nodup : (gone ++ queue).Nodup) :
    place j queue ≤ place j (gone ++ queue) := by
  unfold place
  by_cases mem : j ∈ queue
  · have before : j ∉ gone := fun h => (nodup_append.1 nodup).2.2 j h j mem rfl
    simp [mem, idxOf_append_of_notMem before]
  · simp [mem]

/-- A submitter that waits and has not been answered. -/
structure Waits (s : Group ω σ ε) (j : Nat) : Prop where
  sync : s.held j = 0
  entered : ∃ w, .submitted j w ∈ s.history
  unanswered : ∀ ok, .answered j ok ∉ s.history

/-- It has been made leader, or answered. -/
def Served (s : Group ω σ ε) (j : Nat) : Prop := (∃ w, s.slot j = .lead w) ∨ ∃ result, s.slot j = .done result

/-- A job is answered where its submitter looks. -/
lemma answered_lead (s : Group ω σ ε) (i : Nat) (caller : Caller) (carried : Nat) (fault : Option ε) (stage : Stage ω ε)
    {ok : Bool} (h : .answered j ok ∈ (s.lead cfg engine i caller carried fault stage).history) :
    .answered j ok ∈ s.history ∨ ∃ result, (s.lead cfg engine i caller carried fault stage).slot j = .done result := by
  rcases lead_touch cfg engine s i caller carried fault stage with rfl | ⟨s₁, p, eq, touch⟩
  · refine .inl ?_
    simp only [lead, handOver] at h
    split at h
    · simpa [setProc, setSlot, log] using h
    · exact h
  · rw [eq] at h ⊢
    cases touch with
    | settle k result =>
      simp only [settle, setProc, log, setSlot, mem_append, mem_singleton] at h ⊢
      rcases h with old | new
      · exact .inl old
      · cases new
        exact .inr ⟨result, update_self ..⟩
    | none | take caller => exact .inl h
    | _ => exact .inl (by simpa [setProc, commit, log] using h)

lemma answered_step (calm : s.Calm a) {ok : Bool} (h : .answered j ok ∈ (s.step cfg engine a).history) :
    .answered j ok ∈ s.history ∨ ∃ result, (s.step cfg engine a).slot j = .done result := by
  cases a with
  | submit w ack =>
    refine .inl ?_
    rw [step] at h
    rcases submit_eq cfg engine s w ack with eq | eq | eq
    · simpa [eq, turnAway, log] using h
    · simpa [eq, log, enter, setSlot] using h
    · rw [eq, submitSync] at h
      split at h
      all_goals simpa [log, enter, call, setProc, setSlot] using h
  | flush =>
    refine .inl ?_
    simp only [step] at h
    split at h <;> exact h
  | stop => exact .inl (by simpa [step, log, call, setProc] using h)
  | step i fault =>
    simp only [step] at h ⊢
    unfold advance at h ⊢
    cases proc : s.proc i with
    | leading caller carried stage =>
      simp only [proc] at h ⊢
      exact answered_lead _ _ _ _ _ _ h
    | parked j' =>
      refine .inl ?_
      simp only [proc] at h
      split at h <;> exact h
    | stopping carried =>
      refine .inl ?_
      simp only [proc] at h
      split at h <;> exact h
    | looking carried =>
      refine .inl ?_
      simp only [proc] at h
      split at h
      · simpa [log, setProc] using h
      · exact h
    | returned =>
      simp only [proc] at h
      exact .inl h
  | panic call => exact (calm call rfl).elim
  | outside state => exact .inl (by simpa [step, log] using h)

lemma held_step (calm : s.Calm a) (lt : j < s.jobs) : (s.step cfg engine a).held j = s.held j := by
  cases a with
  | submit w ack =>
    rw [step]
    rcases submit_eq cfg engine s w ack with eq | eq | eq
    · rw [eq]
      rfl
    · rw [eq]
      exact update_of_ne (Nat.ne_of_lt lt) ..
    · rw [eq, submitSync]
      split <;> exact update_of_ne (Nat.ne_of_lt lt) ..
  | flush =>
    simp only [step]
    split <;> rfl
  | stop | outside state => rfl
  | step i fault => rw [step, (Keeps.advances s i fault).held]
  | panic call => exact (calm call rfl).elim

section
variable (k : Kept engine store s l)
include k

lemma Kept.waits_lt (waits : s.Waits j) : j < s.jobs := by
  obtain ⟨w, entered⟩ := waits.entered
  rw [← k.shows.history] at entered
  rw [← k.shows.jobs]
  exact k.lined.below _ entered j rfl

/-- Whoever is queued and has not been answered early waits. -/
lemma Kept.waits {x : Nat × ω} (hx : x ∈ l.queue) (sync : s.held x.1 = 0) : s.Waits x.1 := by
  have line : x ∈ l.line := by simp [Ledger.line, hx]
  refine ⟨sync, ⟨x.2, k.shows.history ▸ k.lined.entered x line⟩, fun ok answered => ?_⟩
  rw [← k.shows.history] at answered
  cases ok with
  | true =>
    obtain ⟨past, rest, split, done⟩ := k.fates.justified.of_mem answered
    have nodup := k.lined.nodup
    rw [Ledger.line, split, map_append] at nodup
    refine (nodup_append.1 nodup).2.2 x.1 ?_ x.1 (mem_map_of_mem hx) rfl
    simp only [carried_append, map_append, mem_append]
    exact .inl (.inl done)
  | false => exact k.fates.failed _ answered (mem_map_of_mem line)

/-- A waiter waits until it is served. -/
lemma Kept.still_waits (cfg : GroupConfig) (waits : s.Waits j) (calm : s.Calm a) :
    (s.step cfg engine a).Waits j ∨ (s.step cfg engine a).Served j := by
  by_cases done : ∃ result, (s.step cfg engine a).slot j = .done result
  · exact .inr (.inr done)
  refine .inl ⟨?_, ?_, fun ok answered => ?_⟩
  · rw [held_step calm (k.waits_lt waits)]
    exact waits.sync
  · obtain ⟨w, entered⟩ := waits.entered
    rw [← k.shows.history] at entered
    have follows : Follows engine l (s.step cfg engine a) := k.shows.step k.lined k.fates a calm
    obtain ⟨l', rfl | move, shows⟩ := follows
    · exact ⟨w, shows.history ▸ entered⟩
    · obtain ⟨es, grows⟩ := move.history
      refine ⟨w, ?_⟩
      rw [← shows.history, grows]
      exact mem_append_left _ entered
  · exact waits.unanswered ok ((answered_step calm answered).resolve_right done)

/-- The leader hands over: the waiter is elected, or another one that was ahead of it. -/
lemma Kept.moves_up (cfg : GroupConfig) (waits : s.Waits j) {caller : Caller} {carried : Nat}
    (last : s.proc i = .leading caller carried .handOver) (fault : Option ε) : (s.advance cfg engine i fault).Served j ∨
    ∃ i', (s.advance cfg engine i fault).Leads i' ∧ place j (s.advance cfg engine i fault).pending < place j s.pending := by
  obtain ⟨-, hand, verdicts, -⟩ := k.shows.leader last
  obtain ⟨w, entered⟩ := waits.entered
  have history := k.shows.history
  rw [← history] at entered
  have queued : j ∈ l.queue.map Prod.fst := by
    rcases k.fates.pending entered (fun ok => by rw [history]; exact waits.unanswered ok) with h | h | h
    · exact h
    · simp [hand, Stage.hand] at h
    · simp [verdicts, Stage.verdicts] at h
  obtain ⟨y, hy, rfl⟩ := mem_map.1 queued
  have eq : s.advance cfg engine i fault = s.handOver.setProc i (afterwards caller carried) := by
    simp only [advance, last, lead]
  rw [eq, Group.handOver, k.shows.pending]
  rcases elect_eq s.held l.queue k.shows.queued with ⟨before, x, after, split, early, sync, elected⟩ | ⟨early, -⟩
  · rw [elected]
    by_cases same : y.1 = x.1
    · exact .inl (.inl ⟨x.2, by rw [same]; exact update_self ..⟩)
    have out : y.1 ∉ before.map Prod.fst := by
      intro mem
      obtain ⟨z, hz, eq⟩ := mem_map.1 mem
      have := early z hz
      have := waits.sync
      rw [eq] at *
      omega
    have later : y.1 ∈ after.map Prod.fst := by
      rw [split] at queued
      simp only [map_append, map_cons, mem_append, mem_cons] at queued
      tauto
    obtain ⟨i', parked⟩ := k.shows.waiters x (by simp [split]) sync
    have ne : i' ≠ i := by
      rintro rfl
      simp [last] at parked
    refine .inr ⟨i', leads_iff.2 (.inr ⟨x.1, x.2, ?_, update_self ..⟩), ?_⟩
    · simpa [setProc, log, setSlot, update_of_ne ne] using parked
    · simp only [split, setProc, log, setSlot, map_append, map_cons]
      unfold place
      simp [later, idxOf_append_of_notMem out, idxOf_cons_ne _ (Ne.symm same)]
  · have := early y hy
    have := waits.sync
    omega

lemma Kept.pending_nodup : s.pending.Nodup := by
  have nodup := k.lined.nodup
  rw [Ledger.line, map_append] at nodup
  rw [k.shows.pending]
  exact (nodup_append.1 nodup).2.1

end

lemma waiter_is_served {now : Nat → Group ω σ ε} (runs : now = states (Group.step cfg engine) (.start store) events)
    (calm : ∀ n, (now n).Calm (events n)) (fair : Fair events) {n j : Nat} (leads : (now n).Leads i)
    (waits : (now n).Waits j) : ∃ m, n ≤ m ∧ (now m).Served j := by
  refine eventually_of_fair fair (fun n i r => (now n).Leads i ∧ (now n).Waits j ∧
      r = toLex (place j (now n).pending, ((now n).proc i).toGo)) ?_ ⟨leads, waits, rfl⟩
  rintro n i r ⟨leads, waits, rfl⟩
  obtain ⟨l, k⟩ := kept_now runs calm n
  rw [now_succ runs]
  rcases k.still_waits cfg waits (calm n) with waits' | served
  · by_cases foreign : Foreign i (events n)
    · -- somebody else's step: newcomers queue behind
      obtain ⟨leads', same⟩ := k.shows.stays_leader leads (calm n) foreign
      obtain ⟨new, grows, fresh⟩ := k.shows.pending_foreign cfg engine leads (calm n) foreign
      have out : j ∉ new := fun mem => by
        have := fresh j mem
        have := k.waits_lt waits
        omega
      refine .inr (.inr (.inr ⟨⟨leads', waits', ?_⟩, foreign_iff.1 foreign⟩))
      rw [grows, place_append out, same]
    · obtain ⟨fault, act⟩ := not_not.1 (foreign_iff.not.1 foreign)
      rw [act, Group.step] at waits'
      rw [act, Group.step]
      by_cases last : ∃ caller carried, (now n).proc i = .leading caller carried .handOver
      · obtain ⟨caller, carried, last⟩ := last
        rcases k.moves_up cfg waits last fault with served | ⟨i', leads', up⟩
        · exact .inr (.inl served)
        · exact .inr (.inr (.inl ⟨i', _, Prod.Lex.toLex_lt_toLex.2 (.inl up), leads', waits', rfl⟩))
      obtain ⟨leads', less, gone, shrinks⟩ := k.shows.nearer cfg engine leads
        (fun caller carried h => last ⟨caller, carried, h⟩) fault
      refine .inr (.inr (.inl ⟨i, _, ?_, leads', waits', rfl⟩))
      have nodup := k.pending_nodup
      have le := place_le_append j (shrinks ▸ nodup)
      rw [← shrinks] at le
      rcases Nat.lt_or_eq_of_le le with up | same
      · exact Prod.Lex.toLex_lt_toLex.2 (.inl up)
      · exact Prod.Lex.toLex_lt_toLex.2 (.inr ⟨same, less⟩)
  · exact .inr (.inl served)

end Fair

end Group

end BigDb.Embed
