import BigDb.Embed.Progress
import Mathlib.Data.Nat.Pairing

/-!
# The queue is attended and drained

While nobody leads, the queue holds only jobs that were answered early. So every waiter has a leader to
wait for, and a `stop` that finds the queue empty and nobody leading has seen every such job through.
-/

namespace BigDb.Embed
open Lib List
variable {ω σ ε : Type}

namespace Group
variable {cfg : GroupConfig} {engine : Engine ω σ ε} {s : Group ω σ ε} {l : Ledger ω σ} {store : σ} {i : Nat}

/-- Whoever is queued while nobody leads has been answered. -/
def Attended (s : Group ω σ ε) : Prop := s.leading = false → ∀ j ∈ s.pending, 0 < s.held j

lemma Touch.leading {s₁ : Group ω σ ε} (touch : s.Touch cfg engine s₁) : s₁.leading = s.leading := by
  cases touch with
  | _ => rfl

lemma Attended.advances (sh : s.Shows l) (att : s.Attended) (fault : Option ε) : (s.advance cfg engine i fault).Attended := by
  unfold advance
  cases h : s.proc i with
  | parked j =>
    dsimp only
    split <;> exact att
  | leading caller carried stage =>
    obtain ⟨flag, -⟩ := sh.leader h
    rcases lead_touch cfg engine s i caller carried fault stage with rfl | ⟨s₁, p, eq, touch⟩
    · dsimp only [lead]
      rw [Attended, Group.handOver, sh.pending]
      rcases elect_eq s.held l.queue sh.queued with ⟨before, x, after, split, -, sync, eq⟩ | ⟨early, eq⟩
      · rw [eq]
        intro free
        simp [setProc, log, setSlot, flag] at free
      · rw [eq]
        intro _ j hj
        obtain ⟨x, hx, rfl⟩ := mem_map.1 hj
        exact early x hx
    dsimp only
    rw [eq]
    intro free
    simp [setProc, touch.leading, flag] at free
  | stopping carried =>
    dsimp only
    split
    · exact fun free => by cases free
    · exact att
  | looking carried =>
    dsimp only
    split <;> exact att
  | returned => exact att

lemma Attended.step (k : Kept engine store s l) (att : s.Attended) {a : Action ω σ ε} (calm : s.Calm a) :
    (s.step cfg engine a).Attended := by
  cases a with
  | submit w ack =>
    rw [Group.step]
    rcases submit_eq cfg engine s w ack with eq | eq | eq
    · rw [eq]
      exact att
    · have bytes := engine.bytes_pos w
      rw [eq]
      intro free j hj
      rcases mem_append.1 hj with old | new
      · rw [k.shows.pending] at old
        obtain ⟨x, hx, rfl⟩ := mem_map.1 old
        have lt := k.lined.lt (x := x) (by simp [Ledger.line, hx])
        rw [k.shows.jobs] at lt
        have early := att free x.1 (by rw [k.shows.pending]; exact mem_map_of_mem hx)
        simpa [log, enter, setSlot, Function.update_of_ne (Nat.ne_of_lt lt)] using early
      · rw [mem_singleton.1 new]
        simp [log, enter, setSlot]
    · rw [eq, submitSync]
      split
      · next flag =>
        intro free
        simp [call, setProc, enter, log, setSlot, flag] at free
      · exact fun free => by cases free
  | flush =>
    simp only [Group.step]
    split
    · exact fun free => by cases free
    · exact att
  | stop | outside state => exact att
  | step i fault => exact att.advances k.shows fault
  | panic call => exact (calm call rfl).elim

lemma Attended.run (h : Run (Group.step cfg engine) Calm (.start store) s) : s.Attended := by
  have both : s.Attended ∧ ∃ l, Kept engine store s l := by
    refine h.run (P := fun s => s.Attended ∧ ∃ l, Kept engine store s l) ⟨?_, _, .start engine store⟩ fun s a calm both => ?_
    · intro _ j hj
      simp [Group.start] at hj
    · obtain ⟨att, l, k⟩ := both
      exact ⟨att.step k calm, k.step calm⟩
  exact both.1

/-! ## Stopping -/

/-- By this step a `stop` returns: its flush has carried nothing, and it finds the queue empty. -/
def Returns (s : Group ω σ ε) (a : Action ω σ ε) : Prop :=
  ∃ i fault carried, a = .step i fault ∧ s.proc i = .looking carried ∧ s.pending = []

/-- Nobody panics, and a `stop` returns while nobody leads. -/
def Orderly (s : Group ω σ ε) (a : Action ω σ ε) : Prop := s.Calm a ∧ (s.Returns a → s.leading = false)

/-- In every run without a panic in which no `stop` returns under a leader: the flag has somebody who takes it
off or on, every waiter is served, the bytes are those of the queue, and `stop` leaves nothing behind. -/
theorem queue_is_attended_and_drained (cfg : GroupConfig) (engine : Engine ω σ ε) (store : σ) (events : Nat → Action ω σ ε)
    (orderly : ∀ n, Orderly (states (step cfg engine) (.start store) events n) (events n)) :
    let state := states (step cfg engine) (.start store) events
    (∀ n, (state n).leading = true → ∃ i, (state n).Leads i) ∧
    (Fair events → ∀ n, (state n).leading = true → ∃ m, n ≤ m ∧ ∃ i caller carried fault,
      (state m).proc i = .leading caller carried .handOver ∧ events m = .step i fault) ∧
    (Fair events → ∀ n, ∀ j ∈ (state n).pending, (state n).held j = 0 →
      (∃ i, (state n).proc i = .parked j) ∧ ¬(state n).Served j ∧ ∃ m, n ≤ m ∧ (state m).Served j) ∧
    (∀ n, (state n).asyncBytes = (state n).queuedBytes engine) ∧
    (∀ n, (state n).Returns (events n) → ∀ j, .acknowledged j ∈ (state n).history →
      j ∈ (state n).committed ∨ .answered j false ∈ (state n).history) ∧
    ∀ n, (state n).asyncFailed = ((state n).history.filter (Event.unheard (state n).held)).length ∧
      ∀ j, 0 < (state n).held j ↔ .acknowledged j ∈ (state n).history := by
  intro state
  have calm := fun n => (orderly n).1
  have leader : ∀ n, (state n).leading = true → ∃ i, (state n).Leads i := by
    intro n flag
    obtain ⟨l, k⟩ := Kept.run (run_states calm n)
    cases k.shows.led with
    | free free => exact absurd flag (by rw [free]; decide)
    | held flag i leads others => exact ⟨i, by rw [Leads, leads]; exact Option.some_ne_none _⟩
  refine ⟨leader, fun fair n flag => ?_, fun fair n j hj sync => ?_, fun n => ?_, fun n returns j early => ?_, fun n => ?_⟩
  · obtain ⟨i, leads⟩ := leader n flag
    exact hands_over rfl calm fair leads
  · obtain ⟨l, k⟩ := Kept.run (run_states calm n)
    have flag : (state n).leading = true := by
      by_contra free
      have early := Attended.run (run_states calm n) (by simpa using free) j hj
      exact absurd sync (Nat.ne_of_gt early)
    obtain ⟨i, leads⟩ := leader n flag
    have queued := hj
    rw [k.shows.pending] at queued
    obtain ⟨x, hx, rfl⟩ := mem_map.1 queued
    have slot := k.shows.queued x hx
    refine ⟨k.shows.waiters x hx sync, ?_, waiter_is_served rfl calm fair leads (k.waits hx sync)⟩
    rintro (⟨w, lead⟩ | ⟨result, done⟩)
    · cases slot.symm.trans lead
    · cases slot.symm.trans done
  · obtain ⟨l, k⟩ := Kept.run (run_states calm n)
    exact k.books.queuedBytes k.shows k.lined
  · obtain ⟨l, k⟩ := Kept.run (run_states calm n)
    have free := (orderly n).2 returns
    obtain ⟨-, -, -, -, -, empty⟩ := returns
    rcases k.early early with done | failed | queued | ⟨i, hand, verdicts, leads, -⟩
    · exact .inl done
    · exact .inr failed
    · have queued : j ∈ (state n).pending := queued
      simp [empty] at queued
    · cases k.shows.led with
      | free flag' hand' verdicts' none => simp [none i] at leads
      | held flag' => simp [free] at flag'
  · obtain ⟨l, k⟩ := Kept.run (run_states calm n)
    exact ⟨k.books.failed, k.books.early⟩

/-- A job is answered early, one leads and one waits, and then the database is stopped. -/
def stopped : List (Action Nat (List Nat) Unit) :=
  [.submit 5 .async, .submit 6 .sync, .submit 7 .sync] ++ replicate 9 (.step 0 none) ++
    [.step 1 none, .stop, .step 2 none, .step 2 none]

/-- The script, and then every call in turn for ever. -/
def stoppedAndIdle (n : Nat) : Action Nat (List Nat) Unit :=
  if h : n < stopped.length then stopped[n] else .step n.unpair.1 none

def isOrderly (s : Group Nat (List Nat) Unit) (a : Action Nat (List Nat) Unit) : Bool :=
  match a with
  | .panic _ => false
  | .step i _ =>
    match s.proc i with
    | .looking _ => !s.pending.isEmpty || !s.leading
    | _ => true
  | _ => true

lemma orderly_of_isOrderly {s : Group Nat (List Nat) Unit} {a : Action Nat (List Nat) Unit} (h : isOrderly s a = true) :
    s.Orderly a := by
  refine ⟨?_, ?_⟩
  · rintro i rfl
    cases h
  · rintro ⟨i, fault, carried, rfl, looking, empty⟩
    simpa [isOrderly, looking, empty] using h

lemma stopped_act (n : Nat) : stoppedAndIdle (16 + n) = .step (16 + n).unpair.1 none := dif_neg (by simp [stopped])

lemma stopped_returned (i : Nat) : (states (step roomy listEngine) (.start []) stoppedAndIdle 16).proc i = .returned := by
  match i with
  | 0 | 1 | 2 | _ + 3 => rfl

lemma stopped_idle (n : Nat) : states (step roomy listEngine) (.start []) stoppedAndIdle (16 + n) =
    states (step roomy listEngine) (.start []) stoppedAndIdle 16 := by
  induction n with
  | zero => rfl
  | succ n ih => rw [← Nat.add_assoc, states, ih, stopped_act, step, advance, stopped_returned]

lemma stopped_fair : Fair stoppedAndIdle := by
  intro i n
  have le := Nat.right_le_pair i (16 + n)
  obtain ⟨m, eq⟩ := Nat.exists_eq_add_of_le (show 16 ≤ Nat.pair i (16 + n) by omega)
  refine ⟨Nat.pair i (16 + n), by omega, none, ?_⟩
  rw [eq, stopped_act, ← eq, Nat.unpair_pair]

lemma stopped_orderly (n : Nat) :
    Orderly (states (step roomy listEngine) (.start []) stoppedAndIdle n) (stoppedAndIdle n) := by
  by_cases lt : n < 16
  · have script : ∀ n < 16, isOrderly (states (step roomy listEngine) (.start []) stoppedAndIdle n) (stoppedAndIdle n) = true := by
      decide +kernel
    exact orderly_of_isOrderly (script n lt)
  · obtain ⟨m, rfl⟩ := Nat.exists_eq_add_of_le (Nat.le_of_not_lt lt)
    refine orderly_of_isOrderly ?_
    rw [stopped_idle, stopped_act]
    simp only [isOrderly, stopped_returned]

theorem queue_is_attended_and_drained_stopped :
    let state := states (step roomy listEngine) (.start []) stoppedAndIdle
    Fair stoppedAndIdle ∧ ((state 3).proc 1 = .parked 2 ∧ ∃ m, 3 ≤ m ∧ (state m).Served 2) ∧
    (state 15).Returns (stoppedAndIdle 15) ∧ ∀ n, (state n).Returns (stoppedAndIdle n) →
      ∀ j, .acknowledged j ∈ (state n).history → j ∈ (state n).committed ∨ .answered j false ∈ (state n).history := by
  intro state
  obtain ⟨-, -, served, -, drained, -⟩ := queue_is_attended_and_drained roomy listEngine [] stoppedAndIdle stopped_orderly
  exact ⟨stopped_fair, ⟨rfl, (served stopped_fair 3 2 (by decide) rfl).2.2⟩, ⟨2, none, 0, rfl, rfl, rfl⟩, drained⟩

/-- A leader panics; and a `stop` returns while a leader has a job in hand. -/
theorem leaderless_flag_and_early_stop :
    (∃ s : Group Nat (List Nat) Unit, Run (step roomy listEngine) (fun _ _ => True) (.start []) s ∧
      s.leading = true ∧ (∀ i, ¬s.Leads i) ∧ s.pending = [1] ∧ s.held 1 = 0) ∧
    ∃ s : Group Nat (List Nat) Unit, Run (step roomy listEngine) Calm (.start []) s ∧
      Precedes (.acknowledged 0) (.stopCalled 1) s.history ∧ .stopReturned 1 ∈ s.history ∧
      s.committed = [] ∧ s.asyncFailed = 0 := by
  refine ⟨⟨_, Run.play (fun _ _ => true) ([.submit 5 .sync, .panic 0, .submit 7 .sync].map fun a _ => a)
      (by decide +kernel) fun _ _ _ => trivial, by decide +kernel, ?_, by decide +kernel, by decide +kernel⟩,
    ⟨_, Run.play (fun _ a => isCalm a) ([.submit 5 .async, .flush, .step 0 none, .step 0 none, .stop, .step 1 none,
      .step 1 none].map fun a _ => a) (by decide +kernel) fun _ _ => calm_of_isCalm,
      ⟨[.submitted 0 5, .acknowledged 0], [.stopCalled 1, .stopReturned 1], rfl, by simp, by simp⟩, ?_,
      by decide +kernel, by decide +kernel⟩⟩
  · intro i leads
    rcases i with _ | _ | i <;> exact leads rfl
  · exact mem_of_getElem? (show _ = _ from rfl : (play (step roomy listEngine) (.start []) _).history[3]? = _)

end Group

end BigDb.Embed
