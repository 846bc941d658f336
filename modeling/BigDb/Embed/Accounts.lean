import BigDb.Embed.Commits

/-!
# What the group counts

A job that was answered early is counted against the ceiling until a leader takes it, and counted again
if it fails after all.
-/

namespace BigDb.Embed
open List Function
variable {ω σ ε : Type}

/-- Nobody is let in by it. -/
def Event.quiet : Event ω σ → Bool
  | .submitted _ _ | .acknowledged _ => false
  | _ => true

/-- A failure that nobody is waiting to hear of. -/
def Event.unheard (held : Nat → Nat) : Event ω σ → Bool
  | .answered j false => 0 < held j
  | _ => false

namespace Group

def queuedBytes (engine : Engine ω σ ε) (s : Group ω σ ε) : Nat :=
  (s.pending.map fun j =>
    match s.slot j with
    | .waiting w => if 0 < s.held j then engine.bytes w else 0
    | _ => 0).sum

variable {cfg : GroupConfig} {engine : Engine ω σ ε} {s s' : Group ω σ ε} {l l' : Ledger ω σ} {i : Nat}

/-! ## What a call does to the rest -/

/-- What a leader does besides going on to its next stage, before it hands over. -/
inductive Touch (cfg : GroupConfig) (engine : Engine ω σ ε) (s : Group ω σ ε) : Group ω σ ε → Prop where
  | none : Touch cfg engine s s
  | take (caller : Caller) : Touch cfg engine s (s.takeGroup cfg engine caller).2
  | commit (state : σ) (jobs : List (Nat × ω)) : Touch cfg engine s (s.commit state jobs)
  | refuse (j : Nat) (w : ω) (stored : Bool) : Touch cfg engine s (s.log (.refused j w stored))
  | settle (j : Nat) (result : Except (ApiError ε) Accepted) : Touch cfg engine s (s.settle j result)

variable (cfg engine s)

/-- An attempt commits its jobs or leaves everything. -/
lemma attempt_touch (jobs : List (Nat × ω)) (fault : Option ε) (agenda : List (List (Nat × ω))) (otherwise : Stage ω ε) :
    s.Touch cfg engine (s.attempt engine jobs fault agenda otherwise).1 := by
  unfold attempt
  split
  · exact .commit ..
  · exact .none

/-- Every stage but the last does one of these. -/
lemma lead_touch (i : Nat) (caller : Caller) (carried : Nat) (fault : Option ε) (stage : Stage ω ε) : stage = .handOver ∨
      ∃ s₁ p, s.lead cfg engine i caller carried fault stage = s₁.setProc i p ∧ s.Touch cfg engine s₁ := by
  cases stage with
  | write => exact .inr ⟨_, _, rfl, .none⟩
  | take => exact .inr ⟨_, _, rfl, .take caller⟩
  | attempt taken => exact .inr ⟨_, _, rfl, attempt_touch ..⟩
  | settle answers agenda =>
    cases answers with
    | nil => exact .inr ⟨_, _, rfl, .none⟩
    | cons x rest => exact .inr ⟨_, _, rfl, .settle ..⟩
  | isolate agenda =>
    match agenda with
    | [] => exact .inr ⟨_, _, rfl, .none⟩
    | [] :: agenda => exact .inr ⟨_, _, rfl, .none⟩
    | [x] :: agenda => exact .inr ⟨_, _, rfl, attempt_touch ..⟩
    | (x :: y :: rest) :: agenda => exact .inr ⟨_, _, rfl, attempt_touch ..⟩
  | alone x agenda =>
    refine .inr ⟨_, _, rfl, ?_⟩
    split
    · exact .commit ..
    · exact .refuse ..
    · exact .refuse ..
  | handOver => exact .inl rfl

variable {cfg engine s}

/-- Jobs are let in by `submit` alone, and failures are counted as they are answered. -/
structure Keeps (s s' : Group ω σ ε) : Prop where
  held : s'.held = s.held
  jobs : s'.jobs = s.jobs
  history : ∃ es, s'.history = s.history ++ es ∧ (∀ e ∈ es, e.quiet = true) ∧
    s'.asyncFailed = s.asyncFailed + (es.filter (Event.unheard s.held)).length

lemma Keeps.same (held : s'.held = s.held) (jobs : s'.jobs = s.jobs) (history : s'.history = s.history)
    (failed : s'.asyncFailed = s.asyncFailed) : s.Keeps s' :=
  ⟨held, jobs, [], by simp [history], by simp, by simp [failed]⟩

lemma Keeps.logs {e : Event ω σ} (held : s'.held = s.held) (jobs : s'.jobs = s.jobs)
    (history : s'.history = s.history ++ [e]) (quiet : e.quiet = true)
    (failed : s'.asyncFailed = s.asyncFailed + ([e].filter (Event.unheard s.held)).length) : s.Keeps s' :=
  ⟨held, jobs, [e], history, by simpa using quiet, failed⟩

lemma Keeps.touch {s₁ : Group ω σ ε} (touch : s.Touch cfg engine s₁) (i : Nat) (p : Proc ω ε) : s.Keeps (s₁.setProc i p) := by
  cases touch with
  | none | take caller => exact .same rfl rfl rfl rfl
  | commit state jobs | refuse j w stored => exact .logs rfl rfl rfl rfl rfl
  | settle j result =>
    refine .logs rfl rfl rfl rfl ?_
    simp only [Group.settle, setProc, log, setSlot]
    cases ok : result.isOk with
    | true => simp [Event.unheard]
    | false =>
      by_cases early : 0 < s.held j <;> simp [Event.unheard, early]

/-- No step of a caller lets a job in. -/
lemma Keeps.advances (s : Group ω σ ε) (i : Nat) (fault : Option ε) : s.Keeps (s.advance cfg engine i fault) := by
  unfold advance
  cases s.proc i with
  | parked j =>
    dsimp only
    split <;> exact .same rfl rfl rfl rfl
  | leading caller carried stage =>
    dsimp only
    rcases lead_touch cfg engine s i caller carried fault stage with rfl | ⟨s₁, p, eq, touch⟩
    · simp only [lead, handOver]
      split
      · exact .logs rfl rfl rfl rfl rfl
      · exact .same rfl rfl rfl rfl
    · rw [eq]
      exact .touch touch i p
  | stopping carried =>
    dsimp only
    split <;> exact .same rfl rfl rfl rfl
  | looking carried =>
    dsimp only
    split
    · exact .logs rfl rfl rfl rfl rfl
    · exact .same rfl rfl rfl rfl
  | returned => exact .same rfl rfl rfl rfl

/-! ## The counts -/

variable (engine s) in
structure Books : Prop where
  weighed : ∀ j w, .submitted j w ∈ s.history → s.held j = 0 ∨ s.held j = engine.bytes w
  known : ∀ j, .acknowledged j ∈ s.history → ∃ w, .submitted j w ∈ s.history
  early : ∀ j, 0 < s.held j ↔ .acknowledged j ∈ s.history
  failed : s.asyncFailed = (s.history.filter (Event.unheard s.held)).length
  bytes : s.asyncBytes = (s.pending.map s.held).sum

lemma Books.keep (b : s.Books engine) (keeps : s.Keeps s') (bytes : s'.asyncBytes = (s'.pending.map s'.held).sum) :
    s'.Books engine := by
  obtain ⟨held, jobs, es, history, quiet, failed⟩ := keeps
  have submitted : ∀ j w, .submitted j w ∈ s'.history → .submitted j w ∈ s.history := by
    intro j w hj
    rw [history, mem_append] at hj
    exact hj.resolve_right fun new => by cases quiet _ new
  have acknowledged : ∀ j, .acknowledged j ∈ s'.history → .acknowledged j ∈ s.history := by
    intro j hj
    rw [history, mem_append] at hj
    exact hj.resolve_right fun new => by cases quiet _ new
  refine ⟨fun j w hj => ?_, fun j hj => ?_, fun j => ?_, ?_, bytes⟩
  · rw [held]
    exact b.weighed j w (submitted j w hj)
  · obtain ⟨w, hw⟩ := b.known j (acknowledged j hj)
    exact ⟨w, by rw [history]; exact mem_append_left _ hw⟩
  · rw [held, b.early j]
    exact ⟨fun h => by rw [history]; exact mem_append_left _ h, acknowledged j⟩
  · rw [failed, held, history, filter_append, length_append, b.failed]

section
variable (b : s.Books engine) (sh : s.Shows l)
include b sh

/-- A job is let in, and answered early if it is counted. -/
lemma Books.enter (p : l.Lined) (w : ω) (h : Nat) (es : List (Event ω σ))
    (held : s'.held = update s.held s.jobs h) (history : s'.history = s.history ++ .submitted s.jobs w :: es)
    (early : .acknowledged s.jobs ∈ es ↔ 0 < h) (own : ∀ e ∈ es, e = .acknowledged s.jobs ∨ e = .elected s.jobs)
    (weight : h = 0 ∨ h = engine.bytes w) (failed : s'.asyncFailed = s.asyncFailed)
    (bytes : s'.asyncBytes = (s'.pending.map s'.held).sum) : s'.Books engine := by
  have below : ∀ e ∈ s.history, ∀ j, e.Mentions j → j ≠ s.jobs := by
    intro e he j m
    have := p.below e (sh.history ▸ he) j m
    rw [sh.jobs] at this
    omega
  have old : ∀ j, j ≠ s.jobs → s'.held j = s.held j := fun j ne => by rw [held, update_of_ne ne]
  have new : s'.held s.jobs = h := by rw [held, update_self]
  refine ⟨fun j w' hj => ?_, fun j hj => ?_, fun j => ?_, ?_, bytes⟩
  · rw [history, mem_append, mem_cons] at hj
    rcases hj with hj | hj | hj
    · rw [old j (below _ hj j rfl)]
      exact b.weighed j w' hj
    · cases hj
      rw [new]
      exact weight
    · rcases own _ hj with h | h <;> cases h
  · rw [history]
    rw [history, mem_append, mem_cons] at hj
    rcases hj with hj | hj | hj
    · obtain ⟨w', hw'⟩ := b.known j hj
      exact ⟨w', mem_append_left _ hw'⟩
    · cases hj
    · rcases own _ hj with h | h
      · cases h
        exact ⟨w, by simp⟩
      · cases h
  · by_cases here : j = s.jobs
    · subst here
      have fresh : .acknowledged s.jobs ∉ s.history := fun mem => below _ mem _ rfl rfl
      rw [new, ← early, history]
      simp [fresh]
    rw [old j here, b.early j, history]
    have none : .acknowledged j ∉ es := fun mem => by
      rcases own _ mem with h | h
      · exact here (Event.acknowledged.inj h)
      · cases h
    simp [none]
  · have same : s.history.filter (Event.unheard s'.held) = s.history.filter (Event.unheard s.held) := by
      refine filter_congr fun e he => ?_
      cases e with
      | answered j ok =>
        cases ok with
        | true => rfl
        | false => simp only [Event.unheard, old j (below _ he j rfl)]
      | _ => rfl
    have none : es.filter (Event.unheard s'.held) = [] := by
      rw [filter_eq_nil_iff]
      intro e he
      rcases own e he with rfl | rfl <;> simp [Event.unheard]
    rw [failed, b.failed, history, filter_append, same]
    simp [Event.unheard, none]

omit b in
/-- A new job takes no bytes of those in the queue. -/
lemma sum_held_enter (p : l.Lined) (h : Nat) :
    (s.pending.map (update s.held s.jobs h)).sum = (s.pending.map s.held).sum := by
  congr 1
  refine map_congr_left fun j hj => ?_
  rw [sh.pending] at hj
  obtain ⟨x, hx, rfl⟩ := mem_map.1 hj
  have lt := p.lt (x := x) (by simp [Ledger.line, hx])
  rw [sh.jobs] at lt
  exact update_of_ne (Nat.ne_of_lt lt) ..

omit b sh in
lemma foldl_sub (held : Nat → Nat) (taken : List (Nat × ω)) (bytes : Nat) :
    taken.foldl (fun bytes x => bytes - held x.1) bytes = bytes - (taken.map fun x => held x.1).sum := by
  induction taken generalizing bytes with
  | nil => simp
  | cons x taken ih =>
    rw [foldl_cons, ih, map_cons, sum_cons]
    omega

/-- The bytes of the jobs taken are given back. -/
lemma Books.take (caller : Caller) : (s.takeGroup cfg engine caller).2.asyncBytes =
      ((s.takeGroup cfg engine caller).2.pending.map (s.takeGroup cfg engine caller).2.held).sum := by
  obtain ⟨taken, left, split, eq⟩ := takeLoop_eq cfg engine l.queue sh.queued
    (s.ownWork caller).length ((s.ownWork caller).map fun x => engine.weight x.2).sum
  have bytes := b.bytes
  rw [sh.pending, split] at bytes
  simp only [map_append, map_map, sum_append] at bytes
  rw [takeGroup, sh.pending]
  simp only [eq, foldl_sub, bytes, map_map]
  exact Nat.add_sub_cancel_left ..

/-- A step of a caller keeps the books. -/
lemma Books.advances (i : Nat) (fault : Option ε) : (s.advance cfg engine i fault).Books engine := by
  refine b.keep (.advances ..) ?_
  unfold advance
  cases s.proc i with
  | parked j =>
    dsimp only
    split <;> exact b.bytes
  | leading caller carried stage =>
    dsimp only
    rcases lead_touch cfg engine s i caller carried fault stage with rfl | ⟨s₁, p, eq, touch⟩
    · have bytes := b.bytes
      dsimp only [lead, setProc]
      rw [Group.handOver, sh.pending]
      rcases elect_eq s.held l.queue sh.queued with ⟨before, x, after, split, -, sync, eq⟩ | ⟨early, eq⟩
      · rw [sh.pending, split] at bytes
        rw [eq]
        simp only [setSlot, log, bytes, map_append, map_cons, sum_append, sum_cons, sync]
        omega
      · rw [eq, bytes, sh.pending]
    rw [eq]
    cases touch with
    | take caller => exact b.take sh caller
    | _ => exact b.bytes
  | stopping carried | looking carried =>
    dsimp only
    split <;> exact b.bytes
  | returned => exact b.bytes

/-- A job whose caller waits holds no bytes. -/
lemma Books.submits (p : l.Lined) (w : ω) : (s.submitSync w).Books engine := by
  unfold submitSync
  split
  · refine b.enter sh p w 0 [] rfl rfl (by simp) (by simp) (.inl rfl) rfl ?_
    have same := sum_held_enter sh p 0
    simp only [Group.enter, log, setSlot, call, setProc, map_append, sum_append, same, b.bytes]
    simp
  · refine b.enter sh p w 0 [.elected s.jobs] rfl ?_ (by simp) (by simp) (.inl rfl) rfl ?_
    · simp [Group.enter, log, setSlot, call, setProc]
    · have same := sum_held_enter sh p 0
      simp only [Group.enter, log, setSlot, call, setProc, same, b.bytes]

lemma Books.step (p : l.Lined) (a : Action ω σ ε) (calm : ∀ i, a ≠ .panic i) :
    (s.step cfg engine a).Books engine := by
  cases a with
  | submit w ack =>
    have pos := engine.bytes_pos w
    have away : s.turnAway.Books engine :=
      ⟨fun j w hj => b.weighed j w (by simpa [turnAway, log] using hj), fun j hj => by
        simpa [turnAway, log] using b.known j (by simpa [turnAway, log] using hj), fun j => by
        simpa [turnAway, log] using b.early j, by simpa [turnAway, log, Event.unheard] using b.failed, b.bytes⟩
    simp only [Group.step, submit]
    split
    · exact away
    split
    · split
      · refine b.enter sh p w (max (engine.bytes w) 1) [.acknowledged s.jobs] rfl ?_
          ⟨fun _ => by omega, fun _ => mem_singleton_self _⟩ (by simp) (.inr (by omega)) rfl ?_
        · simp [Group.enter, log, setSlot]
        · have same := sum_held_enter sh p (max (engine.bytes w) 1)
          simp only [Group.enter, log, setSlot, map_append, sum_append, same, b.bytes, map_cons, map_nil,
            update_self, sum_cons, sum_nil]
          omega
      · split
        · exact away
        · exact b.submits sh p w
    · exact b.submits sh p w
  | flush =>
    simp only [Group.step]
    split <;> exact b.keep (.same rfl rfl rfl rfl) b.bytes
  | stop | outside state => exact b.keep (.logs rfl rfl rfl rfl rfl) b.bytes
  | step call fault => exact b.advances sh call fault
  | panic call => exact (calm call rfl).elim

/-- What is held for the jobs that are queued is what they are long. -/
lemma Books.queuedBytes (p : l.Lined) : s.asyncBytes = s.queuedBytes engine := by
  rw [b.bytes, Group.queuedBytes]
  congr 1
  refine map_congr_left fun j hj => ?_
  rw [sh.pending] at hj
  obtain ⟨x, hx, rfl⟩ := mem_map.1 hj
  have entered := p.entered x (by simp [Ledger.line, hx])
  rw [sh.history] at entered
  rw [sh.queued x hx]
  rcases b.weighed _ _ entered with zero | weight
  · simp [zero]
  · have := engine.bytes_pos x.2
    simp [weight, this]

end

end Group

end BigDb.Embed
