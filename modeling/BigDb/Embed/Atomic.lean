import BigDb.Embed.Accounts

/-!
# What a caller can rely on

Every run of the group without a panic keeps a ledger. From the ledger: a job is committed at most once
and as a whole, an answer says what became of the job, and jobs take effect in the order in which their
callers heard of them.
-/

namespace BigDb.Embed
open Lib List Prod
variable {ω σ ε : Type}

namespace Group
variable {cfg : GroupConfig} {engine : Engine ω σ ε} {s : Group ω σ ε} {l : Ledger ω σ} {store : σ}

def Calm (_ : Group ω σ ε) (a : Action ω σ ε) : Prop := ∀ i, a ≠ .panic i

/-- The ledger that goes with a state, with all that is known of it. -/
structure Kept (engine : Engine ω σ ε) (store : σ) (s : Group ω σ ε) (l : Ledger ω σ) : Prop where
  shows : s.Shows l
  lined : l.Lined
  fates : l.Fates engine store
  ordered : l.Ordered
  books : s.Books engine

lemma Kept.start (engine : Engine ω σ ε) (store : σ) : Kept engine store (start store) (.start store) where
  shows := by
    refine ⟨rfl, rfl, rfl, rfl, ?_, .free rfl rfl rfl fun i => rfl, ⟨?_, ?_, fun _ _ => rfl⟩, ?_⟩
    all_goals simp [Ledger.start, Group.start, Proc.job]
  lined := .start store
  fates := .start engine store
  ordered := .start store
  books := by
    constructor <;> simp [Group.start]

lemma Kept.step (k : Kept engine store s l) {a : Action ω σ ε} (calm : s.Calm a) :
    ∃ l', Kept engine store (s.step cfg engine a) l' := by
  have books : (s.step cfg engine a).Books engine := k.books.step k.shows k.lined a calm
  have follows : Follows engine l (s.step cfg engine a) := k.shows.step k.lined k.fates a calm
  obtain ⟨l', rfl | move, shows⟩ := follows
  · exact ⟨l', shows, k.lined, k.fates, k.ordered, books⟩
  · exact ⟨l', shows, k.lined.move move, k.fates.move k.lined move, k.ordered.move k.lined move, books⟩

lemma Kept.run (h : Run (Group.step cfg engine) Calm (.start store) s) : ∃ l, Kept engine store s l := by
  refine h.run (P := fun s => ∃ l, Kept engine store s l) ⟨_, .start engine store⟩ fun s a calm kept => ?_
  obtain ⟨l, k⟩ := kept
  exact k.step calm

/-! ## Outcomes -/

/-- The jobs that are committed, in the order in which they took effect. -/
def committed (s : Group ω σ ε) : List Nat := (carried s.history).map fst

/-- A job that is queued, or that a leader has. -/
def Unsettled (s : Group ω σ ε) (j : Nat) : Prop :=
  j ∈ s.pending ∨ ∃ i hand verdicts, s.turn i = some (hand, verdicts) ∧
    (j ∈ hand.map fst ∨ j ∈ verdicts.map fst)

structure Outcomes (engine : Engine ω σ ε) (store : σ) (s : Group ω σ ε) : Prop where
  /-- the store is what the commits left, each of which applied all of its jobs to the state before it -/
  replayed : s.store = replay engine store s.history
  applied : Always (fun past e => ∀ jobs, e = .committed jobs →
    (applyRange engine (replay engine store past) jobs).isSome = true) s.history
  once : s.committed.Nodup
  submitted : ∀ x ∈ carried s.history, .submitted x.1 x.2 ∈ s.history
  /-- an answer comes after the commit -/
  accepted : Always (fun past e => ∀ j, e = .answered j true → j ∈ (carried past).map fst) s.history
  refused : ∀ j, .answered j false ∈ s.history ∨ .turnedAway j ∈ s.history → j ∉ s.committed
  /-- what is refused was tried by itself, and failed: the job, or else the commit of that one job -/
  byItself : Always (fun past e => ∀ j, e = .answered j false → ∃ w stored, .refused j w stored ∈ past) s.history
  alone : Always (fun past e => ∀ j w stored, e = .refused j w stored →
    .submitted j w ∈ past ∧ (stored = false → ∃ e, engine.applyOne (replay engine store past) w = .error e)) s.history
  /-- what was answered early is committed, or has failed and is counted, or is on its way -/
  early : ∀ j, .acknowledged j ∈ s.history → j ∈ s.committed ∨ .answered j false ∈ s.history ∨ s.Unsettled j
  counted : s.asyncFailed = (s.history.filter (Event.unheard s.held)).length
  marked : ∀ j, 0 < s.held j ↔ .acknowledged j ∈ s.history
  inOrder : ∀ a b w, Precedes (.answered a true) (.submitted b w) s.history → b ∈ s.committed → Precedes a b s.committed
  inOrderEarly : ∀ a b w, Precedes (.acknowledged a) (.submitted b w) s.history → Ledger.NotAhead a b s.history →
    b ∈ s.committed → Precedes a b s.committed ∨ ∃ w stored, .refused a w stored ∈ s.history

section
variable (k : Kept engine store s l)
include k

variable {w : ω} {j : Nat}

lemma Kept.unsettled (h : j ∈ l.queue.map fst ∨ j ∈ l.hand.map fst ∨ j ∈ l.verdicts.map fst) : s.Unsettled j := by
  rcases h with queued | busy
  · exact .inl (k.shows.pending ▸ queued)
  cases k.shows.led with
  | free flag hand verdicts none =>
    rw [hand, verdicts] at busy
    simp at busy
  | held flag i leads others => exact .inr ⟨i, _, _, leads, busy⟩

lemma Kept.early (h : .acknowledged j ∈ s.history) :
    j ∈ s.committed ∨ .answered j false ∈ s.history ∨ s.Unsettled j := by
  obtain ⟨w, entered⟩ := k.books.known j h
  have history := k.shows.history
  rw [← history] at entered
  by_cases answered : ∃ ok, .answered j ok ∈ l.history
  · obtain ⟨ok, answered⟩ := answered
    cases ok with
    | true =>
      obtain ⟨past, rest, split, done⟩ := k.fates.justified.of_mem answered
      refine .inl ?_
      rw [committed, ← history, split, carried_append, map_append]
      exact mem_append_left _ done
    | false => exact .inr (.inl (history ▸ answered))
  · exact .inr (.inr (k.unsettled (k.fates.pending entered fun ok h => answered ⟨ok, h⟩)))

/-- A job that was not submitted yet is not committed. -/
lemma Kept.later {h₁ h₂ : List (Event ω σ)} (split : s.history = h₁ ++ h₂) {b : Nat}
    (later : .submitted b w ∈ h₂) : b ∉ (carried h₁).map fst := by
  intro mem
  obtain ⟨x, hx, rfl⟩ := mem_map.1 mem
  obtain ⟨e, he, carries⟩ := mem_flatMap.1 hx
  obtain ⟨h₃, h₄, rfl⟩ := append_of_mem later
  have justified := k.fates.justified
  rw [k.shows.history, split, ← append_assoc] at justified
  refine justified _ _ _ rfl e (mem_append_left _ he) ?_
  cases e with
  | committed jobs => exact mem_map_of_mem carries
  | _ => simp [Event.carries] at carries

lemma Kept.inOrder {a b : Nat}
    (before : Precedes (.answered a true) (.submitted b w) s.history) (hb : b ∈ s.committed) : Precedes a b s.committed := by
  obtain ⟨h₁, h₂, split, answered, later⟩ := before
  have notYet := k.later split later
  obtain ⟨h₃, h₄, rfl⟩ := append_of_mem answered
  have justified := k.fates.justified
  rw [k.shows.history, split, append_assoc, cons_append] at justified
  have done : a ∈ (carried h₃).map fst := justified h₃ _ _ rfl
  rw [committed, split, carried_append, map_append] at hb ⊢
  refine .across ?_ ((mem_append.1 hb).resolve_left notYet)
  rw [carried_append, map_append]
  exact mem_append_left _ done

lemma Kept.inOrderEarly {a b : Nat}
    (before : Precedes (.acknowledged a) (.submitted b w) s.history) (notAhead : Ledger.NotAhead a b s.history)
    (hb : b ∈ s.committed) : Precedes a b s.committed ∨ ∃ w stored, .refused a w stored ∈ s.history := by
  obtain ⟨wa, entered⟩ := k.books.known a before.left
  have nodup := k.lined.nodup
  rw [← k.shows.history] at before notAhead entered
  rw [committed, ← k.shows.history] at hb ⊢
  refine (k.fates.lined entered).imp_left fun ha => ?_
  have ordered := k.ordered a b w before notAhead ha (Ledger.mem_line hb)
  rw [Ledger.line, append_assoc, map_append] at ordered nodup
  rcases precedes_append.1 ordered with inside | ⟨-, behind⟩ | behind
  · exact inside
  · exact ((nodup_append.1 nodup).2.2 b hb b behind rfl).elim
  · exact ((nodup_append.1 nodup).2.2 b hb b behind.right rfl).elim

end

/-- What callers hear is what becomes of their jobs, in every run without a panic. -/
theorem group_commit_keeps_its_word (cfg : GroupConfig) (engine : Engine ω σ ε) (store : σ) {s : Group ω σ ε}
    (h : Run (step cfg engine) Calm (.start store) s) : s.Outcomes engine store := by
  obtain ⟨l, k⟩ := Kept.run h
  have history := k.shows.history
  have justified := k.fates.justified
  have line : ∀ {x}, x ∈ carried l.history → x ∈ l.line := fun hx => by simp [Ledger.line, hx]
  constructor
  case replayed => rw [← k.shows.store, k.fates.store, history]
  case applied =>
    rw [← history]
    refine justified.imp fun past e just jobs he => ?_
    subst he
    exact just
  case once =>
    have nodup := k.lined.nodup
    rw [Ledger.line, append_assoc, map_append, history] at nodup
    exact (nodup_append.1 nodup).1
  case submitted =>
    rw [← history]
    exact fun x hx => k.lined.entered x (line hx)
  case accepted =>
    rw [← history]
    refine justified.imp fun past e just j he => ?_
    subst he
    exact just
  case refused =>
    rw [committed, ← history]
    intro j hj
    rcases hj with failed | turned
    · exact fun mem => k.fates.failed j failed (Ledger.mem_line mem)
    · exact fun mem => k.fates.turned j turned (Ledger.mem_line mem)
  case byItself =>
    rw [← history]
    refine justified.imp fun past e just j he => ?_
    subst he
    exact just
  case alone =>
    rw [← history]
    refine justified.imp fun past e just j w stored he => ?_
    subst he
    exact just
  case early => exact fun j => k.early
  case counted => exact k.books.failed
  case marked => exact k.books.early
  case inOrder => exact fun a b w => k.inOrder
  case inOrderEarly => exact fun a b w => k.inOrderEarly

/-- A database that is the list of what was written, and refuses to write 0. -/
def listEngine : Engine Nat (List Nat) Unit where
  weight _ := 1
  bytes _ := 1
  bytes_pos _ := Nat.one_pos
  applyOne state w := if w = 0 then .error () else .ok (state ++ [w], 1)

/-- Groups of up to eight jobs, with early answers. -/
def roomy : GroupConfig where
  maxJobs := 8
  maxFacts := 100
  asyncWrites := true
  maxAsyncBytes := 100
  whenFull := .block

def isCalm (a : Action Nat (List Nat) Unit) : Bool :=
  match a with
  | .panic _ => false
  | _ => true

lemma calm_of_isCalm {s : Group Nat (List Nat) Unit} {a : Action Nat (List Nat) Unit} (h : isCalm a = true) : s.Calm a := by
  rintro i rfl
  cases h

/-- A leader with a group of three, one of which fails. -/
def mixedGroup : List (Group Nat (List Nat) Unit → Action Nat (List Nat) Unit) :=
  [.submit 5 .sync, .submit 0 .sync, .submit 7 .async].map (fun a _ => a) ++ replicate 18 fun _ => .step 0 none

theorem group_commit_keeps_its_word_mixed :
    let s := play (step roomy listEngine) (.start []) mixedGroup
    s.Outcomes listEngine [] ∧ s.committed = [0, 2] ∧ s.store = [5, 7] ∧ s.leading = false :=
  ⟨group_commit_keeps_its_word roomy listEngine []
    (Run.play (fun _ a => isCalm a) mixedGroup (by decide +kernel) fun _ _ => calm_of_isCalm),
    by decide +kernel, by decide +kernel, by decide +kernel⟩

/-! ## What an early answer does not promise -/

/-- A job is answered early; another one is submitted after that, and leads. -/
def overtaken : List (Group Nat (List Nat) Unit → Action Nat (List Nat) Unit) :=
  [.submit 5 .async, .submit 7 .sync].map (fun a _ => a) ++ replicate 7 fun _ => .step 0 none

/-- A job that will fail is answered early. -/
def promised : List (Group Nat (List Nat) Unit → Action Nat (List Nat) Unit) :=
  [.submit 0 .async, .flush].map (fun a _ => a) ++ replicate 9 fun _ => .step 0 none

/-- A job that was answered early is committed after one that was submitted later, and another one is not
committed at all. -/
theorem early_answer_is_overtaken_or_taken_back :
    (∃ s : Group Nat (List Nat) Unit, Run (step roomy listEngine) Calm (.start []) s ∧
      Precedes (.acknowledged 0) (.submitted 1 7) s.history ∧ s.committed = [1, 0] ∧ s.store = [7, 5]) ∧
    ∃ s : Group Nat (List Nat) Unit, Run (step roomy listEngine) Calm (.start []) s ∧
      .acknowledged 0 ∈ s.history ∧ .answered 0 false ∈ s.history ∧ s.committed = [] ∧ s.store = [] := by
  refine ⟨⟨_, Run.play (fun _ a => isCalm a) overtaken (by decide +kernel) fun _ _ => calm_of_isCalm,
      ⟨[.submitted 0 5, .acknowledged 0], [.submitted 1 7, .elected 1, .committed [(1, 7), (0, 5)], .answered 1 true,
        .answered 0 true], rfl, by simp, by simp⟩, by decide +kernel, by decide +kernel⟩,
    ⟨_, Run.play (fun _ a => isCalm a) promised (by decide +kernel) fun _ _ => calm_of_isCalm, ?_⟩⟩
  have history : (play (step roomy listEngine) (.start []) promised).history =
      [.submitted 0 0, .acknowledged 0, .refused 0 0 false, .answered 0 false] := rfl
  rw [history]
  exact ⟨by simp, by simp, by decide +kernel, by decide +kernel⟩

end Group

end BigDb.Embed
