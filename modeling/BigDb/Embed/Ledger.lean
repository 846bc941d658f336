import BigDb.Embed.Group
import BigDb.Lib.History
import BigDb.Lib.Runs

/-!
# Where every job is

What the queue is for: a job that is let in is queued, then in the hands of a leader, and then committed
or refused, and answered. Jobs keep their order on the way, but for one that is made leader: it goes to
the front of everything that is not committed yet.
-/

namespace BigDb.Embed
open Lib List Always Prod
variable {ω σ ε : Type}

structure Ledger (ω σ : Type) where
  queue : List (Nat × ω)
  /-- jobs that a leader has, the first one next -/
  hand : List (Nat × ω)
  /-- jobs that are committed or refused, and not answered yet -/
  verdicts : List (Nat × Bool)
  history : List (Event ω σ)
  jobs : Nat
  store : σ

/-- The jobs an event commits. -/
def Event.carries : Event ω σ → List (Nat × ω)
  | .committed jobs => jobs
  | _ => []

/-- The jobs that are committed, in order. -/
def carried (history : List (Event ω σ)) : List (Nat × ω) := history.flatMap Event.carries

@[simp] lemma carried_nil : carried ([] : List (Event ω σ)) = [] := rfl

@[simp] lemma carried_append (h h' : List (Event ω σ)) : carried (h ++ h') = carried h ++ carried h' :=
  flatMap_append ..

@[simp] lemma carried_cons (e : Event ω σ) (h : List (Event ω σ)) : carried (e :: h) = e.carries ++ carried h :=
  flatMap_cons ..

def Event.Mentions (j : Nat) : Event ω σ → Prop
  | .submitted i _ | .acknowledged i | .turnedAway i | .elected i | .refused i _ _ | .answered i _ => i = j
  | .committed jobs => j ∈ jobs.map fst
  | _ => False

variable (engine : Engine ω σ ε)

/-- The state that a history leaves. -/
def replay (first : σ) (history : List (Event ω σ)) : σ :=
  history.foldl (fun state e =>
    match e with
    | .committed jobs => ((Group.applyRange engine state jobs).map fst).getD state
    | .outside state => state
    | _ => state) first

lemma replay_append (first : σ) (h h' : List (Event ω σ)) :
    replay engine first (h ++ h') = replay engine (replay engine first h) h' := foldl_append ..

namespace Ledger

def start (store : σ) : Ledger ω σ := ⟨[], [], [], [], 0, store⟩

/-- Every job that is or will be committed, in that order. -/
def line (l : Ledger ω σ) : List (Nat × ω) := carried l.history ++ l.hand ++ l.queue

variable {j : Nat} {engine} {first : σ} {l l' : Ledger ω σ} {x : Nat × ω}

lemma mem_line {l : Ledger ω σ} (h : j ∈ (carried l.history).map fst) : j ∈ l.line.map fst := by
  rw [line, map_append, map_append]
  exact mem_append_left _ (mem_append_left _ h)

/-- What can happen to jobs. -/
inductive Move (engine : Engine ω σ ε) (l : Ledger ω σ) : Ledger ω σ → Prop where
  | enqueue (w : ω) (early : List (Event ω σ)) (he : early = [] ∨ early = [.acknowledged l.jobs]) :
      Move engine l { l with
        queue := l.queue ++ [(l.jobs, w)]
        jobs := l.jobs + 1
        history := l.history ++ [.submitted l.jobs w] ++ early }
  | lead (w : ω) (free : l.hand = []) :
      Move engine l { l with
        hand := [(l.jobs, w)]
        jobs := l.jobs + 1
        history := l.history ++ [.submitted l.jobs w] ++ [.elected l.jobs] }
  | turnAway : Move engine l { l with jobs := l.jobs + 1, history := l.history ++ [.turnedAway l.jobs] }
  | take {taken left : List (Nat × ω)} (split : l.queue = taken ++ left) :
      Move engine l { l with hand := l.hand ++ taken, queue := left }
  | commit {jobs rest : List (Nat × ω)} {state : σ} {counts : List Nat} (split : l.hand = jobs ++ rest)
      (none : l.verdicts = []) (applies : Group.applyRange engine l.store jobs = some (state, counts)) :
      Move engine l { l with
        hand := rest
        verdicts := jobs.map fun x => (x.1, true)
        store := state
        history := l.history ++ [.committed jobs] }
  | refuse {x : Nat × ω} {rest : List (Nat × ω)} {stored : Bool} (split : l.hand = x :: rest) (none : l.verdicts = [])
      (why : stored = false → ∃ e, engine.applyOne l.store x.2 = .error e) :
      Move engine l { l with
        hand := rest
        verdicts := [(x.1, false)]
        history := l.history ++ [.refused x.1 x.2 stored] }
  | answer {j : Nat} {ok : Bool} {rest : List (Nat × Bool)} (split : l.verdicts = (j, ok) :: rest) :
      Move engine l { l with verdicts := rest, history := l.history ++ [.answered j ok] }
  | elect {before after : List (Nat × ω)} {x : Nat × ω} (split : l.queue = before ++ x :: after) (free : l.hand = []) :
      Move engine l { l with
        hand := [x]
        queue := before ++ after
        history := l.history ++ [.elected x.1] }
  | outside (state : σ) : Move engine l { l with store := state, history := l.history ++ [.outside state] }
  | note (e : Event ω σ) (silent : ∀ j, ¬e.Mentions j) (keeps : ∀ state, replay engine state [e] = state) :
      Move engine l { l with history := l.history ++ [e] }

/-! ## Places -/

/-- No job is in the line twice, and those that are were let in. -/
structure Lined (l : Ledger ω σ) : Prop where
  nodup : (l.line.map fst).Nodup
  entered : ∀ x ∈ l.line, .submitted x.1 x.2 ∈ l.history
  below : ∀ e ∈ l.history, ∀ j, e.Mentions j → j < l.jobs
  decided : ∀ x ∈ l.verdicts, x.1 < l.jobs

lemma Lined.lt (p : l.Lined) (hx : x ∈ l.line) : x.1 < l.jobs := p.below _ (p.entered x hx) x.1 rfl

lemma Lined.fresh (p : l.Lined) : l.jobs ∉ l.line.map fst := by
  intro mem
  obtain ⟨x, hx, same⟩ := mem_map.1 mem
  have := p.lt hx
  omega

/-- A job stands in the queue once. -/
lemma Lined.other (p : l.Lined) {before after : List (Nat × ω)} {x y : Nat × ω} (split : l.queue = before ++ x :: after)
    (hy : y ∈ before ++ after) : y.1 ≠ x.1 := by
  have nodup := p.nodup
  rw [line, split, map_append] at nodup
  have queue := (nodup_append.1 nodup).2.1
  rw [map_append, map_cons, perm_middle.nodup_iff, nodup_cons, ← map_append] at queue
  intro same
  exact queue.1 (same ▸ mem_map_of_mem hy)

/-- What a move does to the line. -/
inductive Shift (l l' : Ledger ω σ) : Prop where
  | same (line : l'.line = l.line)
  | less {before after : List (Nat × ω)} {x : Nat × ω} (was : l.line = before ++ x :: after)
      (line : l'.line = before ++ after)
  | more (w : ω) {before after : List (Nat × ω)} (was : l.line = before ++ after)
      (line : l'.line = before ++ (l.jobs, w) :: after) (entered : .submitted l.jobs w ∈ l'.history)
      (place : after = [] ∨ before = carried l.history ∧
        l'.history = l.history ++ [.submitted l.jobs w] ++ [.elected l.jobs])
  /-- a job goes ahead of those that are not committed -/
  | ahead {before after : List (Nat × ω)} {x : Nat × ω} (was : l.line = carried l.history ++ before ++ x :: after)
      (line : l'.line = carried l.history ++ x :: (before ++ after))
      (elected : l'.history = l.history ++ [.elected x.1])

section
variable (move : Move engine l l')
include move

lemma Move.shift : Shift l l' := by
  cases move with
  | enqueue w early he =>
    refine .more w (append_nil _).symm ?_ (by simp) (.inl rfl)
    rcases he with rfl | rfl <;> simp [line, Event.carries, carried]
  | lead w free =>
    have was : l.line = carried l.history ++ l.queue := by simp [line, free]
    exact .more w was (by simp [line, Event.carries, carried]) (by simp) (.inr ⟨rfl, rfl⟩)
  | turnAway | answer split | outside state => exact .same (by simp [line, Event.carries])
  | take split => exact .same (by simp [line, split])
  | commit split none applies => exact .same (by simp [line, split, Event.carries])
  | @refuse x rest stored split none why =>
    have was : l.line = carried l.history ++ x :: (rest ++ l.queue) := by simp [line, split]
    exact .less was (by simp [line, Event.carries])
  | @elect before after x split free =>
    have was : l.line = carried l.history ++ before ++ x :: after := by simp [line, split, free]
    exact .ahead was (by simp [line, Event.carries]) rfl
  | note e silent keeps =>
    refine .same ?_
    cases e with
    | committed jobs =>
      cases jobs with
      | nil => simp [line, Event.carries]
      | cons x rest => exact absurd (by simp [Event.Mentions]) (silent x.1)
    | _ => simp [line, Event.carries]

lemma Move.history : ∃ es, l'.history = l.history ++ es := by
  cases move with
  | enqueue w early he | lead w free => exact ⟨_, append_assoc ..⟩
  | take split => exact ⟨[], by simp⟩
  | _ => exact ⟨_, rfl⟩

lemma Move.jobs_le : l.jobs ≤ l'.jobs := by
  cases move with
  | enqueue | lead | turnAway => exact Nat.le_succ _
  | _ => exact Nat.le_refl _

omit move in
lemma Shift.mem (shift : Shift l l') (hx : x ∈ l'.line) : x ∈ l.line ∨ x.1 = l.jobs := by
  cases shift with
  | same line => exact .inl (line ▸ hx)
  | less was line | more w was line | ahead was line => grind

/-- Only jobs that were let in are spoken of. -/
lemma Lined.mentions (p : l.Lined) {e : Event ω σ} (he : e ∈ l'.history) (m : e.Mentions j) : j < l'.jobs := by
  have le := move.jobs_le
  have old : ∀ {e}, e ∈ l.history → e.Mentions j → j < l'.jobs := fun he m => Nat.lt_of_lt_of_le (p.below _ he _ m) le
  have lined : ∀ {x}, x ∈ l.line → x.1 < l'.jobs := fun hx => Nat.lt_of_lt_of_le (p.lt hx) le
  cases move with
  | enqueue w early he' =>
    rcases he' with rfl | rfl
    all_goals simp only [mem_append, mem_singleton, not_mem_nil, or_false] at he
    all_goals grind [Event.Mentions]
  | take split => exact old he m
  | commit split none applies =>
    rcases mem_concat.1 he with he | rfl
    · exact old he m
    · obtain ⟨x, hx, rfl⟩ := mem_map.1 m
      exact lined (by simp [line, split, hx])
  | refuse split none why | elect split free =>
    rcases mem_concat.1 he with he | rfl
    · exact old he m
    · cases m
      exact lined (by simp [line, split])
  | answer split =>
    rcases mem_concat.1 he with he | rfl
    · exact old he m
    · cases m
      exact p.decided _ (by rw [split]; exact mem_cons_self)
  | _ =>
    grind [Event.Mentions]

lemma Lined.verdict (p : l.Lined) {x : Nat × Bool} (hx : x ∈ l'.verdicts) : x.1 < l'.jobs := by
  have le := move.jobs_le
  have old : x ∈ l.verdicts → x.1 < l'.jobs := fun hx => Nat.lt_of_lt_of_le (p.decided x hx) le
  cases move with
  | commit split none applies =>
    obtain ⟨y, hy, rfl⟩ := mem_map.1 hx
    exact p.lt (x := y) (by simp [line, split, hy])
  | @refuse y rest stored split none why =>
    cases mem_singleton.1 hx
    exact p.lt (x := y) (by simp [line, split])
  | answer split => exact old (split ▸ mem_cons_of_mem _ hx)
  | _ => exact old hx

end

lemma Lined.move (p : l.Lined) (move : Move engine l l') : l'.Lined := by
  have shift := move.shift
  obtain ⟨es, history⟩ := move.history
  have old : ∀ {x}, x ∈ l.line → .submitted x.1 x.2 ∈ l'.history := fun hx => by
    rw [history]
    exact mem_append_left _ (p.entered _ hx)
  refine ⟨?_, fun x hx => ?_, fun e he j m => p.mentions move he m, fun x hx => p.verdict move hx⟩
  · have nodup := p.nodup
    have fresh := p.fresh
    cases shift with
    | same line => rwa [line]
    | less was line =>
      rw [was] at nodup
      rw [line]
      exact nodup.sublist (by simp)
    | more w was line =>
      rw [was] at nodup fresh
      rw [line]
      simp only [map_append, map_cons] at *
      exact perm_middle.nodup_iff.2 (nodup_cons.2 ⟨fresh, nodup⟩)
    | ahead was line =>
      rw [was] at nodup
      rw [line]
      rw [append_assoc] at nodup
      exact ((perm_middle.append_left _).map _).nodup_iff.1 nodup
  · cases shift with
    | same line => exact old (line ▸ hx)
    | less was line | ahead was line => exact old (by grind)
    | more w was line entered =>
      rw [line] at hx
      by_cases new : x = (l.jobs, w)
      · exact new ▸ entered
      · exact old (by grind)

/-- A job that is let in, has its place, and is gone from the line stays out of it. -/
lemma Shift.gone (shift : Shift l l') (lt : j < l.jobs) (out : j ∉ l.line.map fst) : j ∉ l'.line.map fst := by
  intro mem
  obtain ⟨x, hx, rfl⟩ := mem_map.1 mem
  rcases shift.mem hx with old | new
  · exact out (mem_map.2 ⟨x, old, rfl⟩)
  · omega

/-! ## What becomes of jobs -/

/-- An event has its reason in what happened before. -/
def Justified (engine : Engine ω σ ε) (first : σ) (past : List (Event ω σ)) : Event ω σ → Prop
  | .submitted j _ => ∀ e ∈ past, ¬e.Mentions j
  | .committed jobs => (Group.applyRange engine (replay engine first past) jobs).isSome = true
  | .answered j true => j ∈ (carried past).map fst
  | .answered j false => ∃ w stored, .refused j w stored ∈ past
  | .refused j w stored => .submitted j w ∈ past ∧
    (stored = false → ∃ e, engine.applyOne (replay engine first past) w = .error e)
  | _ => True

structure Fates (l : Ledger ω σ) (engine : Engine ω σ ε) (first : σ) : Prop where
  store : l.store = replay engine first l.history
  justified : Always (Justified engine first) l.history
  accepted : ∀ j, (j, true) ∈ l.verdicts → j ∈ (carried l.history).map fst
  rejected : ∀ j, (j, false) ∈ l.verdicts → j ∉ l.line.map fst ∧ ∃ w stored, .refused j w stored ∈ l.history
  failed : ∀ j, .answered j false ∈ l.history → j ∉ l.line.map fst
  turned : ∀ j, .turnedAway j ∈ l.history → j ∉ l.line.map fst
  placed : ∀ j w, .submitted j w ∈ l.history →
    j ∈ l.line.map fst ∨ (j, false) ∈ l.verdicts ∨ .answered j false ∈ l.history
  told : ∀ j ∈ (carried l.history).map fst, (j, true) ∈ l.verdicts ∨ .answered j true ∈ l.history

lemma Lined.refused (p : l.Lined) {rest : List (Nat × ω)} (split : l.hand = x :: rest) :
    x.1 ∉ (carried l.history ++ rest ++ l.queue).map fst := by
  have nodup := p.nodup
  have same : l.line.Perm (x :: (carried l.history ++ rest ++ l.queue)) := by
    simp only [line, split, append_assoc, cons_append]
    exact perm_middle
  exact (nodup_cons.1 ((same.map fst).nodup_iff.1 nodup)).1

lemma Move.answered (move : Move engine l l') (hj : .answered j false ∈ l'.history) :
    .answered j false ∈ l.history ∨ (j, false) ∈ l.verdicts := by
  cases move with
  | enqueue w early he => rcases he with rfl | rfl <;> exact .inl (by simpa using hj)
  | take split => exact .inl hj
  | answer split =>
    refine (mem_concat.1 hj).imp_right fun new => ?_
    cases new
    exact split ▸ mem_cons_self
  | note e silent keeps =>
    refine .inl ((mem_concat.1 hj).resolve_right ?_)
    rintro rfl
    exact silent j rfl
  | _ => exact .inl (by simpa using hj)

variable {w : ω}

section
variable (f : l.Fates engine first)
include f

section
variable (move : Move engine l l')
include move

lemma Fates.store_move : l'.store = replay engine first l'.history := by
  have store := f.store
  cases move with
  | enqueue w early he => rcases he with rfl | rfl <;> simpa [replay_append, replay] using store
  | lead w free => simpa [replay_append, replay] using store
  | take split => exact store
  | commit split none applies =>
    rw [replay_append, ← store]
    simp [replay, applies]
  | outside state => simp [replay]
  | note e silent keeps => rw [replay_append, ← store, keeps]
  | _ => simpa [replay_append, replay] using store

lemma Fates.justified_move (p : l.Lined) : Always (Justified engine first) l'.history := by
  have justified := f.justified
  have new : ∀ w, Justified engine first l.history (.submitted l.jobs w) := fun w e he m => by
    have := p.below e he _ m
    omega
  cases move with
  | enqueue w early he =>
    rcases he with rfl | rfl
    · rw [append_nil]
      exact concat.2 ⟨justified, new w⟩
    · exact concat.2 ⟨concat.2 ⟨justified, new w⟩, trivial⟩
  | lead w free => exact concat.2 ⟨concat.2 ⟨justified, new w⟩, trivial⟩
  | take split => exact justified
  | commit split none applies =>
    rw [f.store] at applies
    exact concat.2 ⟨justified, by rw [Justified, applies]; rfl⟩
  | @refuse x rest stored split none why =>
    refine concat.2 ⟨justified, p.entered x (by simp [line, split]), fun apply => ?_⟩
    rw [← f.store]
    exact why apply
  | @answer j ok rest split =>
    refine concat.2 ⟨justified, ?_⟩
    cases ok with
    | true => exact f.accepted j (by rw [split]; exact mem_cons_self)
    | false => exact (f.rejected j (by rw [split]; exact mem_cons_self)).2
  | note e silent keeps =>
    refine concat.2 ⟨justified, ?_⟩
    cases e with
    | submitted j w | answered j ok | refused j w stored => exact (silent j rfl).elim
    | committed jobs =>
      cases jobs with
      | nil => rfl
      | cons x rest => exact absurd (by simp [Event.Mentions]) (silent x.1)
    | _ => trivial
  | _ => exact concat.2 ⟨justified, trivial⟩

lemma Fates.accepted_move (hj : (j, true) ∈ l'.verdicts) : j ∈ (carried l'.history).map fst := by
  obtain ⟨es, grows⟩ := move.history
  have old : (j, true) ∈ l.verdicts → j ∈ (carried l'.history).map fst := fun hj => by
    rw [grows, carried_append, map_append]
    exact mem_append_left _ (f.accepted j hj)
  cases move with
  | commit split none applies =>
    obtain ⟨x, hx, same⟩ := mem_map.1 hj
    cases same
    rw [carried_append, map_append]
    exact mem_append_right _ (mem_map.2 ⟨x, by simpa [Event.carries] using hx, rfl⟩)
  | refuse split none why => simp at hj
  | answer split => exact old (split ▸ mem_cons_of_mem _ hj)
  | _ => exact old hj

lemma Fates.rejected_move (p : l.Lined) (hj : (j, false) ∈ l'.verdicts) :
    j ∉ l'.line.map fst ∧ ∃ w stored, .refused j w stored ∈ l'.history := by
  obtain ⟨es, grows⟩ := move.history
  have shift := move.shift
  have old : (j, false) ∈ l.verdicts → j ∉ l'.line.map fst ∧ ∃ w stored, .refused j w stored ∈ l'.history :=
    fun hj => by
      obtain ⟨out, w, stored, refused⟩ := f.rejected j hj
      exact ⟨shift.gone (p.decided _ hj) out, w, stored, by rw [grows]; exact mem_append_left _ refused⟩
  cases move with
  | commit split none applies => simp at hj
  | @refuse x rest stored split none why =>
    cases mem_singleton.1 hj
    exact ⟨by simpa [line, Event.carries] using p.refused split, x.2, stored, by simp⟩
  | answer split => exact old (split ▸ mem_cons_of_mem _ hj)
  | _ => exact old hj

lemma Fates.failed_move (p : l.Lined) (hj : .answered j false ∈ l'.history) : j ∉ l'.line.map fst := by
  rcases move.answered hj with old | decided
  · exact move.shift.gone (p.below _ old j rfl) (f.failed j old)
  · exact move.shift.gone (p.decided _ decided) (f.rejected j decided).1

lemma Fates.turned_move (p : l.Lined) (hj : .turnedAway j ∈ l'.history) : j ∉ l'.line.map fst := by
  have shift := move.shift
  have old : .turnedAway j ∈ l.history → j ∉ l'.line.map fst := fun hj =>
    shift.gone (p.below _ hj j rfl) (f.turned j hj)
  cases move with
  | enqueue w early he => rcases he with rfl | rfl <;> exact old (by simpa using hj)
  | turnAway =>
    rcases mem_concat.1 hj with hj | new
    · exact old hj
    · cases new
      simpa [line, Event.carries] using p.fresh
  | take split => exact old hj
  | note e silent keeps =>
    refine old ((mem_concat.1 hj).resolve_right ?_)
    rintro rfl
    exact silent j rfl
  | _ => exact old (by simpa using hj)

lemma Fates.placed_move (hj : .submitted j w ∈ l'.history) :
    j ∈ l'.line.map fst ∨ (j, false) ∈ l'.verdicts ∨ .answered j false ∈ l'.history := by
  have placed := f.placed j w
  have lined : ∀ {x}, l'.line = l.line → x ∈ l.line.map fst → x ∈ l'.line.map fst := fun same hx => same ▸ hx
  cases move with
  | enqueue w' early he =>
    rcases he with rfl | rfl
    all_goals simp [line, Event.carries, carried] at hj placed ⊢
    all_goals grind
  | lead w' free =>
    simp [line, Event.carries, carried] at hj placed ⊢
    grind
  | take split => exact (placed hj).imp_left (lined (by simp [line, split]))
  | answer split =>
    simp [line, Event.carries, split] at hj placed ⊢
    grind
  | elect split free =>
    simp [line, Event.carries, split, free] at hj placed ⊢
    grind
  | turnAway | outside =>
    simp [line, Event.carries] at hj placed ⊢
    grind
  | commit split none _ | refuse split none _ =>
    simp [line, Event.carries, split, none] at hj placed ⊢
    grind
  | note e silent keeps =>
    rcases mem_append.1 hj with hj | hj
    · refine (placed hj).imp ?_ (Or.imp_right (mem_append_left _))
      intro mem
      simp only [line, carried_append, map_append, mem_append] at mem ⊢
      tauto
    · cases mem_singleton.1 hj
      exact (silent j rfl).elim

lemma Fates.told_move (hj : j ∈ (carried l'.history).map fst) : (j, true) ∈ l'.verdicts ∨ .answered j true ∈ l'.history := by
  have told := f.told j
  cases move with
  | enqueue w early he =>
    rcases he with rfl | rfl
    all_goals simp [Event.carries] at hj told ⊢
    all_goals grind
  | take split => exact told hj
  | note e silent keeps =>
    have same : (carried [e]).map fst = [] := by
      rw [eq_nil_iff_forall_not_mem]
      intro j hj
      cases e with
      | committed jobs => exact silent j (by simpa [Event.carries, Event.Mentions] using hj)
      | _ => simp [Event.carries] at hj
    rw [carried_append, map_append, same, append_nil] at hj
    exact (told hj).imp_right (mem_append_left _)
  | commit _ none _ | refuse _ none _ | answer none =>
    simp [Event.carries, none] at hj told ⊢
    grind
  | _ =>
    simp [Event.carries] at hj told ⊢
    grind

end

lemma Fates.move (p : l.Lined) (move : Move engine l l') : l'.Fates engine first where
  store := f.store_move move
  justified := f.justified_move move p
  accepted _ := f.accepted_move move
  rejected _ := f.rejected_move move p
  failed _ := f.failed_move move p
  turned _ := f.turned_move move p
  placed _ _ := f.placed_move move
  told _ := f.told_move move

/-- A job that was let in is committed or not committed yet, unless it was refused. -/
lemma Fates.lined (entered : .submitted j w ∈ l.history) :
    j ∈ l.line.map fst ∨ ∃ w stored, .refused j w stored ∈ l.history := by
  rcases f.placed j w entered with lined | decided | answered
  · exact .inl lined
  · exact .inr (f.rejected j decided).2
  · obtain ⟨past, rest, split, w', stored, refused⟩ := f.justified.of_mem answered
    exact .inr ⟨w', stored, by rw [split]; exact mem_append_left _ refused⟩

/-- A job that was let in and not answered is queued, in hand, or about to be answered. -/
lemma Fates.pending (entered : .submitted j w ∈ l.history) (unanswered : ∀ ok, .answered j ok ∉ l.history) :
    j ∈ l.queue.map fst ∨ j ∈ l.hand.map fst ∨ j ∈ l.verdicts.map fst := by
  rcases f.placed j w entered with lined | decided | answered
  · rw [line, map_append, map_append, mem_append, mem_append] at lined
    rcases lined with (done | hand) | queued
    · exact .inr (.inr (mem_map.2 ⟨_, (f.told j done).resolve_right (unanswered true), rfl⟩))
    · exact .inr (.inl hand)
    · exact .inl queued
  · exact .inr (.inr (mem_map.2 ⟨_, decided, rfl⟩))
  · exact (unanswered false answered).elim

/-- A job that is committed or refused is not queued. -/
lemma Fates.decided (p : l.Lined) {x : Nat × Bool} (hx : x ∈ l.verdicts) : x.1 ∉ l.queue.map fst := by
  obtain ⟨j, ok⟩ := x
  intro queued
  cases ok with
  | true =>
    have nodup := p.nodup
    rw [line, append_assoc, map_append] at nodup
    refine (nodup_append.1 nodup).2.2 j (f.accepted j hx) j ?_ rfl
    rw [map_append]
    exact mem_append_right _ queued
  | false =>
    refine (f.rejected j hx).1 ?_
    rw [line, map_append]
    exact mem_append_right _ queued

end

/-! ## Order -/

/-- Whenever `b` is made leader, `a` has been committed. -/
def NotAhead (a b : Nat) (history : List (Event ω σ)) : Prop :=
  Always (fun past e => e = .elected b → a ∈ (carried past).map fst) history

/-- What was answered early, before another job was submitted, is ahead of it. -/
def Ordered (l : Ledger ω σ) : Prop :=
  ∀ a b w, Precedes (.acknowledged a) (.submitted b w) l.history → NotAhead a b l.history →
    a ∈ l.line.map fst → b ∈ l.line.map fst → Precedes a b (l.line.map fst)

/-- A job that is submitted now is new. -/
lemma Move.precedes (move : Move engine l l') {a b : Nat}
    (h : Precedes (.acknowledged a) (.submitted b w) l'.history) :
    Precedes (.acknowledged a) (.submitted b w) l.history ∨ (.acknowledged a ∈ l.history ∧ b = l.jobs) := by
  cases move with
  | enqueue w' early he =>
    rcases he with rfl | rfl
    all_goals simp only [precedes_append, precedes_singleton, mem_append, mem_singleton] at h
    all_goals grind [precedes_nil]
  | lead w' free =>
    simp only [precedes_append, precedes_singleton, mem_append, mem_singleton] at h
    grind
  | take split => exact .inl h
  | note e' silent keeps =>
    simp only [precedes_append, precedes_singleton, mem_singleton, or_false] at h
    rcases h with h | ⟨-, rfl⟩
    · exact .inl h
    · exact (silent b rfl).elim
  | _ =>
    simp only [precedes_append, precedes_singleton, mem_singleton, or_false, reduceCtorEq, and_false] at h
    exact .inl h

/-- Only a job that was just submitted is new in the line. -/
lemma Shift.old (shift : Shift l l') (lt : j < l.jobs) (mem : j ∈ l'.line.map fst) : j ∈ l.line.map fst := by
  by_contra out
  exact shift.gone lt out mem

lemma Ordered.move (p : l.Lined) (ordered : l.Ordered) (move : Move engine l l') : l'.Ordered := by
  intro a b w before notAhead ha hb
  have shift := move.shift
  obtain ⟨es, grows⟩ := move.history
  have nodup := p.nodup
  rcases move.precedes before with old | ⟨told, rfl⟩
  · -- both are in the line already
    have alt := p.below _ old.left a rfl
    have blt := p.below _ old.right b rfl
    have was := ordered a b w old (by rw [grows] at notAhead; exact notAhead.of_append) (shift.old alt ha)
      (shift.old blt hb)
    cases shift with
    | same line => rwa [line]
    | less was' line =>
      rw [was'] at was nodup
      rw [line] at ha hb ⊢
      simp only [map_append, map_cons, precedes_append, precedes_cons, mem_append, mem_cons,
        nodup_append, nodup_cons] at *
      grind
    | more w' was' line entered place =>
      rw [was'] at was
      rw [line]
      simp only [map_append, map_cons, precedes_append, precedes_cons, mem_cons] at *
      grind
    | ahead was' line elected =>
      rw [elected] at notAhead
      have free := (concat.1 notAhead).2
      rw [was'] at was nodup
      rw [line] at hb ⊢
      simp only [map_append, map_cons, precedes_append, precedes_cons, mem_append, mem_cons,
        nodup_append, nodup_cons, Event.elected.injEq] at *
      grind
  · -- the second one is new
    have alt := p.below _ told a rfl
    have here := shift.old alt ha
    have fresh := p.fresh
    cases shift with
    | same line => exact (fresh (line ▸ hb)).elim
    | less was line | ahead was line elected =>
      rw [was] at fresh
      rw [line] at hb
      simp only [map_append, map_cons, mem_append, mem_cons] at fresh hb
      tauto
    | more w' was line entered place =>
      rw [was] at here
      rw [line]
      rcases place with rfl | ⟨rfl, elected⟩
      · simp only [append_nil, map_append, map_cons, map_nil] at here ⊢
        exact .across here (mem_singleton_self _)
      · rw [elected] at notAhead
        have done := (concat.1 notAhead).2 rfl
        simp only [carried_append, carried_cons, carried_nil, Event.carries, append_nil] at done
        rw [map_append, map_cons]
        exact .across done mem_cons_self

/-! ## The beginning -/

lemma Lined.start (store : σ) : (start store : Ledger ω σ).Lined := by
  constructor <;> simp [Ledger.start, line]

lemma Fates.start (engine : Engine ω σ ε) (store : σ) : (start store : Ledger ω σ).Fates engine store := by
  constructor <;> simp [Ledger.start, line, replay]

lemma Ordered.start (store : σ) : (start store : Ledger ω σ).Ordered := by
  intro a b w before
  simp [Ledger.start] at before

end Ledger

end BigDb.Embed
