import Mathlib.Data.List.Nodup
import Mathlib.Data.List.Pairwise
import Mathlib.Data.Prod.Lex
import Mathlib.Order.WellFounded

/-!
# Threads that take locks

Threads that each work through a list of lock steps, on locks that may be shared or exclusive. A
request that cannot be granted waits in a queue, and a request that could be granted may have to wait
behind others that conflict with it: a waiting writer may hold up new readers.

No threads wait for each other in a circle if whoever has to wait holds only locks that come after
the one it waits for.
-/

namespace BigDb.Lib
open List
variable {τ κ : Type}

/-- A way to lock: shared with others that share it, or exclusive. -/
structure Ask (κ : Type) where
  lock : κ
  exclusive : Bool
deriving DecidableEq, Repr

inductive LockStep (κ : Type) where
  | take (a : Ask κ)
  | free (a : Ask κ)
deriving DecidableEq, Repr

structure Locks (τ κ : Type) where
  /-- what a thread has left to do -/
  todo : τ → List (LockStep κ)
  held : List (τ × Ask κ)
  /-- the threads that wait, in the order they came -/
  queue : List τ

inductive LockEvent (τ κ : Type) where
  | start (t : τ) (steps : List (LockStep κ))
  /-- the next step of a thread, which may overtake those that wait -/
  | next (t : τ) (barge : Bool)
  /-- a thread that waited gets its lock -/
  | wake (t : τ)

section Conflicts
variable [DecidableEq κ]

def Ask.conflicts (a b : Ask κ) : Bool := a.lock = b.lock && (a.exclusive || b.exclusive)

lemma Ask.conflicts_comm (a b : Ask κ) : a.conflicts b = b.conflicts a := by
  have same : (decide (a.lock = b.lock)) = decide (b.lock = a.lock) := decide_eq_decide.2 eq_comm
  rw [Ask.conflicts, Ask.conflicts, same, Bool.or_comm]

end Conflicts

namespace Locks

/-- Nobody holds a lock or does anything. -/
def idle : Locks τ κ := ⟨fun _ => [], [], []⟩

/-- What a thread asks for next. -/
def wants (s : Locks τ κ) (t : τ) : Option (Ask κ) :=
  match s.todo t with
  | .take a :: _ => some a
  | _ => none

lemma wants_eq {s : Locks τ κ} {t : τ} {a : Ask κ} {rest : List (LockStep κ)} (h : s.todo t = .take a :: rest) :
    s.wants t = some a := by
  rw [wants, h]

variable [DecidableEq τ] [DecidableEq κ] {s : Locks τ κ} {t u : τ} {a : Ask κ}

section
variable (s : Locks τ κ)

def available (a : Ask κ) : Bool := s.held.all fun h => !a.conflicts h.2

/-- Some thread waits for what conflicts with `a`. -/
def contended (a : Ask κ) : Bool := s.queue.any fun u => (s.wants u).any a.conflicts

/-- Some thread that came before `t` waits for what conflicts with `a`. -/
def overtakes (t : τ) (a : Ask κ) : Bool :=
  (s.queue.takeWhile (· ≠ t)).any fun u => (s.wants u).any a.conflicts

def grants (barge : Bool) (a : Ask κ) : Bool := s.available a && (barge || !s.contended a)

def setTodo (t : τ) (steps : List (LockStep κ)) : Locks τ κ :=
  { s with todo := Function.update s.todo t steps }

def step : LockEvent τ κ → Locks τ κ
  | .start t steps => if s.todo t = [] then s.setTodo t steps else s
  | .next t barge =>
    if t ∈ s.queue then s
    else
      match s.todo t with
      | [] => s
      | .free a :: rest => { s.setTodo t rest with held := s.held.erase (t, a) }
      | .take a :: rest =>
        if s.grants barge a then { s.setTodo t rest with held := (t, a) :: s.held }
        else { s with queue := s.queue ++ [t] }
  | .wake t =>
    if t ∈ s.queue then
      match s.todo t with
      | .take a :: rest =>
        if s.available a && !s.overtakes t a then
          { s.setTodo t rest with held := (t, a) :: s.held, queue := s.queue.erase t }
        else s
      | _ => s
    else s

/-- `t` waits for a lock that `u` holds, or that `u` has waited for longer. -/
def blocks (t u : τ) : Bool :=
  t ∈ s.queue &&
    match s.wants t with
    | none => false
    | some a =>
      (s.held.any fun h => h.1 = u && h.2.lock = a.lock) ||
        (u ∈ s.queue && ((s.wants u).any fun b => b.lock = a.lock) && s.queue.idxOf u < s.queue.idxOf t)

/-- Threads each of which waits for another one of them. -/
def Deadlocked : Prop :=
  ∃ D : Set τ, D.Nonempty ∧ ∀ t ∈ D, ∃ u ∈ D, u ≠ t ∧ s.blocks t u = true

end

/-! ## What a step does -/

/-- What can happen in a step: nothing, a thread that is done starts anew, a lock is given back or
taken by a thread that does not wait, a thread begins to wait, or one that waited gets its lock. -/
inductive Moves (s : Locks τ κ) : LockEvent τ κ → Locks τ κ → Prop where
  | stay {e : LockEvent τ κ} : Moves s e s
  | start {t : τ} {steps : List (LockStep κ)} (done : s.todo t = []) : Moves s (.start t steps) (s.setTodo t steps)
  | free {t : τ} {barge : Bool} {a : Ask κ} {rest : List (LockStep κ)} (out : t ∉ s.queue)
      (todo : s.todo t = .free a :: rest) :
      Moves s (.next t barge) { s.setTodo t rest with held := s.held.erase (t, a) }
  | take {t : τ} {barge : Bool} {a : Ask κ} {rest : List (LockStep κ)} (out : t ∉ s.queue)
      (todo : s.todo t = .take a :: rest) (granted : s.grants barge a = true) :
      Moves s (.next t barge) { s.setTodo t rest with held := (t, a) :: s.held }
  | wait {t : τ} {barge : Bool} {a : Ask κ} {rest : List (LockStep κ)} (out : t ∉ s.queue)
      (todo : s.todo t = .take a :: rest) (denied : s.grants barge a = false) :
      Moves s (.next t barge) { s with queue := s.queue ++ [t] }
  | wake {t : τ} {a : Ask κ} {rest : List (LockStep κ)} (waits : t ∈ s.queue)
      (todo : s.todo t = .take a :: rest) (available : s.available a = true) :
      Moves s (.wake t) { s.setTodo t rest with held := (t, a) :: s.held, queue := s.queue.erase t }

lemma moves_step (s : Locks τ κ) (e : LockEvent τ κ) : Moves s e (s.step e) := by
  cases e with
  | start t steps =>
    rw [step]
    split
    · next done => exact .start done
    · exact .stay
  | next t barge =>
    rw [step]
    split
    · exact .stay
    · next out =>
      split
      · exact .stay
      · next todo => exact .free out todo
      · next todo =>
        split
        · next granted => exact .take out todo granted
        · next denied => exact .wait out todo (Bool.not_eq_true _ ▸ denied)
  | wake t =>
    rw [step]
    split
    · next waits =>
      split
      · next todo =>
        split
        · next granted => exact .wake waits todo (Bool.and_eq_true_iff.1 granted).1
        · exact .stay
      · exact .stay
    · exact .stay

omit [DecidableEq κ] in
lemma setTodo_todo_of_ne (s : Locks τ κ) (steps : List (LockStep κ)) (h : u ≠ t) :
    (s.setTodo t steps).todo u = s.todo u := Function.update_of_ne h ..

/-! ## Exclusion -/

def Exclusive (s : Locks τ κ) : Prop := s.held.Pairwise fun g h => g.2.conflicts h.2 = false

omit [DecidableEq τ] in
lemma available_iff : s.available a = true ↔ ∀ h ∈ s.held, a.conflicts h.2 = false := by
  simp [available]

/-- Where somebody holds a shared guard, another one of its kind is available. -/
lemma Exclusive.available_of_shared (h : s.Exclusive) (held : (t, a) ∈ s.held) (shared : a.exclusive = false) :
    s.available a = true := by
  have symmetric : Std.Symm fun g h : τ × Ask κ => g.2.conflicts h.2 = false :=
    ⟨fun g h apart => (Ask.conflicts_comm ..).trans apart⟩
  refine available_iff.2 fun g hg => ?_
  by_cases same : (t, a) = g
  · subst same
    simp [Ask.conflicts, shared]
  · exact h.forall held hg same

/-! ## Waiting in order -/

section Order
variable (rank : κ → Nat)

/-- Whoever has to wait holds only locks that come after the one it asks for. -/
def orderly (s : Locks τ κ) : LockEvent τ κ → Prop
  | .next t barge => ∀ a rest, t ∉ s.queue → s.todo t = .take a :: rest → s.grants barge a = false →
      ∀ b, (t, b) ∈ s.held → rank a.lock < rank b.lock
  | _ => True

/-- Every thread that waits asks for a lock that comes before all it holds. -/
structure Ordered (s : Locks τ κ) : Prop where
  nodup : s.queue.Nodup
  waits : ∀ t ∈ s.queue, ∃ a rest, s.todo t = .take a :: rest ∧ ∀ b, (t, b) ∈ s.held → rank a.lock < rank b.lock

variable {rank}

omit [DecidableEq τ] [DecidableEq κ] in
lemma ordered_idle : (idle : Locks τ κ).Ordered rank := ⟨nodup_nil, nofun⟩

lemma ordered_step (h : s.Ordered rank) (e : LockEvent τ κ) (ok : s.orderly rank e) : (s.step e).Ordered rank := by
  have moved := moves_step s e
  generalize s.step e = s' at moved
  cases moved with
  | stay => exact h
  | start done =>
    refine ⟨h.nodup, fun u hu => ?_⟩
    obtain ⟨a, rest, todo, above⟩ := h.waits u hu
    have other : u ≠ _ := fun same => by
      rw [same, done] at todo
      cases todo
    exact ⟨a, rest, (setTodo_todo_of_ne s _ other).trans todo, above⟩
  | @free t _ _ _ out =>
    refine ⟨h.nodup, fun u hu => ?_⟩
    obtain ⟨a, rest, todo, above⟩ := h.waits u hu
    have other : u ≠ t := fun same => out (same ▸ hu)
    exact ⟨a, rest, (setTodo_todo_of_ne s _ other).trans todo, fun b hb => above b (mem_of_mem_erase hb)⟩
  | @take t _ _ _ out =>
    refine ⟨h.nodup, fun u hu => ?_⟩
    obtain ⟨a, rest, todo, above⟩ := h.waits u hu
    have other : u ≠ t := fun same => out (same ▸ hu)
    refine ⟨a, rest, (setTodo_todo_of_ne s _ other).trans todo, fun b hb => above b ?_⟩
    exact (mem_cons.1 hb).resolve_left fun same => other (Prod.ext_iff.1 same).1
  | wait out todo denied =>
    refine ⟨nodup_append.2 ⟨h.nodup, nodup_singleton _, ?_⟩, fun u hu => ?_⟩
    · intro x hx y hy same
      exact out (mem_singleton.1 hy ▸ same ▸ hx)
    · rcases mem_append.1 hu with old | new
      · exact h.waits u old
      · obtain rfl := mem_singleton.1 new
        exact ⟨_, _, todo, ok _ _ out todo denied⟩
  | wake waits todo available =>
    refine ⟨h.nodup.erase _, fun u hu => ?_⟩
    obtain ⟨other, hu⟩ := h.nodup.mem_erase_iff.1 hu
    obtain ⟨a, rest, todo, above⟩ := h.waits u hu
    refine ⟨a, rest, (setTodo_todo_of_ne s _ other).trans todo, fun b hb => above b ?_⟩
    exact (mem_cons.1 hb).resolve_left fun same => other (Prod.ext_iff.1 same).1

/-- How far a thread is from getting what it waits for: the lock it waits for, and its place in the queue. -/
def depth (rank : κ → Nat) (s : Locks τ κ) (t : τ) : Nat ×ₗ Nat :=
  toLex (((s.wants t).map fun a => rank a.lock).getD 0, s.queue.idxOf t)

lemma mem_queue_of_blocks (h : s.blocks t u = true) : t ∈ s.queue := by
  have := (Bool.and_eq_true_iff.1 h).1
  simpa using this

/-- Whoever is waited for and waits itself is nearer to its lock. -/
lemma Ordered.depth_lt (h : s.Ordered rank) (blocked : s.blocks t u = true) (waits : u ∈ s.queue) :
    s.depth rank u < s.depth rank t := by
  obtain ⟨a, _, todo, -⟩ := h.waits t (mem_queue_of_blocks blocked)
  obtain ⟨b, _, todo', above⟩ := h.waits u waits
  rw [depth, depth, wants_eq todo, wants_eq todo', Prod.Lex.toLex_lt_toLex]
  simp only [blocks, wants_eq todo, wants_eq todo', Bool.and_eq_true, Bool.or_eq_true, any_eq_true, decide_eq_true_eq,
    Option.any_some] at blocked
  rcases blocked.2 with ⟨⟨x, c⟩, held, rfl, same⟩ | ⟨⟨-, same⟩, ahead⟩
  · -- it holds what `t` waits for, so what it waits for itself comes earlier
    refine .inl ?_
    have lower := above c held
    rw [same] at lower
    exact lower
  · exact .inr ⟨congrArg rank same, ahead⟩

/-- Threads that wait in order are never in a circle. -/
lemma Ordered.not_deadlocked (h : s.Ordered rank) : ¬ s.Deadlocked := by
  rintro ⟨D, some, each⟩
  obtain ⟨t, ht, least⟩ := (InvImage.wf (s.depth rank) wellFounded_lt).has_min D some
  obtain ⟨u, hu, -, blocked⟩ := each t ht
  obtain ⟨v, -, -, waits⟩ := each u hu
  exact least u hu (h.depth_lt blocked (mem_queue_of_blocks waits))

end Order

end Locks

end BigDb.Lib
