import BigDb.Lib.Locks
import BigDb.Lib.Runs

/-!
# The catalog's lock and the writer slot

Which locks the calls on a database take. `Api::execute` opens a read transaction, which copies the catalog under its
lock; `Db::write` does so with the writer slot; `DbWrite::commit` publishes its copy after the slot is free again.

`Api::sql` plans against a guard of the catalog that it keeps while it executes: the inner sets of a statement, and the
steps of its searches. Every one of those executions asks for the catalog again, and if a commit has come to wait for it
meanwhile, neither goes on. `Api::plan_call`, which the cluster gives to the same functions, takes the guard anew for
every plan.
-/

namespace BigDb.Embed
open Lib List Function Locks

inductive DbLock where
  | slot
  | catalog
deriving DecidableEq, Repr

def writerSlot : Ask DbLock := ⟨.slot, true⟩

def readCatalog : Ask DbLock := ⟨.catalog, false⟩

def writeCatalog : Ask DbLock := ⟨.catalog, true⟩

/-- A guard of the catalog that is dropped at once: `Db::read`, and planning or translating a statement. -/
def glance : List (LockStep DbLock) := [.take readCatalog, .free readCatalog]

/-- A guard of the catalog that is kept while plans are executed. -/
def guarded (executions : Nat) : List (LockStep DbLock) :=
  .take readCatalog :: ((replicate executions glance).flatten ++ [.free readCatalog])

/-- The stages of `Api::sql` for a query: translate, resolve its sets, plan, execute every plan, search. -/
def sqlStages (sets plans asks : Nat) : List (List (LockStep DbLock)) :=
  [glance, guarded sets, glance, (replicate plans glance).flatten, guarded asks]

inductive Call where
  /-- a query that gets through so many of its stages; a failed stage ends it, with as many executions as it came to -/
  | sql (sets plans asks stages : Nat)
  /-- a statement that is no query is translated again to say that it is refused -/
  | sqlRefused
  | read
  | write
  | commit
  /-- a transaction is dropped, or its commit fails -/
  | drop

def Call.steps : Call → List (LockStep DbLock)
  | .sql sets plans asks stages => ((sqlStages sets plans asks).take stages).flatten
  | .sqlRefused => glance ++ glance
  | .read => glance
  | .write => .take writerSlot :: glance
  | .commit => [.free writerSlot, .take writeCatalog, .free writeCatalog]
  | .drop => [.free writerSlot]

/-- Whether it consumes a write transaction. -/
def Call.ends : Call → Bool
  | .commit | .drop => true
  | _ => false

inductive CallEvent (τ : Type) where
  | call (t : τ) (c : Call)
  | next (t : τ) (barge : Bool)
  | wake (t : τ)

variable {τ : Type} [DecidableEq τ]

/-- Any number of threads that call the database. -/
abbrev Threads (τ : Type) := Locks τ DbLock

namespace Threads

def step (s : Threads τ) : CallEvent τ → Threads τ
  | .call t c => if !c.ends || (t, writerSlot) ∈ s.held then Locks.step s (.start t c.steps) else s
  | .next t barge => Locks.step s (.next t barge)
  | .wake t => Locks.step s (.wake t)

/-- A thread that has a guard of the catalog asks for another only while nobody waits to write it, and no thread opens
a write transaction beside one it has. -/
def calm (s : Threads τ) : CallEvent τ → Bool
  | .next t _ =>
    match s.wants t with
    | some ⟨.catalog, false⟩ => (t, readCatalog) ∉ s.held || !s.contended readCatalog
    | some ⟨.slot, _⟩ => s.held.all fun h => h.1 ≠ t || h.2.lock ≠ .slot
    | _ => true
  | _ => true

end Threads

/-! ## What a thread holds along its calls -/

/-- With `g` guards to read the catalog and `w` to write it, the steps ask for the slot and to write the catalog with
none of them, to read it with none to write it, and leave none. -/
def Fits (g w : Nat) : List (LockStep DbLock) → Prop
  | [] => g = 0 ∧ w = 0
  | .take ⟨.slot, _⟩ :: rest => g = 0 ∧ w = 0 ∧ Fits g w rest
  | .take ⟨.catalog, false⟩ :: rest => w = 0 ∧ Fits (g + 1) w rest
  | .take ⟨.catalog, true⟩ :: rest => g = 0 ∧ w = 0 ∧ Fits g (w + 1) rest
  | .free ⟨.slot, _⟩ :: rest => Fits g w rest
  | .free ⟨.catalog, false⟩ :: rest => Fits (g - 1) w rest
  | .free ⟨.catalog, true⟩ :: rest => Fits g (w - 1) rest

lemma fits_append {steps more : List (LockStep DbLock)} {g w : Nat} (h : Fits g w steps) (h' : Fits 0 0 more) :
    Fits g w (steps ++ more) := by
  fun_induction Fits g w steps with
  | case1 g w =>
    obtain ⟨rfl, rfl⟩ := h
    exact h'
  | case2 g w _ rest ih => exact ⟨h.1, h.2.1, ih h.2.2⟩
  | case3 g w rest ih => exact ⟨h.1, ih h.2⟩
  | case4 g w rest ih => exact ⟨h.1, h.2.1, ih h.2.2⟩
  | case5 g w _ rest ih => exact ih h
  | case6 g w rest ih => exact ih h
  | case7 g w rest ih => exact ih h

lemma fits_flatten {parts : List (List (LockStep DbLock))} (h : ∀ steps ∈ parts, Fits 0 0 steps) :
    Fits 0 0 parts.flatten := by
  induction parts with
  | nil => exact ⟨rfl, rfl⟩
  | cons steps parts ih =>
    exact fits_append (h _ mem_cons_self) (ih fun x hx => h x (mem_cons_of_mem _ hx))

lemma fits_glance : Fits 0 0 glance := ⟨rfl, rfl, rfl⟩

lemma fits_guarded (executions : Nat) : Fits 0 0 (guarded executions) := by
  refine ⟨rfl, ?_⟩
  induction executions with
  | zero => exact ⟨rfl, rfl⟩
  | succ n ih => exact ⟨rfl, ih⟩

lemma fits_steps (c : Call) : Fits 0 0 c.steps := by
  have glances (n : Nat) : Fits 0 0 (replicate n glance).flatten :=
    fits_flatten fun steps h => eq_of_mem_replicate h ▸ fits_glance
  cases c with
  | sql sets plans asks stages =>
    refine fits_flatten fun steps h => ?_
    have stage := mem_of_mem_take h
    simp only [sqlStages, mem_cons, not_mem_nil, or_false] at stage
    rcases stage with rfl | rfl | rfl | rfl | rfl
    · exact fits_glance
    · exact fits_guarded sets
    · exact fits_glance
    · exact glances plans
    · exact fits_guarded asks
  | sqlRefused => exact fits_append fits_glance fits_glance
  | read => exact fits_glance
  | write => exact ⟨rfl, rfl, fits_glance⟩
  | commit => exact ⟨rfl, rfl, rfl, rfl⟩
  | drop => exact ⟨rfl, rfl⟩

namespace Threads
variable {s : Threads τ} {t : τ}

/-- Every thread holds what its call has it hold, and no two guards conflict. -/
structure Disciplined (s : Threads τ) : Prop where
  exclusive : s.Exclusive
  fits : ∀ t, Fits (s.held.count (t, readCatalog)) (s.held.count (t, writeCatalog)) (s.todo t)

lemma disciplined_idle : Disciplined (Locks.idle : Threads τ) := ⟨List.Pairwise.nil, fun _ => ⟨rfl, rfl⟩⟩

section
variable (h : s.Disciplined)
include h

variable {rest : List (LockStep DbLock)} {queue : List τ}

/-- The steps and the guards of one thread change. -/
lemma Disciplined.set {held : List (τ × Ask DbLock)} (exclusive : Locks.Exclusive { s with held })
    (own : Fits (held.count (t, readCatalog)) (held.count (t, writeCatalog)) rest)
    (others : ∀ u, u ≠ t → ∀ b, held.count (u, b) = s.held.count (u, b)) :
    Disciplined { Locks.setTodo s t rest with held, queue } := by
  refine ⟨exclusive, fun u => ?_⟩
  by_cases same : u = t
  · subst same
    show Fits _ _ (update s.todo u rest u)
    rwa [update_self]
  · show Fits (held.count _) (held.count _) (update s.todo t rest u)
    rw [update_of_ne same, others u same, others u same]
    exact h.fits u

/-- A thread's call asks for what its guards allow. -/
lemma Disciplined.take {a : Ask DbLock} (todo : s.todo t = .take a :: rest) (available : s.available a = true) :
    Disciplined { Locks.setTodo s t rest with held := (t, a) :: s.held, queue := queue } := by
  have fits := h.fits t
  rw [todo] at fits
  refine h.set (pairwise_cons.2 ⟨available_iff.1 available, h.exclusive⟩) ?_ fun u same b => ?_
  · match a, fits with
    | ⟨.slot, b⟩, fits => cases b <;> simpa [readCatalog, writeCatalog] using fits.2.2
    | ⟨.catalog, false⟩, fits => simpa [readCatalog, writeCatalog] using fits.2
    | ⟨.catalog, true⟩, fits => simpa [readCatalog, writeCatalog] using fits.2.2
  · exact count_cons_of_ne fun h => same (Prod.ext_iff.1 h).1.symm

lemma Disciplined.free {a : Ask DbLock} (todo : s.todo t = .free a :: rest) :
    Disciplined { Locks.setTodo s t rest with held := s.held.erase (t, a) } := by
  have fits := h.fits t
  rw [todo] at fits
  refine h.set (List.Pairwise.sublist erase_sublist h.exclusive) ?_ fun u same b => ?_
  · match a, fits with
    | ⟨.slot, b⟩, fits => cases b <;> simpa [readCatalog, writeCatalog, count_erase, Fits] using fits
    | ⟨.catalog, false⟩, fits => simpa [readCatalog, writeCatalog, count_erase, Fits] using fits
    | ⟨.catalog, true⟩, fits => simpa [readCatalog, writeCatalog, count_erase, Fits] using fits
  · exact count_erase_of_ne fun h => same (Prod.ext_iff.1 h).1

lemma disciplined_start (t : τ) (c : Call) : Disciplined (Locks.step s (.start t c.steps)) := by
  rw [Locks.step]
  split
  · next done =>
    have fits := h.fits t
    rw [done] at fits
    refine h.set h.exclusive ?_ fun _ _ _ => rfl
    rw [fits.1, fits.2]
    exact fits_steps c
  · exact h

lemma disciplined_go (e : LockEvent τ DbLock) (going : ∀ t steps, e ≠ .start t steps) :
    Disciplined (Locks.step s e) := by
  have moved := moves_step s e
  generalize Locks.step s e = s' at moved
  cases moved with
  | stay => exact h
  | start => exact absurd rfl (going _ _)
  | free out todo => exact h.free todo
  | take out todo granted => exact h.take todo (Bool.and_eq_true_iff.1 granted).1
  | wait => exact ⟨h.exclusive, h.fits⟩
  | wake waits todo available => exact h.take todo available

lemma disciplined_step (e : CallEvent τ) : Disciplined (s.step e) := by
  cases e with
  | call t c =>
    rw [step]
    split
    · exact disciplined_start h t c
    · exact h
  | next t barge => exact disciplined_go h (.next t barge) fun _ _ => nofun
  | wake t => exact disciplined_go h (.wake t) fun _ _ => nofun

end

/-! ## No circle -/

/-- Who has the slot may ask for the catalog, and not the other way round. -/
def place : DbLock → Nat
  | .catalog => 0
  | .slot => 1

lemma Disciplined.no_guard {b : Ask DbLock} (none_read : s.held.count (t, readCatalog) = 0)
    (none_write : s.held.count (t, writeCatalog) = 0) (held : (t, b) ∈ s.held) : b.lock = .slot := by
  match b with
  | ⟨.slot, _⟩ => rfl
  | ⟨.catalog, false⟩ => exact absurd held (count_eq_zero.1 none_read)
  | ⟨.catalog, true⟩ => exact absurd held (count_eq_zero.1 none_write)

/-- In a calm step only a thread without a guard of the catalog waits for it, and one without the slot for the slot. -/
lemma Disciplined.orderly {barge : Bool} (h : s.Disciplined) (quiet : s.calm (.next t barge) = true) :
    Locks.orderly place s (.next t barge) := by
  intro a rest _ todo denied b held
  have fits := h.fits t
  rw [todo] at fits
  rw [calm, wants_eq todo] at quiet
  match a, fits with
  | ⟨.slot, _⟩, fits =>
    have slot := no_guard fits.1 fits.2.1 held
    have free := all_eq_true.1 quiet _ held
    simp [slot] at free
  | ⟨.catalog, true⟩, fits =>
    rw [no_guard fits.1 fits.2.1 held]
    decide
  | ⟨.catalog, false⟩, fits =>
    by_cases nested : (t, readCatalog) ∈ s.held
    · -- a second guard is granted at once
      have available : s.available readCatalog = true := h.exclusive.available_of_shared nested rfl
      have alone : s.contended readCatalog = false := by simpa [nested] using quiet
      have granted : s.grants barge readCatalog = true := by rw [Locks.grants, available, alone]; simp
      exact absurd (denied.symm.trans granted) (by decide)
    · rw [no_guard (count_eq_zero.2 nested) fits.1 held]
      decide

/-- No threads wait for each other in a circle, however their calls interleave, if a thread that has a guard of the
catalog asks for another only while nobody waits to write the catalog, and none opens a second write transaction. -/
theorem calls_do_not_deadlock {s : Threads τ} (run : Run step (fun s e => s.calm e = true) Locks.idle s) : ¬ s.Deadlocked := by
  have inv : s.Disciplined ∧ Locks.Ordered place s := by
    induction run with
    | refl => exact ⟨disciplined_idle, ordered_idle⟩
    | @tail s e _ quiet ih =>
      refine ⟨disciplined_step ih.1 e, ?_⟩
      cases e with
      | call t c =>
        rw [step]
        split
        · exact ordered_step ih.2 (.start t c.steps) trivial
        · exact ih.2
      | next t barge => exact ordered_step ih.2 (.next t barge) (ih.1.orderly quiet)
      | wake t => exact ordered_step ih.2 (.wake t) trivial
  exact inv.2.not_deadlocked

/-- A statement has resolved its `IN (SELECT ...)` before a commit comes to wait for the guard it did so under. -/
theorem calls_do_not_deadlock_in_turn :
    let script : List (Threads (Fin 2) → CallEvent (Fin 2)) :=
      [fun _ => .call 1 .write, fun _ => .next 1 false, fun _ => .next 1 false, fun _ => .next 1 false,
        fun _ => .call 0 (.sql 1 1 0 5), fun _ => .next 0 false, fun _ => .next 0 false, fun _ => .next 0 false,
        fun _ => .next 0 false, fun _ => .next 0 false, fun _ => .call 1 .commit, fun _ => .next 1 false,
        fun _ => .next 1 false]
    1 ∈ (play step Locks.idle script).queue ∧ ¬ (play step Locks.idle script).Deadlocked :=
  ⟨by decide, calls_do_not_deadlock (Run.play calm _ (by decide) fun _ _ h => h)⟩

/-- A statement resolves its `IN (SELECT ...)` under a guard of the catalog, a commit comes to wait for the catalog, and
the inner execution then waits for the commit. Nothing happens any more. -/
theorem statement_and_commit_deadlock : ∃ s : Threads (Fin 2),
    Run step (fun _ _ => True) Locks.idle s ∧ s.Deadlocked ∧ ∀ e, s.step e = s := by
  let script : List (Threads (Fin 2) → CallEvent (Fin 2)) :=
    [fun _ => .call 0 (.sql 1 1 0 5), fun _ => .next 0 false, fun _ => .next 0 false, fun _ => .next 0 false,
      fun _ => .call 1 .write, fun _ => .next 1 false, fun _ => .next 1 false, fun _ => .next 1 false,
      fun _ => .call 1 .commit, fun _ => .next 1 false, fun _ => .next 1 false, fun _ => .next 0 false]
  refine ⟨play step Locks.idle script, Run.play (fun _ _ => true) script (by decide) fun _ _ _ => trivial, ?_, ?_⟩
  · exact ⟨Set.univ, ⟨0, trivial⟩, fun t _ => ⟨t + 1, trivial, by revert t; decide, by revert t; decide⟩⟩
  intro e
  cases e with
  | call t c =>
    have busy : (play step Locks.idle script).todo t ≠ [] := by revert t; decide
    rw [step, Locks.step, if_neg busy, ite_self]
  | next t barge =>
    have waits : t ∈ (play step Locks.idle script).queue := by revert t; decide
    rw [step, Locks.step, if_pos waits]
  | wake t =>
    revert t
    exact Fin.forall_fin_two.2 ⟨rfl, rfl⟩

end Threads

end BigDb.Embed
