import BigDb.Lib.Lists
import Mathlib.Order.WellFounded

/-!
# Runs of a step function

A system that takes one event after another, and its runs: those whose every step satisfies a
condition on the state and the event. The invariant rule, and runs written down as scripts
whose events may depend on what has happened so far.
-/

namespace BigDb.Lib
variable {S E : Type}

/-- The runs whose every step satisfies `ok`, from one state to another. -/
inductive Run (step : S → E → S) (ok : S → E → Prop) (a : S) : S → Prop where
  | refl : Run step ok a a
  | tail {b : S} {e : E} : Run step ok a b → ok b e → Run step ok a (step b e)

namespace Run
variable {step : S → E → S} {ok : S → E → Prop} {a b c : S}

lemma trans (h : Run step ok a b) (h' : Run step ok b c) : Run step ok a c := by
  induction h' with
  | refl => exact h
  | tail _ hok ih => exact ih.tail hok

/-- The invariant rule. -/
lemma run {P : S → Prop} (h : Run step ok a b) (start : P a) (next : ∀ x e, ok x e → P x → P (step x e)) : P b := by
  induction h with
  | refl => exact start
  | tail _ hok ih => exact next _ _ hok ih

lemma mono {ok' : S → E → Prop} (h : Run step ok a b)
    (imp : ∀ x e, Run step ok a x → ok x e → ok' x e) : Run step ok' a b := by
  induction h with
  | refl => exact .refl
  | tail hrun hok ih => exact ih.tail (imp _ _ hrun hok)

end Run

/-! ## Runs written down -/

/-- Where a script leads. -/
def play (step : S → E → S) (a : S) (script : List (S → E)) : S :=
  script.foldl (fun x event => step x (event x)) a

def passes (step : S → E → S) (test : S → E → Bool) : S → List (S → E) → Bool
  | _, [] => true
  | a, event :: script => test a (event a) && passes step test (step a (event a)) script

lemma Run.play {step : S → E → S} {a : S} (test : S → E → Bool) (script : List (S → E))
    (h : passes step test a script = true) {ok : S → E → Prop}
    (imp : ∀ x e, test x e = true → ok x e) : Run step ok a (play step a script) := by
  induction script generalizing a with
  | nil => exact .refl
  | cons event script ih =>
    rw [passes, Bool.and_eq_true] at h
    exact (Run.refl.tail (imp _ _ h.1)).trans (ih h.2)

/-! ## Endless runs and progress

A run that never ends, and the rule by which a fair one gets somewhere: there is always somebody whose
turn it is, and who brings the goal nearer when taking a step; nobody else's step takes the turn away.
-/

/-- The states of the run that takes one event after another. -/
def states (step : S → E → S) (a : S) (events : Nat → E) : Nat → S
  | 0 => a
  | n + 1 => step (states step a events n) (events n)

lemma run_states {step : S → E → S} {ok : S → E → Prop} {a : S} {events : Nat → E}
    (h : ∀ n, ok (states step a events n) (events n)) (n : Nat) : Run step ok a (states step a events n) := by
  induction n with
  | zero => exact .refl
  | succ n ih => exact ih.tail (h n)

variable {I R : Type} [LT R] [WellFoundedLT R] {acts : Nat → I → Prop} {goal : Nat → Prop}

/-- `turn n i r` says that at time `n` it is the turn of `i`, with `r` to go. -/
lemma eventually_of_fair (fair : ∀ i n, ∃ m, n ≤ m ∧ acts m i) (turn : Nat → I → R → Prop)
    (next : ∀ n i r, turn n i r → goal n ∨ goal (n + 1) ∨ (∃ j r', r' < r ∧ turn (n + 1) j r') ∨
      (turn (n + 1) i r ∧ ¬acts n i))
    {n : Nat} {i : I} {r : R} (start : turn n i r) : ∃ m, n ≤ m ∧ goal m := by
  induction r using WellFoundedLT.induction generalizing n i with
  | ind r ih =>
    obtain ⟨m, le, act⟩ := fair i n
    -- until `i` takes its step: the goal is reached, or less is to go, or nothing has changed
    have waits : ∀ k, n + k ≤ m + 1 → (∃ m, n ≤ m ∧ goal m) ∨ (turn (n + k) i r ∧ n + k ≤ m) := by
      intro k
      induction k with
      | zero => exact fun _ => .inr ⟨start, le⟩
      | succ k ihk =>
        intro lt
        rcases ihk (by omega) with done | ⟨still, le'⟩
        · exact .inl done
        rcases next _ _ _ still with now | soon | ⟨j, r', less, other⟩ | ⟨same, idle⟩
        · exact .inl ⟨_, by omega, now⟩
        · exact .inl ⟨_, by omega, soon⟩
        · obtain ⟨m', le', done⟩ := ih r' less other
          exact .inl ⟨m', by omega, done⟩
        · refine .inr ⟨same, ?_⟩
          by_contra past
          have here : n + k = m := by omega
          exact idle (here ▸ act)
    rcases waits (m + 1 - n) (by omega) with done | ⟨-, past⟩
    · exact done
    · omega

end BigDb.Lib
