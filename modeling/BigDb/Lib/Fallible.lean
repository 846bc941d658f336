import Mathlib.Logic.Basic

/-!
# Computations that may fail

How a computation in `Except` that succeeded is taken apart, and what is true of every result it can give. The
same for one that also carries a state: what it keeps true of the state.
-/

namespace BigDb.Lib
variable {ε ε' α β : Type} {σ : Type} {x : Except ε α} {b : β}

/-- A sequence succeeds if both of its parts do. -/
lemma bind_ok {f : α → Except ε β} : x >>= f = .ok b ↔ ∃ a, x = .ok a ∧ f a = .ok b := by
  constructor
  · intro h
    cases x with
    | ok a => exact ⟨a, rfl, h⟩
    | error => cases h
  · rintro ⟨a, rfl, h⟩
    exact h

variable {a : α}

lemma mapError_ok {f : ε → ε'} (h : x.mapError f = .ok a) : x = .ok a := by
  cases x with
  | ok =>
    cases h
    rfl
  | error => cases h

lemma map_ok {f : α → β} (h : x.map f = .ok b) : ∃ a, x = .ok a ∧ f a = b := by
  cases x with
  | ok a =>
    cases h
    exact ⟨a, rfl, rfl⟩
  | error => cases h

/-! ## What is true of every result -/

/-- Whatever `x` gives, if it gives anything. -/
def Gives (x : Except ε α) (P : α → Prop) : Prop := ∀ a, x = .ok a → P a

namespace Gives
variable {x : Except ε α} {f : α → Except ε β} {P Q : α → Prop} {R : β → Prop}

lemma ok (h : P a) : Gives (.ok a : Except ε α) P := by
  intro b hb
  cases hb
  exact h

lemma error {e : ε} : Gives (.error e : Except ε α) P := by
  intro a h
  cases h

lemma mono (h : Gives x P) (imp : ∀ a, P a → Q a) : Gives x Q := fun a ha => imp a (h a ha)

lemma bind (h : Gives x P) (next : ∀ a, P a → Gives (f a) R) : Gives (x >>= f) R := by
  intro b hb
  obtain ⟨a, ha, hf⟩ := bind_ok.mp hb
  exact next a (h a ha) b hf

/-- Of a step whose result does not matter. -/
lemma seq (next : ∀ a, Gives (f a) R) : Gives (x >>= f) R :=
  bind (P := fun _ => True) (fun _ _ => trivial) fun a _ => next a

end Gives

/-! ## Computations with a state -/

/-- Started where `P` holds, `m` ends with a result and a state of `Q`, if it ends. -/
def Ensures (P : σ → Prop) (m : StateT σ (Except ε) α) (Q : α → σ → Prop) : Prop :=
  ∀ s, P s → Gives (m s) fun r => Q r.1 r.2

namespace Ensures
variable {P : σ → Prop} {m : StateT σ (Except ε) α} {k : α → StateT σ (Except ε) β} {Q : α → σ → Prop}
  {R : β → σ → Prop}

lemma pure (h : ∀ s, P s → Q a s) : Ensures P (Pure.pure a : StateT σ (Except ε) α) Q :=
  fun s hs => .ok (h s hs)

lemma throw {e : ε} : Ensures P (MonadExcept.throw e : StateT σ (Except ε) α) Q := fun _ _ => .error

lemma lift {x : Except ε α} (h : ∀ a s, P s → Q a s) : Ensures P (StateT.lift x) Q :=
  fun s hs => .seq fun a => .ok (h a s hs)

lemma bind (h : Ensures P m Q) (next : ∀ a, Ensures (Q a) (k a) R) : Ensures P (m >>= k) R :=
  fun s hs => (h s hs).bind fun r hr => next r.1 r.2 hr

end Ensures

/-- A property of the state that `m` never loses. -/
def Keeps (P : σ → Prop) (m : StateT σ (Except ε) α) : Prop := Ensures P m fun _ => P

namespace Keeps
variable {P : σ → Prop} {m : StateT σ (Except ε) α} {k : α → StateT σ (Except ε) β}

lemma pure (a : α) : Keeps P (Pure.pure a : StateT σ (Except ε) α) := Ensures.pure fun _ h => h

lemma throw (e : ε) : Keeps P (MonadExcept.throw e : StateT σ (Except ε) α) := Ensures.throw

lemma lift (x : Except ε α) : Keeps P (StateT.lift x) := Ensures.lift fun _ _ h => h

lemma bind (h : Keeps P m) (next : ∀ a, Keeps P (k a)) : Keeps P (m >>= k) := Ensures.bind h next

end Keeps

end BigDb.Lib
