import Mathlib.Data.List.Infix

/-!
# `LIKE`

Patterns with two wildcards and one escape, matched against one key at a time. The walk is greedy and
remembers only the last `%`. `ILIKE` lowercases the pattern and the text, each as a whole, before it
compares; what the standard library's lowercasing does is a parameter here.
-/

namespace BigDb.Db.Like
open List

inductive Elem where
  | lit (c : Char)
  | one
  | any
deriving DecidableEq

/-- A trailing backslash is a literal one. -/
def parse : List Char → List Elem
  | [] => []
  | '%' :: rest => .any :: parse rest
  | '_' :: rest => .one :: parse rest
  | '\\' :: c :: rest => .lit c :: parse rest
  | c :: rest => .lit c :: parse rest

/-- Where the walk is. A position in the text or the pattern is what there is from it on, and `star` the
position after the last `%`. -/
structure Walk where
  i : List Char
  j : List Elem
  star : Option (List Elem)
  mark : List Char

/-- A mismatch: the last `%` is given one more character. -/
def Walk.retry (s : Walk) : Bool ⊕ Walk :=
  match s.star with
  | some j => .inr { s with i := s.mark.tail, j, mark := s.mark.tail }
  | none => .inl false

/-- One turn of the loop of `run`: its answer, or where it is next. -/
def Walk.turn (s : Walk) : Bool ⊕ Walk :=
  match s.i, s.j with
  | [], j => .inl (j.all (· == .any))
  | _ :: i, .one :: j => .inr { s with i, j }
  | c :: i, .lit d :: j => if d = c then .inr { s with i, j } else s.retry
  | i, .any :: j => .inr ⟨i, j, some j, i⟩
  | _, [] => s.retry

def runFor : Nat → Walk → Option Bool
  | 0, _ => none
  | steps + 1, s =>
    match s.turn with
    | .inl answer => some answer
    | .inr s => runFor steps s

/-- `matches`, given a number of turns to take. Folding lowercases both sides. -/
def matchesIn (lower : List Char → List Char) (steps : Nat) (pattern text : List Char) (fold : Bool) : Option Bool :=
  let side := fun s => if fold then lower s else s
  runFor steps ⟨side text, parse (side pattern), none, side text⟩

/-! ## What a pattern means -/

/-- The texts a pattern stands for, if a literal stands for the characters that are the same to `same`. -/
def Means (same : Char → Char → Prop) : List Char → List Char → Prop
  | [], t => t = []
  | '%' :: p, t => ∃ u, u <:+ t ∧ Means same p u
  | '_' :: p, t => ∃ c u, t = c :: u ∧ Means same p u
  | '\\' :: c :: p, t => ∃ d u, t = d :: u ∧ same c d ∧ Means same p u
  | c :: p, t => ∃ d u, t = d :: u ∧ same c d ∧ Means same p u

/-- The same of a parsed pattern. -/
def Fits : List Elem → List Char → Prop
  | [], t => t = []
  | .any :: p, t => ∃ u, u <:+ t ∧ Fits p u
  | .one :: p, t => ∃ c u, t = c :: u ∧ Fits p u
  | .lit c :: p, t => ∃ u, t = c :: u ∧ Fits p u

variable {p : List Elem} {t : List Char} {s : Walk}

lemma means_iff {p : List Char} : Means (· = ·) p t ↔ Fits (parse p) t := by
  induction p using parse.induct generalizing t with
  | case1 => rfl
  | case2 rest ih | case3 rest ih => simp only [Means, parse, Fits, ih]
  | case4 c rest ih => simp [Means, parse, Fits, ih]
  | case5 c rest any one escape ih =>
    rw [Means.eq_5 _ _ _ _ any one escape, parse.eq_5 _ _ any one escape]
    simp [Fits, ih]

/-! ## Where the walk stands -/

/-- A pattern that has run out of text is made of `%` only. -/
lemma fits_nil : Fits p [] ↔ p.all (· == .any) = true := by
  induction p with
  | nil => exact ⟨fun _ => rfl, fun _ => rfl⟩
  | cons e p ih => cases e <;> simp [Fits, ih]

variable (p t s) in
/-- The walk has lost no match: there is one from where it is, or with a later end for what the last `%` swallows. -/
structure Stands : Prop where
  short : s.j.length ≤ p.length ∧ s.i.length ≤ s.mark.length
  sound : Fits s.j s.i → Fits p t
  onward : Fits p t → ∃ u, u <:+ s.i ∧ Fits s.j u
  found : Fits p t → Fits s.j s.i ∨ ∃ j ∈ s.star, ∃ u, u <:+ s.mark.tail ∧ Fits j u
  later : ∀ j ∈ s.star, j.length ≤ p.length ∧ ∀ u, u <:+ s.mark.tail → Fits j u → Fits p t

/-- The turns that are left at most: a pattern's length for each character the last `%` may still take. -/
def left (p : List Elem) (s : Walk) : Nat := s.mark.length * (p.length + 1) + s.j.length

variable (p t s) in
/-- What a turn has to give. -/
def Turned : Bool ⊕ Walk → Prop
  | .inl answer => answer = true ↔ Fits p t
  | .inr s' => Stands p t s' ∧ left p s' < left p s

variable {j : List Elem}

/-- Where a `%` begins to swallow, or goes on. -/
lemma stands_again {i : List Char} (short : j.length ≤ p.length)
    (sound : ∀ u, u <:+ i → Fits j u → Fits p t) (onward : Fits p t → ∃ u, u <:+ i ∧ Fits j u) :
    Stands p t ⟨i, j, some j, i⟩ where
  short := ⟨short, Nat.le_refl _⟩
  sound := sound i suffix_rfl
  onward := onward
  found h := by
    obtain ⟨u, suffix, fits⟩ := onward h
    cases i with
    | nil =>
      rw [suffix_nil.1 suffix] at fits
      exact .inl fits
    | cons c i =>
      rcases suffix_cons_iff.1 suffix with rfl | suffix
      · exact .inl fits
      · exact .inr ⟨j, rfl, u, suffix, fits⟩
  later := by
    rintro _ ⟨⟩
    exact ⟨short, fun u suffix => sound u (suffix.trans (tail_suffix _))⟩

namespace Stands
variable (S : Stands p t s)
include S

lemma retry (more : s.i ≠ []) (miss : ¬ Fits s.j s.i) : Turned p t s s.retry := by
  unfold Walk.retry
  cases hs : s.star with
  | none =>
    refine ⟨fun h => (by cases h), fun h => ?_⟩
    rcases S.found h with fits | ⟨j, some, -⟩
    · exact absurd fits miss
    · cases hs.symm.trans some
  | some j =>
    obtain ⟨short, later⟩ := S.later j hs
    constructor
    · refine stands_again short later fun h => ?_
      rcases S.found h with fits | ⟨j', some, fits⟩
      · exact absurd fits miss
      · cases hs.symm.trans some
        exact fits
    · have := S.short.2
      have := length_pos_iff.2 more
      obtain ⟨n, hn⟩ : ∃ n, s.mark.length = n + 1 := ⟨s.mark.length - 1, by omega⟩
      simp only [left, length_tail, hn, Nat.succ_mul, Nat.add_sub_cancel]
      omega

lemma wild (here : s.j = .any :: j) : Turned p t s (.inr ⟨s.i, j, some j, s.i⟩) := by
  obtain ⟨short, within⟩ := S.short
  rw [here, length_cons] at short
  constructor
  · refine stands_again (by omega) (fun u suffix fits => S.sound ?_) fun h => ?_
    · rw [here]
      exact ⟨u, suffix, fits⟩
    · obtain ⟨u, suffix, fits⟩ := S.onward h
      rw [here] at fits
      obtain ⟨v, suffix', fits⟩ := fits
      exact ⟨v, suffix'.trans suffix, fits⟩
  · have := Nat.mul_le_mul_right (p.length + 1) within
    simp only [left, here, length_cons]
    omega

/-- An element that takes one character, and takes this one. -/
lemma next {e : Elem} {c : Char} {i : List Char} (hi : s.i = c :: i) (hj : s.j = e :: j)
    (takes : e = .one ∨ e = .lit c) : Turned p t s (.inr { s with i, j }) := by
  have fits (u : List Char) : Fits (e :: j) (c :: u) ↔ Fits j u := by
    rcases takes with rfl | rfl <;> simp [Fits]
  have single {u : List Char} (h : Fits (e :: j) u) : ∃ d v, u = d :: v ∧ Fits j v := by
    rcases takes with rfl | rfl
    · exact h
    · exact ⟨c, h⟩
  obtain ⟨short, within⟩ := S.short
  rw [hi, length_cons] at within
  rw [hj, length_cons] at short
  constructor
  · refine ⟨⟨by dsimp only; omega, by dsimp only; omega⟩, fun h => S.sound ?_, fun h => ?_, fun h => ?_, S.later⟩
    · rw [hi, hj]
      exact (fits i).2 h
    · obtain ⟨u, suffix, h⟩ := S.onward h
      rw [hj] at h
      rw [hi] at suffix
      obtain ⟨d, v, rfl, fits⟩ := single h
      refine ⟨v, ?_, fits⟩
      rcases suffix_cons_iff.1 suffix with same | suffix
      · cases same
        exact suffix_rfl
      · exact (suffix_cons d v).trans suffix
    · rcases S.found h with h | later
      · rw [hi, hj, fits] at h
        exact .inl h
      · exact .inr later
  · simp only [left, hj, length_cons]
    omega

lemma turned : Turned p t s s.turn := by
  unfold Walk.turn
  split
  · next hi =>
    rw [Turned, ← fits_nil, ← hi]
    refine ⟨S.sound, fun h => ?_⟩
    obtain ⟨u, suffix, fits⟩ := S.onward h
    rw [hi] at suffix ⊢
    rwa [suffix_nil.1 suffix] at fits
  · next hi hj => exact S.next hi hj (.inl rfl)
  · next hi hj =>
    split
    · next eq =>
      subst eq
      exact S.next hi hj (.inr rfl)
    · next ne =>
      apply S.retry
      · simp [hi]
      · rw [hi, hj]
        rintro ⟨u, same, -⟩
        cases same
        exact ne rfl
  · next hj _ => exact S.wild hj
  · next hj some =>
    apply S.retry some
    rw [hj]
    exact some

lemma run {steps : Nat} (enough : left p s < steps) : ∃ answer, runFor steps s = some answer ∧ (answer = true ↔ Fits p t) := by
  induction steps generalizing s with
  | zero => cases enough
  | succ steps ih =>
    have turned := S.turned
    rw [runFor]
    cases h : s.turn with
    | inl answer =>
      rw [h] at turned
      exact ⟨answer, rfl, turned⟩
    | inr s' =>
      rw [h] at turned
      exact ih turned.1 (Nat.lt_of_lt_of_le turned.2 (Nat.le_of_lt_succ enough))

end Stands

lemma length_parse (p : List Char) : (parse p).length ≤ p.length := by
  induction p using parse.induct with
  | case1 => exact Nat.le_refl _
  | case2 rest ih | case3 rest ih => exact Nat.succ_le_succ ih
  | case4 c rest ih => exact Nat.succ_le_succ (Nat.le_succ_of_le ih)
  | case5 c rest any one escape ih =>
    rw [parse.eq_5 _ _ any one escape]
    exact Nat.succ_le_succ ih

/-- `matches` answers whether the text is one the pattern stands for, both lowercased first when folding is
asked for, within a number of turns of the walk; more of them change nothing. -/
theorem matchesIn_iff (lower : List Char → List Char) (pattern text : List Char) (fold : Bool) (more : Nat) :
    let side := fun s => if fold then lower s else s
    ∃ answer, matchesIn lower (((side pattern).length + 1) * ((side text).length + 1) + more) pattern text fold = some answer ∧
      (answer = true ↔ Means (· = ·) (side pattern) (side text)) := by
  intro side
  have start : Stands (parse (side pattern)) (side text) ⟨side text, parse (side pattern), none, side text⟩ :=
    ⟨⟨Nat.le_refl _, Nat.le_refl _⟩, fun h => h, fun h => ⟨_, suffix_rfl, h⟩, .inl, fun j some => by cases some⟩
  rw [means_iff]
  apply start.run
  have short := length_parse (side pattern)
  have := Nat.mul_le_mul_left (side text).length short
  simp only [left, Nat.mul_succ, Nat.succ_mul, Nat.mul_comm (side pattern).length]
  omega

/-- `İ` is one character, and two once it is lowercased. And two turns do not answer for one character against
one `%`. -/
theorem ilike_one_character :
    let lower : List Char → List Char := fun s => s.flatMap fun c => if c = 'İ' then ['i', '\u0307'] else [c.toLower]
    Means (fun c d => lower [c] = lower [d]) ['_'] ['İ'] ∧ matchesIn lower 6 ['_'] ['İ'] true = some false ∧
      matchesIn lower 2 ['%'] ['a'] false = none :=
  ⟨⟨_, _, rfl, rfl⟩, by decide +kernel, by decide +kernel⟩

end BigDb.Db.Like
