import Mathlib.Algebra.BigOperators.Group.List.Basic
import Mathlib.Algebra.Order.Ring.Int
import Mathlib.Data.List.Sort

/-!
# Quantiles

An exact quantile is found by a search on the counts of the records at or below a bound. Every step is
an ordinary query: its bound is written down, and planned as any number in the text of a query is.
-/

namespace BigDb.Embed.Quantile
open List

inductive FieldClass where
  | integer (scale : Nat)
  | signed

inductive Stop where
  | numberTooLarge
  | unfinished

/-- What the planner makes of a bound that is written as a whole number. -/
def FieldClass.bound : FieldClass → Nat → Except Stop Int
  | .integer scale, v =>
    if 10 ^ scale < 2 ^ 64 ∧ v * 10 ^ scale < 2 ^ 64 then .ok (v * 10 ^ scale : Nat) else .error .numberTooLarge
  | .signed, v => if v < 2 ^ 63 then .ok v else .error .numberTooLarge

/-- What the matching records of every owner hold, in stored units. -/
abbrev Owners := List (List Int)

variable {owners : Owners} {rank : Nat}

/-- `Count`, and the sum its merge makes. -/
def count (owners : Owners) (p : Int → Bool) : Nat := (owners.map (countP p)).sum

/-- `Min` or `Max` of what is not below a bound, and the extreme of the extremes that its merge makes. -/
def extremeFrom (best : List Int → Option Int) (bound : Int) (owners : Owners) : Option Int :=
  best (owners.filterMap fun vs => best (vs.filter (bound ≤ ·)))

/-- The loop, for a number of turns. -/
def search (c : FieldClass) (owners : Owners) (rank : Nat) : Nat → Nat → Nat → Except Stop (Option Int)
  | 0, _, _ => .error .unfinished
  | turns + 1, lo, hi =>
    let mid := lo + (hi - lo) / 2
    if lo < hi then do
      let bound ← c.bound mid
      if rank ≤ count owners (· ≤ bound) then search c owners rank turns lo mid
      else search c owners rank turns (mid + 1) hi
    else .ok (some lo)

/-- `ceil(level * n)`, and at least one. -/
def rankOf (perMille population : Nat) : Nat := max 1 ((population * perMille + 999) / 1000)

/-- `run_probe`. The extremes of a signed field are another kind of answer, which `as_extreme` takes for none. -/
def runProbe (c : FieldClass) (owners : Owners) (perMille turns : Nat) : Except Stop (Option Int) := do
  let zero ← c.bound 0
  let population := count owners (zero ≤ ·)
  if population = 0 then return none
  match c, extremeFrom min? zero owners, extremeFrom max? zero owners with
  | .integer _, some lo, some hi => search c owners (rankOf perMille population) turns lo.toNat hi.toNat
  | _, _, _ => return none

/-! ## The search -/

lemma count_eq (p : Int → Bool) : count owners p = owners.flatten.countP p := countP_flatten.symm

/-- In ascending order, a value is at or below a bound exactly if more values are than come before it. -/
lemma lt_countP_iff {l : List Int} (sorted : l.Pairwise (· ≤ ·)) {r : Nat} (lt : r < l.length) (b : Int) :
    r < l.countP (· ≤ b) ↔ l[r] ≤ b := by
  induction l generalizing r with
  | nil => cases lt
  | cons a l ih =>
    obtain ⟨above, sorted⟩ := pairwise_cons.1 sorted
    by_cases le : a ≤ b
    · rw [countP_cons_of_pos (by simpa using le)]
      cases r with
      | zero => simpa using le
      | succ r => simpa using ih sorted (by simpa using lt)
    · have none : (a :: l).countP (· ≤ b) = 0 := by
        refine countP_eq_zero.2 (forall_mem_cons.2 ⟨by simpa using le, fun x hx => ?_⟩)
        have := above x hx
        simp only [decide_eq_true_eq]
        omega
      rw [none]
      refine iff_of_false (Nat.not_lt_zero _) fun small => ?_
      rcases mem_cons.1 (getElem_mem lt) with eq | mem
      · omega
      · have := above _ mem
        omega

/-- The value of a rank, the first being one, in ascending order. -/
def valueAt (values : List Int) (rank : Nat) : Option Int := (values.insertionSort (· ≤ ·))[rank - 1]?

/-- Among values that are not negative it is the first that has as many of them up to it. -/
lemma exists_valueAt {values : List Int} (unsigned : ∀ v ∈ values, 0 ≤ v) (pos : 1 ≤ rank) (enough : rank ≤ values.length) :
    ∃ v : Nat, valueAt values rank = some (v : Int) ∧ ∀ b : Int, rank ≤ values.countP (· ≤ b) ↔ v ≤ b := by
  have perm := perm_insertionSort (· ≤ ·) values
  have lt : rank - 1 < (values.insertionSort (· ≤ ·)).length := by
    rw [length_insertionSort]
    omega
  obtain ⟨v, hv⟩ := Int.eq_ofNat_of_zero_le (unsigned _ (perm.mem_iff.1 (getElem_mem lt)))
  refine ⟨v, by rw [valueAt, getElem?_eq_getElem lt, hv], fun b => ?_⟩
  rw [← perm.countP_eq, ← hv, ← lt_countP_iff (pairwise_insertionSort (· ≤ ·) _) lt]
  omega

variable {c : FieldClass} {turns lo hi : Nat}

/-- The first number of a range whose question is answered with yes, where all questions can be asked. -/
lemma search_spec {first : Nat} (low : lo ≤ first) (high : first ≤ hi) (range : hi - lo < 2 ^ turns)
    (asks : ∀ mid, lo ≤ mid → mid < hi →
      ∃ bound, c.bound mid = .ok bound ∧ (rank ≤ owners.flatten.countP (· ≤ bound) ↔ first ≤ mid)) :
    search c owners rank (turns + 1) lo hi = .ok (some (first : Int)) := by
  induction turns generalizing lo hi with
  | zero =>
    obtain rfl : lo = hi := by omega
    obtain rfl : lo = first := by omega
    rw [search, if_neg (lt_irrefl _)]
  | succ turns ih =>
    rw [search]
    split
    · next lt =>
      obtain ⟨bound, ok, yes⟩ := asks (lo + (hi - lo) / 2) (by omega) (by omega)
      rw [ok]
      show (if rank ≤ count owners _ then _ else _) = _
      rw [Nat.pow_succ] at range
      rw [count_eq]
      split
      · next reached => exact ih low (yes.1 reached) (by omega) fun mid le lt => asks mid le (by omega)
      · next missed =>
        have := mt yes.2 missed
        exact ih (by omega) high (by omega) fun mid le lt => asks mid (by omega) lt
    · obtain rfl : lo = hi := by omega
      obtain rfl : lo = first := by omega
      rfl

/-- Where the search ends: the question below its answer was answered with no, unless that is where it began. -/
lemma search_ends {x : Option Int} (h : search c owners rank turns lo hi = .ok x) (le : lo ≤ hi) :
    ∃ n : Nat, x = some (n : Int) ∧ lo ≤ n ∧ (n = lo ∨ ∃ bound, c.bound (n - 1) = .ok bound ∧
      ¬ rank ≤ owners.flatten.countP (· ≤ bound)) := by
  induction turns generalizing lo hi with
  | zero => cases h
  | succ turns ih =>
    rw [search] at h
    split at h
    · next lt =>
      cases asked : c.bound (lo + (hi - lo) / 2) with
      | error e =>
        rw [asked] at h
        cases h
      | ok bound =>
        rw [asked] at h
        change (if rank ≤ count owners _ then _ else _) = _ at h
        rw [count_eq] at h
        split at h
        · exact ih h (by omega)
        · next missed =>
          obtain ⟨n, eq, low, ends⟩ := ih h (by omega)
          refine ⟨n, eq, by omega, .inr ?_⟩
          rcases ends with rfl | ends
          · exact ⟨bound, asked, missed⟩
          · exact ends
    · cases h
      exact ⟨lo, rfl, le_rfl, .inl rfl⟩

/-! ## The range -/

lemma extremeFrom_eq (best : List Int → Option Int) {R : Int → Int → Prop} {bound : Int}
    (trans : ∀ {a b c}, R a b → R b c → R a c)
    (spec : ∀ {l a}, best l = some a ↔ a ∈ l ∧ ∀ b ∈ l, R a b) (nil : ∀ {l}, best l = none ↔ l = [])
    (from' : ∀ v ∈ owners.flatten, bound ≤ v) (held : owners.flatten ≠ []) :
    ∃ e, extremeFrom best bound owners = some e ∧ e ∈ owners.flatten ∧ ∀ v ∈ owners.flatten, R e v := by
  have own {v : Int} (hv : v ∈ owners.flatten) : ∃ a ∈ owners.filterMap fun vs => best (vs.filter (bound ≤ ·)),
      R a v := by
    obtain ⟨vs, hvs, hv'⟩ := mem_flatten.1 hv
    have hv' : v ∈ vs.filter (bound ≤ ·) := mem_filter.2 ⟨hv', decide_eq_true (from' v hv)⟩
    cases h : best (vs.filter (bound ≤ ·)) with
    | none =>
      rw [nil.1 h] at hv'
      cases hv'
    | some a => exact ⟨a, mem_filterMap.2 ⟨vs, hvs, h⟩, (spec.1 h).2 v hv'⟩
  cases h : extremeFrom best bound owners with
  | none =>
    obtain ⟨v, hv⟩ := exists_mem_of_ne_nil _ held
    obtain ⟨a, ha, -⟩ := own hv
    rw [nil.1 h] at ha
    cases ha
  | some e =>
    obtain ⟨mem, first⟩ := spec.1 h
    obtain ⟨vs, hvs, he⟩ := mem_filterMap.1 mem
    refine ⟨e, rfl, mem_flatten.2 ⟨vs, hvs, (mem_filter.1 (spec.1 he).1).1⟩, fun v hv => ?_⟩
    obtain ⟨a, ha, hav⟩ := own hv
    exact trans (first a ha) hav

/-! ## When a quantile is exact -/

/-- The values a field can hold, in stored units. -/
def FieldClass.stores : FieldClass → Int → Prop
  | .integer _, v => 0 ≤ v ∧ v < 2 ^ 64
  | .signed, v => -2 ^ 63 ≤ v ∧ v < 2 ^ 63

/-- Where bounds in stored units do no harm: the field has no scale; or its values are all equal; or the first
question can be asked, and the value of the rank is the smallest one or the smallest unit. -/
def FieldClass.finds (c : FieldClass) (values : List Int) (rank : Nat) : Prop :=
  match c with
  | .integer 0 => True
  | .integer scale => 10 ^ scale < 2 ^ 64 ∧ ∀ lo ∈ values.min?, ∀ hi ∈ values.max?, lo = hi ∨
      (lo + (hi - lo) / 2) * 10 ^ scale < 2 ^ 64 ∧ (valueAt values rank = some lo ∨ valueAt values rank = some 1)
  | .signed => values = []

lemma bound_eq {scale v : Nat} (small : 10 ^ scale < 2 ^ 64) (fits : v * 10 ^ scale < 2 ^ 64) :
    (FieldClass.integer scale).bound v = .ok ((v * 10 ^ scale : Nat) : Int) := if_pos ⟨small, fits⟩

lemma bound_ok {scale v : Nat} {b : Int} (h : (FieldClass.integer scale).bound v = .ok b) :
    b = ((v * 10 ^ scale : Nat) : Int) ∧ 10 ^ scale < 2 ^ 64 ∧ v * 10 ^ scale < 2 ^ 64 := by
  rw [FieldClass.bound] at h
  split at h
  · next fits =>
    cases h
    exact ⟨rfl, fits⟩
  · cases h

/-- The search of a field with a scale, between its smallest and its largest value. -/
lemma search_scaled {scale first : Nat} (scaled : scale ≠ 0) (small : 10 ^ scale < 2 ^ 64)
    (yes : ∀ b : Int, rank ≤ owners.flatten.countP (· ≤ b) ↔ first ≤ b) (low : lo ≤ first) (high : first ≤ hi)
    (range : hi - lo < 2 ^ turns) :
    search (.integer scale) owners rank (turns + 1) lo hi = .ok (some (first : Int)) ↔
      lo = hi ∨ (lo + (hi - lo) / 2) * 10 ^ scale < 2 ^ 64 ∧ (first = lo ∨ first = 1) := by
  have ten : 10 ≤ 10 ^ scale := by
    simpa using Nat.pow_le_pow_right (n := 10) (by omega) (Nat.one_le_iff_ne_zero.2 scaled)
  constructor
  · intro found
    by_cases same : lo = hi
    · exact .inl same
    refine .inr ⟨?_, ?_⟩
    · -- the first question was asked
      rw [search, if_pos (by omega)] at found
      by_contra large
      rw [FieldClass.bound, if_neg (by omega)] at found
      cases found
    · obtain ⟨n, eq, -, rfl | ⟨bound, asked, missed⟩⟩ := search_ends found (low.trans high)
      · exact .inl (by simpa using eq)
      obtain rfl : first = n := by simpa using eq
      obtain ⟨rfl, -⟩ := bound_ok asked
      rw [yes] at missed
      have := Nat.mul_le_mul_left (first - 1) ten
      omega
  · rintro (rfl | ⟨fits, place⟩)
    · obtain rfl : lo = first := by omega
      rw [search, if_neg (lt_irrefl _)]
    have asks (mid : Nat) (ge : lo ≤ mid) (le : mid ≤ lo + (hi - lo) / 2) :
        ∃ bound, (FieldClass.integer scale).bound mid = .ok bound ∧
          (rank ≤ owners.flatten.countP (· ≤ bound) ↔ first ≤ mid) := by
      refine ⟨_, bound_eq small ((Nat.mul_le_mul_right _ le).trans_lt fits), ?_⟩
      have := Nat.mul_le_mul_left mid ten
      rw [yes, Nat.cast_le]
      rcases place with rfl | rfl
      · exact iff_of_true (by omega) ge
      · constructor
        · intro some_
          by_contra none
          obtain rfl : mid = 0 := by omega
          omega
        · omega
    by_cases same : lo = hi
    · subst same
      obtain rfl : lo = first := by omega
      rw [search, if_neg (lt_irrefl _)]
    obtain ⟨turns, rfl⟩ : ∃ t, turns = t + 1 :=
      Nat.exists_eq_succ_of_ne_zero fun none => by
        subst none
        omega
    obtain ⟨bound, ok, answer⟩ := asks (lo + (hi - lo) / 2) (by omega) le_rfl
    rw [search, if_pos (by omega), ok]
    show (if rank ≤ count owners _ then _ else _) = _
    rw [Nat.pow_succ] at range
    rw [count_eq]
    split
    · next reached =>
      exact search_spec low (answer.1 reached) (by omega) fun mid ge lt => asks mid ge lt.le
    · next missed =>
      -- only the unit itself is above the first question, and nothing but it is left
      have := mt answer.2 missed
      exact search_spec (by omega) high (by omega) fun mid ge lt => by omega

section
variable {perMille : Nat} (level : perMille ≤ 1000)
include level

lemma rankOf_le {population : Nat} (held : population ≠ 0) : rankOf perMille population ≤ population := by
  have := Nat.mul_le_mul_left population level
  unfold rankOf
  omega

lemma runProbe_signed : runProbe .signed owners perMille (turns + 1) =
    .ok (valueAt owners.flatten (rankOf perMille owners.flatten.length)) ↔ owners.flatten = [] := by
  have null : runProbe .signed owners perMille (turns + 1) = .ok none := by
    rw [runProbe]
    show (if count owners (0 ≤ ·) = 0 then _ else _) = _
    split <;> rfl
  rw [null]
  constructor
  · intro none
    by_contra held
    have le := rankOf_le level (mt length_eq_zero_iff.1 held)
    have : rankOf perMille owners.flatten.length - 1 < (owners.flatten.insertionSort (· ≤ ·)).length := by
      have := length_pos_iff.2 held
      rw [length_insertionSort]
      omega
    rw [valueAt, getElem?_eq_getElem this] at none
    cases none
  · intro none
    simp [valueAt, none]

lemma runProbe_integer {scale : Nat} (stored : ∀ v ∈ owners.flatten, 0 ≤ v ∧ v < 2 ^ 64)
    (range : ∀ v ∈ owners.flatten, ∀ w ∈ owners.flatten, v - w < 2 ^ turns) :
    runProbe (.integer scale) owners perMille (turns + 1) =
        .ok (valueAt owners.flatten (rankOf perMille owners.flatten.length)) ↔
      (FieldClass.integer scale).finds owners.flatten (rankOf perMille owners.flatten.length) := by
  have whole : count owners (0 ≤ ·) = owners.flatten.length := by
    rw [count_eq]
    exact countP_eq_length.2 fun v hv => decide_eq_true (stored v hv).1
  by_cases small : 10 ^ scale < 2 ^ 64
  swap
  · have fails : runProbe (.integer scale) owners perMille (turns + 1) = .error .numberTooLarge := by
      rw [runProbe, FieldClass.bound, if_neg fun h => small h.1]
      rfl
    rw [fails]
    refine iff_of_false nofun ?_
    cases scale with
    | zero => exact absurd (by decide) small
    | succ scale => exact fun h => small h.1
  rw [runProbe, bound_eq small (by simp), Nat.zero_mul, Nat.cast_zero]
  show (if count owners (0 ≤ ·) = 0 then _ else _) = _ ↔ _
  rw [whole]
  split
  · next none =>
    have none := length_eq_zero_iff.1 none
    refine iff_of_true ?_ ?_
    · simp [valueAt, none]
      rfl
    · unfold FieldClass.finds
      cases scale with
      | zero => trivial
      | succ scale => exact ⟨small, by simp [none]⟩
  · next held =>
    have from' : ∀ v ∈ owners.flatten, 0 ≤ v := fun v hv => (stored v hv).1
    have some_ := mt length_eq_zero_iff.2 held
    obtain ⟨lo, hlo, inside, least⟩ :=
      extremeFrom_eq min? (R := (· ≤ ·)) le_trans min?_eq_some_iff min?_eq_none_iff from' some_
    obtain ⟨hi, hhi, inside', greatest⟩ :=
      extremeFrom_eq max? (R := (· ≥ ·)) ge_trans max?_eq_some_iff max?_eq_none_iff from' some_
    obtain ⟨lo, rfl⟩ := Int.eq_ofNat_of_zero_le (from' lo inside)
    obtain ⟨hi, rfl⟩ := Int.eq_ofNat_of_zero_le (from' hi inside')
    have pos : 1 ≤ rankOf perMille owners.flatten.length := le_max_left ..
    obtain ⟨v, value, yes⟩ := exists_valueAt from' pos (rankOf_le level held)
    have span : hi - lo < 2 ^ turns := by
      have := range _ inside' _ inside
      have : (hi : Int) < lo + 2 ^ turns := by omega
      have : hi < lo + 2 ^ turns := by exact_mod_cast this
      have := Nat.two_pow_pos turns
      omega
    have low : lo ≤ v := by
      obtain ⟨w, hw, le⟩ := countP_pos_iff.1 (Nat.lt_of_lt_of_le Nat.zero_lt_one (pos.trans ((yes v).2 le_rfl)))
      have := least w hw
      simp only [decide_eq_true_eq] at le
      omega
    have high : v ≤ hi := by
      have all : owners.flatten.countP (· ≤ (hi : Int)) = owners.flatten.length :=
        countP_eq_length.2 fun v hv => by simpa using greatest v hv
      exact_mod_cast (yes hi).1 ((rankOf_le level held).trans_eq all.symm)
    have top := (stored _ inside').2
    rw [hlo, hhi, value]
    show search (.integer scale) owners _ (turns + 1) lo hi = _ ↔ _
    cases scale with
    | zero =>
      refine iff_of_true (search_spec low high span fun mid ge lt => ⟨mid, ?_, ?_⟩) trivial
      · rw [bound_eq small (by omega), Nat.pow_zero, Nat.mul_one]
      · rw [yes, Nat.cast_le]
    | succ scale =>
      rw [search_scaled (Nat.succ_ne_zero _) small yes low high span]
      have hmin : owners.flatten.min? = some (lo : Int) := min?_eq_some_iff.2 ⟨inside, least⟩
      have hmax : owners.flatten.max? = some (hi : Int) := max?_eq_some_iff.2 ⟨inside', greatest⟩
      simp only [FieldClass.finds, hmin, hmax, value, Option.mem_some_iff, forall_eq', Option.some.injEq]
      have mid : (lo : Int) + (hi - lo) / 2 = ((lo + (hi - lo) / 2 : Nat) : Int) := by omega
      have fits : ((lo + (hi - lo) / 2 : Nat) : Int) * 10 ^ (scale + 1) < 2 ^ 64 ↔
          (lo + (hi - lo) / 2) * 10 ^ (scale + 1) < 2 ^ 64 := by
        rw [← Int.ofNat_lt]
        push_cast
        rfl
      rw [mid, and_iff_right small, fits, Int.ofNat_inj, Int.ofNat_inj, Nat.cast_eq_one]

end

/-- **When a quantile is exact**: `run_probe` answers with the value of the rank among what all owners hold together,
after as many turns as the range has bits, exactly where bounds in stored units do no harm. Three questions come
before the turns, and a turn asks one. -/
theorem runProbe_exact_iff (c : FieldClass) (owners : Owners) (perMille turns : Nat) (level : perMille ≤ 1000)
    (stored : ∀ v ∈ owners.flatten, c.stores v)
    (range : ∀ v ∈ owners.flatten, ∀ w ∈ owners.flatten, v - w < 2 ^ turns) :
    runProbe c owners perMille (turns + 1) = .ok (valueAt owners.flatten (rankOf perMille owners.flatten.length)) ↔
      c.finds owners.flatten (rankOf perMille owners.flatten.length) := by
  cases c with
  | signed => exact runProbe_signed level
  | integer scale => exact runProbe_integer level stored range

theorem runProbe_exact_median : runProbe (.integer 0) [[3, 1], [2]] 500 3 = .ok (some 2) :=
  (runProbe_exact_iff (.integer 0) [[3, 1], [2]] 500 2 (by decide) (by simp [FieldClass.stores]) (by decide)).2 trivial

/-- A bound in stored units is planned as a whole number of a decimal field, and a signed field has no extremes. -/
theorem quantile_decimal_and_signed : runProbe (.integer 2) [[100, 200, 300]] 500 9 = .ok (some 100) ∧
    valueAt [100, 200, 300] (rankOf 500 3) = some 200 ∧ runProbe .signed [[5]] 500 9 = .ok none :=
  ⟨rfl, by decide, rfl⟩

end BigDb.Embed.Quantile
