import BigDb.Pager.Store

/-!
# Accounting for pages

Where the pages are that a transaction has to do with, at every moment of it: those that were free
when it began, those it has taken since, those it was given back, and those past the end of the file.
Every operation on the supply keeps the balance, and a page that is taken was free and old enough or
lies past the end of the file.
-/

namespace BigDb.Pager
open Lib List

/-- The supply of a transaction that began with the pages `free` in a file of `floor` pages, has
taken the pages `taken`, none that was freed after `reach`, and was given the pages `added`. -/
structure Account (free : List (Nat × Nat)) (floor txnId reach : Nat) (taken added : List Nat) (s : Supply) :
    Prop where
  balance : ∀ p, s.freelist.pgnos.count p + taken.count p =
    (free.map Prod.fst).count p + added.count p + if floor ≤ p ∧ p < s.nextPgno then 1 else 0
  listing : ∀ x ∈ s.freelist.listed, x ∈ free ∨ x.2 = txnId
  fresh : ∀ p ∈ taken, (∃ t ≤ reach, (p, t) ∈ free) ∨ floor ≤ p
  above : floor ≤ s.nextPgno

variable {free : List (Nat × Nat)} {floor txnId reach horizon : Nat} {taken added : List Nat} {s s' : Supply}
  {capacity : Option Nat} {p : Nat}

/-- A page comes from the free list or from past the end of the file. -/
lemma allocPage_cases (done : allocPage horizon capacity s = .ok (p, s')) :
    (Taken horizon p s.freelist.runs s'.freelist.runs ∧ s'.nextPgno = s.nextPgno) ∨
      (p = s.nextPgno % 2 ^ 32 ∧ s' = { s with nextPgno := s.nextPgno + 1 }) := by
  rw [allocPage] at done
  cases found : s.freelist.alloc horizon with
  | some pair =>
    rw [found] at done
    cases done
    obtain ⟨⟨q, runs⟩, taken, rfl⟩ := Option.map_eq_some_iff.1 found
    exact .inl ⟨takeFrom_spec taken, rfl⟩
  | none =>
    rw [found] at done
    simp only [allocTail] at done
    split_ifs at done
    cases done
    exact .inr ⟨rfl, rfl⟩

namespace Account

lemma start {l : Freelist} : Account l.listed floor txnId reach [] [] ⟨l, floor⟩ where
  balance p := by
    have none : ¬(floor ≤ p ∧ p < floor) := by omega
    simp only [Freelist.pgnos, count_nil, Nat.add_zero, if_neg none]
  listing _ hx := .inl hx
  fresh _ hp := by cases hp
  above := le_rfl

section
variable (h : Account free floor txnId reach taken added s)
include h

lemma mono {reach' : Nat} (le : reach ≤ reach') : Account free floor txnId reach' taken added s :=
  { h with fresh := fun p hp => (h.fresh p hp).imp_left fun ⟨t, older, listed⟩ => ⟨t, older.trans le, listed⟩ }

/-- The order in which pages were taken and given does not matter. -/
lemma perm {taken' added' : List Nat}
    (same : taken'.Perm taken) (same' : added'.Perm added) : Account free floor txnId reach taken' added' s where
  balance p := by
    rw [same.count_eq, same'.count_eq]
    exact h.balance p
  listing := h.listing
  fresh p hp := h.fresh p (same.mem_iff.1 hp)
  above := h.above

/-- A page that was not part of the supply is freed. -/
lemma add : Account free floor txnId reach taken (p :: added) { s with freelist := s.freelist.push p txnId } where
  balance q := by
    have old := h.balance q
    simp only [Freelist.pgnos, listed_push, map_append, map_cons, map_nil, count_append, count_cons, count_nil] at old ⊢
    omega
  listing x hx := by
    rw [listed_push] at hx
    rcases mem_concat.1 hx with old | rfl
    · exact h.listing x old
    · exact .inr rfl
  fresh := h.fresh
  above := h.above

/-- A page that was taken is freed. -/
lemma giveBack (mine : p ∈ taken) :
    Account free floor txnId reach (taken.erase p) added { s with freelist := s.freelist.push p txnId } where
  balance q := by
    have old := h.balance q
    have fewer := perm_cons_erase mine |>.count_eq q
    simp only [Freelist.pgnos, listed_push, map_append, map_cons, map_nil, count_append,
      count_cons, count_nil] at old fewer ⊢
    omega
  listing x hx := by
    rw [listed_push] at hx
    rcases mem_concat.1 hx with old | rfl
    · exact h.listing x old
    · exact .inr rfl
  fresh q hq := h.fresh q (mem_of_mem_erase hq)
  above := h.above

lemma recycle (pgnos : List Nat) : Account free floor txnId reach taken (pgnos ++ added)
      { s with freelist := pgnos.foldl (fun l p => l.push p txnId) s.freelist } := by
  induction pgnos generalizing s added with
  | nil => exact h
  | cons p pgnos ih =>
    have step := ih (h.add (p := p))
    exact step.perm (.refl _) perm_middle.symm

lemma compact : Account free floor txnId reach taken added { s with freelist := s.freelist.compact } where
  balance p := by
    have same := ((listed_compact s.freelist).map Prod.fst).count_eq p
    have old := h.balance p
    simp only [Freelist.pgnos] at old ⊢
    omega
  listing x hx := h.listing x ((listed_compact s.freelist).mem_iff.1 hx)
  fresh := h.fresh
  above := h.above

/-- The supply gives a page. -/
lemma take (old : horizon ≤ reach) (now : horizon < txnId)
    (done : allocPage horizon capacity s = .ok (p, s')) (room : s'.nextPgno ≤ 2 ^ 32) :
    Account free floor txnId reach (p :: taken) added s' := by
  obtain ⟨⟨⟨t, older, perm⟩, -, -, -⟩, next⟩ | ⟨rfl, rfl⟩ := allocPage_cases done
  · have listed : (p, t) ∈ s.freelist.listed := perm.mem_iff.2 mem_cons_self
    refine ⟨fun q => ?_, fun x hx => h.listing x (perm.mem_iff.2 (mem_cons_of_mem _ hx)), fun q hq => ?_,
      next ▸ h.above⟩
    · have split := (perm.map Prod.fst).count_eq q
      have before := h.balance q
      simp only [Freelist.pgnos, Freelist.listed, next, map_cons, count_cons] at split before ⊢
      omega
    · rcases mem_cons.1 hq with rfl | hq
      · rcases h.listing _ listed with base | own
        · exact .inl ⟨t, older.trans old, base⟩
        · exact absurd own (by simp only; omega)
      · exact h.fresh q hq
  · have small : s.nextPgno % 2 ^ 32 = s.nextPgno := Nat.mod_eq_of_lt room
    rw [small]
    have above := h.above
    refine ⟨fun q => ?_, h.listing, fun q hq => ?_, by simp only; omega⟩
    · have before := h.balance q
      simp only [count_cons]
      by_cases here : s.nextPgno = q
      · subst here
        have within : floor ≤ s.nextPgno ∧ s.nextPgno < s.nextPgno + 1 := by omega
        have outside : ¬(floor ≤ s.nextPgno ∧ s.nextPgno < s.nextPgno) := by omega
        rw [if_neg outside] at before
        rw [if_pos within, if_pos (beq_self_eq_true _)]
        omega
      · have same : (floor ≤ q ∧ q < s.nextPgno + 1) ↔ (floor ≤ q ∧ q < s.nextPgno) := by omega
        rw [if_neg (by simpa using here), Nat.add_zero, if_congr same rfl rfl]
        exact before
    · rcases mem_cons.1 hq with rfl | hq
      · exact .inr above
      · exact h.fresh q hq

section
variable (single : ∀ p, (free.map Prod.fst).count p + added.count p + (if floor ≤ p then 1 else 0) ≤ 1)
include single

/-- If nothing is counted twice at first, nothing is later. -/
lemma unique (p : Nat) : s.freelist.pgnos.count p + taken.count p ≤ 1 := by
  have balance := h.balance p
  have least := single p
  by_cases high : floor ≤ p
  · rw [if_pos high] at least
    split at balance <;> omega
  · rw [if_neg high] at least
    rw [if_neg (by omega)] at balance
    omega

/-- A page past the old end of the file that was taken lies below the new one. -/
lemma lt_next (mine : p ∈ taken) (high : floor ≤ p) : p < s.nextPgno := by
  have balance := h.balance p
  have least := single p
  have := count_pos_iff.2 mine
  rw [if_pos high] at least
  by_contra out
  rw [if_neg (by omega)] at balance
  omega

end

end

end Account

/-- What a supply becomes when pages freed after `horizon` are not taken from it. -/
structure Later (horizon : Nat) (s s' : Supply) : Prop where
  next : s.nextPgno ≤ s'.nextPgno
  listed : ∀ x ∈ s.freelist.listed, horizon < x.2 → x ∈ s'.freelist.listed

namespace Later

lemma refl : Later horizon s s := ⟨le_rfl, fun _ hx _ => hx⟩

lemma trans {s'' : Supply} (h : Later horizon s s') (h' : Later horizon s' s'') : Later horizon s s'' :=
  ⟨h.next.trans h'.next, fun x hx young => h'.listed x (h.listed x hx young) young⟩

lemma allocPage (done : allocPage horizon capacity s = .ok (p, s')) : Later horizon s s' := by
  obtain ⟨⟨⟨t, older, perm⟩, -, -, -⟩, next⟩ | ⟨-, rfl⟩ := allocPage_cases done
  · refine ⟨le_of_eq next.symm, fun x listed young => ?_⟩
    rcases mem_cons.1 (perm.mem_iff.1 listed) with rfl | rest
    · omega
    · exact rest
  · exact ⟨Nat.le_succ _, fun _ hx _ => hx⟩

variable {pages : List Nat}

lemma allocPages {n : Nat} (done : allocPages horizon capacity n s = .ok (pages, s')) : Later horizon s s' := by
  induction n generalizing s pages with
  | zero =>
    cases done
    exact .refl
  | succ n ih =>
    obtain ⟨⟨p, middle⟩, first, done⟩ := bind_ok.1 done
    obtain ⟨⟨rest, last⟩, more, done⟩ := bind_ok.1 done
    cases done
    exact (Later.allocPage first).trans (ih more)

lemma recycle {pgnos : List Nat} :
    Later horizon s { s with freelist := pgnos.foldl (fun l p => l.push p txnId) s.freelist } := by
  refine ⟨le_rfl, fun x hx _ => ?_⟩
  rw [listed_foldl_push]
  exact mem_append.2 (.inl hx)

lemma freelistLoop {turns : Nat} {out pages : List Nat}
    (done : allocFreelistLoop horizon capacity turns out s = .ok (pages, s')) : Later horizon s s' := by
  induction turns generalizing out s with
  | zero =>
    cases done
    exact .refl
  | succ turns ih =>
    rw [allocFreelistLoop] at done
    split_ifs at done
    · obtain ⟨⟨p, middle⟩, first, done⟩ := bind_ok.1 done
      exact (Later.allocPage first).trans (ih done)
    · cases done
      exact .refl

lemma freelistPages (done : allocFreelistPages horizon capacity s = .ok (pages, s')) : Later horizon s s' := by
  have compacted : Later horizon s { s with freelist := s.freelist.compact } :=
    ⟨le_rfl, fun x hx _ => (listed_compact _).mem_iff.2 hx⟩
  exact compacted.trans (freelistLoop done)

end Later

variable {pages : List Nat}

lemma Account.takeAll {n : Nat} (h : Account free floor txnId reach taken added s)
    (old : horizon ≤ reach) (now : horizon < txnId) (done : allocPages horizon capacity n s = .ok (pages, s'))
    (room : s'.nextPgno ≤ 2 ^ 32) : Account free floor txnId reach (pages ++ taken) added s' ∧ pages.length = n := by
  induction n generalizing s taken pages with
  | zero =>
    cases done
    exact ⟨h, rfl⟩
  | succ n ih =>
    obtain ⟨⟨p, middle⟩, first, done⟩ := bind_ok.1 done
    obtain ⟨⟨rest, last⟩, more, done⟩ := bind_ok.1 done
    cases done
    have room' := (Later.allocPages more).next.trans room
    obtain ⟨account, length⟩ := ih (h.take old now first room') more
    exact ⟨account.perm perm_middle.symm (.refl _), congrArg Nat.succ length⟩

/-! ## The free list's own pages -/

lemma allocPage_error {e : StoreError} (failed : allocPage horizon capacity s = .error e) :
    ∃ need size, capacity = some size ∧ e = .mapSizeExhausted need size := by
  rw [allocPage] at failed
  split at failed
  · cases failed
  · rw [allocTail] at failed
    split_ifs at failed with full
    cases failed
    cases capacity with
    | none => cases full
    | some size => exact ⟨_, size, rfl, rfl⟩

/-- The loop is done when its turns are, with as many pages as the entries that are left need, unless the
file may not grow as far. -/
lemma freelistLoop_spec {turns : Nat} {out : List Nat}
    (enough : pagesNeeded (chainCapacity 16) s.freelist.entryCount ≤ out.length + turns) :
    (∀ k, allocFreelistLoop horizon capacity (turns + k) out s = allocFreelistLoop horizon capacity turns out s) ∧
    match allocFreelistLoop horizon capacity turns out s with
    | .error e => ∃ need size, capacity = some size ∧ e = .mapSizeExhausted need size
    | .ok (pages, s') => pagesNeeded (chainCapacity 16) s'.freelist.entryCount ≤ pages.length := by
  induction turns generalizing out s with
  | zero =>
    refine ⟨fun k => ?_, enough⟩
    cases k with
    | zero => rfl
    | succ k => exact if_neg (Nat.not_lt.2 enough)
  | succ turns ih =>
    simp only [Nat.add_right_comm turns 1, allocFreelistLoop]
    split_ifs with few
    · cases first : allocPage horizon capacity s with
      | error e => exact ⟨fun _ => rfl, allocPage_error first⟩
      | ok pair =>
        obtain ⟨p, middle⟩ := pair
        have kept : middle.freelist.entryCount ≤ s.freelist.entryCount := by
          obtain ⟨taken, -⟩ | ⟨-, rfl⟩ := allocPage_cases first
          · exact taken.fewer
          · exact Nat.le_refl _
        have fewer : pagesNeeded (chainCapacity 16) middle.freelist.entryCount ≤
            pagesNeeded (chainCapacity 16) s.freelist.entryCount := Nat.div_le_div_right (by omega)
        refine @ih middle (out ++ [p]) ?_
        rw [length_append, length_singleton]
        omega
    · exact ⟨fun _ => rfl, Nat.not_lt.1 few⟩

lemma Account.takeLoop {turns : Nat} {out pages : List Nat}
    (h : Account free floor txnId reach (out ++ taken) added s) (old : horizon ≤ reach) (now : horizon < txnId)
    (compacted : Compacted s.freelist.runs)
    (done : allocFreelistLoop horizon capacity turns out s = .ok (pages, s')) (room : s'.nextPgno ≤ 2 ^ 32) :
    Account free floor txnId reach (pages ++ taken) added s' ∧ Compacted s'.freelist.runs := by
  induction turns generalizing out s with
  | zero =>
    cases done
    exact ⟨h, compacted⟩
  | succ turns ih =>
    rw [allocFreelistLoop] at done
    split_ifs at done
    · obtain ⟨⟨p, middle⟩, first, done⟩ := bind_ok.1 done
      have room' := (Later.freelistLoop done).next.trans room
      have kept : Compacted middle.freelist.runs := by
        obtain ⟨taken, -⟩ | ⟨-, rfl⟩ := allocPage_cases first
        · exact taken.compacted compacted
        · exact compacted
      have moved : (out ++ [p] ++ taken).Perm (p :: (out ++ taken)) := by
        rw [append_assoc]
        exact perm_middle
      exact ih ((h.take old now first room').perm moved (.refl _)) kept done
    · cases done
      exact ⟨h, compacted⟩

/-- The free list's pages hold the entries that are left. -/
lemma entryCount_le (done : allocFreelistPages horizon capacity s = .ok (pages, s')) :
    s'.freelist.entryCount ≤ chainCapacity 16 * pages.length := by
  have needed := (@freelistLoop_spec horizon ⟨s.freelist.compact, s.nextPgno⟩ capacity _ [] (Nat.le_add_left _ _)).2
  rw [← allocFreelistPages, done] at needed
  exact (le_mul_pagesNeeded (by decide)).trans (Nat.mul_le_mul_left _ needed)

lemma Account.takeFreelist (h : Account free floor txnId reach taken added s)
    (old : horizon ≤ reach) (now : horizon < txnId) (nodup : s.freelist.pgnos.Nodup)
    (done : allocFreelistPages horizon capacity s = .ok (pages, s')) (room : s'.nextPgno ≤ 2 ^ 32) :
    Account free floor txnId reach (pages ++ taken) added s' ∧ Compacted s'.freelist.runs ∧
      s'.freelist.entryCount ≤ chainCapacity 16 * pages.length := by
  have account : Account free floor txnId reach ([] ++ taken) added { s with freelist := s.freelist.compact } :=
    h.compact
  obtain ⟨account, compacted⟩ := account.takeLoop old now (compacted_compact nodup) done room
  exact ⟨account, compacted, entryCount_le done⟩

/-- Over a free list with pages of the file, none of them twice. The loop is done after any number of turns
that is not too small, and fails only where the file may not grow; in a file of up to `2 ^ 32` pages
no page is taken twice or still listed. -/
theorem freelist_sizes_itself (horizon : Nat) (capacity : Option Nat) (nodup : s.freelist.pgnos.Nodup)
    (inside : ∀ p ∈ s.freelist.pgnos, p < s.nextPgno) :
    (∀ k, allocFreelistLoop horizon capacity (pagesNeeded (chainCapacity 16) s.freelist.compact.entryCount + k) []
      { s with freelist := s.freelist.compact } = allocFreelistPages horizon capacity s) ∧
    match allocFreelistPages horizon capacity s with
    | .error e => ∃ need size, capacity = some size ∧ e = .mapSizeExhausted need size
    | .ok (pages, s') => s'.freelist.entryCount ≤ chainCapacity 16 * pages.length ∧
      (s'.nextPgno ≤ 2 ^ 32 → pages.Nodup ∧ ∀ p ∈ pages, p ∉ s'.freelist.pgnos) := by
  obtain ⟨settled, ends⟩ :=
    @freelistLoop_spec horizon ⟨s.freelist.compact, s.nextPgno⟩ capacity _ [] (Nat.le_add_left _ _)
  refine ⟨settled, ?_⟩
  rw [← allocFreelistPages] at ends
  cases done : allocFreelistPages horizon capacity s with
  | error e => rwa [done] at ends
  | ok pair =>
    obtain ⟨pages, s'⟩ := pair
    refine ⟨entryCount_le done, fun room => ?_⟩
    have account := (Account.start.takeFreelist le_rfl (Nat.lt_succ_self horizon) nodup done room).1
    have single := account.unique fun p => by
      have once := nodup_iff_count_le_one.1 nodup p
      rw [Freelist.pgnos] at once inside
      split_ifs with high
      · rw [count_eq_zero.2 fun listed => (inside p listed).not_ge high, count_nil]
      · exact once
    rw [append_nil] at single
    refine ⟨nodup_iff_count_le_one.2 fun p => by have := single p; omega, fun p hp listed => ?_⟩
    have := single p
    have := count_pos_iff.2 hp
    have := count_pos_iff.2 listed
    omega

/-- Free pages of which no two are neighbours. -/
def apart (n : Nat) : Freelist := ⟨(range n).map fun i => ⟨1, 3 + 2 * i, 1, by decide⟩⟩

/-- A list of 513 runs is more than fits a page: the first page it is given does not hold it, and the second does. -/
theorem freelist_sizes_itself_two :
    allocFreelistLoop 1 none (pagesNeeded (chainCapacity 16) (apart 513).compact.entryCount + 5) []
      ⟨(apart 513).compact, 2000⟩ = allocFreelistPages 1 none ⟨apart 513, 2000⟩ ∧
    (allocFreelistPages 1 none ⟨apart 513, 2000⟩).toOption.map (fun (pages, s) => (pages, s.freelist.entryCount)) =
      some ([3, 5], 511) := by
  have pgnos : (apart 513).pgnos = (range 513).map (3 + 2 * ·) := by decide +kernel
  have nodup : (apart 513).pgnos.Nodup := pgnos ▸ nodup_range.map fun a b same => by omega
  have inside : ∀ p ∈ (apart 513).pgnos, p < 2000 := by
    rw [pgnos]
    intro p hp
    obtain ⟨i, hi, rfl⟩ := mem_map.1 hp
    rw [mem_range] at hi
    omega
  exact ⟨(@freelist_sizes_itself ⟨apart 513, 2000⟩ 1 none nodup inside).1 5, by decide +kernel⟩

/-- A page that is listed twice is in the chain and in the list. -/
theorem page_listed_twice_stays_listed :
    (allocFreelistPages 1 none ⟨⟨[⟨1, 3, 1, by decide⟩, ⟨1, 3, 1, by decide⟩]⟩, 10⟩).toOption.map
      (fun (pages, s) => (pages, s.freelist.pgnos)) = some ([3], [3]) := by
  decide +kernel

/-! ## Absorbing the scratch pages -/

lemma Account.absorb {scratch : List Nat} (h : Account free floor txnId reach (scratch ++ taken) added s)
    (nodup : scratch.Nodup) (high : ∀ p ∈ scratch, floor ≤ p) : Account free floor txnId reach taken added
      ⟨(s.freelist.absorbScratch scratch s.nextPgno txnId).1, (s.freelist.absorbScratch scratch s.nextPgno txnId).2⟩ := by
  obtain ⟨kept, listed, le, perm⟩ := absorbScratch_spec s.freelist s.nextPgno txnId nodup
  revert listed le perm
  generalize s.freelist.absorbScratch scratch s.nextPgno txnId = absorbed
  obtain ⟨freelist, next⟩ := absorbed
  simp only
  intro listed le perm
  have above : floor ≤ next := by
    by_contra below
    have lowest : next ∈ scratch := perm.mem_iff.2 (mem_append.2 (.inr (by
      have := h.above
      rw [mem_range'_1]
      omega)))
    have := high next lowest
    omega
  refine ⟨fun p => ?_, fun x hx => ?_, fun p hp => h.fresh p (mem_append.2 (.inr hp)), above⟩
  · have before := h.balance p
    have split := perm.count_eq p
    have returned : (List.range' next (s.nextPgno - next)).count p = if next ≤ p ∧ p < s.nextPgno then 1 else 0 := by
      rw [List.Nodup.count (nodup_range' ..)]
      simp only [mem_range'_1]
      exact if_congr (by omega) rfl rfl
    have pgnos : freelist.pgnos.count p = s.freelist.pgnos.count p + kept.count p := by
      simp only [Freelist.pgnos, listed, map_append, map_map, count_append]
      congr 2
      exact map_id' _
    simp only [count_append, returned] at before split ⊢
    rw [pgnos]
    by_cases inside : floor ≤ p
    · by_cases low : p < next
      · rw [if_pos (by omega)] at before
        rw [if_neg (by omega)] at split
        rw [if_pos ⟨inside, low⟩]
        omega
      by_cases high' : p < s.nextPgno
      · rw [if_pos ⟨inside, high'⟩] at before
        rw [if_pos (by omega)] at split
        rw [if_neg (by omega)]
        omega
      · rw [if_neg (by omega)] at before
        rw [if_neg (by omega)] at split
        rw [if_neg (by omega)]
        omega
    · rw [if_neg (by omega)] at before
      rw [if_neg (by omega)] at split
      rw [if_neg (by omega)]
      omega
  · rw [listed] at hx
    rcases mem_append.1 hx with old | new
    · exact h.listing x old
    · obtain ⟨p, -, rfl⟩ := mem_map.1 new
      exact .inr rfl

end BigDb.Pager
