import Mathlib.Data.List.Count
import Mathlib.Data.List.Dedup
import Mathlib.Data.List.Sort

/-!
# The free list

The pages a file holds and nothing needs, as runs of pages freed by the same transaction. A page may
be taken again once no reader is older than the transaction that freed it. Every operation is
described by what it does to the listing: the pages with the transaction each was freed at. Page
numbers and transaction ids are plain numbers.
-/

namespace BigDb.Pager

/-- A contiguous run of pages freed by the same transaction. -/
structure FreeRun where
  freedAt : Nat
  first : Nat
  len : Nat
  nonempty : 0 < len
deriving DecidableEq, Repr

namespace FreeRun
variable (r : FreeRun)

/-- The page after the last one. -/
def stop : Nat := r.first + r.len

def pages : List (Nat × Nat) := (List.range' r.first r.len).map fun p => (p, r.freedAt)

/-- What is left of a run when its front page is taken. -/
def rest : Option FreeRun :=
  if h : 1 < r.len then some ⟨r.freedAt, r.first + 1, r.len - 1, by omega⟩ else none

/-- A run made longer by the one it meets. -/
def join (r r' : FreeRun) : FreeRun :=
  { r with len := r.len + r'.len, nonempty := Nat.lt_add_right _ r.nonempty }

/-- The order of the runs in the file. -/
def Before (r r' : FreeRun) : Prop := r.first < r'.first ∨ (r.first = r'.first ∧ r.freedAt ≤ r'.freedAt)

instance : DecidableRel Before := fun _ _ => inferInstanceAs (Decidable (_ ∨ _))

end FreeRun

structure Freelist where
  runs : List FreeRun
deriving DecidableEq, Repr

/-- The runs from `prev` on, with runs that meet and were freed together made one. -/
def mergeInto (prev : FreeRun) : List FreeRun → List FreeRun
  | [] => [prev]
  | r :: runs =>
    if prev.freedAt = r.freedAt ∧ prev.stop = r.first then mergeInto (prev.join r) runs
    else prev :: mergeInto r runs

def mergeRuns : List FreeRun → List FreeRun
  | [] => []
  | r :: runs => mergeInto r runs

/-- The front page of the first run that may be taken. -/
def takeFrom (horizon : Nat) : List FreeRun → Option (Nat × List FreeRun)
  | [] => none
  | r :: runs =>
    if r.freedAt ≤ horizon then some (r.first, r.rest.toList ++ runs)
    else (takeFrom horizon runs).map fun (p, runs) => (p, r :: runs)

/-- Takes the pages flush against the end off a list whose last page comes first. -/
def giveBack : List Nat → Nat → List Nat × Nat
  | [], next => ([], next)
  | p :: pages, next => if p + 1 = next then giveBack pages p else (p :: pages, next)

/-- The first run that may be taken and ends at `stop`, and the others. -/
def flushAt (stop horizon : Nat) : List FreeRun → Option (FreeRun × List FreeRun)
  | [] => none
  | r :: runs =>
    if r.freedAt ≤ horizon ∧ r.stop = stop then some (r, runs)
    else (flushAt stop horizon runs).map fun (found, runs) => (found, r :: runs)

def trimRuns (horizon : Nat) : Nat → Nat → List FreeRun → List FreeRun × Nat
  | 0, stop, runs => (runs, stop)
  | turns + 1, stop, runs =>
    match flushAt stop horizon runs with
    | some (r, runs) => trimRuns horizon turns (stop - r.len) runs
    | none => (runs, stop)

namespace Freelist

def empty : Freelist := ⟨[]⟩

variable (l : Freelist)

def push (pgno : Nat) (freedAt : Nat) : Freelist :=
  ⟨l.runs ++ [⟨freedAt, pgno, 1, Nat.one_pos⟩]⟩

/-- Takes back the pages a transaction both allocated and freed, with the next page number. -/
def absorbScratch (scratch : List Nat) (nextPgno : Nat) (freedAt : Nat) : Freelist × Nat :=
  if scratch = [] then (l, nextPgno)
  else
    let (kept, next) := giveBack (scratch.insertionSort (· ≤ ·)).dedup.reverse nextPgno
    (kept.reverse.foldl (fun l p => l.push p freedAt) l, next)

def compact : Freelist :=
  if l.runs.length < 2 then l else ⟨mergeRuns (l.runs.insertionSort FreeRun.Before)⟩

def alloc (horizon : Nat) : Option (Nat × Freelist) :=
  (takeFrom horizon l.runs).map fun (p, runs) => (p, ⟨runs⟩)

/-- Drops the runs flush against the end of the file, with the number of pages released. -/
def trimTail (pageCount : Nat) (horizon : Nat) : Freelist × Nat :=
  let (runs, stop) := trimRuns horizon l.runs.length pageCount l.runs
  (⟨runs⟩, pageCount - stop)

def entryCount : Nat := l.runs.length

def fromEntries (entries : List FreeRun) : Freelist := compact ⟨entries⟩

def listed : List (Nat × Nat) := l.runs.flatMap FreeRun.pages

def pgnos : List Nat := l.listed.map Prod.fst

end Freelist

open Freelist List FreeRun

/-! ## Listing -/

namespace FreeRun
variable {r : FreeRun} {p : Nat} {t : Nat}

lemma mem_pages : (p, t) ∈ r.pages ↔ r.first ≤ p ∧ p < r.stop ∧ t = r.freedAt := by
  simp only [pages, mem_map, mem_range'_1, Prod.mk.injEq, stop]
  constructor
  · rintro ⟨q, ⟨low, high⟩, rfl, rfl⟩
    exact ⟨low, high, rfl⟩
  · rintro ⟨low, high, rfl⟩
    exact ⟨p, ⟨low, high⟩, rfl, rfl⟩

lemma first_lt_stop (r : FreeRun) : r.first < r.stop := Nat.lt_add_of_pos_right r.nonempty

lemma pages_eq_cons (r : FreeRun) : r.pages = (r.first, r.freedAt) :: r.rest.toList.flatMap pages := by
  obtain ⟨t, first, len, pos⟩ := r
  obtain ⟨n, rfl⟩ : ∃ n, len = n + 1 := ⟨len - 1, by omega⟩
  cases n with
  | zero => rfl
  | succ n =>
    simp only [pages, rest, range'_succ, map_cons, Nat.lt_add_left_iff_pos, Nat.zero_lt_succ,
      ↓reduceDIte, Nat.add_one_sub_one, Option.toList_some, flatMap_cons, flatMap_nil,
      append_nil]

lemma rest_spec {r' : FreeRun} (h : r' ∈ r.rest) :
    r'.freedAt = r.freedAt ∧ r'.stop = r.stop ∧ r'.first = r.first + 1 := by
  rw [rest] at h
  split_ifs at h with long
  · cases h
    refine ⟨rfl, ?_, rfl⟩
    simp only [stop]
    omega
  · cases h

end FreeRun

variable {l : Freelist} {prev : FreeRun} {runs : List FreeRun} {t : Nat} {p : Nat}

lemma mem_listed : (p, t) ∈ l.listed ↔ ∃ r ∈ l.runs, r.first ≤ p ∧ p < r.stop ∧ t = r.freedAt := by
  simp only [listed, mem_flatMap, mem_pages]

lemma listed_push : (l.push p t).listed = l.listed ++ [(p, t)] := by
  simp only [listed, push, flatMap_append, flatMap_cons, flatMap_nil, append_nil]
  rfl

lemma listed_foldl_push {pages : List Nat} :
    (pages.foldl (fun l p => l.push p t) l).listed = l.listed ++ pages.map fun p => (p, t) := by
  induction pages generalizing l with
  | nil => rw [foldl_nil, map_nil, append_nil]
  | cons p pages ih =>
    rw [foldl_cons, ih, listed_push, append_assoc, singleton_append, map_cons]

/-! ## Compaction -/

/-- The runs of a list in page order, apart from each other, and as few as can be. -/
def Compacted (runs : List FreeRun) : Prop :=
  runs.Pairwise fun r r' => r.stop ≤ r'.first ∧ (r.stop = r'.first → r.freedAt ≠ r'.freedAt)

lemma pages_mergeInto : (mergeInto prev runs).flatMap pages = prev.pages ++ runs.flatMap pages := by
  induction runs generalizing prev with
  | nil => simp only [mergeInto, flatMap_cons, flatMap_nil]
  | cons r runs ih =>
    rw [mergeInto]
    split_ifs with meet
    · have joined : (prev.join r).pages = prev.pages ++ r.pages := by
        rw [pages, pages, pages, ← meet.1, ← meet.2, ← map_append, FreeRun.stop, range'_append_1]
        rfl
      rw [ih, flatMap_cons, ← append_assoc, joined]
    · rw [flatMap_cons, ih, flatMap_cons]

lemma listed_compact (l : Freelist) : l.compact.listed.Perm l.listed := by
  rw [compact]
  split_ifs with few
  · exact .refl _
  have sorted : (l.runs.insertionSort FreeRun.Before).Perm l.runs := perm_insertionSort ..
  have same : mergeRuns (l.runs.insertionSort FreeRun.Before) |>.flatMap pages
      |> (· = (l.runs.insertionSort FreeRun.Before).flatMap pages) := by
    cases l.runs.insertionSort FreeRun.Before with
    | nil => rfl
    | cons r runs => exact pages_mergeInto
  rw [listed, same]
  exact sorted.flatMap_right _

/-- Runs in page order that do not overlap. -/
def Apart (runs : List FreeRun) : Prop := runs.Pairwise fun r r' => r.stop ≤ r'.first

lemma Apart.join {prev next : FreeRun} (apart : Apart (prev :: next :: runs))
    (meet : prev.stop = next.first) : Apart (prev.join next :: runs) := by
  obtain ⟨_, order⟩ := pairwise_cons.1 apart
  obtain ⟨above, rest⟩ := pairwise_cons.1 order
  refine pairwise_cons.2 ⟨fun r hr => ?_, rest⟩
  have far := above r hr
  simp only [FreeRun.stop, FreeRun.join] at far meet ⊢
  omega

lemma mem_mergeInto {prev r : FreeRun} (apart : Apart (prev :: runs)) (h : r ∈ mergeInto prev runs) :
    (r.first = prev.first ∧ r.freedAt = prev.freedAt) ∨ prev.stop ≤ r.first := by
  induction runs generalizing prev with
  | nil =>
    cases mem_singleton.1 h
    exact .inl ⟨rfl, rfl⟩
  | cons next runs ih =>
    obtain ⟨above, order⟩ := pairwise_cons.1 apart
    have meets := above next mem_cons_self
    rw [mergeInto] at h
    split_ifs at h with meet
    · refine (ih (apart.join meet.2) h).imp_right fun far => ?_
      simp only [FreeRun.stop, FreeRun.join] at far ⊢
      omega
    rcases mem_cons.1 h with rfl | later
    · exact .inl ⟨rfl, rfl⟩
    right
    rcases ih order later with same | far
    · omega
    · have := next.first_lt_stop
      omega

lemma compacted_mergeInto (apart : Apart (prev :: runs)) : Compacted (mergeInto prev runs) := by
  induction runs generalizing prev with
  | nil => exact pairwise_singleton _ _
  | cons next runs ih =>
    obtain ⟨above, order⟩ := pairwise_cons.1 apart
    have meets := above next mem_cons_self
    rw [mergeInto]
    split_ifs with meet
    · exact ih (apart.join meet.2)
    refine pairwise_cons.2 ⟨fun r hr => ?_, ih order⟩
    rcases mem_mergeInto order hr with ⟨first, stamp⟩ | far
    · refine ⟨by omega, fun touch same => meet ⟨?_, by omega⟩⟩
      rw [same, stamp]
    · have := next.first_lt_stop
      exact ⟨by omega, fun touch => by omega⟩

/-- Runs that list no page twice do not overlap once they are in order. -/
lemma apart_of_nodup (order : runs.Pairwise FreeRun.Before)
    (nodup : ((runs.flatMap pages).map Prod.fst).Nodup) : Apart runs := by
  induction runs with
  | nil => exact .nil
  | cons r runs ih =>
    obtain ⟨before, order⟩ := pairwise_cons.1 order
    rw [flatMap_cons, map_append] at nodup
    obtain ⟨_, rest, disjoint⟩ := nodup_append.1 nodup
    refine pairwise_cons.2 ⟨fun r' hr' => ?_, ih order rest⟩
    by_contra overlap
    have low : r.first ≤ r'.first := by
      rcases before r' hr' with lt | ⟨eq, _⟩ <;> omega
    have mine : r'.first ∈ r.pages.map Prod.fst :=
      mem_map.2 ⟨(r'.first, r.freedAt), mem_pages.2 ⟨low, by omega, rfl⟩, rfl⟩
    have other : r'.first ∈ (runs.flatMap pages).map Prod.fst := by
      refine mem_map.2 ⟨(r'.first, r'.freedAt), mem_flatMap.2 ⟨r', hr', ?_⟩, rfl⟩
      exact mem_pages.2 ⟨le_rfl, r'.first_lt_stop, rfl⟩
    exact disjoint _ mine _ other rfl

instance : IsTrans FreeRun FreeRun.Before where
  trans a b c h h' := by
    simp only [FreeRun.Before] at h h' ⊢
    omega

instance : Std.Total FreeRun.Before where
  total a b := by
    simp only [FreeRun.Before]
    omega

lemma compacted_compact (nodup : l.pgnos.Nodup) : Compacted l.compact.runs := by
  rw [compact]
  split_ifs with few
  · cases runs : l.runs with
    | nil => exact .nil
    | cons r rest =>
      rw [runs, length_cons] at few
      have none : rest = [] := eq_nil_of_length_eq_zero (by omega)
      rw [none]
      exact pairwise_singleton _ _
  have perm : (l.runs.insertionSort FreeRun.Before).Perm l.runs := perm_insertionSort ..
  have apart : Apart (l.runs.insertionSort FreeRun.Before) :=
    apart_of_nodup (pairwise_insertionSort _ _) (((perm.flatMap_right _).map _).nodup_iff.2 nodup)
  revert apart
  cases l.runs.insertionSort FreeRun.Before with
  | nil => exact fun _ => .nil
  | cons r runs => exact compacted_mergeInto

lemma mergeInto_of_compacted (h : Compacted (prev :: runs)) : mergeInto prev runs = prev :: runs := by
  induction runs generalizing prev with
  | nil => rfl
  | cons r runs ih =>
    obtain ⟨above, rest⟩ := pairwise_cons.1 h
    have apart : ¬(prev.freedAt = r.freedAt ∧ prev.stop = r.first) := fun meet =>
      (above r mem_cons_self).2 meet.2 meet.1
    rw [mergeInto, if_neg apart, ih rest]

/-- A compacted list is left as it is. -/
lemma compact_of_compacted (h : Compacted l.runs) : l.compact = l := by
  rw [compact]
  split_ifs
  · rfl
  have order : l.runs.Pairwise FreeRun.Before := h.imp fun {r r'} apart => by
    have := r.first_lt_stop
    exact .inl (by omega)
  obtain ⟨runs⟩ := l
  congr 1
  rw [order.insertionSort_eq]
  cases runs with
  | nil => rfl
  | cons r runs => exact mergeInto_of_compacted h

/-! ## Taking a page -/

/-- What taking one page does to the runs. -/
structure Taken (horizon p : Nat) (runs runs' : List FreeRun) : Prop where
  listing : ∃ t ≤ horizon, (runs.flatMap pages).Perm ((p, t) :: runs'.flatMap pages)
  fewer : runs'.length ≤ runs.length
  /-- every run left is one of the old ones or the end of one -/
  within : ∀ r' ∈ runs', ∃ r ∈ runs, r'.freedAt = r.freedAt ∧ r'.stop = r.stop ∧ r.first ≤ r'.first
  compacted : Compacted runs → Compacted runs'

lemma takeFrom_spec {horizon p : Nat} {runs runs' : List FreeRun}
    (h : takeFrom horizon runs = some (p, runs')) : Taken horizon p runs runs' := by
  induction runs generalizing runs' with
  | nil => cases h
  | cons r runs ih =>
    rw [takeFrom] at h
    split_ifs at h with old
    · cases h
      refine ⟨⟨r.freedAt, old, ?_⟩, ?_, fun r' hr' => ?_, fun compacted => ?_⟩
      · rw [flatMap_cons, r.pages_eq_cons, flatMap_append, cons_append]
      · cases r.rest <;> simp
      · rcases mem_append.1 hr' with front | later
        · obtain ⟨stamp, stop, first⟩ := rest_spec (Option.mem_toList.1 front)
          exact ⟨r, mem_cons_self, stamp, stop, by omega⟩
        · exact ⟨r', mem_cons_of_mem _ later, rfl, rfl, le_rfl⟩
      obtain ⟨above, rest⟩ := pairwise_cons.1 compacted
      cases left : r.rest with
      | none => exact rest
      | some r' =>
        obtain ⟨stamp, stop, -⟩ := rest_spec left
        refine pairwise_cons.2 ⟨fun x hx => ?_, rest⟩
        rw [stamp, stop]
        exact above x hx
    · obtain ⟨⟨q, rest⟩, found, h⟩ := Option.map_eq_some_iff.1 h
      cases h
      obtain ⟨⟨t, old', perm⟩, fewer, within, compacted⟩ := ih found
      refine ⟨⟨t, old', ?_⟩, Nat.succ_le_succ fewer, fun r' hr' => ?_, fun c => ?_⟩
      · rw [flatMap_cons, flatMap_cons]
        exact (perm.append_left _).trans perm_middle
      · rcases mem_cons.1 hr' with rfl | later
        · exact ⟨r', mem_cons_self, rfl, rfl, le_rfl⟩
        · obtain ⟨x, hx, facts⟩ := within r' later
          exact ⟨x, mem_cons_of_mem _ hx, facts⟩
      · obtain ⟨above, tail⟩ := pairwise_cons.1 c
        refine pairwise_cons.2 ⟨fun r' hr' => ?_, compacted tail⟩
        obtain ⟨x, hx, stamp, -, first⟩ := within r' hr'
        obtain ⟨far, differ⟩ := above x hx
        exact ⟨by omega, fun touch => stamp ▸ differ (by omega)⟩

lemma takeFrom_none {horizon : Nat} (h : takeFrom horizon runs = none) : ∀ r ∈ runs, horizon < r.freedAt := by
  induction runs with
  | nil => simp
  | cons x runs ih =>
    rw [takeFrom] at h
    split_ifs at h with old
    rw [Option.map_eq_none_iff] at h
    intro r hr
    rcases mem_cons.1 hr with rfl | later
    · omega
    · exact ih h r later

/-- No run in page order that may be taken lies before the one the page is taken from. -/
lemma takeFrom_lowest {horizon p : Nat} {runs runs' : List FreeRun} (apart : Apart runs)
    (h : takeFrom horizon runs = some (p, runs')) : ∀ r ∈ runs, r.freedAt ≤ horizon → p ≤ r.first := by
  induction runs generalizing runs' with
  | nil => cases h
  | cons x runs ih =>
    obtain ⟨above, tail⟩ := pairwise_cons.1 apart
    intro r hr old
    rw [takeFrom] at h
    split_ifs at h with first
    · cases h
      rcases mem_cons.1 hr with rfl | later
      · exact le_rfl
      · exact x.first_lt_stop.le.trans (above r later)
    · obtain ⟨⟨q, rest⟩, found, h⟩ := Option.map_eq_some_iff.1 h
      cases h
      rcases mem_cons.1 hr with rfl | later
      · exact absurd old first
      · exact ih tail found r later old

/-! ## Absorbing scratch pages -/

lemma giveBack_spec (pages : List Nat) (next : Nat) : (giveBack pages next).2 ≤ next ∧
      pages.Perm ((giveBack pages next).1 ++ range' (giveBack pages next).2 (next - (giveBack pages next).2)) := by
  induction pages generalizing next with
  | nil => simp [giveBack]
  | cons p pages ih =>
    rw [giveBack]
    split_ifs with flush
    · obtain ⟨le, perm⟩ := ih p
      refine ⟨by omega, ?_⟩
      have last : range' (giveBack pages p).2 (next - (giveBack pages p).2)
          = range' (giveBack pages p).2 (p - (giveBack pages p).2) ++ [p] := by
        have len : next - (giveBack pages p).2 = p - (giveBack pages p).2 + 1 := by omega
        rw [len, range'_1_concat, Nat.add_sub_cancel' le]
      rw [last, ← append_assoc]
      exact (perm.cons p).trans (perm_append_singleton _ _).symm
    · simp

/-- What is left of pages inside the file, from the highest down, does not end where the file does then. -/
lemma giveBack_stops {pages : List Nat} {next : Nat} (down : pages.Pairwise (· > ·)) (inside : ∀ p ∈ pages, p < next) :
    ∀ p ∈ pages, p + 1 ≠ (giveBack pages next).2 := by
  induction pages generalizing next with
  | nil => simp
  | cons p pages ih =>
    obtain ⟨above, down⟩ := pairwise_cons.1 down
    rw [giveBack]
    split_ifs with flush
    · have le := (giveBack_spec pages p).1
      exact forall_mem_cons.2 ⟨by omega, ih down above⟩
    · refine forall_mem_cons.2 ⟨flush, fun q hq => ?_⟩
      have lower := above q hq
      have := inside p mem_cons_self
      dsimp only
      omega

lemma absorbScratch_spec (l : Freelist) (next t : Nat) {scratch : List Nat} (nodup : scratch.Nodup) :
    ∃ kept, (l.absorbScratch scratch next t).1.listed = l.listed ++ kept.map (fun p => (p, t)) ∧
      (l.absorbScratch scratch next t).2 ≤ next ∧
      scratch.Perm (kept ++ range' (l.absorbScratch scratch next t).2
        (next - (l.absorbScratch scratch next t).2)) := by
  rw [absorbScratch]
  split_ifs with empty
  · subst empty
    exact ⟨[], by simp⟩
  have sorted : (scratch.insertionSort (· ≤ ·)).Perm scratch := perm_insertionSort ..
  have same : (scratch.insertionSort (· ≤ ·)).dedup = scratch.insertionSort (· ≤ ·) :=
    List.Nodup.dedup (sorted.nodup_iff.2 nodup)
  obtain ⟨le, perm⟩ := giveBack_spec (scratch.insertionSort (· ≤ ·)).dedup.reverse next
  refine ⟨_, listed_foldl_push, le, ?_⟩
  have back : scratch.Perm (scratch.insertionSort (· ≤ ·)).dedup.reverse := by
    rw [same]
    exact sorted.symm.trans (reverse_perm _).symm
  exact back.trans (perm.trans ((reverse_perm _).symm.append_right _))

lemma absorbScratch_stops (l : Freelist) (next t : Nat) {scratch : List Nat} (nodup : scratch.Nodup)
    (inside : ∀ p ∈ scratch, p < next) : ∀ p ∈ scratch, p + 1 ≠ (l.absorbScratch scratch next t).2 := by
  rw [absorbScratch]
  split_ifs with empty
  · simp [empty]
  have sorted : (scratch.insertionSort (· ≤ ·)).Perm scratch := perm_insertionSort ..
  have once := sorted.nodup_iff.2 nodup
  have up : (scratch.insertionSort (· ≤ ·)).Pairwise (· < ·) :=
    (pairwise_insertionSort (· ≤ ·) scratch).imp₂ (fun _ _ => lt_of_le_of_ne) once
  have same {p : Nat} : p ∈ (scratch.insertionSort (· ≤ ·)).dedup.reverse ↔ p ∈ scratch := by
    rw [mem_reverse, mem_dedup, sorted.mem_iff]
  intro p hp
  refine giveBack_stops ?_ (fun q hq => inside q (same.1 hq)) p (same.2 hp)
  rw [List.Nodup.dedup once]
  exact pairwise_reverse.2 up

/-! ## Trimming the tail -/

variable {stop horizon : Nat}

lemma flushAt_spec {runs rest : List FreeRun} {r : FreeRun} (apart : Apart runs) (inside : ∀ x ∈ runs, x.stop ≤ stop)
    (h : flushAt stop horizon runs = some (r, rest)) : runs = rest ++ [r] ∧ r.freedAt ≤ horizon ∧ r.stop = stop := by
  induction runs generalizing rest with
  | nil => cases h
  | cons x runs ih =>
    obtain ⟨above, tail⟩ := pairwise_cons.1 apart
    rw [flushAt] at h
    split_ifs at h with flush
    · cases h
      -- nothing can follow a run that ends where the file does
      have last : runs = [] := by
        cases runs with
        | nil => rfl
        | cons y runs =>
          have far := above y mem_cons_self
          have near := inside y (mem_cons_of_mem _ mem_cons_self)
          have := y.first_lt_stop
          omega
      subst last
      exact ⟨rfl, flush⟩
    · obtain ⟨⟨found, others⟩, later, h⟩ := Option.map_eq_some_iff.1 h
      cases h
      obtain ⟨eq, facts⟩ := ih tail (fun y hy => inside y (mem_cons_of_mem _ hy)) later
      exact ⟨by rw [eq, cons_append], facts⟩

lemma flushAt_none (h : flushAt stop horizon runs = none) : ∀ r ∈ runs, r.freedAt ≤ horizon → r.stop ≠ stop := by
  induction runs with
  | nil => simp
  | cons x runs ih =>
    rw [flushAt] at h
    split_ifs at h with flush
    rw [Option.map_eq_none_iff] at h
    intro r hr old ends
    rcases mem_cons.1 hr with rfl | later
    · exact flush ⟨old, ends⟩
    · exact ih h r later old ends

/-- What trimming leaves of the runs of a file that ends at `stop`. -/
structure Trimmed (horizon stop : Nat) (runs runs' : List FreeRun) (stop' : Nat) : Prop where
  initial : runs' <+: runs
  le : stop' ≤ stop
  inside : ∀ r ∈ runs', r.stop ≤ stop'
  /-- what is released was free and could be taken -/
  released : ∀ p, stop' ≤ p → p < stop → ∃ t ≤ horizon, (p, t) ∈ runs.flatMap pages
  /-- what is not is still listed -/
  kept : ∀ r ∈ runs, r ∈ runs' ∨ stop' ≤ r.first
  settled : ∀ r ∈ runs', r.freedAt ≤ horizon → r.stop ≠ stop'

lemma trimRuns_spec (horizon : Nat) {turns stop : Nat} (enough : runs.length ≤ turns)
    (apart : Apart runs) (inside : ∀ x ∈ runs, x.stop ≤ stop) :
    Trimmed horizon stop runs (trimRuns horizon turns stop runs).1 (trimRuns horizon turns stop runs).2 := by
  induction turns generalizing stop runs with
  | zero =>
    have none : runs = [] := eq_nil_of_length_eq_zero (by omega)
    subst none
    exact ⟨prefix_rfl, le_rfl, inside, fun p low high => by simp only [trimRuns] at low; omega,
      fun r hr => .inl hr, by simp [trimRuns]⟩
  | succ turns ih =>
    rw [trimRuns]
    cases found : flushAt stop horizon runs with
    | none => exact ⟨prefix_rfl, le_rfl, inside, fun p low high => by simp only at low; omega,
      fun r hr => .inl hr, flushAt_none found⟩
    | some pair =>
      obtain ⟨r, rest⟩ := pair
      obtain ⟨rfl, old, ends⟩ := flushAt_spec apart inside found
      have first : stop - r.len = r.first := by
        rw [← ends, FreeRun.stop, Nat.add_sub_cancel]
      have inside' : ∀ x ∈ rest, x.stop ≤ r.first := fun x hx =>
        (pairwise_append.1 apart).2.2 x hx r mem_cons_self
      have shorter : rest.length ≤ turns := by
        rw [length_append, length_singleton] at enough
        omega
      obtain ⟨initial, le, inside, released, kept, settled⟩ :=
        ih shorter (pairwise_append.1 apart).1 inside'
      simp only [first]
      refine ⟨initial.trans (prefix_append _ _), by omega, inside, fun p low high => ?_, fun r' hr => ?_, settled⟩
      · rw [flatMap_append]
        by_cases mine : r.first ≤ p
        · refine ⟨r.freedAt, old, mem_append.2 (.inr ?_)⟩
          rw [flatMap_cons, flatMap_nil, append_nil]
          exact mem_pages.2 ⟨mine, by omega, rfl⟩
        · obtain ⟨t, older, listed⟩ := released p low (by omega)
          exact ⟨t, older, mem_append.2 (.inl listed)⟩
      · rcases mem_append.1 hr with before | last
        · exact kept r' before
        · rw [mem_singleton.1 last]
          exact .inr le

/-! ## The operations together -/

/-- Over runs in page order that list no page twice. Scratch pages are listed, up to those at the end of
the file, which are all given back; the lowest page that may be taken is taken; and what is trimmed are
the pages up to the end that may be taken. -/
theorem operations_keep_free_pages (order : l.runs.Pairwise FreeRun.Before) (nodup : l.pgnos.Nodup) :
    (∀ scratch next t, scratch.Nodup → (∀ p ∈ scratch, p ∉ l.pgnos) →
      ∃ l' next', l.absorbScratch scratch next t = (l', next') ∧ next' ≤ next ∧ Apart l'.compact.runs ∧
        l'.compact.listed.Perm l'.listed ∧ (∀ p, next' ≤ p → p < next → p ∈ scratch) ∧
        ((∀ p ∈ scratch, p < next) → ∀ p ∈ scratch, p + 1 ≠ next') ∧
        ∀ x, x ∈ l'.listed ↔ x ∈ l.listed ∨ x.2 = t ∧ x.1 ∈ scratch ∧ ¬(next' ≤ x.1 ∧ x.1 < next)) ∧
    (l.compact.listed.Perm l.listed ∧ Apart l.compact.runs) ∧
    ∀ horizon,
      (match l.alloc horizon with
        | none => ∀ x ∈ l.listed, horizon < x.2
        | some (p, l') => (∃ t ≤ horizon, l.listed.Perm ((p, t) :: l'.listed)) ∧
          ∀ x ∈ l.listed, x.2 ≤ horizon → p ≤ x.1) ∧
      ∀ n, (∀ r ∈ l.runs, r.stop ≤ n) → ∃ stop ≤ n, (l.trimTail n horizon).2 = n - stop ∧
        (∀ x, x ∈ (l.trimTail n horizon).1.listed ↔ x ∈ l.listed ∧ x.1 < stop) ∧
        (∀ p, stop ≤ p → p < n → ∃ t ≤ horizon, (p, t) ∈ l.listed) ∧
        ∀ x ∈ l.listed, x.2 ≤ horizon → x.1 + 1 ≠ stop := by
  have apart : Apart l.runs := apart_of_nodup order nodup
  refine ⟨fun scratch next t once other => ?_, ⟨listed_compact l, (compacted_compact nodup).imp And.left⟩,
    fun horizon => ⟨?_, fun n inside => ?_⟩⟩
  · obtain ⟨kept, listed, le, perm⟩ := absorbScratch_spec l next t once
    have stops := absorbScratch_stops l next t once
    generalize l.absorbScratch scratch next t = absorbed at listed le perm stops
    obtain ⟨l', next'⟩ := absorbed
    obtain ⟨once', -, differ⟩ := nodup_append.1 (perm.nodup_iff.1 once)
    simp only [perm.mem_iff, mem_append, mem_range'_1] at le listed differ other stops ⊢
    have nodup' : l'.pgnos.Nodup := by
      rw [pgnos, listed, map_append, map_map]
      refine nodup_append.2 ⟨nodup, once'.map fun _ _ same => same, ?_⟩
      rintro p old _ new rfl
      obtain ⟨q, hq, rfl⟩ := mem_map.1 new
      exact other q (.inl hq) old
    refine ⟨l', next', rfl, le, (compacted_compact nodup').imp And.left, listed_compact _,
      fun p low high => .inr (by omega), stops, fun ⟨p, u⟩ => ?_⟩
    rw [listed, mem_append, mem_map]
    refine or_congr_right ⟨?_, ?_⟩
    · rintro ⟨q, hq, same⟩
      cases same
      exact ⟨rfl, .inl hq, fun back => differ p hq p (by omega) rfl⟩
    · rintro ⟨rfl, hp | back, high⟩
      · exact ⟨p, hp, rfl⟩
      · exact absurd (by omega) high
  · rw [alloc]
    cases found : takeFrom horizon l.runs with
    | none =>
      intro x hx
      obtain ⟨r, hr, -, -, stamp⟩ := mem_listed.1 hx
      exact stamp ▸ takeFrom_none found r hr
    | some pair =>
      refine ⟨(takeFrom_spec found).listing, fun x hx old => ?_⟩
      obtain ⟨r, hr, low, -, stamp⟩ := mem_listed.1 hx
      exact (takeFrom_lowest apart found r hr (stamp ▸ old)).trans low
  · have spec := trimRuns_spec horizon le_rfl apart inside
    refine ⟨_, spec.le, rfl, fun x => ⟨fun hx => ?_, fun ⟨hx, before⟩ => ?_⟩, spec.released, fun x hx old last => ?_⟩
    · obtain ⟨r, hr, low, high, stamp⟩ := mem_listed.1 hx
      exact ⟨mem_listed.2 ⟨r, spec.initial.mem hr, low, high, stamp⟩, high.trans_le (spec.inside r hr)⟩
    · obtain ⟨r, hr, low, high, stamp⟩ := mem_listed.1 hx
      rcases spec.kept r hr with left | gone
      · exact mem_listed.2 ⟨r, left, low, high, stamp⟩
      · omega
    · obtain ⟨r, hr, low, high, stamp⟩ := mem_listed.1 hx
      rcases spec.kept r hr with left | gone
      · have := spec.inside r left
        exact spec.settled r left (stamp ▸ old) (by omega)
      · omega

/-- Two runs that become one, and scratch pages of which three are at the end of the file. -/
theorem operations_keep_free_pages_one :
    let l : Freelist := ⟨[⟨1, 3, 2, by decide⟩, ⟨1, 5, 1, by decide⟩]⟩
    l.compact.runs.length = 1 ∧ Apart l.compact.runs ∧
      ∃ l' next', l.absorbScratch [9, 11, 7, 10] 12 6 = (l', next') ∧ Apart l'.compact.runs ∧
        ∀ p ∈ [9, 11, 7, 10], p + 1 ≠ next' := by
  intro l
  obtain ⟨absorbed, compacted, -⟩ := operations_keep_free_pages (l := l) (by decide) (by decide)
  obtain ⟨l', next', eq, -, apart, -, -, stops, -⟩ := absorbed [9, 11, 7, 10] 12 6 (by decide) (by decide)
  exact ⟨by decide, compacted.2, l', next', eq, apart, stops (by decide)⟩

/-- A scratch page goes to the end of the list, one at the end of the file is not listed, and free
pages at the end that a reader may still see stay. -/
theorem scratch_unsorted_and_pending_kept :
    let l : Freelist := ⟨[⟨1, 5, 1, by decide⟩, ⟨4, 8, 2, by decide⟩]⟩
    Apart l.runs ∧ (l.absorbScratch [3] 12 6).1.runs.map FreeRun.first = [5, 8, 3] ∧
      l.absorbScratch [11] 12 6 = (l, 11) ∧ l.trimTail 10 2 = (l, 0) := by
  refine ⟨?_, by decide, by decide, by decide⟩
  rw [Apart]
  decide

end BigDb.Pager
