import BigDb.Lib.Fallible
import Mathlib.Data.List.Infix

/-!
# Lists kept on linked pages

A list that is spread over pages, each holding some of the entries and naming the next page. A page
is fetched by its number, and a fetch may fail; a walk gives up after a number of pages, since the
links come off a disk and may loop.
-/

namespace BigDb.Lib
open List
variable {ε β C : Type} {fetch fetch' : Nat → Except ε (Option Nat × List β)} {cycle : ε}

/-- The entries of a chain, from the page `cur` on. -/
def loadChain (fetch : Nat → Except ε (Option Nat × List β)) (cycle : ε) : Nat → Option Nat → Except ε (List β)
  | _, none => .ok []
  | 0, some _ => .error cycle
  | hops + 1, some p => do
    let (next, entries) ← fetch p
    let rest ← loadChain fetch cycle hops next
    return entries ++ rest

def chainPages (fetch : Nat → Except ε (Option Nat × List β)) (cycle : ε) : Nat → Option Nat → Except ε (List Nat)
  | _, none => .ok []
  | 0, some _ => .error cycle
  | hops + 1, some p => do
    let (next, _) ← fetch p
    let rest ← chainPages fetch cycle hops next
    return p :: rest

/-- The chain from `head` on consists of `pages` and holds `entries`. -/
inductive Chain (fetch : Nat → Except ε (Option Nat × List β)) :
    Option Nat → List Nat → List β → Prop where
  | nil : Chain fetch none [] []
  | cons {p : Nat} {next : Option Nat} {here rest : List β} {pages : List Nat} :
    fetch p = .ok (next, here) → Chain fetch next pages rest → Chain fetch (some p) (p :: pages) (here ++ rest)

namespace Chain
variable {head : Option Nat} {pages : List Nat} {entries : List β}

section
variable (h : Chain fetch head pages entries)
include h

variable {hops : Nat} {p : Nat}

lemma load (enough : pages.length ≤ hops) :
    loadChain fetch cycle hops head = .ok entries ∧ chainPages fetch cycle hops head = .ok pages := by
  induction h generalizing hops with
  | nil => cases hops <;> exact ⟨rfl, rfl⟩
  | cons found _ ih =>
    cases hops with
    | zero => cases enough
    | succ hops =>
      obtain ⟨entries, pages⟩ := ih (Nat.le_of_succ_le_succ enough)
      simp only [loadChain, chainPages, found, entries, pages, bind, Except.bind, pure, Except.pure, and_self]

/-- A chain depends on its own pages only. -/
lemma congr (agree : ∀ p ∈ pages, fetch' p = fetch p) : Chain fetch' head pages entries := by
  induction h with
  | nil => exact .nil
  | cons found _ ih =>
    refine .cons ?_ (ih fun p hp => agree p (mem_cons_of_mem _ hp))
    rw [agree _ mem_cons_self, found]

lemma unique {pages' : List Nat} {entries' : List β}
    (h' : Chain fetch head pages' entries') : pages' = pages ∧ entries' = entries := by
  induction h generalizing pages' entries' with
  | nil =>
    cases h'
    exact ⟨rfl, rfl⟩
  | cons found _ ih =>
    cases h' with
    | cons found' tail' =>
      rw [found] at found'
      cases found'
      obtain ⟨rfl, rfl⟩ := ih tail'
      exact ⟨rfl, rfl⟩

lemma head_eq : head = pages.head? := by
  cases h <;> rfl

lemma from_page (hp : p ∈ pages) : ∃ rest more, Chain fetch (some p) rest more ∧ rest.length ≤ pages.length := by
  induction h with
  | nil => cases hp
  | cons found tail ih =>
    rcases mem_cons.1 hp with rfl | later
    · exact ⟨_, _, .cons found tail, Nat.le_refl _⟩
    · obtain ⟨rest, more, chain, shorter⟩ := ih later
      exact ⟨rest, more, chain, Nat.le_succ_of_le shorter⟩

/-- A chain that ends comes through no page twice. -/
lemma nodup : pages.Nodup := by
  induction h with
  | nil => exact nodup_nil
  | cons found tail ih =>
    refine nodup_cons.2 ⟨fun again => ?_, ih⟩
    obtain ⟨rest, more, chain, shorter⟩ := tail.from_page again
    obtain ⟨same, -⟩ := (Chain.cons found tail).unique chain
    rw [same, length_cons] at shorter
    omega

lemma fetched (hp : p ∈ pages) : ∃ x, fetch p = .ok x := by
  induction h with
  | nil => cases hp
  | cons found _ ih =>
    rcases mem_cons.1 hp with rfl | later
    · exact ⟨_, found⟩
    · exact ih later

lemma length_le {capacity : Nat}
    (short : ∀ p next here, fetch p = .ok (next, here) → here.length ≤ capacity) : entries.length ≤ capacity * pages.length := by
  induction h with
  | nil => exact Nat.zero_le _
  | cons found _ ih =>
    have := short _ _ _ found
    rw [length_append, length_cons, Nat.mul_succ]
    omega

end

end Chain

/-- A walk that ends has walked a chain. -/
lemma Chain.of_load {hops : Nat} {head : Option Nat} {entries : List β}
    (h : loadChain fetch cycle hops head = .ok entries) : ∃ pages, Chain fetch head pages entries := by
  induction hops generalizing head entries with
  | zero =>
    cases head with
    | none => cases h; exact ⟨[], .nil⟩
    | some p => cases h
  | succ hops ih =>
    cases head with
    | none => cases h; exact ⟨[], .nil⟩
    | some p =>
      obtain ⟨⟨next, here⟩, found, h⟩ := bind_ok.1 h
      obtain ⟨rest, more, h⟩ := bind_ok.1 h
      cases h
      obtain ⟨pages, chain⟩ := ih more
      exact ⟨p :: pages, .cons found chain⟩

/-! ## Laying out a chain -/

/-- A list laid out on the given pages, `capacity` entries to a page. -/
def buildChain (capacity : Nat) (page : Option Nat → List β → C) : List β → List Nat → List (Nat × C)
  | _, [] => []
  | entries, p :: pages =>
    (p, page pages.head? (entries.take capacity)) :: buildChain capacity page (entries.drop capacity) pages

/-- The pages a list of `n` entries takes. -/
def pagesNeeded (capacity n : Nat) : Nat := (n + capacity - 1) / capacity

variable {capacity : Nat} {entries : List β} {pages : List Nat}

lemma le_mul_pagesNeeded {n : Nat} (pos : 0 < capacity) : n ≤ capacity * pagesNeeded capacity n := by
  have h : n + capacity - 1 < capacity * pagesNeeded capacity n + capacity := by
    have := Nat.div_add_mod (n + capacity - 1) capacity
    have := Nat.mod_lt (n + capacity - 1) pos
    rw [pagesNeeded]
    omega
  omega

lemma map_fst_buildChain {page : Option Nat → List β → C} :
    (buildChain capacity page entries pages).map Prod.fst = pages := by
  induction pages generalizing entries with
  | nil => rfl
  | cons p pages ih => rw [buildChain, map_cons, ih]

/-- What is laid out can be walked, if every page reads as it was written. -/
lemma Chain.build (page : Option Nat → List β → C) (room : entries.length ≤ capacity * pages.length)
    (written : ∀ p next here, (p, page next here) ∈ buildChain capacity page entries pages →
      here.length ≤ capacity → (∀ q ∈ next, q ∈ pages) → fetch p = .ok (next, here)) :
    Chain fetch pages.head? pages entries := by
  induction pages generalizing entries with
  | nil =>
    have empty : entries = [] := eq_nil_of_length_eq_zero (by simpa using room)
    subst empty
    exact .nil
  | cons p pages ih =>
    have here : fetch p = .ok (pages.head?, entries.take capacity) := by
      refine written p _ _ mem_cons_self (length_take_le ..) fun q hq => ?_
      exact mem_cons_of_mem _ (mem_of_mem_head? hq)
    have rest : Chain fetch pages.head? pages (entries.drop capacity) := by
      refine ih ?_ fun p next here h short inside => ?_
      · rw [length_drop]
        rw [length_cons, Nat.mul_succ] at room
        omega
      · exact written p next here (mem_cons_of_mem _ h) short fun q hq => mem_cons_of_mem _ (inside q hq)
    have both := Chain.cons here rest
    rwa [take_append_drop] at both

/-- A chain some of whose pages have been laid out anew, for the start of the same list, has part of the
list. -/
lemma Chain.mix (page : Option Nat → List β → C) {entries' : List β}
    (start : entries' <+: entries) (room : entries.length ≤ capacity * pages.length)
    (written : ∀ p next here here', (p, page next here) ∈ buildChain capacity page entries pages →
      (p, page next here') ∈ buildChain capacity page entries' pages →
      here.length ≤ capacity → here'.length ≤ capacity → (∀ q ∈ next, q ∈ pages) →
      fetch p = .ok (next, here) ∨ fetch p = .ok (next, here')) :
    ∃ mixed, mixed.Sublist entries ∧ Chain fetch pages.head? pages mixed := by
  induction pages generalizing entries entries' with
  | nil => exact ⟨[], nil_sublist _, .nil⟩
  | cons p pages ih =>
    obtain ⟨mixed, sub, rest⟩ := ih (start.drop capacity)
      (by rw [length_drop]; rw [length_cons, Nat.mul_succ] at room; omega)
      (fun p next here here' h h' short short' inside =>
        written p next here here' (mem_cons_of_mem _ h) (mem_cons_of_mem _ h') short short' fun q hq =>
          mem_cons_of_mem _ (inside q hq))
    have here := written p pages.head? _ _ mem_cons_self mem_cons_self (length_take_le ..)
      (length_take_le ..) fun q hq => mem_cons_of_mem _ (mem_of_mem_head? hq)
    have whole : (entries.take capacity ++ mixed).Sublist entries := by
      refine (sub.append_left _).trans ?_
      rw [take_append_drop]
    rcases here with old | new
    · exact ⟨_, whole, .cons old rest⟩
    · exact ⟨_, (((start.take capacity).sublist).append_right mixed).trans whole, .cons new rest⟩

end BigDb.Lib
