import BigDb.Pager.Account
import BigDb.Pager.System

/-!
# Sound stores

What has to hold between the file and what is in memory. The file has the chains of the state; every
page has at most one use; and what a transaction wrote that can still be read is where it was written.
All of it looks at the pages in use only, so that writing to other pages keeps it.
-/

namespace BigDb.Pager
open Lib List
variable {κ α : Type} [LinearOrder κ] (kids : α → List Nat)

/-- The pages of the four chains. -/
structure Layout where
  roots : List Nat
  freelist : List Nat
  snapshots : List Nat
  catalog : List Nat

def Layout.others (l : Layout) : List Nat := l.freelist ++ l.snapshots ++ l.catalog

def Layout.chains (l : Layout) : List Nat := l.roots ++ l.others

/-- A page of the trees that a transaction wrote. -/
def Image.InTree (img : Image κ α) (p : Nat) : Prop := Tree kids img.file img.state.roots.values p

/-- A page that somebody who reads a transaction may read: one of its root records or its trees. -/
def Image.Holds (img : Image κ α) (p : Nat) : Prop :=
  (∃ pages entries, Chain (fetch rootFormat img.file) img.state.info.rootRecords pages entries ∧ p ∈ pages) ∨
    img.InTree kids p

/-- Where the chains of a state are, what its transaction wrote, and a number of pages that is enough
for everything in use and everything free. -/
structure Survey (κ α : Type) [LinearOrder κ] where
  layout : Layout
  image : Image κ α
  bound : Nat

open Classical in
/-- One for what is the case. -/
noncomputable def flag (P : Prop) : Nat := if P then 1 else 0

lemma flag_pos {P : Prop} (h : P) : flag P = 1 := if_pos h

lemma flag_neg {P : Prop} (h : ¬P) : flag P = 0 := if_neg h

/-- How many uses a page has. -/
noncomputable def tally (σ : StoreState κ) (v : Survey κ α) (p : Nat) : Nat :=
  flag (p < metaPages) + v.layout.chains.count p + flag (v.image.InTree kids p) + σ.freelist.pgnos.count p

/-- A page in use by the state, the chain of the free list apart. -/
def Survey.Used (v : Survey κ α) (p : Nat) : Prop :=
  p ∈ v.layout.roots ∨ p ∈ v.layout.snapshots ∨ p ∈ v.layout.catalog ∨ v.image.InTree kids p

variable (past : Nat → Option (Image κ α))

variable (file : List (Page κ α))

/-- The file and the state fit together, except for what the chain of the free list holds. -/
structure Core (σ : StoreState κ)
    (v : Survey κ α) : Prop where
  roots : Chain (fetch rootFormat file) σ.info.rootRecords v.layout.roots σ.roots.entries
  snapshots : Chain (fetch snapshotFormat file) σ.info.snapshots v.layout.snapshots σ.snapshots.snaps
  catalog : Chain (fetch catalogFormat file) σ.info.catalog v.layout.catalog σ.catalog
  head : σ.info.freelist = v.layout.freelist.head?
  image : past σ.info.txnId = some v.image
  same : v.image.state.roots = σ.roots ∧ v.image.state.info.rootRecords = σ.info.rootRecords
  agree : ∀ p, v.Used kids p → file[p]? = v.image.file[p]?
  single : ∀ p, tally kids σ v p ≤ if p < v.bound then 1 else 0
  live : ∀ p, p ∈ v.layout.chains ∨ v.image.InTree kids p → p < σ.info.pageCount
  counted : σ.info.pageCount ≤ v.bound
  within : v.bound ≤ file.length
  stamps : ∀ x ∈ σ.freelist.listed, x.2 ≤ σ.info.txnId
  compacted : Compacted σ.freelist.runs

/-- What transaction `t` wrote is safe from whoever takes pages freed at `t` or before. -/
structure Guard (σ : StoreState κ)
    (v : Survey κ α) (t : Nat) (img : Image κ α) : Prop where
  image : past t = some img
  le : t ≤ σ.info.txnId
  chain : ∃ pages, Chain (fetch rootFormat img.file) img.state.info.rootRecords pages img.state.roots.entries
  safe : ∀ p, img.Holds kids p → metaPages ≤ p ∧ p < σ.info.pageCount ∧ p ∉ v.layout.others ∧
    file[p]? = img.file[p]? ∧ ∀ t', (p, t') ∈ σ.freelist.listed → t < t'

def Readable (σ : StoreState κ)
    (v : Survey κ α) (snap : Snapshot) : Prop :=
  snap.txnId < σ.info.txnId ∧
    ∃ img, Guard kids past file σ v snap.txnId img ∧ img.state.info.rootRecords = present snap.rootRecords

variable {kids} {past past' : Nat → Option (Image κ α)} {file file' : List (Page κ α)} {σ : StoreState κ}
  {v : Survey κ α} {t p : Nat} {img : Image κ α}

lemma Survey.used_of_tree (h : v.image.InTree kids p) : v.Used kids p := .inr (.inr (.inr h))

lemma Survey.Used.cases (h : v.Used kids p) : p ∈ v.layout.chains ∨ v.image.InTree kids p := by
  rcases h with root | snap | cat | tree
  · exact .inl (mem_append.2 (.inl root))
  · exact .inl (by simp [Layout.chains, Layout.others, snap])
  · exact .inl (by simp [Layout.chains, Layout.others, cat])
  · exact .inr tree

/-! ## One use for every page -/

namespace Core
variable (core : Core kids past file σ v)
include core

lemma once (p : Nat) : tally kids σ v p ≤ 1 := (core.single p).trans (by split <;> omega)

lemma free_once : σ.freelist.pgnos.count p ≤ 1 := by
  have once := core.once p
  rw [tally] at once
  omega

/-- A page past the bound has no use. -/
lemma beyond (h : v.bound ≤ p) :
    metaPages ≤ p ∧ p ∉ v.layout.chains ∧ ¬v.image.InTree kids p ∧ p ∉ σ.freelist.pgnos := by
  have none := core.single p
  rw [if_neg (by omega), tally] at none
  refine ⟨?_, fun chain => ?_, fun tree => ?_, fun free => ?_⟩
  · by_contra low
    rw [flag_pos (by omega)] at none
    omega
  · have := count_pos_iff.2 chain
    omega
  · rw [flag_pos tree] at none
    omega
  · have := count_pos_iff.2 free
    omega

/-- A free page has no other use. -/
lemma of_free (h : p ∈ σ.freelist.pgnos) :
    metaPages ≤ p ∧ p ∉ v.layout.chains ∧ ¬v.image.InTree kids p ∧ p < v.bound := by
  have once := core.once p
  have listed := count_pos_iff.2 h
  rw [tally] at once
  refine ⟨?_, fun chain => ?_, fun tree => ?_, ?_⟩
  · by_contra low
    rw [flag_pos (by omega)] at once
    omega
  · have := count_pos_iff.2 chain
    omega
  · rw [flag_pos tree] at once
    omega
  · by_contra high
    exact (core.beyond (by omega)).2.2.2 h

lemma of_chain (h : p ∈ v.layout.chains) :
    metaPages ≤ p ∧ ¬v.image.InTree kids p ∧ p ∉ σ.freelist.pgnos ∧ v.layout.chains.count p = 1 := by
  have once := core.once p
  have listed := count_pos_iff.2 h
  rw [tally] at once
  refine ⟨?_, fun tree => ?_, fun free => ?_, by omega⟩
  · by_contra low
    rw [flag_pos (by omega)] at once
    omega
  · rw [flag_pos tree] at once
    omega
  · have := count_pos_iff.2 free
    omega

lemma of_tree (h : v.image.InTree kids p) : metaPages ≤ p ∧ p ∉ v.layout.chains ∧ p ∉ σ.freelist.pgnos := by
  have once := core.once p
  rw [tally, flag_pos h] at once
  refine ⟨?_, fun chain => ?_, fun free => ?_⟩
  · by_contra low
    rw [flag_pos (by omega)] at once
    omega
  · have := count_pos_iff.2 chain
    omega
  · have := count_pos_iff.2 free
    omega

lemma two_le : metaPages ≤ v.bound := by
  by_contra short
  have low : v.bound < metaPages := by omega
  have none := core.beyond (p := v.bound) le_rfl
  omega

lemma root_not_other (h : p ∈ v.layout.roots) : p ∉ v.layout.others := by
  intro other
  have once := (core.of_chain (mem_append.2 (.inl h))).2.2.2
  have := count_pos_iff.2 h
  have := count_pos_iff.2 other
  rw [Layout.chains, count_append] at once
  omega

/-- The chain of the free list is apart from everything else. -/
lemma used_not_free (h : v.Used kids p) : p ∉ v.layout.freelist := by
  intro free
  have chain : p ∈ v.layout.chains := by simp [Layout.chains, Layout.others, free]
  obtain ⟨-, tree, -, once⟩ := core.of_chain chain
  have := count_pos_iff.2 free
  simp only [Layout.chains, Layout.others, count_append] at once
  rcases h with root | snap | cat | inTree
  · have := count_pos_iff.2 root
    omega
  · have := count_pos_iff.2 snap
    omega
  · have := count_pos_iff.2 cat
    omega
  · exact tree inTree

lemma holds_iff : v.image.Holds kids p ↔ p ∈ v.layout.roots ∨ v.image.InTree kids p := by
  have mine : Chain (fetch rootFormat v.image.file) v.image.state.info.rootRecords v.layout.roots σ.roots.entries := by
    rw [core.same.2]
    exact chain_congr core.roots fun p hp => (core.agree p (.inl hp)).symm
  refine or_congr_left ⟨?_, fun h => ⟨v.layout.roots, σ.roots.entries, mine, h⟩⟩
  rintro ⟨pages, entries, chain, hp⟩
  rwa [← (mine.unique chain).1]

/-- The last transaction itself is safe. -/
lemma guard : Guard kids past file σ v σ.info.txnId v.image where
  image := core.image
  le := le_rfl
  chain := by
    refine ⟨v.layout.roots, ?_⟩
    rw [core.same.1, core.same.2]
    exact chain_congr core.roots fun p hp => (core.agree p (.inl hp)).symm
  safe p h := by
    rcases core.holds_iff.1 h with root | tree
    · have chain : p ∈ v.layout.chains := mem_append.2 (.inl root)
      obtain ⟨low, -, free, -⟩ := core.of_chain chain
      refine ⟨low, core.live p (.inl chain), core.root_not_other root, core.agree p (.inl root), fun t' ht => ?_⟩
      exact absurd (mem_map.2 ⟨(p, t'), ht, rfl⟩) free
    · obtain ⟨low, chain, free⟩ := core.of_tree tree
      refine ⟨low, core.live p (.inr tree), fun other => chain (mem_append.2 (.inr other)),
        core.agree p (Survey.used_of_tree tree), fun t' ht => ?_⟩
      exact absurd (mem_map.2 ⟨(p, t'), ht, rfl⟩) free

/-! ## Writing elsewhere -/

lemma frame (same : ∀ p, v.Used kids p → file'[p]? = file[p]?) (long : v.bound ≤ file'.length) :
    Core kids past file' σ v :=
  { core with
    roots := chain_congr core.roots fun p hp => same p (.inl hp)
    snapshots := chain_congr core.snapshots fun p hp => same p (.inr (.inl hp))
    catalog := chain_congr core.catalog fun p hp => same p (.inr (.inr (.inl hp)))
    agree := fun p hp => (same p hp).trans (core.agree p hp)
    within := long }

lemma of_past (same : past' σ.info.txnId = past σ.info.txnId) : Core kids past' file σ v :=
  { core with image := same.trans core.image }

end Core

section
variable (guard : Guard kids past file σ v t img)
include guard

lemma Guard.frame (same : ∀ p, img.Holds kids p → file'[p]? = file[p]?) : Guard kids past file' σ v t img :=
  { guard with
    safe := fun p hp => by
      obtain ⟨low, high, other, agree, free⟩ := guard.safe p hp
      exact ⟨low, high, other, (same p hp).trans agree, free⟩ }

lemma Guard.of_past (same : past' t = past t) : Guard kids past' file σ v t img :=
  { guard with image := same.trans guard.image }

/-- What a reader finds at the root records of a transaction that is safe. -/
lemma Guard.roots : loadEntries rootFormat file img.state.info.rootRecords = .ok img.state.roots.entries := by
  obtain ⟨pages, chain⟩ := guard.chain
  refine loadEntries_of_chain (chain_congr chain fun p hp => ?_)
  exact (guard.safe p (.inl ⟨pages, _, chain, hp⟩)).2.2.2.1

/-- The trees a reader walks are those its transaction wrote. -/
lemma Guard.tree : Tree kids file img.state.roots.values p ↔ img.InTree kids p :=
  Tree.congr fun q hq => (guard.safe q (.inr hq)).2.2.2.1

end

/-! ## Opening the file -/

lemma Core.encode_eq (core : Core kids past file σ v) : (σ.info.encode : Page κ α) = .info σ.info := by
  have real : ∀ pages : List Nat, pages ⊆ v.layout.chains → ∀ p ∈ pages.head?, p ≠ 0 := by
    intro pages sub p hp zero
    have := (core.of_chain (sub (mem_of_mem_head? hp))).1
    subst zero
    cases this
  rw [MetaPage.encode, present_getD, present_getD, present_getD, present_getD]
  · rw [core.catalog.head_eq]
    exact real _ fun p hp => by simp [Layout.chains, Layout.others, hp]
  · rw [core.snapshots.head_eq]
    exact real _ fun p hp => by simp [Layout.chains, Layout.others, hp]
  · rw [core.head]
    exact real _ fun p hp => by simp [Layout.chains, Layout.others, hp]
  · rw [core.roots.head_eq]
    exact real _ fun p hp => by simp [Layout.chains, hp]

end BigDb.Pager
