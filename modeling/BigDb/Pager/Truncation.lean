import BigDb.Pager.Good

/-!
# Truncations

A truncation gives up free pages only, and a crash at any point of it leaves the same content with at
worst fewer free pages known, unless it tears a page of the free list's chain, which is written in place:
then neither meta page names a chain that can be read, and the file does not open.
-/

namespace BigDb.Pager
open Lib

/-! ## Pages in use

The pages that somebody may read, as the file has them: the meta pages, the chains and the trees of the
state, and the root records and trees of its snapshots. A page that a transaction is given is none of
them, and none that it has already.
-/

variable {κ α : Type} [LinearOrder κ] (kids : α → List Nat)

def OnChain {β : Type} (format : Format κ β) (file : List (Page κ α)) (head : Option Nat) (p : Nat) : Prop :=
  ∃ pgnos, chainPgnos format file head = .ok pgnos ∧ p ∈ pgnos

variable (file : List (Page κ α))

def MetaPage.OnChains (m : MetaPage) (p : Nat) : Prop :=
  OnChain rootFormat file m.rootRecords p ∨ OnChain freeFormat file m.freelist p ∨
    OnChain snapshotFormat file m.snapshots p ∨ OnChain catalogFormat file m.catalog p

/-- A page of the root records at a page, or of the trees under them. -/
def UnderRoots (head : Option Nat) (p : Nat) : Prop :=
  OnChain rootFormat file head p ∨
    ∃ entries, loadEntries rootFormat file head = .ok entries ∧ Tree kids file (entries.map Prod.snd) p

def Pinned (σ : StoreState κ) (p : Nat) : Prop :=
  ∃ snap ∈ σ.snapshots.snaps, UnderRoots kids file (present snap.rootRecords) p

def Occupied (σ : StoreState κ) (p : Nat) : Prop :=
  p < metaPages ∨ σ.info.OnChains file p ∨ Tree kids file σ.roots.values p ∨ Pinned kids file σ p

variable {kids} {past : Nat → Option (Image κ α)} {file} {σ : StoreState κ} {v : Survey κ α}
  {reach p : Nat} {runs : List FreeRun}

omit [LinearOrder κ] in
lemma onChain_of_chain {β : Type} {format : Format κ β} {head : Option Nat} {pgnos : List Nat} {entries : List β}
    (chain : Chain (fetch format file) head pgnos entries) : OnChain format file head p ↔ p ∈ pgnos := by
  constructor
  · rintro ⟨pages, walked, hp⟩
    rw [chainPgnos_of_chain chain] at walked
    cases walked
    exact hp
  · exact fun hp => ⟨pgnos, chainPgnos_of_chain chain, hp⟩

lemma Core.onChains (core : Core kids past file σ v)
    (free : Chain (fetch freeFormat file) σ.info.freelist v.layout.freelist runs) :
    σ.info.OnChains file p ↔ p ∈ v.layout.chains := by
  simp only [MetaPage.OnChains, onChain_of_chain core.roots, onChain_of_chain free, onChain_of_chain core.snapshots,
    onChain_of_chain core.catalog, Layout.chains, Layout.others, List.mem_append]
  tauto

/-- What is under the root records of a transaction that is safe. -/
lemma Guard.underRoots {t : Nat} {img : Image κ α} (guard : Guard kids past file σ v t img) :
    UnderRoots kids file img.state.info.rootRecords p ↔ img.Holds kids p := by
  obtain ⟨pages, chain⟩ := guard.chain
  have mine : Chain (fetch rootFormat file) img.state.info.rootRecords pages img.state.roots.entries :=
    chain_congr chain fun p hp => (guard.safe p (.inl ⟨pages, _, chain, hp⟩)).2.2.2.1
  refine or_congr ?_ ⟨?_, fun tree => ⟨_, guard.roots, guard.tree.2 tree⟩⟩
  · rw [onChain_of_chain mine]
    refine ⟨fun hp => ⟨pages, _, chain, hp⟩, ?_⟩
    rintro ⟨pages', entries, chain', hp⟩
    rwa [← (chain.unique chain').1]
  · rintro ⟨entries, loaded, tree⟩
    rw [guard.roots] at loaded
    cases loaded
    exact guard.tree.1 tree

/-- Free pages that are old enough, and those past the end, are not in use. -/
lemma Sound.not_occupied (sound : Sound kids past file σ v 0)
    (free : Chain (fetch freeFormat file) σ.info.freelist v.layout.freelist runs)
    (behind : ∀ snap ∈ σ.snapshots.snaps, reach ≤ snap.txnId) (fresh : Fresh σ reach v.bound p) :
    ¬Occupied kids file σ p := by
  obtain ⟨low, chain, tree⟩ := sound.core.of_fresh fresh
  rintro (first | onChain | inTree | ⟨snap, hs, under⟩)
  · omega
  · exact chain ((sound.core.onChains free).1 onChain)
  · exact tree (sound.core.tree.1 inTree)
  · obtain ⟨-, img, guard, head⟩ := sound.snaps snap hs (Nat.zero_le _)
    rw [← head, guard.underRoots] at under
    exact guard.of_fresh sound.core (behind snap hs) fresh under

namespace System
variable {s : System κ α} {v' : Survey κ α} {w w' : WriteTxn κ α} {h : Handled}

/-- A page that a transaction is given. -/
lemma Good.alloc_unused (good : s.Good kids v v') (writing : s.writer = .writing w h)
    (done : w.alloc s.capacity = .ok (p, w')) (room : w'.supply.nextPgno ≤ 2 ^ 32) :
    Fresh s.state w.horizon v.bound p ∧ ¬Occupied kids s.file s.state p ∧ p ∉ h.owned := by
  obtain ⟨st, draft⟩ := good.of_writing writing
  have draft' := draft.alloc done room
  have fresh : Fresh s.state w.horizon v.bound p := by
    rw [show w.horizon = w'.horizon from congrArg Prod.fst (WriteTxn.alloc_outlook done).symm]
    exact (draft'.account.fresh p (List.mem_append.2 (.inl List.mem_cons_self))).imp_right st.core.within.trans
  refine ⟨fresh, st.toSound.not_occupied st.chain draft.behind fresh, fun mine => ?_⟩
  have once := draft'.unique st.core p
  have := List.count_pos_iff.2 mine
  rw [Handled.alloc, List.count_cons_self] at once
  omega

end System

/-! ## Giving up pages -/

variable {d : Disk (Page κ α)} {v' : Survey κ α} {c : Change κ α} {stage : TruncateStage κ α}

/-- Whatever is on the disk of it, the chain of the free list can be walked. -/
lemma Narrowing.chain (h : Narrowing kids past d σ v c v' stage) (cut : Cut kids past σ v c v') :
    ∃ runs, Chain (fetch freeFormat d.view) σ.info.freelist v.layout.freelist runs := by
  -- what is read now is what a crash leaves that loses nothing
  have writing : ∀ {d rest}, Trimming kids past d σ v c v' rest →
      ∃ runs, Chain (fetch freeFormat d.view) σ.info.freelist v.layout.freelist runs := by
    intro d rest tr
    have untorn : Trimming.Untorn c d (List.replicate d.pending.length .kept) := by
      intro i p content garbage _ torn
      cases List.eq_of_mem_replicate (List.mem_of_getElem? torn)
    obtain ⟨runs, -, chain⟩ := tr.mixed_chain cut untorn
    rw [crash_kept] at chain
    exact ⟨runs, chain⟩
  have written : Standing kids past d c.state v' 0 true →
      ∃ runs, Chain (fetch freeFormat d.view) σ.info.freelist v.layout.freelist runs := by
    intro st
    have chain := st.chain
    rw [cut.less.heads.2.1, cut.relay.layout] at chain
    exact ⟨_, chain⟩
  cases stage with
  | pages rest => exact writing h
  | confirm =>
    obtain ⟨d₀, tr, rfl⟩ := h
    obtain ⟨runs, chain⟩ := writing tr
    refine ⟨runs, chain_congr chain fun p free => ?_⟩
    rw [view_write]
    exact tr.sound.core.write_low_free (slot_lt c.state.info) _ free
  | cut | publish => exact written h.1

/-- Nothing that somebody may read is given up. -/
lemma Narrowing.not_occupied (h : Narrowing kids past d σ v c v' stage) (cut : Cut kids past σ v c v')
    (high : c.state.info.pageCount ≤ p) (low : p < σ.info.pageCount) : ¬Occupied kids d.view σ p := by
  obtain ⟨runs, chain⟩ := h.chain cut
  have sound := h.sound
  have before : Sound kids past d.view σ v 0 → ¬Occupied kids d.view σ p := fun sound =>
    sound.not_occupied chain cut.horizon.2 (.inl (cut.less.released p high low))
  have after : Sound kids past d.view c.state v' 0 → ¬Occupied kids d.view σ p := by
    intro sound
    have same : Occupied kids d.view c.state p ↔ Occupied kids d.view σ p := by
      obtain ⟨roots, freelist, snapshots, catalog⟩ := cut.less.heads
      simp only [Occupied, MetaPage.OnChains, Pinned, roots, freelist, snapshots, catalog, cut.less.roots,
        cut.less.snapshots]
    rw [← same]
    have chain' : Chain (fetch freeFormat d.view) c.state.info.freelist v'.layout.freelist runs := by
      rw [cut.less.heads.2.1, cut.relay.layout]
      exact chain
    exact sound.not_occupied chain' (fun _ _ => Nat.zero_le _) (.inr (cut.bound.le.trans high))
  cases stage with
  | pages | confirm => exact before sound
  | cut | publish => exact after sound

namespace System
variable {s : System κ α}

/-- A truncation gives up free pages that nobody may read and leaves no free page past the new end. A
crash at any point of it that does not tear a page of the free list's chain leaves the same roots,
snapshots and catalog, with no more free pages than before. Pages that are given out later are not in use. -/
theorem truncation_is_safe {capacity : Option Nat} (run : Run step (Careful kids) (start capacity : System κ α) s)
    (truncating : s.writer = .truncating c stage) :
    (∀ p, c.state.info.pageCount ≤ p → p < s.state.info.pageCount →
      p ∈ s.state.freelist.pgnos ∧ ¬Occupied kids s.file s.state p) ∧
    (∀ p ∈ c.state.freelist.pgnos, p < c.state.info.pageCount) ∧
    (∀ fates, Trimming.Untorn c s.disk fates → ∃ τ, load (s.disk.crash spoil fates) = .ok τ ∧
      τ.roots = s.state.roots ∧ τ.snapshots.snaps = s.state.snapshots.snaps ∧ τ.catalog = s.state.catalog ∧
      τ.freelist.listed ⊆ s.state.freelist.listed) ∧
    ∀ s' w h p w', Run step (Careful kids) s s' → s'.writer = .writing w h → w.alloc s'.capacity = .ok (p, w') →
      w'.supply.nextPgno ≤ 2 ^ 32 → ¬Occupied kids s'.file s'.state p ∧ p ∉ h.owned := by
  obtain ⟨v, v', good⟩ := Good.run run
  obtain ⟨cut, narrowing⟩ := good.of_truncating truncating
  refine ⟨fun p high low => ⟨?_, narrowing.not_occupied cut high low⟩, fun p hp => ?_, fun fates untorn => ?_, ?_⟩
  · obtain ⟨t, -, listed⟩ := cut.less.released p high low
    exact List.mem_map.2 ⟨(p, t), listed, rfl⟩
  · have := cut.relay.listed p hp
    rwa [cut.bound] at this
  · obtain ⟨τ, u, less, found, -⟩ := narrowing.crash cut untorn
    have snaps : τ.snapshots.snaps = s.state.snapshots.snaps := by rw [less.snapshots]
    exact ⟨τ.reloaded, found.load_eq, less.roots, snaps, less.catalog, less.listed.subset⟩
  · intro s' w h p w' later writing done room
    obtain ⟨u, u', good'⟩ := Good.run (run.trans later)
    exact (good'.alloc_unused writing done room).2

/-- Two pages that are put into trees and taken out again, an empty transaction so that the free list
takes one of them for its chain, and a truncation that has begun. -/
def emptied : List (Action Nat (List Nat)) :=
  List.flatten [[.beginWrite, .alloc, .write 2 [], .setRoot 0 2, .alloc, .write 3 [], .setRoot 1 3, .commit],
    List.replicate 8 .advance,
    [.beginWrite, .removeRoot 0, .removeRoot 1, .free 2, .free 3, .commit], List.replicate 6 .advance,
    [.beginWrite, .commit], List.replicate 6 .advance, [.truncateTail, .advance]]

theorem truncation_is_safe_emptied : ∃ c stage, (after none emptied).writer = .truncating c stage ∧
    (∀ p, c.state.info.pageCount ≤ p → p < (after none emptied).state.info.pageCount →
      p ∈ (after none emptied).state.freelist.pgnos ∧
      ¬Occupied id (after none emptied).file (after none emptied).state p) := by
  have run : Run step (Careful id) (start none) (after none emptied) :=
    Run.play (carefulTest id) _ (by decide +kernel) fun _ _ => careful_of_test
  obtain ⟨c, stage, truncating⟩ := exists_of_isTruncating (w := (after none emptied).writer) (by decide +kernel)
  exact ⟨c, stage, truncating, (truncation_is_safe run truncating).1⟩

/-- With the page of the chain torn the file does not open. -/
theorem torn_truncation_does_not_open : Run step (Careful id) (start none) (after none emptied) ∧
    (after none emptied).writer.isTruncating = true ∧
    load ((after none emptied).disk.crash spoil [.torn .damaged]) = .error (.page .badChecksum) := by
  refine ⟨Run.play (carefulTest id) _ (by decide +kernel) fun _ _ => careful_of_test, by decide +kernel, ?_⟩
  decide +kernel

end System

end BigDb.Pager
