import BigDb.Pager.Sound

/-!
# Transactions that are open

What holds of a write transaction while its callers use it, as long as they keep to copy-on-write:
they write to pages they were given, and free pages that are theirs or that the trees had when the
transaction began, each once.
-/

namespace BigDb.Pager
open Lib List OrderedMap
variable {κ α : Type} [LinearOrder κ] (kids : α → List Nat)

/-- A page a transaction may write to: it was free and old enough, or lies past the end of the file. -/
def Fresh (σ : StoreState κ) (reach floor p : Nat) : Prop :=
  (∃ t ≤ reach, (p, t) ∈ σ.freelist.listed) ∨ floor ≤ p

/-- The file as a transaction would leave it. -/
def WriteTxn.seen (w : WriteTxn κ α) (file : List (Page κ α)) : List (Page κ α) :=
  writeAll (growTo file w.supply.nextPgno) w.dirty.entries

structure Draft (file : List (Page κ α)) (σ : StoreState κ) (v : Survey κ α) (w : WriteTxn κ α) (h : Handled) :
    Prop where
  base : w.base = σ.info
  txnId : w.txnId = σ.info.txnId + 1
  floor : w.tailFloor = file.length
  horizon : w.horizon ≤ σ.info.txnId
  behind : ∀ snap ∈ σ.snapshots.snaps, w.horizon ≤ snap.txnId
  account : Account σ.freelist.listed file.length w.txnId w.horizon (h.owned ++ w.scratch) h.unlinked w.supply
  room : w.supply.nextPgno ≤ 2 ^ 32
  scratch : ∀ p ∈ w.scratch, file.length ≤ p
  dirty : ∀ p page, w.dirty.get p = some page →
    Fresh σ w.horizon file.length p ∧ (p ∈ h.owned ∨ (p, w.txnId) ∈ w.supply.freelist.listed)
  unlinked : ∀ p ∈ h.unlinked, v.image.InTree kids p
  once : h.unlinked.Nodup
  snaps : ∀ snap ∈ w.snapshots.snaps, snap ∈ σ.snapshots.snaps ∨
    (snap.txnId = σ.info.txnId ∧ present snap.rootRecords = σ.info.rootRecords)
  cleanRoots : w.dirtyChains.roots = false → w.roots = σ.roots
  cleanSnapshots : w.dirtyChains.snapshots = false → w.snapshots = σ.snapshots
  cleanCatalog : w.dirtyChains.catalog = false → w.catalog = σ.catalog

def Handled.MayFree (v : Survey κ α) (h : Handled) (p : Nat) : Prop :=
  p ∈ h.owned ∨ (v.image.InTree kids p ∧ p ∉ h.unlinked)

variable {kids} {past : Nat → Option (Image κ α)} {file : List (Page κ α)} {σ : StoreState κ} {v : Survey κ α}
  {w w' : WriteTxn κ α} {h : Handled} {capacity : Option Nat} {p : Nat}

variable {readers : Readers} {r : SnapshotRegistry} {txnId : Nat}

lemma reclaimHorizon_le : reclaimHorizon txnId readers r ≤ txnId := min_le_right _ _

lemma reclaimHorizon_le_snap {snap : Snapshot}
    (h : snap ∈ r.snaps) : reclaimHorizon txnId readers r ≤ snap.txnId := by
  obtain ⟨t, oldest, le⟩ := oldestTxnId_le h
  refine ((min_le_left _ _).trans (min_le_right _ _)).trans ?_
  rwa [oldest]

lemma reclaimHorizon_le_reader {t n : Nat} (h : readers.get t = some n) : reclaimHorizon txnId readers r ≤ t := by
  obtain ⟨first, oldest, le⟩ := first_le h
  refine ((min_le_left _ _).trans (min_le_left _ _)).trans ?_
  rwa [oldest]

lemma Draft.start (room : file.length ≤ 2 ^ 32) :
    Draft kids file σ v (.start σ readers file.length) ⟨[], [], []⟩ where
  base := rfl
  txnId := rfl
  floor := rfl
  horizon := reclaimHorizon_le
  behind _ hs := reclaimHorizon_le_snap hs
  account := .start
  room := room
  scratch _ hp := by cases hp
  dirty _ _ found := by cases found
  unlinked _ hp := by cases hp
  once := nodup_nil
  snaps _ hs := .inl hs
  cleanRoots _ := rfl
  cleanSnapshots _ := rfl
  cleanCatalog _ := rfl

namespace Draft

section
variable (core : Core kids past file σ v) (draft : Draft kids file σ v w h)
include core draft

/-- Pages that were free, pages of chains and pages the callers unlinked are different ones, and not
past the end of the file. -/
lemma single (old : List Nat) (le : ∀ p, old.count p ≤ v.layout.chains.count p) (p : Nat) :
    (σ.freelist.listed.map Prod.fst).count p + (old ++ h.unlinked).count p
      + (if file.length ≤ p then 1 else 0) ≤ 1 := by
  have unlinked : h.unlinked.count p ≤ 1 := nodup_iff_count_le_one.1 draft.once p
  have least := le p
  have once := core.once p
  rw [tally, Freelist.pgnos] at once
  rw [count_append]
  by_cases high : file.length ≤ p
  · have long := core.within
    obtain ⟨-, chain, tree, free⟩ := core.beyond (p := p) (by omega)
    rw [count_eq_zero.2 chain] at least
    have noFree : (σ.freelist.listed.map Prod.fst).count p = 0 := count_eq_zero.2 free
    have noTree : h.unlinked.count p = 0 := count_eq_zero.2 fun linked => tree (draft.unlinked p linked)
    rw [if_pos high]
    omega
  · rw [if_neg high]
    by_cases linked : p ∈ h.unlinked
    · rw [flag_pos (draft.unlinked p linked)] at once
      omega
    · rw [count_eq_zero.2 linked]
      omega

/-- Every page is in one place only: free, or held by the callers, or in the scratch list. -/
lemma unique (p : Nat) : w.supply.freelist.pgnos.count p + h.owned.count p + w.scratch.count p ≤ 1 := by
  have once := draft.account.unique (draft.single core [] fun p => Nat.zero_le _) p
  rw [count_append] at once
  omega

lemma not_owned_of_tree (tree : v.image.InTree kids p) : p ∉ h.owned := by
  intro mine
  obtain ⟨-, -, notFree⟩ := core.of_tree tree
  rcases draft.account.fresh p (mem_append.2 (.inl mine)) with ⟨t, -, listed⟩ | high
  · exact notFree (mem_map.2 ⟨(p, t), listed, rfl⟩)
  have := core.live p (.inr tree)
  have := core.counted
  have := core.within
  omega

end

/-! ## Calls -/

section
variable (draft : Draft kids file σ v w h)
include draft

lemma alloc (done : w.alloc capacity = .ok (p, w'))
    (room : w'.supply.nextPgno ≤ 2 ^ 32) : Draft kids file σ v w' (h.alloc p) := by
  rw [WriteTxn.alloc] at done
  cases discards : w.scratch with
  | cons q scratch =>
    rw [discards] at done
    cases done
    refine { draft with account := ?_, scratch := fun q hq => ?_, dirty := fun q page found => ?_ }
    · refine draft.account.perm ?_ (.refl _)
      rw [discards]
      exact perm_middle.symm
    · exact draft.scratch q (by rw [discards]; exact mem_cons_of_mem _ hq)
    by_cases same : q = p
    · subst same
      rw [get_erase_self] at found
      cases found
    · rw [get_erase_of_ne same] at found
      exact (draft.dirty q page found).imp_right (Or.imp_left (mem_cons_of_mem _))
  | nil =>
    rw [discards] at done
    obtain ⟨⟨q, supply⟩, taken, done⟩ := bind_ok.1 done
    cases done
    have now : w.horizon < w.txnId := by
      have := draft.horizon
      rw [draft.txnId]
      omega
    have account := draft.account.take le_rfl now taken room
    rw [discards] at account
    refine { draft with
      account
      scratch := fun _ hq => by cases hq
      dirty := fun q page found => ?_
      room }
    exact (draft.dirty q page found).imp_right
      (Or.imp (mem_cons_of_mem _) fun listed => (Later.allocPage taken).listed _ listed now)

lemma free (core : Core kids past file σ v) (may : h.MayFree kids v p) :
    Draft kids file σ v (w.free p) (h.free p) := by
  by_cases mine : p ∈ h.owned
  · rw [WriteTxn.free, Handled.free, if_pos mine]
    split_ifs with high
    · rw [draft.floor] at high
      refine { draft with
        account := draft.account.perm ?_ (.refl _)
        scratch := fun q hq => ?_
        dirty := fun q page found => ?_ }
      · exact perm_middle.trans ((perm_cons_erase mine).symm.append_right _)
      · rcases mem_cons.1 hq with rfl | hq
        · exact high
        · exact draft.scratch q hq
      by_cases same : q = p
      · subst same
        rw [get_erase_self] at found
        cases found
      · rw [get_erase_of_ne same] at found
        exact (draft.dirty q page found).imp_right (Or.imp_left (mem_erase_of_ne same).2)
    · refine { draft with
        account := ?_
        dirty := fun q page found => (draft.dirty q page found).imp_right fun place => ?_ }
      · have back := draft.account.giveBack (mem_append.2 (.inl mine))
        rwa [erase_append_left _ mine] at back
      · rw [listed_push, mem_append, mem_singleton]
        by_cases same : q = p
        · exact .inr (.inr (by rw [same]))
        · exact place.imp (mem_erase_of_ne same).2 .inl
  · obtain ⟨tree, new⟩ := may.resolve_left mine
    have low : ¬w.tailFloor ≤ p := by
      have := core.live p (.inr tree)
      have := core.counted
      have := core.within
      rw [draft.floor]
      omega
    rw [WriteTxn.free, Handled.free, if_neg mine, if_neg low]
    refine { draft with
      account := draft.account.add
      dirty := fun q page found => ?_
      unlinked := fun q hq => ?_
      once := nodup_cons.2 ⟨new, draft.once⟩ }
    · refine (draft.dirty q page found).imp_right (Or.imp_right fun listed => ?_)
      rw [listed_push]
      exact mem_append.2 (.inl listed)
    · rcases mem_cons.1 hq with rfl | hq
      · exact tree
      · exact draft.unlinked q hq

lemma insert (mine : p ∈ h.owned) (page : Page κ α) :
    Draft kids file σ v { w with dirty := w.dirty.insert p page } h :=
  { draft with
    dirty := fun q page' found => by
      by_cases same : q = p
      · subst same
        exact ⟨draft.account.fresh q (mem_append.2 (.inl mine)), .inl mine⟩
      · rw [get_insert_of_ne same] at found
        exact draft.dirty q page' found }

lemma write (mine : p ∈ h.owned) {page : Page κ α} (done : w.write p page = .ok w') : Draft kids file σ v w' h := by
  rw [WriteTxn.write] at done
  split_ifs at done
  cases done
  exact draft.insert mine page

lemma cow {new : Nat} (core : Core kids past file σ v) (may : h.MayFree kids v p)
    (done : w.cow file capacity p = .ok (new, w')) (room : w'.supply.nextPgno ≤ 2 ^ 32) :
    Draft kids file σ v w' ((h.alloc new).free p) := by
  obtain ⟨content, -, done⟩ := bind_ok.1 done
  obtain ⟨⟨q, middle⟩, taken, done⟩ := bind_ok.1 done
  cases done
  have next : middle.supply.nextPgno ≤ 2 ^ 32 := by
    refine le_trans (le_of_eq ?_) room
    rw [WriteTxn.free]
    split <;> rfl
  have may' : (h.alloc new).MayFree kids v p := may.imp_left (mem_cons_of_mem _)
  exact ((draft.alloc taken next).insert mem_cons_self content).free core may'

lemma setRoot (key : κ) (root : Nat) : Draft kids file σ v (w.setRoot key root) h :=
  { draft with cleanRoots := fun clean => by cases clean }

lemma removeRoot (key : κ) : Draft kids file σ v (w.removeRoot key) h :=
  { draft with cleanRoots := fun clean => by cases clean }

lemma createSnapshot (core : Core kids past file σ v) (expiresAt : Nat)
    (name : List UInt8) (pinned : Bool) (created : List Nat) :
    Draft kids file σ v (w.createSnapshot expiresAt name pinned).2 { h with created } :=
  { draft with
    snaps := fun snap hs => by
      rcases mem_concat.1 hs with old | rfl
      · exact draft.snaps snap old
      refine .inr ⟨congrArg MetaPage.txnId draft.base, ?_⟩
      have real : ∀ p ∈ σ.info.rootRecords, p ≠ 0 := by
        intro p hp zero
        rw [core.roots.head_eq] at hp
        have := (core.of_chain (mem_append.2 (.inl (mem_of_mem_head? hp)))).1
        subst zero
        cases this
      simp only [draft.base]
      exact present_getD real
    cleanSnapshots := fun clean => by cases clean }

lemma dropSnapshot (id : Nat) : Draft kids file σ v (w.dropSnapshot id) h :=
  { draft with
    snaps := fun snap hs => draft.snaps snap (mem_of_mem_eraseP hs)
    cleanSnapshots := fun clean => by cases clean }

lemma expireSnapshots (now : Nat) : Draft kids file σ v (w.expireSnapshots now) h :=
  { draft with
    snaps := fun snap hs => draft.snaps snap (mem_filter.1 hs).1
    cleanSnapshots := fun clean => by cases clean }

lemma setCatalog (entries : List Record) : Draft kids file σ v (w.setCatalog entries) h := by
  rw [WriteTxn.setCatalog]
  split_ifs
  · exact { draft with cleanCatalog := fun clean => by cases clean }
  · exact draft

end

end Draft

end BigDb.Pager
