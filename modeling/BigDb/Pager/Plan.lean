import BigDb.Pager.Draft

/-!
# What a commit decides

The pages a commit writes are fresh: nothing that can be read of an earlier transaction is on them.
With them written, the file holds the new state, and again every page has one use. How the uses
change is one equation, so that nothing is leaked if the callers of the transaction leak nothing.
-/

namespace BigDb.Pager
open Lib List Function OrderedMap Prod
variable {κ α β : Type}

/-! ## Placing one chain -/

variable {format : Format κ β} {file : List (Page κ α)} {free : List (Nat × Nat)} {floor txnId reach horizon : Nat}
  {taken added pgnos : List Nat} {s s' : Supply} {capacity : Option Nat} {head : Option Nat}
  {entries entries₀ : List β} {dirty : Bool} {placed : Placed}

variable (format file pgnos entries placed) in
/-- A chain that was on `pgnos` is now on `pages`: `new` are the pages it took for that, `old` those
it gave back. -/
structure Placing (pages new old : List Nat) : Prop where
  count : ∀ p, pages.count p + old.count p = pgnos.count p + new.count p
  old_le : ∀ p, old.count p ≤ pgnos.count p
  mem : ∀ p ∈ pages, p ∈ new ∨ p ∈ pgnos
  keys : (placed.pages format entries : List (Nat × Page κ α)).map fst = new
  chain : ∀ file' : List (Page κ α), (∀ p ∈ new, p ≠ 0) →
    (∀ x ∈ placed.pages format entries, file'[x.1]? = some x.2) → (∀ p ∈ pgnos, file'[p]? = file[p]?) →
    Chain (fetch format file') placed.head pages entries

lemma recycleChain_spec {l : Freelist} (chain : Chain (fetch format file) head pgnos entries₀) :
    recycleChain format file head l txnId = .ok (pgnos.foldl (fun l p => l.push p txnId) l) := by
  simp only [recycleChain, chainPgnos_of_chain chain]
  rfl

lemma Later.recycled {l : Freelist} (done : recycleChain format file head s.freelist txnId = .ok l) :
    Later horizon s { s with freelist := l } := by
  obtain ⟨pgnos, -, done⟩ := bind_ok.1 done
  cases done
  exact Later.recycle

section
variable (done : placeChain format file dirty head entries txnId horizon capacity s = .ok (placed, s'))
include done

lemma Later.place : Later horizon s s' := by
  rw [placeChain] at done
  split_ifs at done
  · obtain ⟨freelist, recycled, done⟩ := bind_ok.1 done
    obtain ⟨⟨pages, last⟩, allocated, done⟩ := bind_ok.1 done
    cases done
    exact (Later.recycled recycled).trans (Later.allocPages allocated)
  · cases done
    exact .refl

lemma Account.place (h : Account free floor txnId reach taken added s)
    (chain : Chain (fetch format file) head pgnos entries₀) (clean : dirty = false → entries = entries₀)
    (le : horizon ≤ reach) (now : horizon < txnId) (room : s'.nextPgno ≤ 2 ^ 32) :
    ∃ pages new old, Placing format file pgnos entries placed pages new old ∧
      Account free floor txnId reach (new ++ taken) (old ++ added) s' := by
  rw [placeChain] at done
  split_ifs at done with changed
  · rw [recycleChain_spec chain] at done
    obtain ⟨freelist, recycled, done⟩ := bind_ok.1 done
    cases recycled
    obtain ⟨⟨pages, last⟩, allocated, done⟩ := bind_ok.1 done
    cases done
    obtain ⟨account, length⟩ := (h.recycle pgnos).takeAll le now allocated room
    refine ⟨pages, pages, pgnos, ⟨?_, ?_, ?_, map_fst_buildChain, ?_⟩, account⟩
    · exact fun p => Nat.add_comm _ _
    · exact fun p => le_rfl
    · exact fun p hp => .inl hp
    · intro file' real written _
      refine chain_of_written ?_ real written
      rw [length]
      exact le_mul_pagesNeeded format.positive
  · cases done
    refine ⟨pgnos, [], [], ⟨?_, ?_, ?_, rfl, ?_⟩, h⟩
    · exact fun p => rfl
    · exact fun p => Nat.zero_le _
    · exact fun p hp => .inr hp
    · intro file' _ _ kept
      rw [clean (by simpa using changed)]
      exact chain_congr chain kept

end

/-! ## Working out a commit -/

section Commit
variable [LinearOrder κ] {kids : α → List Nat} {past : Nat → Option (Image κ α)} {σ : StoreState κ} {v : Survey κ α}
  {w : WriteTxn κ α} {h : Handled} {c : Change κ α} {readers : Readers} {p : Nat}

/-- What a commit has gone through: where each chain was placed, and the supply it ended with. -/
structure Workings (file : List (Page κ α)) (σ : StoreState κ) (v : Survey κ α) (w : WriteTxn κ α) (h : Handled)
    (readers : Readers) (c : Change κ α) where
  roots : Placed
  snaps : Placed
  cat : Placed
  /-- the pages of the chains now, those taken for them, and those given back -/
  now : Layout
  new : Layout
  old : Layout
  supply : Supply
  free_new : new.freelist = now.freelist
  free_old : old.freelist = v.layout.freelist
  placeRoots : Placing rootFormat file v.layout.roots w.roots.entries roots now.roots new.roots old.roots
  placeSnaps : Placing snapshotFormat file v.layout.snapshots w.snapshots.snaps snaps now.snapshots
    new.snapshots old.snapshots
  placeCat : Placing catalogFormat file v.layout.catalog w.catalog cat now.catalog new.catalog old.catalog
  account : Account σ.freelist.listed file.length w.txnId (max w.horizon c.horizon) (new.chains ++ h.owned)
    (old.chains ++ h.unlinked) supply
  compacted : Compacted supply.freelist.runs
  fits : supply.freelist.runs.length ≤ chainCapacity 16 * now.freelist.length
  kept : ∀ x ∈ w.supply.freelist.listed, c.horizon < x.2 → x ∈ supply.freelist.listed
  out_eq : c.out = w.dirty.entries ++ roots.pages rootFormat w.roots.entries
    ++ snaps.pages snapshotFormat w.snapshots.snaps ++ cat.pages catalogFormat w.catalog
    ++ buildPages freeFormat supply.freelist.runs now.freelist
  info_eq : c.state.info = {
    txnId := w.txnId
    pageCount := supply.nextPgno
    rootRecords := roots.head
    freelist := now.freelist.head?
    snapshots := snaps.head
    catalog := cat.head
    flags := w.base.flags }
  roots_eq : c.state.roots = w.roots
  snapshots_eq : c.state.snapshots = w.snapshots
  catalog_eq : c.state.catalog = w.catalog
  freelist_eq : c.state.freelist = supply.freelist
  horizon_eq : c.horizon = reclaimHorizon σ.info.txnId readers w.snapshots

lemma commit_workings (core : Core kids past file σ v) (draft : Draft kids file σ v w h)
    (chain : Chain (fetch freeFormat file) σ.info.freelist v.layout.freelist σ.freelist.runs)
    (done : w.commit file σ readers capacity = .ok c) (room : c.state.info.pageCount ≤ 2 ^ 32) :
    Nonempty (Workings file σ v w h readers c) := by
  have nodup : w.scratch.Nodup := nodup_iff_count_le_one.2 fun p => by
    have := draft.unique core p
    omega
  have absorbed := (draft.account.perm perm_append_comm (.refl _)).absorb nodup draft.scratch
  have more : ∀ x ∈ w.supply.freelist.listed,
      x ∈ (w.supply.freelist.absorbScratch w.scratch w.supply.nextPgno w.txnId).1.listed := by
    intro x hx
    obtain ⟨kept, listed, -⟩ := absorbScratch_spec w.supply.freelist w.supply.nextPgno w.txnId nodup
    rw [listed]
    exact mem_append.2 (.inl hx)
  rw [WriteTxn.commit, draft.base] at done
  revert done absorbed more
  generalize w.supply.freelist.absorbScratch w.scratch w.supply.nextPgno w.txnId = first
  obtain ⟨freelist, nextPgno⟩ := first
  simp only
  intro done absorbed more
  have now : reclaimHorizon σ.info.txnId readers w.snapshots < w.txnId := by
    have : reclaimHorizon σ.info.txnId readers w.snapshots ≤ σ.info.txnId := reclaimHorizon_le
    rw [draft.txnId]
    omega
  have le : reclaimHorizon σ.info.txnId readers w.snapshots
      ≤ max w.horizon (reclaimHorizon σ.info.txnId readers w.snapshots) := le_max_right _ _
  obtain ⟨⟨roots, s₁⟩, placed₁, done⟩ := bind_ok.1 done
  obtain ⟨⟨snaps, s₂⟩, placed₂, done⟩ := bind_ok.1 done
  obtain ⟨⟨cat, s₃⟩, placed₃, done⟩ := bind_ok.1 done
  obtain ⟨recycled, recycles, done⟩ := bind_ok.1 done
  obtain ⟨⟨free, s₄⟩, placed₄, done⟩ := bind_ok.1 done
  cases done
  -- pages are only ever added to the file, so that there is room at every stage
  have later₄ := (Later.recycled recycles).trans (Later.freelistPages placed₄)
  have later₃ := (Later.place placed₃).trans later₄
  have later₂ := (Later.place placed₂).trans later₃
  obtain ⟨pages₁, new₁, old₁, placing₁, account₁⟩ :=
    (absorbed.mono (le_max_left _ _)).place placed₁ core.roots (fun clean => by rw [draft.cleanRoots clean]) le now
      (later₂.next.trans room)
  obtain ⟨pages₂, new₂, old₂, placing₂, account₂⟩ :=
    account₁.place placed₂ core.snapshots (fun clean => by rw [draft.cleanSnapshots clean]) le now
      (later₃.next.trans room)
  obtain ⟨pages₃, new₃, old₃, placing₃, account₃⟩ :=
    account₂.place placed₃ core.catalog draft.cleanCatalog le now (later₄.next.trans room)
  rw [recycleChain_spec chain] at recycles
  cases recycles
  have fewer : ∀ p, (⟨old₁, v.layout.freelist, old₂, old₃⟩ : Layout).chains.count p ≤ v.layout.chains.count p := by
    intro p
    have := placing₁.old_le p
    have := placing₂.old_le p
    have := placing₃.old_le p
    simp only [Layout.chains, Layout.others, count_append]
    omega
  have account₄ := account₃.recycle v.layout.freelist
  have once := account₄.unique fun p => by
    have := draft.single core _ fewer p
    simp only [Layout.chains, Layout.others, count_append] at this ⊢
    omega
  obtain ⟨account, compacted, fits⟩ := account₄.takeFreelist le now (nodup_iff_count_le_one.2 fun p => by
    have := once p
    omega) placed₄ room
  refine ⟨⟨roots, snaps, cat, ⟨pages₁, free, pages₂, pages₃⟩, ⟨new₁, free, new₂, new₃⟩,
    ⟨old₁, v.layout.freelist, old₂, old₃⟩, s₄, rfl, rfl, placing₁, placing₂, placing₃, ?_, compacted, fits, ?_, rfl,
    ?_, rfl, rfl, ?_, rfl, rfl⟩⟩
  · refine account.perm (perm_iff_count.2 fun p => ?_) (perm_iff_count.2 fun p => ?_)
    all_goals
      simp only [Layout.chains, Layout.others, count_append]
      omega
  · exact fun x hx young => ((Later.place placed₁).trans later₂).listed x (more x hx) young
  · rw [draft.base]
  · cases changed : w.dirtyChains.catalog with
    | true => rfl
    | false => exact (draft.cleanCatalog changed).symm

lemma image_other (inside : p < file.length) (other : p ∉ c.out.map fst) : (c.image file).file[p]? = file[p]? := by
  rw [Change.image, getElem?_writeAll_other ?_ other, getElem?_growTo inside]
  rw [length_growTo]
  omega

/-- Nothing in use is on a fresh page. -/
lemma Core.of_fresh {reach : Nat} (core : Core kids past file σ v) (fresh : Fresh σ reach v.bound p) :
    metaPages ≤ p ∧ p ∉ v.layout.chains ∧ ¬v.image.InTree kids p := by
  rcases fresh with ⟨t, -, listed⟩ | high
  · obtain ⟨low, chain, tree, -⟩ := core.of_free (mem_map.2 ⟨(p, t), listed, rfl⟩)
    exact ⟨low, chain, tree⟩
  · obtain ⟨low, chain, tree, -⟩ := core.beyond high
    exact ⟨low, chain, tree⟩

/-- Nothing a guarded transaction wrote is on a page that is fresh at its time. -/
lemma Guard.of_fresh {reach t : Nat} {img : Image κ α} (core : Core kids past file σ v)
    (guard : Guard kids past file σ v t img) (le : reach ≤ t) (fresh : Fresh σ reach v.bound p) :
    ¬img.Holds kids p := by
  intro held
  obtain ⟨-, high, -, -, free⟩ := guard.safe p held
  rcases fresh with ⟨t', older, listed⟩ | out
  · have := free t' listed
    omega
  · have := core.counted
    omega

namespace Workings
variable (core : Core kids past file σ v) (draft : Draft kids file σ v w h) (k : Workings file σ v w h readers c)

lemma old_le (p : Nat) : k.old.chains.count p ≤ v.layout.chains.count p := by
  have := k.placeRoots.old_le p
  have := k.placeSnaps.old_le p
  have := k.placeCat.old_le p
  simp only [Layout.chains, Layout.others, count_append, k.free_old]
  omega

lemma keys : c.out.map fst =
    w.dirty.entries.map fst ++ k.new.roots ++ k.new.snapshots ++ k.new.catalog ++ k.new.freelist := by
  simp only [k.out_eq, map_append, k.placeRoots.keys, k.placeSnaps.keys, k.placeCat.keys, k.free_new, buildPages,
    map_fst_buildChain]

lemma mem_keys : p ∈ c.out.map fst ↔ (∃ page, w.dirty.get p = some page) ∨ p ∈ k.new.chains := by
  have written : p ∈ w.dirty.entries.map fst ↔ ∃ page, w.dirty.get p = some page := by
    constructor
    · intro hp
      obtain ⟨⟨q, page⟩, entry, rfl⟩ := mem_map.1 hp
      exact ⟨page, get_iff.2 entry⟩
    · rintro ⟨page, found⟩
      exact mem_map.2 ⟨(p, page), get_iff.1 found, rfl⟩
  simp only [k.keys, mem_append, written, Layout.chains, Layout.others]
  tauto

include core in
lemma fresh_new (hp : p ∈ k.new.chains) : Fresh σ (max w.horizon c.horizon) v.bound p :=
  (k.account.fresh p (mem_append.2 (.inl hp))).imp_right core.within.trans

include draft in
/-- A page that was written and freed again is not taken for a chain. -/
lemma dirty_place {page : Page κ α} (found : w.dirty.get p = some page) :
    p ∈ h.owned ∨ p ∈ k.supply.freelist.pgnos := by
  refine (draft.dirty p page found).2.imp_right fun listed => ?_
  have young : c.horizon < w.txnId := by
    have : c.horizon ≤ σ.info.txnId := k.horizon_eq ▸ reclaimHorizon_le
    rw [draft.txnId]
    omega
  exact mem_map.2 ⟨_, k.kept _ listed young, rfl⟩

lemma count_eq : c.state.info.pageCount = k.supply.nextPgno := by rw [k.info_eq]

include core draft k

lemma unique (p : Nat) : k.supply.freelist.pgnos.count p + k.new.chains.count p + h.owned.count p ≤ 1 := by
  have once := k.account.unique (draft.single core _ k.old_le) p
  rw [count_append] at once
  omega

lemma dirty_not_new {page : Page κ α} (found : w.dirty.get p = some page) : p ∉ k.new.chains := by
  intro new
  have once := k.unique core draft p
  have := count_pos_iff.2 new
  rcases k.dirty_place draft found with mine | free
  · have := count_pos_iff.2 mine
    omega
  · have := count_pos_iff.2 free
    omega

lemma owned_not_new (mine : p ∈ h.owned) : p ∉ k.new.chains := by
  intro new
  have once := k.unique core draft p
  have := count_pos_iff.2 new
  have := count_pos_iff.2 mine
  omega

/-- No page is written twice. -/
lemma keys_nodup : (c.out.map fst).Nodup := by
  have dirty : (w.dirty.entries.map fst).Nodup :=
    pairwise_map.2 (w.dirty.ascending.imp fun lt => ne_of_lt lt)
  refine nodup_iff_count_le_one.2 fun p => ?_
  have once := k.unique core draft p
  have least := nodup_iff_count_le_one.1 dirty p
  simp only [k.keys, Layout.chains, Layout.others, count_append] at once ⊢
  by_cases written : p ∈ w.dirty.entries.map fst
  · obtain ⟨entry, listed, same⟩ := mem_map.1 written
    have found : w.dirty.get p = some entry.2 := get_iff.2 (by rwa [← same])
    have fresh := count_eq_zero.2 (k.dirty_not_new core draft found)
    simp only [Layout.chains, Layout.others, count_append] at fresh
    omega
  · rw [count_eq_zero.2 written]
    omega

/-- Every page written is fresh, and lies in the file to be. -/
lemma target (hp : p ∈ c.out.map fst) : Fresh σ (max w.horizon c.horizon) v.bound p ∧ p < k.supply.nextPgno := by
  have single := draft.single core _ k.old_le
  have above := k.account.above
  rcases k.mem_keys.1 hp with ⟨page, found⟩ | new
  · obtain ⟨fresh, -⟩ := draft.dirty p page found
    refine ⟨fresh.imp (fun ⟨t, older, listed⟩ => ⟨t, older.trans (le_max_left _ _), listed⟩) core.within.trans, ?_⟩
    by_cases high : file.length ≤ p
    · rcases k.dirty_place draft found with mine | free
      · exact k.account.lt_next single (mem_append.2 (.inr mine)) high
      -- a page past the old end that is free now is below the new one
      by_contra out
      have balance := k.account.balance p
      have none := single p
      have := count_pos_iff.2 free
      rw [if_pos high] at none
      rw [if_neg (by omega)] at balance
      omega
    · omega
  · refine ⟨k.fresh_new core new, ?_⟩
    by_cases high : file.length ≤ p
    · exact k.account.lt_next single (mem_append.2 (.inl new)) high
    · omega

/-! ### The file the commit makes -/

lemma length_image : (c.image file).file.length = k.supply.nextPgno := by
  have above := k.account.above
  have long : (growTo file c.state.info.pageCount).length = k.supply.nextPgno := by
    rw [length_growTo, k.count_eq]
    omega
  rw [Change.image, length_writeAll, long]
  intro x hx
  rw [long]
  exact (k.target core draft (mem_map.2 ⟨x, hx, rfl⟩)).2

lemma image_written {x : Nat × Page κ α} (hx : x ∈ c.out) : (c.image file).file[x.1]? = some x.2 :=
  getElem?_writeAll_mem (k.keys_nodup core draft) hx

/-- The trees of the new state are those the transaction saw. -/
lemma tree_iff (fits : ∀ p, Tree kids (w.seen file) w.roots.values p →
      p ∈ h.owned ∨ (v.image.InTree kids p ∧ p ∉ h.unlinked)) :
    (c.image file).InTree kids p ↔ Tree kids (w.seen file) w.roots.values p := by
  rw [Image.InTree, show (c.image file).state.roots = w.roots from k.roots_eq]
  refine Reachable.congr fun q hq => ?_
  have mine := fits q hq
  have notNew : q ∉ k.new.chains := by
    rcases mine with owned | ⟨tree, -⟩
    · exact k.owned_not_new core draft owned
    · exact fun new => (core.of_fresh (k.fresh_new core new)).2.2 tree
  have dirtyOnce : (w.dirty.entries.map fst).Nodup :=
    pairwise_map.2 (w.dirty.ascending.imp fun lt => ne_of_lt lt)
  cases written : w.dirty.get q with
  | some page =>
    -- written by the transaction
    have entry := get_iff.1 written
    have here : (c.image file).file[q]? = some page := by
      refine k.image_written core draft (x := (q, page)) ?_
      rw [k.out_eq]
      simp [entry]
    have there : (w.seen file)[q]? = some page := getElem?_writeAll_mem dirtyOnce entry
    rw [links, links, here, there]
  | none =>
    have notDirty : q ∉ w.dirty.entries.map fst := by
      intro hq
      obtain ⟨entry, listed, same⟩ := mem_map.1 hq
      have found : w.dirty.get q = some entry.2 := get_iff.2 (by rwa [← same])
      rw [written] at found
      cases found
    have notOut : q ∉ c.out.map fst := fun hq => by
      rcases k.mem_keys.1 hq with ⟨page, found⟩ | new
      · rw [written] at found
        cases found
      · exact notNew new
    by_cases inside : q < file.length
    · have there : (w.seen file)[q]? = file[q]? := by
        rw [WriteTxn.seen, getElem?_writeAll_other ?_ notDirty, getElem?_growTo inside]
        rw [length_growTo]
        omega
      rw [links, links, image_other inside notOut, there]
    · -- allocated past the end of the file and not written
      have owned : q ∈ h.owned := by
        refine mine.resolve_right fun old => ?_
        have := core.live q (.inr old.1)
        have := core.counted
        have := core.within
        omega
      have low := draft.account.lt_next (draft.single core [] fun p => Nat.zero_le _)
        (mem_append.2 (.inl owned)) (by omega)
      have low' := k.account.lt_next (draft.single core _ k.old_le) (mem_append.2 (.inr owned)) (by omega)
      have here : (c.image file).file[q]? = some .zeroed := by
        rw [Change.image, getElem?_writeAll_other ?_ notOut,
          getElem?_growTo_new (by omega) (by rw [k.count_eq]; exact low')]
        · rfl
        · rw [length_growTo, k.count_eq]
          omega
      have there : (w.seen file)[q]? = some .zeroed := by
        rw [WriteTxn.seen, getElem?_writeAll_other ?_ notDirty, getElem?_growTo_new (by omega) low]
        · rfl
        · rw [length_growTo]
          omega
      rw [links, links, here, there]

/-- Where the chains of the new state are, and what the commit writes. -/
def survey (k : Workings file σ v w h readers c) : Survey κ α := ⟨k.now, c.image file, k.supply.nextPgno⟩

variable (kids) in
omit core draft in
/-- How the uses of a page change: by what the trees gain and what the callers hold or gave up. -/
lemma balance (p : Nat) : tally kids c.state k.survey p + flag (v.image.InTree kids p) + h.owned.count p =
      tally kids σ v p + flag ((c.image file).InTree kids p) + h.unlinked.count p
        + if file.length ≤ p ∧ p < k.supply.nextPgno then 1 else 0 := by
  have supply := k.account.balance p
  have chains : k.now.chains.count p + k.old.chains.count p = v.layout.chains.count p + k.new.chains.count p := by
    have := k.placeRoots.count p
    have := k.placeSnaps.count p
    have := k.placeCat.count p
    simp only [Layout.chains, Layout.others, count_append, k.free_old, k.free_new]
    omega
  simp only [tally, survey, k.freelist_eq, count_append] at supply ⊢
  rw [Freelist.pgnos] at supply ⊢
  rw [Freelist.pgnos]
  omega

lemma once_new (fits : ∀ p, Tree kids (w.seen file) w.roots.values p →
      p ∈ h.owned ∨ (v.image.InTree kids p ∧ p ∉ h.unlinked)) (p : Nat) :
    tally kids c.state k.survey p ≤ if p < k.supply.nextPgno then 1 else 0 := by
  have balance := k.balance kids p
  have single := core.single p
  have within := core.within
  have above := k.account.above
  have given : h.unlinked.count p ≤ flag (v.image.InTree kids p) := by
    by_cases linked : p ∈ h.unlinked
    · rw [flag_pos (draft.unlinked p linked)]
      exact nodup_iff_count_le_one.1 draft.once p
    · rw [count_eq_zero.2 linked]
      exact Nat.zero_le _
  -- what the trees gain is the callers' or was in the trees before
  have gained : flag ((c.image file).InTree kids p) + h.unlinked.count p
      ≤ flag (v.image.InTree kids p) + h.owned.count p := by
    by_cases tree : (c.image file).InTree kids p
    · rw [flag_pos tree]
      rcases fits p ((k.tree_iff core draft fits).1 tree) with owned | ⟨old, kept⟩
      · have := count_pos_iff.2 owned
        omega
      · rw [flag_pos old, count_eq_zero.2 kept]
        omega
    · rw [flag_neg tree]
      omega
  by_cases low : p < v.bound
  · rw [if_pos low] at single
    rw [if_neg (by omega)] at balance
    rw [if_pos (by omega)]
    omega
  · rw [if_neg low] at single
    split at balance
    · rw [if_pos (by omega)]
      omega
    · split <;> omega

/-- A page of the old chains is as it was. -/
lemma image_chain (hp : p ∈ v.layout.chains) : (c.image file).file[p]? = file[p]? := by
  refine image_other ?_ fun out => (core.of_fresh (k.target core draft out).1).2.1 hp
  have := core.live p (.inl hp)
  have := core.counted
  have := core.within
  omega

omit draft in
lemma new_real (hp : p ∈ k.new.chains) : p ≠ 0 := by
  intro zero
  have := (core.of_fresh (k.fresh_new core hp)).1
  subst zero
  cases this

lemma free_chain :
    (∀ x ∈ buildPages freeFormat c.state.freelist.runs k.now.freelist, (c.image file).file[x.1]? = some x.2) ∧
      Chain (fetch freeFormat (c.image file).file) c.state.info.freelist k.now.freelist c.state.freelist.runs := by
  have written : ∀ x ∈ buildPages freeFormat c.state.freelist.runs k.now.freelist,
      (c.image file).file[x.1]? = some x.2 := by
    intro x hx
    refine k.image_written core draft ?_
    rw [k.out_eq]
    rw [k.freelist_eq] at hx
    exact mem_append.2 (.inr hx)
  refine ⟨written, ?_⟩
  rw [k.info_eq]
  refine chain_of_written ?_ (fun p hp => ?_) written
  · rw [k.freelist_eq]
    exact k.fits
  · exact k.new_real core (by simp [Layout.chains, Layout.others, k.free_new, hp])

/-- With the pages of a commit written, the file holds the new state. -/
lemma core_new (fits : ∀ p, Tree kids (w.seen file) w.roots.values p →
      p ∈ h.owned ∨ (v.image.InTree kids p ∧ p ∉ h.unlinked)) :
    Core kids (update past c.state.info.txnId (some (c.image file))) (c.image file).file c.state k.survey where
  roots := by
    rw [k.info_eq, k.roots_eq]
    refine k.placeRoots.chain _ (fun p hp => k.new_real core (by simp [Layout.chains, hp]))
      (fun x hx => k.image_written core draft ?_) fun p hp => k.image_chain core draft (by simp [Layout.chains, hp])
    rw [k.out_eq]
    simp [hx]
  snapshots := by
    rw [k.info_eq, k.snapshots_eq]
    refine k.placeSnaps.chain _ (fun p hp => k.new_real core (by simp [Layout.chains, Layout.others, hp]))
      (fun x hx => k.image_written core draft ?_)
      fun p hp => k.image_chain core draft (by simp [Layout.chains, Layout.others, hp])
    rw [k.out_eq]
    simp [hx]
  catalog := by
    rw [k.info_eq, k.catalog_eq]
    refine k.placeCat.chain _ (fun p hp => k.new_real core (by simp [Layout.chains, Layout.others, hp]))
      (fun x hx => k.image_written core draft ?_)
      fun p hp => k.image_chain core draft (by simp [Layout.chains, Layout.others, hp])
    rw [k.out_eq]
    simp [hx]
  head := by rw [k.info_eq]; rfl
  image := update_self ..
  same := ⟨rfl, rfl⟩
  agree _ _ := rfl
  single := k.once_new core draft fits
  live p hp := by
    have single := k.once_new core draft fits p
    rw [k.count_eq]
    by_contra out
    rw [if_neg out, tally] at single
    rcases hp with chain | tree
    · have := count_pos_iff.2 chain
      omega
    · rw [flag_pos tree] at single
      omega
  counted := le_of_eq k.count_eq
  within := le_of_eq (k.length_image core draft).symm
  stamps x hx := by
    rw [k.freelist_eq] at hx
    rw [k.info_eq]
    simp only
    rcases k.account.listing x hx with old | own
    · have := core.stamps x old
      rw [draft.txnId]
      omega
    · exact le_of_eq own
  compacted := by
    rw [k.freelist_eq]
    exact k.compacted

end Workings

variable (kids past σ v) in
/-- What is known of a commit that was worked out: `v` is the survey of the state it began on, `v'`
that of the state it makes, and `reach` bounds the age of the free pages it took. -/
structure Prepared (reach : Nat) (c : Change κ α) (v' : Survey κ α) : Prop where
  txnId : c.state.info.txnId = σ.info.txnId + 1
  core : Core kids past v'.image.file c.state v'
  free : Chain (fetch freeFormat v'.image.file) c.state.info.freelist v'.layout.freelist c.state.freelist.runs
  tidy : ∀ x ∈ buildPages freeFormat c.state.freelist.runs v'.layout.freelist, v'.image.file[x.1]? = some x.2
  bound : v'.bound = c.state.info.pageCount
  length : v'.image.file.length = c.state.info.pageCount
  larger : v.bound ≤ c.state.info.pageCount
  targets : ∀ p ∈ c.out.map fst, Fresh σ reach v.bound p ∧ p < c.state.info.pageCount
  listing : ∀ x ∈ c.state.freelist.listed, x ∈ σ.freelist.listed ∨ x.2 = σ.info.txnId + 1
  others : ∀ p ∈ v'.layout.others, p ∈ v.layout.others ∨ Fresh σ reach v.bound p
  inside : ∀ r ∈ c.state.freelist.runs, r.stop ≤ c.state.info.pageCount
  snaps : ∀ snap ∈ c.state.snapshots.snaps, snap ∈ σ.snapshots.snaps ∨
    (snap.txnId = σ.info.txnId ∧ present snap.rootRecords = σ.info.rootRecords)
  kept : ∀ snap ∈ c.state.snapshots.snaps, c.horizon ≤ snap.txnId
  reach_le : reach ≤ σ.info.txnId
  behind : ∀ snap ∈ σ.snapshots.snaps, c.horizon ≤ snap.txnId → reach ≤ snap.txnId

lemma inside_of_core (core : Core kids past file σ v) : ∀ r ∈ σ.freelist.runs, r.stop ≤ v.bound := by
  intro r hr
  have := r.first_lt_stop
  have last : (r.stop - 1, r.freedAt) ∈ σ.freelist.listed := mem_listed.2 ⟨r, hr, by omega, by omega, rfl⟩
  have low := (core.of_free (mem_map.2 ⟨_, last, rfl⟩)).2.2.2
  omega

/-- A commit that could be worked out is prepared. -/
lemma prepared (core : Core kids past file σ v) (draft : Draft kids file σ v w h)
    (chain : Chain (fetch freeFormat file) σ.info.freelist v.layout.freelist σ.freelist.runs)
    (fits : ∀ p, Tree kids (w.seen file) w.roots.values p → p ∈ h.owned ∨ (v.image.InTree kids p ∧ p ∉ h.unlinked))
    (done : w.commit file σ readers capacity = .ok c) (room : c.state.info.pageCount ≤ 2 ^ 32) :
    ∃ v', v'.image = c.image file ∧
      Prepared kids (update past c.state.info.txnId (some (c.image file))) σ v (max w.horizon c.horizon) c v' := by
  obtain ⟨k⟩ := commit_workings core draft chain done room
  have core' := k.core_new core draft fits
  have horizon : c.horizon ≤ σ.info.txnId := k.horizon_eq ▸ reclaimHorizon_le
  have above := k.account.above
  have within := core.within
  have count := k.count_eq
  refine ⟨k.survey, rfl, ?_⟩
  constructor
  · rw [k.info_eq]
    exact draft.txnId
  · exact core'
  · exact (k.free_chain core draft).2
  · exact (k.free_chain core draft).1
  · exact count.symm
  · exact (k.length_image core draft).trans count.symm
  · omega
  · intro p hp
    rw [count]
    exact k.target core draft hp
  · intro x hx
    rw [k.freelist_eq] at hx
    exact (k.account.listing x hx).imp_right fun own => own.trans draft.txnId
  · intro p hp
    have placed : p ∈ k.new.chains ∨ p ∈ v.layout.others := by
      simp only [Workings.survey, Layout.others, Layout.chains, mem_append, k.free_new] at hp ⊢
      rcases hp with (free | snap) | cat
      · exact .inl (.inr (.inl (.inl free)))
      · rcases k.placeSnaps.mem p snap with new | old
        · exact .inl (.inr (.inl (.inr new)))
        · exact .inr (.inl (.inr old))
      · rcases k.placeCat.mem p cat with new | old
        · exact .inl (.inr (.inr new))
        · exact .inr (.inr old)
    exact placed.symm.imp_right (k.fresh_new core)
  · rw [count]
    exact inside_of_core core'
  · rw [k.snapshots_eq]
    exact draft.snaps
  · rw [k.snapshots_eq, k.horizon_eq]
    exact fun snap hs => reclaimHorizon_le_snap hs
  · exact max_le draft.horizon horizon
  · exact fun snap hs le => max_le (draft.behind snap hs) le

section Publishing
variable {reach : Nat} {v' : Survey κ α}

/-- What was safe before a commit is safe after it, if it is not older than the free pages taken. -/
lemma Guard.commit {t : Nat} {img : Image κ α} (core : Core kids past file σ v)
    (ready : Prepared kids past σ v reach c v') (guard : Guard kids past file σ v t img) (le : reach ≤ t) :
    Guard kids past file c.state v' t img where
  image := guard.image
  le := by
    have := guard.le
    have := ready.txnId
    omega
  chain := guard.chain
  safe p held := by
    obtain ⟨low, high, other, agree, free⟩ := guard.safe p held
    have larger := ready.larger
    have counted := core.counted
    refine ⟨low, by omega, fun mine => ?_, agree, fun t' listed => ?_⟩
    · exact (ready.others p mine).elim other fun fresh => guard.of_fresh core le fresh held
    · rcases ready.listing _ listed with old | own
      · exact free t' old
      have := guard.le
      omega

/-- The snapshots of the new state can be read. -/
lemma Prepared.readable (core : Core kids past file σ v) (ready : Prepared kids past σ v reach c v')
    (old : ∀ snap ∈ σ.snapshots.snaps, reach ≤ snap.txnId → Readable kids past file σ v snap) :
    ∀ snap ∈ c.state.snapshots.snaps, Readable kids past file c.state v' snap := by
  intro snap hs
  rcases ready.snaps snap hs with before | ⟨txnId, head⟩
  · have le := ready.behind snap before (ready.kept snap hs)
    obtain ⟨older, img, guard, head⟩ := old snap before le
    refine ⟨?_, img, guard.commit core ready le, head⟩
    have := ready.txnId
    omega
  · refine ⟨?_, v.image, ?_, core.same.2.trans head.symm⟩
    · have := ready.txnId
      omega
    · rw [txnId]
      exact core.guard.commit core ready ready.reach_le

end Publishing

end Commit

end BigDb.Pager
