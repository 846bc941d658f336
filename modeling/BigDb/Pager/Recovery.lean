import BigDb.Pager.Good

/-!
# Crashes during a commit

What opening the file finds after a crash: one of the two states a commit goes between, with every page
that can be read from it as its transaction wrote it. The one thing that endangers it is a transaction
that drops the oldest snapshot. Its commit takes free pages at the horizon without that snapshot, and so
writes over pages that the snapshot has, while the meta page that still names it is the one on the disk.
A commit that fails from the meta page on does so too: the next one takes the same pages.
-/

namespace BigDb.Pager
open Lib List
variable {κ α : Type} [LinearOrder κ] (kids : α → List Nat)

/-- A chain is as a transaction wrote it. -/
def ChainIntact {β : Type} (format : Format κ β) (file : List (Page κ α)) (head : Option Nat) (img : Image κ α) :
    Prop :=
  ∃ pgnos, chainPgnos format file head = .ok pgnos ∧ ∀ p ∈ pgnos, file[p]? = img.file[p]?

/-- The root records at a page and the trees under them are as a transaction wrote them. -/
structure RootsIntact (file : List (Page κ α)) (head : Option Nat) (img : Image κ α) : Prop where
  roots : loadEntries rootFormat file head = .ok img.state.roots.entries
  chain : ChainIntact rootFormat file head img
  trees : ∀ p, Tree kids file img.state.roots.values p → file[p]? = img.file[p]?

/-- Everything that can be read from a state is as it was written: its chains and trees by its own
transaction, those of its snapshots by theirs. -/
structure Intact (past : Nat → Option (Image κ α)) (file : List (Page κ α)) (σ : StoreState κ) : Prop where
  now : ∃ img, past σ.info.txnId = some img ∧ RootsIntact kids file σ.info.rootRecords img ∧
    ChainIntact freeFormat file σ.info.freelist img ∧ ChainIntact snapshotFormat file σ.info.snapshots img ∧
    ChainIntact catalogFormat file σ.info.catalog img
  snaps : ∀ snap ∈ σ.snapshots.snaps, ∃ img, past snap.txnId = some img ∧
    RootsIntact kids file (present snap.rootRecords) img

/-- The same roots, snapshots and catalog, under the same meta page. -/
def StoreState.Agrees (σ τ : StoreState κ) : Prop :=
  τ.info = σ.info ∧ τ.roots = σ.roots ∧ τ.snapshots.snaps = σ.snapshots.snaps ∧ τ.catalog = σ.catalog

variable {kids} {past : Nat → Option (Image κ α)} {file : List (Page κ α)} {d : Disk (Page κ α)} {σ : StoreState κ}
  {v : Survey κ α} {tidy : Bool}

lemma Guard.rootsIntact {t : Nat} {img : Image κ α} (guard : Guard kids past file σ v t img) :
    RootsIntact kids file img.state.info.rootRecords img where
  roots := guard.roots
  chain := by
    obtain ⟨pages, chain⟩ := guard.chain
    have same : ∀ p ∈ pages, file[p]? = img.file[p]? := fun p hp =>
      (guard.safe p (.inl ⟨pages, _, chain, hp⟩)).2.2.2.1
    exact ⟨pages, chainPgnos_of_chain (chain_congr chain same), same⟩
  trees p tree := (guard.safe p (.inr (guard.tree.1 tree))).2.2.2.1

lemma Standing.intact (st : Standing kids past d σ v 0 tidy) : Intact kids past d.view σ where
  now := by
    have roots := st.core.guard.rootsIntact
    rw [st.core.same.2] at roots
    refine ⟨v.image, st.core.image, roots, ⟨_, chainPgnos_of_chain st.chain, st.same⟩,
      ⟨_, chainPgnos_of_chain st.core.snapshots, fun p hp => ?_⟩,
      ⟨_, chainPgnos_of_chain st.core.catalog, fun p hp => ?_⟩⟩
    · exact st.core.agree p (.inr (.inl hp))
    · exact st.core.agree p (.inr (.inr (.inl hp)))
  snaps snap hs := by
    obtain ⟨-, img, guard, head⟩ := st.snaps snap hs (Nat.zero_le _)
    exact ⟨img, guard.image, head ▸ guard.rootsIntact⟩

/-- What stands is found, and it is intact. -/
lemma Standing.recovered (st : Standing kids past (.of file) σ v 0 tidy) :
    ∃ τ, load file = .ok τ ∧ σ.Agrees τ ∧ Intact kids past file τ :=
  ⟨σ.reloaded, st.load_eq, ⟨rfl, rfl, rfl, rfl⟩, st.reloaded.intact⟩

namespace System
variable {s : System κ α}

/-- Whatever was done carefully before, a crash at any point of a commit leaves the state before it or
the new one, unless the transaction drops the oldest of the snapshots. -/
theorem commit_is_atomic {capacity : Option Nat} {w : WriteTxn κ α} {h : Handled} {c : Change κ α}
    {stage : CommitStage κ α} (run : Run step (Careful kids) (start capacity : System κ α) s)
    (committing : s.writer = .committing w h c stage) (keeps : KeepsOldest s.state c.state)
    (fates : List (Fate (Page κ α))) :
    ∃ τ, load (s.disk.crash spoil fates) = .ok τ ∧ (s.state.Agrees τ ∨ c.state.Agrees τ) ∧
      Intact kids s.past (s.disk.crash spoil fates) τ := by
  obtain ⟨v, v', good⟩ := Good.run run
  have bears : s.Bears (.crash fates) := by
    simp only [Bears, committing]
    exact .inr keeps
  rcases good.survives fates bears (by rw [committing]; rfl) with old | ⟨w', h', c', stage', writer, new⟩
  · obtain ⟨τ, found, same, intact⟩ := old.recovered
    exact ⟨τ, found, .inl same, intact⟩
  · cases committing.symm.trans writer
    obtain ⟨τ, found, same, intact⟩ := new.recovered
    exact ⟨τ, found, .inr same, intact⟩

theorem commit_is_atomic_replaced : ∃ w h c stage, (after none replaced).writer = .committing w h c stage ∧
    ∀ fates, ∃ τ, load ((after none replaced).disk.crash spoil fates) = .ok τ ∧
      ((after none replaced).state.Agrees τ ∨ c.state.Agrees τ) ∧
      Intact id (after none replaced).past ((after none replaced).disk.crash spoil fates) τ := by
  have run : Run step (Careful id) (start none) (after none replaced) :=
    Run.play (carefulTest id) _ (by decide +kernel) fun _ _ => careful_of_test
  have keeps : (after none replaced).bearsTest (.crash []) = true := by decide +kernel
  obtain ⟨w, h, c, stage, committing⟩ := exists_of_isCommitting (s := after none replaced) (by decide +kernel)
  rw [bearsTest, committing] at keeps
  exact ⟨w, h, c, stage, committing, commit_is_atomic run committing (of_decide_eq_true keeps)⟩

/-- Then a transaction that drops the snapshot, up to the point where its commit has written its pages. -/
def dropped : List (Action Nat (List Nat)) :=
  flatten [replaced, replicate 8 .advance, [.beginWrite, .dropSnapshot 1, .commit, .advance, .advance]]

/-- The free list is written to the page of the tree that the snapshot has. -/
theorem dropped_snapshot_overwritten : Run step (Careful id) (start none) (after none dropped) ∧
    (∃ w h c stage, (after none dropped).writer = .committing w h c stage) ∧
    ∃ τ, load ((after none dropped).disk.crash spoil [.kept]) = .ok τ ∧
      ¬Intact id (after none dropped).past ((after none dropped).disk.crash spoil [.kept]) τ := by
  refine ⟨Run.play (carefulTest id) _ (by decide +kernel) fun _ _ => careful_of_test,
    exists_of_isCommitting (by decide +kernel), ?_⟩
  have snaps : (load ((after none dropped).disk.crash spoil [.kept])).toOption.map (fun τ =>
      τ.snapshots.snaps.map fun snap => snap.txnId) = some [1] := by decide +kernel
  have wrote : ((after none dropped).past 1).map (fun img => (img.state.roots.values, img.file[2]?))
      = some ([2], some (.data [])) := by decide +kernel
  have reads : ((after none dropped).disk.crash spoil [.kept])[2]? ≠ some (.data []) := by decide +kernel
  generalize after none dropped = s at *
  cases found : load (s.disk.crash spoil [.kept]) with
  | error e =>
    rw [found] at snaps
    cases snaps
  | ok τ =>
    refine ⟨τ, rfl, fun intact => ?_⟩
    rw [found] at snaps
    have only : τ.snapshots.snaps.map Snapshot.txnId = [1] := Option.some.inj snaps
    obtain ⟨snap, hs, first⟩ : ∃ snap ∈ τ.snapshots.snaps, snap.txnId = 1 :=
      mem_map.1 (by rw [only]; exact mem_cons_self)
    obtain ⟨img, written, roots⟩ := intact.snaps snap hs
    rw [first] at written
    rw [written] at wrote
    obtain ⟨values, content⟩ := Prod.mk.inj (Option.some.inj wrote)
    have same := roots.trees 2 (.start (by rw [values]; exact mem_cons_self))
    exact reads (same.trans content)

/-! ## Commits that fail -/

/-- Whatever was done carefully before, with commits that failed before they came to the meta page, a
crash at any point leaves the last state that was committed or the one that was being committed. -/
theorem failed_commits_are_harmless {capacity : Option Nat} (run : Run step (Careful kids) (start capacity : System κ α) s)
    (fates : List (Fate (Page κ α))) (bears : s.Bears (.crash fates)) (whole : s.writer.isTruncating = false) :
    ∃ τ, load (s.disk.crash spoil fates) = .ok τ ∧
      (s.state.Agrees τ ∨ ∃ w h c stage, s.writer = .committing w h c stage ∧ c.state.Agrees τ) ∧
      s.state.info.txnId ≤ τ.info.txnId ∧ Intact kids s.past (s.disk.crash spoil fates) τ := by
  obtain ⟨v, v', good⟩ := Good.run run
  rcases good.survives fates bears whole with old | ⟨w, h, c, stage, committing, new⟩
  · obtain ⟨τ, found, same, intact⟩ := old.recovered
    exact ⟨τ, found, .inl same, by rw [same.1], intact⟩
  · obtain ⟨τ, found, same, intact⟩ := new.recovered
    obtain ⟨ready, -⟩ := good.of_committing committing
    refine ⟨τ, found, .inr ⟨w, h, c, stage, committing, same⟩, ?_, intact⟩
    rw [same.1, ready.txnId]
    exact Nat.le_succ _

/-- The commit of `replaced` fails while it writes its first page, and is tried again. -/
def retried : List (Action Nat (List Nat)) :=
  replaced ++ [.advance, .fail (.torn .damaged), .beginWrite, .alloc, .write 8 [], .free 2, .setRoot 0 8, .commit, .advance]

theorem failed_commits_are_harmless_retried : (after none retried).isCommitting = true ∧
    ∀ fates, ∃ τ, load ((after none retried).disk.crash spoil fates) = .ok τ ∧ ((after none retried).state.Agrees τ ∨
        ∃ w h c stage, (after none retried).writer = .committing w h c stage ∧ c.state.Agrees τ) ∧
      (after none retried).state.info.txnId ≤ τ.info.txnId ∧
      Intact id (after none retried).past ((after none retried).disk.crash spoil fates) τ := by
  have run : Run step (Careful id) (start none) (after none retried) :=
    Run.play (carefulTest id) _ (by decide +kernel) fun _ _ => careful_of_test
  have keeps : (after none retried).bearsTest (.crash []) = true := by decide +kernel
  have started : (after none retried).isCommitting = true := by decide +kernel
  obtain ⟨w, h, c, stage, committing⟩ := exists_of_isCommitting started
  refine ⟨started, fun fates => failed_commits_are_harmless run fates ?_ (by rw [committing]; rfl)⟩
  rw [bearsTest, committing] at keeps
  rw [Bears, committing]
  exact .inr (of_decide_eq_true keeps)

/-- A tree of one page that is replaced, twice. The sync that should make the second commit's meta page
durable fails; the transaction is tried again, and its first page is written. -/
def unconfirmed : List (Action Nat (List Nat)) :=
  flatten [[.beginWrite, .alloc, .write 2 [], .setRoot 0 2, .commit], replicate 7 .advance,
    [.beginWrite, .alloc, .write 4 [], .free 2, .setRoot 0 4, .commit], replicate 8 .advance,
    [.beginWrite, .alloc, .write 2 [], .free 4, .setRoot 0 2, .commit], replicate 6 .advance,
    [.fail .lost, .beginWrite, .alloc, .write 2 [], .free 4, .setRoot 0 2, .commit, .advance, .advance]]

/-- The meta page of the commit that failed is on the disk, and the page it has for a root is torn. -/
theorem unconfirmed_root_torn : Run step (Obliging id) (start none) (after none unconfirmed) ∧
    ∃ τ, load ((after none unconfirmed).disk.crash spoil [.kept, .lost, .torn .damaged]) = .ok τ ∧
      ∃ p, Tree id ((after none unconfirmed).disk.crash spoil [.kept, .lost, .torn .damaged]) τ.roots.values p ∧
        ((after none unconfirmed).disk.crash spoil [.kept, .lost, .torn .damaged])[p]? = some .damaged := by
  refine ⟨Run.play (obligingTest id) _ (by decide +kernel) fun _ _ => obliging_of_test, ?_⟩
  have roots : (load ((after none unconfirmed).disk.crash spoil [.kept, .lost, .torn .damaged])).toOption.map (fun τ =>
      τ.roots.values) = some [2] := by decide +kernel
  have reads : ((after none unconfirmed).disk.crash spoil [.kept, .lost, .torn .damaged])[2]? = some .damaged := by
    decide +kernel
  generalize (after none unconfirmed).disk.crash spoil [.kept, .lost, .torn .damaged] = file at *
  cases found : load file with
  | error e =>
    rw [found] at roots
    cases roots
  | ok τ =>
    rw [found] at roots
    have values : τ.roots.values = [2] := Option.some.inj roots
    exact ⟨τ, rfl, 2, .start (by rw [values]; exact mem_cons_self), reads⟩

end System

end BigDb.Pager
