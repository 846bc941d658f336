import BigDb.Pager.Readers
import BigDb.Pager.Truncation

/-!
# Every page has one place

As long as nothing fails and the callers of a transaction free exactly the pages they take out of the
trees, no page is lost: each is a meta page, or in a chain, or in a tree, or in the free list. One that
is in the free list may still be read by somebody who reads a snapshot or an older transaction; it is
then listed as freed after the horizon, so that it is not given out.
-/

namespace BigDb.Pager
open Lib List
variable {κ α : Type} [LinearOrder κ] (kids : α → List Nat)

def Accounted (file : List (Page κ α)) (σ : StoreState κ) : Prop :=
  ∀ p < σ.info.pageCount, p < metaPages ∨ σ.info.OnChains file p ∨ Tree kids file σ.roots.values p ∨
    p ∈ σ.freelist.pgnos

variable {kids} {past : Nat → Option (Image κ α)} {file : List (Page κ α)} {σ : StoreState κ} {v v' : Survey κ α}
  {w : WriteTxn κ α} {h : Handled} {c : Change κ α} {readers : Readers} {capacity : Option Nat} {p : Nat}
  {runs : List FreeRun}

lemma flag_pos_iff {P : Prop} : 0 < flag P ↔ P := by
  by_cases h : P
  · rw [flag_pos h]
    exact iff_of_true Nat.one_pos h
  · rw [flag_neg h]
    exact iff_of_false (Nat.lt_irrefl 0) h

lemma tally_pos_iff : 0 < tally kids σ v p ↔
    p < metaPages ∨ p ∈ v.layout.chains ∨ v.image.InTree kids p ∨ p ∈ σ.freelist.pgnos := by
  simp only [tally, Nat.add_pos_iff_pos_or_pos, flag_pos_iff, count_pos_iff, or_assoc]

lemma Core.accounted_iff (core : Core kids past file σ v)
    (free : Chain (fetch freeFormat file) σ.info.freelist v.layout.freelist runs) :
    Accounted kids file σ ↔ ∀ p < σ.info.pageCount, 0 < tally kids σ v p := by
  refine forall_congr' fun p => imp_congr_right fun _ => ?_
  rw [core.onChains free, core.tree, tally_pos_iff]

/-! ## Commits and truncations -/

variable (kids file σ w h) in
/-- The trees after a transaction have exactly the pages its callers hold, and those of before that they
did not free. -/
def Thorough : Prop :=
  (∀ p ∈ h.owned, Tree kids (w.seen file) w.roots.values p) ∧
    ∀ p, Tree kids file σ.roots.values p → p ∉ h.unlinked → Tree kids (w.seen file) w.roots.values p

/-- A commit of a transaction whose callers were thorough loses no page. -/
lemma Accounted.commit (core : Core kids past file σ v) (draft : Draft kids file σ v w h)
    (chain : Chain (fetch freeFormat file) σ.info.freelist v.layout.freelist σ.freelist.runs)
    (fits : ∀ p, Tree kids (w.seen file) w.roots.values p → p ∈ h.owned ∨ (v.image.InTree kids p ∧ p ∉ h.unlinked))
    (done : w.commit file σ readers capacity = .ok c) (room : c.state.info.pageCount ≤ 2 ^ 32)
    (thorough : Thorough kids file σ w h) (length : file.length = σ.info.pageCount)
    (before : Accounted kids file σ) : Accounted kids (c.image file).file c.state := by
  obtain ⟨k⟩ := commit_workings core draft chain done room
  have core' := k.core_new core draft fits
  rw [core.accounted_iff chain] at before
  rw [core'.accounted_iff (k.free_chain core draft).2]
  intro p inside
  have balance := k.balance kids p
  have tree := k.tree_iff core draft fits (p := p)
  rw [k.count_eq] at inside
  -- what the callers hold is what the trees have gained, and what they freed is what the trees have lost
  have traded : h.owned.count p + flag (v.image.InTree kids p) ≤
      flag ((c.image file).InTree kids p) + h.unlinked.count p := by
    by_cases owned : p ∈ h.owned
    · have once := draft.unique core p
      have old : ¬v.image.InTree kids p := fun tree => draft.not_owned_of_tree core tree owned
      rw [flag_neg old, flag_pos (tree.2 (thorough.1 p owned))]
      omega
    rw [count_eq_zero.2 owned]
    by_cases old : v.image.InTree kids p
    · rw [flag_pos old]
      by_cases freed : p ∈ h.unlinked
      · have := count_pos_iff.2 freed
        omega
      · rw [flag_pos (tree.2 (thorough.2 p (core.tree.2 old) freed))]
        omega
    · rw [flag_neg old]
      exact Nat.zero_le _
  by_cases low : p < σ.info.pageCount
  · have := before p low
    omega
  · rw [if_pos (by omega)] at balance
    omega

lemma Lesser.onChains {τ : StoreState κ} {horizon : Nat} (less : Lesser σ τ horizon) :
    τ.info.OnChains file p ↔ σ.info.OnChains file p := by
  obtain ⟨roots, freelist, snapshots, catalog⟩ := less.heads
  simp only [MetaPage.OnChains, roots, freelist, snapshots, catalog]

section Truncation
variable {d : Disk (Page κ α)} {stage : TruncateStage κ α}

/-- At every stage of a truncation the pages in use are the same. -/
lemma Narrowing.accounted_iff (h : Narrowing kids past d σ v c v' stage) (cut : Cut kids past σ v c v') :
    Accounted kids d.view c.state ↔ ∀ p < c.state.info.pageCount, p < metaPages ∨ p ∈ v.layout.chains ∨
      v.image.InTree kids p ∨ p ∈ c.state.freelist.pgnos := by
  obtain ⟨runs, chain⟩ := h.chain cut
  have sound := h.sound
  have before : Core kids past d.view σ v → ∀ p, (σ.info.OnChains d.view p ↔ p ∈ v.layout.chains) ∧
      (Tree kids d.view σ.roots.values p ↔ v.image.InTree kids p) := fun core p => ⟨core.onChains chain, core.tree⟩
  have after : Core kids past d.view c.state v' → ∀ p, (σ.info.OnChains d.view p ↔ p ∈ v.layout.chains) ∧
      (Tree kids d.view σ.roots.values p ↔ v.image.InTree kids p) := by
    intro core p
    have chain' : Chain (fetch freeFormat d.view) c.state.info.freelist v'.layout.freelist runs := by
      rw [cut.less.heads.2.1, cut.relay.layout]
      exact chain
    have onChains := core.onChains chain' (p := p)
    have tree := core.tree (p := p)
    rw [cut.less.onChains, cut.relay.layout] at onChains
    rw [cut.less.roots, cut.relay.inTree] at tree
    exact ⟨onChains, tree⟩
  have both : ∀ p, (σ.info.OnChains d.view p ↔ p ∈ v.layout.chains) ∧
      (Tree kids d.view σ.roots.values p ↔ v.image.InTree kids p) := by
    cases stage with
    | pages | confirm => exact before sound.core
    | cut | publish => exact after sound.core
  refine forall_congr' fun p => imp_congr_right fun _ => ?_
  rw [cut.less.onChains, cut.less.roots, (both p).1, (both p).2]

end Truncation

namespace System
variable {s : System κ α} {a : Action κ α}

variable (s a) in
/-- What has been begun is finished first. -/
def InTurn : Prop :=
  (s.openings ≠ [] → a = .loadRoots 0 ∨ a = .registerRead 0) ∧
    ((s.isCommitting = true ∨ s.writer.isTruncating = true) → a = .advance)

variable (kids) in
/-- Nothing is lost. -/
def Exact (s : System κ α) : Prop :=
  match s.writer with
  | .committing _ _ c _ => ∃ img, s.past c.state.info.txnId = some img ∧ Accounted kids img.file c.state
  | .truncating c stage => Accounted kids s.file c.state ∧ (stage = .publish → s.file.length = c.state.info.pageCount)
  | _ => s.file.length = s.state.info.pageCount ∧ Accounted kids s.file s.state

section
variable (good : s.Good kids v v')
include good

section
variable (exact : s.Exact kids)
include exact

lemma Exact.commit (heeds : s.Heeds kids .commit) (fits : (s.act .commit).Fits)
    (thorough : ∀ w h, s.writer = .writing w h → Thorough kids s.file s.state w h) : (s.act .commit).Exact kids := by
  rw [act] at fits ⊢
  split at fits <;> rename_i writing
  · obtain ⟨st, draft⟩ := good.of_writing writing
    rw [Exact, writing] at exact
    obtain ⟨length, before⟩ := exact
    split at fits <;> rename_i c done
    · refine ⟨_, Function.update_self .., ?_⟩
      exact before.commit st.core draft st.chain (fun p tree => Good.theirs st.core (heeds _ _ writing p tree)) done
        fits.2 (thorough _ _ writing) length
    · exact ⟨length, before⟩
  · exact exact

lemma Exact.truncateTail (tidy : s.tidy = true) : (s.act .truncateTail).Exact kids := by
  rw [act]
  split <;> rename_i idle _
  · have st := good.of_idle idle
    rw [Exact, idle] at exact
    rw [tidy] at st
    obtain ⟨length, before⟩ := exact
    split <;> rename_i done
    · obtain ⟨v₁, image, cut⟩ := st.cut done
      have same := past_before s.past (some v₁.image) cut.txnId
      have narrowing : Narrowing kids _ s.disk s.state v _ v₁ (.pages _) :=
        (st.of_past same).trimming (by rw [image])
      refine ⟨(narrowing.accounted_iff cut).2 fun p inside => ?_, fun published => by cases published⟩
      have tallied := (st.core.accounted_iff st.chain).1 before p (inside.trans_le cut.less.pageCount)
      refine (tally_pos_iff.1 tallied).imp_right (Or.imp_right (Or.imp_right fun free => ?_))
      obtain ⟨x, listed, rfl⟩ := mem_map.1 free
      exact mem_map_of_mem (cut.kept x listed inside)
    · rw [Exact, idle]
      exact ⟨length, before⟩
  · exact exact

lemma Exact.advance : s.advance.Exact kids := by
  cases writer : s.writer with
  | committing w h c stage =>
    obtain ⟨ready, progress⟩ := good.of_committing writer
    rw [Exact, writer] at exact
    cases next : stage.next c s.disk with
    | some pair =>
      rw [advance_committing writer next]
      exact exact
    | none =>
      cases stage with
      | publish =>
        obtain ⟨img, found, accounted⟩ := exact
        cases found.symm.trans ready.core.image
        have st := progress.done ready
        rw [ready.core.accounted_iff ready.free] at accounted
        have size : s.file.length = c.state.info.pageCount := by
          have two := ready.core.two_le
          have low := slot_lt c.state.info
          rw [ready.bound, metaPages] at two
          rw [file, progress.2, view_of, length_write, ready.length]
          omega
        rw [advance_published writer]
        exact ⟨size, (st.core.accounted_iff st.chain).2 accounted⟩
      | grow | flip | confirm => cases next
      | pages rest => cases rest <;> cases next
  | truncating c stage =>
    obtain ⟨cut, narrowing⟩ := good.of_truncating writer
    rw [Exact, writer] at exact
    cases next : stage.next c s.disk with
    | some pair =>
      obtain ⟨d, stage'⟩ := pair
      rw [advance_truncating writer next]
      refine ⟨((narrowing.next cut next).accounted_iff cut).2 ((narrowing.accounted_iff cut).1 exact.1), ?_⟩
      rintro rfl
      cases stage with
      | cut =>
        cases next
        have within := narrowing.1.core.within
        rw [cut.bound] at within
        rw [file, length_truncate]
        omega
      | pages rest => cases rest <;> cases next
      | confirm | publish => cases next
    | none =>
      cases stage with
      | publish =>
        rw [advance_truncated writer]
        exact ⟨exact.2 rfl, exact.1⟩
      | pages rest => cases rest <;> cases next
      | confirm | cut => cases next
  | idle | writing | closed =>
    rw [System.advance, writer]
    exact exact

lemma Exact.reopen : (s.act .reopen).Exact kids := by
  rw [act]
  split <;> rename_i idle _ _
  · rw [opened, (good.of_idle idle).load_eq]
    rwa [Exact, idle] at exact
  · exact exact

end

end

/-! ## Runs -/

variable (kids) in
variable (s a) in
/-- One thing is done after the other, nothing fails, and transactions are thorough. -/
def Exacting : Prop :=
  s.Obliging kids a ∧ a.Calm ∧ s.InTurn a ∧
    (a = .commit → ∀ w h, s.writer = .writing w h → Thorough kids s.file s.state w h)

lemma InTurn.undisturbed (inTurn : s.InTurn a) : s.Undisturbed a := by
  cases a with
  | commit =>
    intro w h _ o ho
    rcases inTurn.1 (ne_nil_of_mem ho) with other | other <;> cases other
  | findSnapshot id =>
    intro w h c stage committing
    cases inTurn.2 (.inl (by rw [isCommitting, committing]))
  | _ => trivial

lemma Exacting.isolating (ok : s.Exacting kids a) : s.Isolating kids a := ⟨ok.1, ok.2.1, ok.2.2.1.undisturbed⟩

lemma Exact.step (lasts : Lasts kids s) (exact : s.Exact kids) (ok : s.Exacting kids a) : (s.step a).Exact kids := by
  obtain ⟨v, v', good, watched⟩ := lasts
  obtain ⟨⟨heeds, fits⟩, calm, -, thorough⟩ := ok
  rw [good.step_eq] at fits ⊢
  cases a with
  | beginRead => exact exact
  | findSnapshot id | registerRead i | release i =>
    rw [act]
    split <;> exact exact
  | loadRoots i =>
    rw [act]
    split
    · split <;> exact exact
    · exact exact
  | beginWrite =>
    rw [act]
    split
    · next idle => rwa [Exact, idle] at exact
    · exact exact
  | rollback =>
    rw [act]
    split
    · next writing => rwa [Exact, writing] at exact
    · exact exact
  | commit => exact exact.commit good heeds fits (thorough rfl)
  | truncateTail => exact exact.truncateTail good watched.tidy
  | advance => exact exact.advance good
  | fail fate | crash fates => exact calm.elim
  | reopen => exact exact.reopen good
  | _ =>
    rw [System.act, System.onTxn]
    split
    · next writing => rwa [Exact, writing] at exact
    · exact exact

lemma Exact.run (run : Run System.step (Exacting kids) (start capacity : System κ α) s) :
    Lasts kids s ∧ s.Exact kids := by
  have isolating := run.mono fun _ _ _ ok => Exacting.isolating ok
  refine ⟨Lasts.run isolating, ?_⟩
  clear isolating
  induction run with
  | refl => exact ⟨rfl, fun p low => .inl low⟩
  | tail before ok ih => exact ih.step (Lasts.run (before.mono fun _ _ _ ok => Exacting.isolating ok)) ok

/-! ## Classes of pages -/

inductive PageClass where
  | info
  | chain
  | tree
  | retained
  | free

/-- One class for each of four places that exclude each other, and two for the last of them. -/
lemma PageClass.existsUnique {info chain tree free held : Prop} {is : PageClass → Prop}
    (isInfo : is .info ↔ info) (isChain : is .chain ↔ chain) (isTree : is .tree ↔ tree)
    (isRetained : is .retained ↔ held ∧ free) (isFree : is .free ↔ free ∧ ¬held)
    (ofInfo : info → ¬chain ∧ ¬tree ∧ ¬free) (ofTree : tree → ¬chain) (ofFree : free → ¬chain ∧ ¬tree)
    (place : info ∨ chain ∨ tree ∨ free) : ∃! c, is c := by
  have only : ∀ c c', is c → is c' → c' = c := by
    intro c c' h h'
    cases c <;> cases c' <;> grind
  obtain ⟨c, h⟩ : ∃ c, is c := by
    rcases place with info | chain | tree | free
    · exact ⟨.info, isInfo.2 info⟩
    · exact ⟨.chain, isChain.2 chain⟩
    · exact ⟨.tree, isTree.2 tree⟩
    · by_cases reads : held
      · exact ⟨.retained, isRetained.2 ⟨reads, free⟩⟩
      · exact ⟨.free, isFree.2 ⟨free, reads⟩⟩
  exact ⟨c, h, fun c' h' => only c c' h h'⟩

variable (kids)

/-- A page that a snapshot or a reader may read. -/
def Held (s : System κ α) (p : Nat) : Prop :=
  Pinned kids s.file s.state p ∨ ∃ r ∈ s.reads, Tree kids s.file r.roots.values p

/-- A page that is listed as freed at a time that somebody may still read. -/
def Pending (s : System κ α) (p : Nat) : Prop :=
  ∃ t, reclaimHorizon s.state.info.txnId s.readers s.state.snapshots < t ∧ (p, t) ∈ s.state.freelist.listed

def HasClass (s : System κ α) (p : Nat) : PageClass → Prop
  | .info => p < metaPages
  | .chain => s.state.info.OnChains s.file p
  | .tree => Tree kids s.file s.state.roots.values p
  | .retained => s.Held kids p ∧ ¬s.state.info.OnChains s.file p ∧ ¬Tree kids s.file s.state.roots.values p ∧ s.Pending p
  | .free => s.state.freelist.pgnos.count p = 1 ∧ ¬s.Held kids p

variable {kids}

/-- A page that somebody may read was freed after the horizon, if at all. -/
lemma Held.young (good : s.Good kids v v') (watched : s.Watched kids v v') (idle : s.writer = .idle)
    (held : s.Held kids p) : metaPages ≤ p ∧
      ∀ t, (p, t) ∈ s.state.freelist.listed → reclaimHorizon s.state.info.txnId s.readers s.state.snapshots < t := by
  have st := good.of_idle idle
  rcases held with ⟨snap, hs, under⟩ | ⟨r, live, tree⟩
  · obtain ⟨-, img, guard, head⟩ := st.snaps snap hs (Nat.zero_le _)
    have holds : UnderRoots kids s.disk.view (present snap.rootRecords) p := under
    rw [← head, guard.underRoots] at holds
    obtain ⟨low, -, -, -, later⟩ := guard.safe p holds
    exact ⟨low, fun t listed => (reclaimHorizon_le_snap hs).trans_lt (later t listed)⟩
  · obtain ⟨-, img, safe, roots⟩ := watched.reads r live
    obtain ⟨n, registered⟩ := watched.reader_mem live
    rw [Safe, System.held, idle] at safe
    rw [roots] at tree
    obtain ⟨low, -, -, -, later⟩ := safe.safe p (.inr (safe.tree.1 tree))
    exact ⟨low, fun t listed => (reclaimHorizon_le_reader registered).trans_lt (later t listed)⟩

lemma existsUnique_class (good : s.Good kids v v') (watched : s.Watched kids v v') (exact : s.Exact kids)
    (idle : s.writer = .idle) (inside : p < s.state.info.pageCount) : ∃! c, s.HasClass kids p c := by
  have st := good.of_idle idle
  rw [Exact, idle] at exact
  have onChains : s.state.info.OnChains s.file p ↔ p ∈ v.layout.chains := st.core.onChains st.chain
  have inTree : Tree kids s.file s.state.roots.values p ↔ v.image.InTree kids p := st.core.tree
  have listed : s.state.freelist.pgnos.count p = 1 ↔ p ∈ s.state.freelist.pgnos := by
    have := st.core.free_once (p := p)
    rw [← count_pos_iff]
    omega
  have ofFree : p ∈ s.state.freelist.pgnos → p ∉ v.layout.chains ∧ ¬v.image.InTree kids p := fun free =>
    ⟨(st.core.of_free free).2.1, (st.core.of_free free).2.2.1⟩
  have retained : s.HasClass kids p .retained ↔ s.Held kids p ∧ p ∈ s.state.freelist.pgnos := by
    rw [HasClass, onChains, inTree]
    constructor
    · rintro ⟨held, -, -, t, -, mem⟩
      exact ⟨held, mem_map.2 ⟨(p, t), mem, rfl⟩⟩
    · rintro ⟨held, free⟩
      obtain ⟨⟨q, t⟩, mem, same⟩ := mem_map.1 free
      cases same
      exact ⟨held, (ofFree free).1, (ofFree free).2, t, (held.young good watched idle).2 t mem, mem⟩
  refine PageClass.existsUnique Iff.rfl onChains inTree retained (by rw [HasClass, listed])
    (fun low : p < metaPages => ?_) ?_ ofFree ?_
  · exact ⟨fun chain => absurd (st.core.of_chain chain).1 (by omega), fun tree =>
      absurd (st.core.of_tree tree).1 (by omega), fun free => absurd (st.core.of_free free).1 (by omega)⟩
  · exact fun tree => (st.core.of_tree tree).2.1
  · have place := exact.2 p inside
    rwa [onChains, inTree] at place

/-- No page is lost and none has two uses. A page that a transaction is given is in no class but the
free ones, and none of the pages it has. -/
theorem pages_are_accounted_for {capacity : Option Nat}
    (run : Run System.step (Exacting kids) (start capacity : System κ α) s) :
    (s.writer = .idle → ∀ p < s.state.info.pageCount, ∃! c, s.HasClass kids p c) ∧
    ∀ w h p w', s.writer = .writing w h → w.alloc s.capacity = .ok (p, w') → w'.supply.nextPgno ≤ 2 ^ 32 →
      p ∉ h.owned ∧ ∀ c, s.HasClass kids p c → c = .free := by
  obtain ⟨⟨v, v', good, watched⟩, exact⟩ := Exact.run run
  refine ⟨fun idle p inside => existsUnique_class good watched exact idle inside, ?_⟩
  intro w h p w' writing done room
  obtain ⟨fresh, unused, mine⟩ := good.alloc_unused writing done room
  rw [Occupied, not_or, not_or, not_or] at unused
  obtain ⟨low, chain, tree, pinned⟩ := unused
  refine ⟨mine, fun c has => ?_⟩
  cases c with
  | info => exact (low has).elim
  | chain => exact (chain has).elim
  | tree => exact (tree has).elim
  | free => rfl
  | retained =>
    obtain ⟨held, -⟩ := has
    rcases held with pin | ⟨r, live, reads⟩
    · exact (pinned pin).elim
    obtain ⟨le, img, safe, roots⟩ := watched.reads r live
    rw [Safe, System.held, writing] at safe
    rw [reach, writing] at le
    rw [roots] at reads
    exact (safe.of_fresh (good.of_writing writing).1.core le fresh (.inr (safe.tree.1 reads))).elim

section Checking

def inTurnTest (s : System κ α) : Action κ α → Bool
  | .loadRoots 0 | .registerRead 0 => !s.isCommitting && !s.writer.isTruncating
  | .advance => s.openings.isEmpty
  | _ => s.openings.isEmpty && !s.isCommitting && !s.writer.isTruncating

variable (kids) in
def thoroughTest (s : System κ α) : Action κ α → Bool
  | .commit =>
    match s.writer with
    | .writing w h =>
      let base := treePages kids s.file s.state.roots.values
      let found := treePages kids (w.seen s.file) w.roots.values
      closedUnder (links kids s.file) base && h.owned.all (found.contains ·) &&
        base.all fun p => h.unlinked.contains p || found.contains p
    | _ => true
  | _ => true

variable (kids) in
def exactingTest (s : System κ α) (a : Action κ α) : Bool :=
  s.obligingTest kids a && calmTest a && s.inTurnTest a && s.thoroughTest kids a

lemma inTurn_of_test (test : s.inTurnTest a = true) : s.InTurn a := by
  unfold inTurnTest at test
  refine ⟨fun opening => ?_, fun busy => ?_⟩
  · split at test
    · exact .inl rfl
    · exact .inr rfl
    all_goals simp_all
  · split at test
    · simp_all
    · simp_all
    · rfl
    · simp_all

lemma exacting_of_test (test : s.exactingTest kids a = true) : s.Exacting kids a := by
  simp only [exactingTest, Bool.and_eq_true] at test
  obtain ⟨⟨⟨obliging, calm⟩, inTurn⟩, thorough⟩ := test
  refine ⟨obliging_of_test obliging, calm_of_test calm, inTurn_of_test inTurn, ?_⟩
  rintro rfl w h writing
  rw [thoroughTest, writing] at thorough
  simp only [Bool.and_eq_true] at thorough
  obtain ⟨⟨closed, owned⟩, kept⟩ := thorough
  have found : ∀ {p}, (treePages kids (w.seen s.file) w.roots.values).contains p = true →
      Tree kids (w.seen s.file) w.roots.values p := fun mem =>
    reachable_of_mem_explore (fun a ha => .start ha) (contains_iff_mem.1 mem)
  refine ⟨fun p mine => found (all_eq_true.1 owned p mine), fun p tree linked => ?_⟩
  have base := (reachable_iff_mem_explore closed).1 tree
  have either := all_eq_true.1 kept p base
  rw [Bool.or_eq_true, contains_iff_mem] at either
  exact found (either.resolve_left linked)

end Checking

theorem pages_are_accounted_for_reopened : (after none reopened).state.info.pageCount = 8 ∧
    (∀ p < (after none reopened).state.info.pageCount, ∃! c, (after none reopened).HasClass id p c) := by
  have run : Run System.step (Exacting id) (start none) (after none reopened) :=
    Run.play (exactingTest id) _ (by decide +kernel) fun _ _ => exacting_of_test
  have idle : (after none reopened).writer = .idle := by rfl
  exact ⟨by decide +kernel, (pages_are_accounted_for run).1 idle⟩

end System

end BigDb.Pager
