import BigDb.Pager.Good

/-!
# Readers

What a reader reads is what its transaction wrote, for as long as it is registered. Every page it may
read is either in use or was freed after its transaction, and nobody takes a page freed after the oldest
transaction that is registered. A snapshot is found, its root records are loaded and the reader is
registered in three steps; a commit in between that drops the snapshot does not know of the reader.
-/

namespace BigDb.Pager
open Lib List OrderedMap WriteTxn Option Prod
variable {κ α : Type} [LinearOrder κ] (kids : α → List Nat)

/-- Nothing fails and nothing crashes. -/
def Action.Calm : Action κ α → Prop
  | .fail _ | .crash _ => False
  | _ => True

namespace System
variable (s : System κ α)

/-- No snapshot that is being opened is dropped. -/
def Undisturbed : Action κ α → Prop
  | .commit => ∀ w h, s.writer = .writing w h → ∀ o ∈ s.openings, o.snap ∈ w.snapshots.snaps
  | .findSnapshot id => ∀ w h c stage, s.writer = .committing w h c stage →
    ∀ snap, s.state.snapshots.get id = some snap → snap ∈ c.state.snapshots.snaps
  | _ => True

/-- A snapshot that is registered, also in the state that is being committed. -/
def Kept (snap : Snapshot) : Prop :=
  snap ∈ s.state.snapshots.snaps ∧ ∀ w h c stage, s.writer = .committing w h c stage → snap ∈ c.state.snapshots.snaps

structure Watched (v v' : Survey κ α) : Prop where
  tidy : s.tidy = true
  counts : ∀ t, (s.readers.get t).getD 0 = s.reads.countP fun r => r.txnId = t
  reads : ∀ r ∈ s.reads, s.reach ≤ r.txnId ∧ ∃ img, s.Safe kids v v' r.txnId img ∧ r.roots = img.state.roots
  openings : ∀ o ∈ s.openings, s.Kept o.snap
  loaded : ∀ snap roots catalog, .loaded snap roots catalog ∈ s.openings →
    ∃ img, s.past snap.txnId = some img ∧ roots = img.state.roots

variable {kids} {s s' : System κ α} {a : Action κ α} {v v' u u' : Survey κ α} {w : WriteTxn κ α} {h : Handled}

/-! ## What is safe -/

section
variable (good : s.Good kids v v')
include good

/-- The state in memory is safe. -/
lemma Good.current : s.reach ≤ s.state.info.txnId ∧ s.Safe kids v v' s.state.info.txnId v.image ∧
      v.image.state.roots = s.state.roots := by
  cases writer : s.writer with
  | idle =>
    have st := good.of_idle writer
    simp only [reach, Safe, held, writer]
    exact ⟨Nat.zero_le _, st.core.guard, st.core.same.1⟩
  | writing w h =>
    obtain ⟨st, draft⟩ := good.of_writing writer
    simp only [reach, Safe, held, writer]
    exact ⟨draft.horizon, st.core.guard, st.core.same.1⟩
  | committing w h c stage =>
    obtain ⟨ready, progress⟩ := good.of_committing writer
    simp only [reach, Safe, held, writer]
    exact ⟨ready.reach_le, progress.sound.core.guard, progress.sound.core.same.1⟩
  | truncating c stage =>
    obtain ⟨cut, narrowing⟩ := good.of_truncating writer
    simp only [reach, Safe, held, writer]
    have sound := narrowing.sound
    refine ⟨cut.horizon.1, ?_⟩
    cases stage with
    | pages | confirm => exact ⟨sound.core.guard, sound.core.same.1⟩
    | cut | publish =>
      exact ⟨narrowing.2, cut.relay.roots.1.symm.trans (sound.core.same.1.trans cut.less.roots)⟩
  | closed =>
    rw [Good, writer] at good
    exact good.elim

/-- So are its snapshots, if a commit under way keeps them. -/
lemma Good.snapshot {snap : Snapshot} (kept : s.Kept snap) :
    s.reach ≤ snap.txnId ∧ ∃ img, s.Safe kids v v' snap.txnId img ∧
      img.state.info.rootRecords = present snap.rootRecords := by
  obtain ⟨mem, also⟩ := kept
  cases writer : s.writer with
  | idle =>
    have st := good.of_idle writer
    simp only [reach, Safe, held, writer]
    exact ⟨Nat.zero_le _, (st.snaps snap mem (Nat.zero_le _)).2⟩
  | writing w h =>
    obtain ⟨st, draft⟩ := good.of_writing writer
    simp only [reach, Safe, held, writer]
    exact ⟨draft.behind snap mem, (st.snaps snap mem (Nat.zero_le _)).2⟩
  | committing w h c stage =>
    obtain ⟨ready, progress⟩ := good.of_committing writer
    have le := ready.behind snap mem (ready.kept snap (also w h c stage writer))
    simp only [reach, Safe, held, writer]
    exact ⟨le, (progress.sound.snaps snap mem le).2⟩
  | truncating c stage =>
    obtain ⟨cut, narrowing⟩ := good.of_truncating writer
    have mem' : snap ∈ (stage.held s.state v c v').1.snapshots.snaps := by
      cases stage with
      | pages | confirm => exact mem
      | cut | publish => exact cut.less.snapshots ▸ mem
    simp only [reach, Safe, held, writer]
    exact ⟨cut.horizon.2 snap mem, (narrowing.sound.snaps snap mem' (Nat.zero_le _)).2⟩
  | closed =>
    rw [Good, writer] at good
    exact good.elim

lemma Good.core : Core kids s.past s.file (s.held v v').1 (s.held v v').2 := by
  cases writer : s.writer with
  | idle =>
    simp only [held, writer]
    exact (good.of_idle writer).core
  | writing w h =>
    simp only [held, writer]
    exact (good.of_writing writer).1.core
  | committing w h c stage =>
    simp only [held, writer]
    exact (good.of_committing writer).2.sound.core
  | truncating c stage =>
    simp only [held, writer]
    exact (good.of_truncating writer).2.sound.core
  | closed =>
    rw [Good, writer] at good
    exact good.elim

/-! ## Steps that readers do not take -/

/-- What was watched is watched after a step that keeps what is safe. -/
lemma Watched.carry (watched : s.Watched kids v v')
    (carry : ∀ t img, s.Safe kids v v' t img → s.reach ≤ t → s'.Safe kids u u' t img)
    (same : s'.reads = s.reads ∧ s'.readers = s.readers ∧ s'.openings = s.openings) (tidy : s'.tidy = true)
    (reach : ∀ r ∈ s.reads, s'.reach ≤ r.txnId) (kept : ∀ o ∈ s.openings, s'.Kept o.snap) : s'.Watched kids u u' := by
  obtain ⟨reads, readers, openings⟩ := same
  refine ⟨tidy, by rw [readers, reads]; exact watched.counts, fun r hr => ?_, ?_, fun snap roots catalog ho => ?_⟩
  · rw [reads] at hr
    obtain ⟨le, img, safe, same⟩ := watched.reads r hr
    exact ⟨reach r hr, img, carry _ _ safe le, same⟩
  · rw [openings]
    exact kept
  rw [openings] at ho
  obtain ⟨img, found, same⟩ := watched.loaded snap roots catalog ho
  obtain ⟨le, img', safe, -⟩ := good.snapshot (watched.openings _ ho)
  have after := (carry _ _ safe le).image
  cases found.symm.trans safe.image
  exact ⟨img, after, same⟩

end

/-! ## Reading -/

variable {readers : Readers} {reads : List (ReadTxn κ)} {r : ReadTxn κ} {i : Nat}

section
variable (counts : ∀ t, (readers.get t).getD 0 = reads.countP fun r => r.txnId = t)
include counts

lemma counts_register (r : ReadTxn κ) (t : Nat) :
    ((registerReader readers r.txnId).get t).getD 0 = (reads ++ [r]).countP fun r => r.txnId = t := by
  have before := counts t
  rw [registerReader, countP_append, countP_singleton]
  by_cases same : t = r.txnId
  · subst same
    rw [get_insert_self, before, if_pos (by simp)]
    rfl
  · rw [get_insert_of_ne same, before, if_neg (by simpa using Ne.symm same)]
    rfl

lemma counts_release (found : reads[i]? = some r) (t : Nat) :
    ((releaseReader readers r.txnId).get t).getD 0 = (reads.eraseIdx i).countP fun r => r.txnId = t := by
  obtain ⟨inside, rfl⟩ := List.getElem?_eq_some_iff.1 found
  have before : ∀ t, (readers.get t).getD 0
      = (reads.eraseIdx i).countP (fun r => r.txnId = t) + if reads[i].txnId = t then 1 else 0 := by
    intro t
    have split : reads.countP (fun r => r.txnId = t)
        = (reads.take i).countP (fun r => r.txnId = t) + (reads.drop i).countP fun r => r.txnId = t := by
      rw [← countP_append, take_append_drop]
    rw [drop_eq_getElem_cons inside, countP_cons] at split
    simp only [decide_eq_true_eq] at split
    rw [counts t, split, eraseIdx_eq_take_drop_succ, countP_append]
    omega
  have here := before reads[i].txnId
  rw [if_pos rfl] at here
  cases registered : readers.get reads[i].txnId with
  | none =>
    rw [registered] at here
    cases here
  | some n =>
    rw [registered] at here
    simp only [getD_some] at here
    simp only [releaseReader, registered]
    by_cases same : t = reads[i].txnId
    · subst same
      split_ifs
      · rw [get_erase_self]
        simp only [getD_none]
        omega
      · rw [get_insert_self]
        simp only [getD_some]
        omega
    · have other := before t
      rw [if_neg (Ne.symm same)] at other
      split_ifs
      · rw [get_erase_of_ne same]
        exact other
      · rw [get_insert_of_ne same]
        exact other

end

section
variable (watched : s.Watched kids v v')
include watched

lemma Watched.register (le : s.reach ≤ r.txnId)
    (safe : ∃ img, s.Safe kids v v' r.txnId img ∧ r.roots = img.state.roots) : (s.register r).Watched kids v v' where
  tidy := watched.tidy
  counts := counts_register watched.counts r
  reads r' hr := by
    rcases mem_concat.1 hr with old | rfl
    · exact watched.reads r' old
    · exact ⟨le, safe⟩
  openings := watched.openings
  loaded := watched.loaded

/-- Some openings are given up or come to be loaded. -/
lemma Watched.openings_of {openings : List (Opening κ)} (kept : ∀ o ∈ openings, s.Kept o.snap)
    (loaded : ∀ snap roots catalog, .loaded snap roots catalog ∈ openings →
      ∃ img, s.past snap.txnId = some img ∧ roots = img.state.roots) :
    ({ s with openings } : System κ α).Watched kids v v' where
  tidy := watched.tidy
  counts := watched.counts
  reads := watched.reads
  openings := kept
  loaded := loaded

lemma Watched.erase (i : Nat) : ({ s with openings := s.openings.eraseIdx i } : System κ α).Watched kids v v' :=
  watched.openings_of (fun o ho => watched.openings o (mem_of_mem_eraseIdx ho)) fun snap roots catalog ho =>
    watched.loaded snap roots catalog (mem_of_mem_eraseIdx ho)

lemma Watched.findSnapshot {id : Nat} (calm : s.Undisturbed (.findSnapshot id)) :
    (s.act (.findSnapshot id)).Watched kids v v' := by
  rw [act]
  split
  · next snap found =>
    refine watched.openings_of (fun o ho => ?_) fun snap' roots catalog ho => ?_
    · rcases mem_concat.1 ho with old | rfl
      · exact watched.openings o old
      · exact ⟨(mem_of_get found).1, fun w h c stage writer => calm w h c stage writer snap found⟩
    · rcases mem_append.1 ho with old | new
      · exact watched.loaded snap' roots catalog old
      · cases mem_singleton.1 new
  · exact watched

lemma Watched.loadRoots (good : s.Good kids v v') : (s.act (.loadRoots i)).Watched kids v v' := by
  rw [act]
  split
  · next snap catalog found =>
    have kept : s.Kept snap := watched.openings _ (mem_of_getElem? found)
    split
    · next entries loaded =>
      obtain ⟨-, img, safe, head⟩ := good.snapshot kept
      have read := Guard.roots safe
      rw [head, loaded] at read
      cases read
      refine watched.openings_of (fun o ho => ?_) fun snap' roots catalog' ho => ?_
      · rcases mem_or_eq_of_mem_set ho with old | rfl
        · exact watched.openings o old
        · exact kept
      · rcases mem_or_eq_of_mem_set ho with old | new
        · exact watched.loaded snap' roots catalog' old
        · cases new
          exact ⟨img, safe.image, ofEntries_entries _⟩
    · exact watched.erase i
  · exact watched

lemma Watched.registerRead (good : s.Good kids v v') : (s.act (.registerRead i)).Watched kids v v' := by
  rw [act]
  split
  · next snap roots catalog found =>
    have mem := mem_of_getElem? found
    obtain ⟨le, img, safe, -⟩ := good.snapshot (watched.openings _ mem)
    obtain ⟨img', written, same⟩ := watched.loaded snap roots catalog mem
    cases written.symm.trans safe.image
    exact (watched.erase i).register le ⟨img, safe, same⟩
  · exact watched

lemma Watched.release : (s.act (.release i)).Watched kids v v' := by
  rw [act]
  split
  · next r found =>
    exact ⟨watched.tidy, counts_release watched.counts found, fun r' hr => watched.reads r' (mem_of_mem_eraseIdx hr),
      watched.openings, watched.loaded⟩
  · exact watched

end

/-! ## Writing -/

variable (kids s) in
/-- The state after a step, still watched. -/
def Lasts : Prop := ∃ v v', s.Good kids v v' ∧ s.Watched kids v v'

lemma Watched.reader_mem (watched : s.Watched kids v v') (hr : r ∈ s.reads) :
    ∃ n, s.readers.get r.txnId = some n := by
  have here := watched.counts r.txnId
  have some : 0 < s.reads.countP fun r' => r'.txnId = r.txnId := countP_pos_iff.2 ⟨r, hr, by simp⟩
  cases found : s.readers.get r.txnId with
  | none =>
    rw [found, getD_none] at here
    omega
  | some n => exact ⟨n, rfl⟩

section
variable (good : s.Good kids v v')
include good

section
variable (watched : s.Watched kids v v')
include watched

section
variable (same : s'.reads = s.reads ∧ s'.readers = s.readers ∧ s'.openings = s.openings)
include same

lemma Lasts.onward (onward : Onward kids s s' v v') (tidy : s'.tidy = true)
    (reach : ∀ r ∈ s.reads, s'.reach ≤ r.txnId) (kept : ∀ o ∈ s.openings, s'.Kept o.snap) : Lasts kids s' := by
  obtain ⟨u, u', good', carry⟩ := onward
  exact ⟨u, u', good', watched.carry good carry same tidy reach kept⟩

/-- Where no commit is under way, an opening needs only the table of snapshots. -/
lemma Lasts.quiet (onward : Onward kids s s' v v') (tidy : s'.tidy = true)
    (state : s'.state = s.state) (still : ∀ w h c stage, s'.writer ≠ .committing w h c stage)
    (reach : ∀ r ∈ s.reads, s'.reach ≤ r.txnId) : Lasts kids s' := by
  refine .onward good watched same onward tidy reach fun o ho => ?_
  refine ⟨?_, fun w h c stage committing => (still w h c stage committing).elim⟩
  rw [state]
  exact (watched.openings o ho).1

end

lemma Lasts.onTxn {call : WriteTxn κ α → Handled → WriteTxn κ α × Handled}
    (horizon : ∀ w h, (call w h).1.horizon = w.horizon)
    (onward : Onward kids s (s.onTxn call) v v') : Lasts kids (s.onTxn call) := by
  revert onward
  rw [System.onTxn]
  split <;> intro onward
  · next w h writing =>
    refine .quiet good watched ⟨rfl, rfl, rfl⟩ onward watched.tidy rfl (by simp) fun r hr => ?_
    have le := (watched.reads r hr).1
    rw [reach, writing] at le
    exact (horizon w h).le.trans le
  · exact ⟨v, v', good, watched⟩

lemma Lasts.beginWrite (fits : (s.act .beginWrite).Fits) : Lasts kids (s.act .beginWrite) := by
  have onward := Onward.beginWrite good fits
  revert onward
  rw [act]
  split <;> intro onward
  · refine .quiet good watched ⟨rfl, rfl, rfl⟩ onward watched.tidy rfl (by simp) fun r hr => ?_
    obtain ⟨n, found⟩ := watched.reader_mem hr
    exact reclaimHorizon_le_reader found
  · exact ⟨v, v', good, watched⟩

lemma Lasts.rollback : Lasts kids (s.act .rollback) := by
  have onward := Onward.rollback good
  revert onward
  rw [act]
  split <;> intro onward
  · exact .quiet good watched ⟨rfl, rfl, rfl⟩ onward watched.tidy rfl (by simp) fun r hr => Nat.zero_le _
  · exact ⟨v, v', good, watched⟩

lemma Lasts.commit (heeds : s.Heeds kids .commit)
    (fits : (s.act .commit).Fits) (calm : s.Undisturbed .commit) : Lasts kids (s.act .commit) := by
  have onward := Onward.commit good heeds fits
  revert onward
  rw [act]
  split
  · next w h writing =>
    split <;> intro onward
    · next c done =>
      obtain ⟨horizon, snapshots⟩ := commit_horizon done
      refine .onward good watched ⟨rfl, rfl, rfl⟩ onward watched.tidy (fun r hr => ?_) fun o ho => ?_
      · have le := (watched.reads r hr).1
        rw [reach, writing] at le
        obtain ⟨n, found⟩ := watched.reader_mem hr
        exact max_le le (horizon ▸ reclaimHorizon_le_reader found)
      · refine ⟨(watched.openings o ho).1, fun w' h' c' stage committing => ?_⟩
        cases committing
        rw [snapshots]
        exact calm w h writing o ho
    · exact .quiet good watched ⟨rfl, rfl, rfl⟩ onward watched.tidy rfl (by simp) fun r hr => Nat.zero_le _
  · exact fun _ => ⟨v, v', good, watched⟩

/-- No reader is registered when a truncation begins. -/
lemma Lasts.truncateTail : Lasts kids (s.act .truncateTail) := by
  have onward := Onward.truncateTail good watched.tidy
  revert onward
  rw [act]
  split
  · next idle none =>
    split <;> intro onward
    · refine .quiet good watched ⟨rfl, rfl, rfl⟩ onward watched.tidy rfl (by simp) fun r hr => ?_
      obtain ⟨n, found⟩ := watched.reader_mem hr
      rw [OrderedMap.get, none] at found
      cases found
    · exact ⟨v, v', good, watched⟩
  · exact fun _ => ⟨v, v', good, watched⟩

variable {c : Change κ α}

lemma Lasts.committing {stage : CommitStage κ α}
    (committing : s.writer = .committing w h c stage) : Lasts kids s.advance := by
  have onward := Onward.advance good
  have le : ∀ r ∈ s.reads, max w.horizon c.horizon ≤ r.txnId := by
    intro r hr
    have le := (watched.reads r hr).1
    rwa [reach, committing] at le
  have kept : ∀ o ∈ s.openings, o.snap ∈ c.state.snapshots.snaps := fun o ho =>
    (watched.openings o ho).2 w h c stage committing
  cases next : stage.next c s.disk with
  | some pair =>
    rw [advance_committing committing next] at onward ⊢
    refine .onward good watched ⟨rfl, rfl, rfl⟩ onward watched.tidy le fun o ho => ?_
    refine ⟨(watched.openings o ho).1, fun w' h' c' stage' committing' => ?_⟩
    cases committing'
    exact kept o ho
  | none =>
    cases stage with
    | publish =>
      rw [advance_published committing] at onward ⊢
      refine .onward good watched ⟨rfl, rfl, rfl⟩ onward rfl (fun r hr => Nat.zero_le _) fun o ho => ?_
      exact ⟨kept o ho, fun w h c stage committing => by cases committing⟩
    | grow | flip | confirm => cases next
    | pages rest => cases rest <;> cases next

lemma Lasts.truncating {stage : TruncateStage κ α}
    (truncating : s.writer = .truncating c stage) : Lasts kids s.advance := by
  have onward := Onward.advance good
  obtain ⟨cut, -⟩ := good.of_truncating truncating
  cases next : stage.next c s.disk with
  | some pair =>
    rw [advance_truncating truncating next] at onward ⊢
    refine .quiet good watched ⟨rfl, rfl, rfl⟩ onward watched.tidy rfl (by simp) fun r hr => ?_
    have le := (watched.reads r hr).1
    rwa [reach, truncating] at le
  | none =>
    cases stage with
    | publish =>
      rw [advance_truncated truncating] at onward ⊢
      refine .onward good watched ⟨rfl, rfl, rfl⟩ onward watched.tidy (fun r hr => Nat.zero_le _) fun o ho => ?_
      refine ⟨?_, fun w h c stage committing => by cases committing⟩
      rw [cut.less.snapshots]
      exact (watched.openings o ho).1
    | pages rest => cases rest <;> cases next
    | confirm | cut => cases next

lemma Lasts.advance : Lasts kids s.advance := by
  cases writer : s.writer with
  | committing w h c stage => exact .committing good watched writer
  | truncating c stage => exact .truncating good watched writer
  | idle | writing | closed =>
    rw [System.advance, writer]
    exact ⟨v, v', good, watched⟩

lemma Lasts.reopen : Lasts kids (s.act .reopen) := by
  have onward := Onward.reopen good
  revert onward
  rw [act]
  split
  · next idle _ _ =>
    rw [opened, (good.of_idle idle).load_eq]
    rintro ⟨u, u', good', -⟩
    refine ⟨u, u', good', watched.tidy, fun t => rfl, fun r hr => ?_, fun o ho => ?_, fun snap roots catalog ho => ?_⟩
    · cases hr
    · cases ho
    · cases ho
  · exact fun _ => ⟨v, v', good, watched⟩

end

end

/-! ## Runs -/

variable (kids) in
variable (s a) in
/-- The callers do their part, nothing fails, and no snapshot is dropped while it is being opened. -/
def Isolating : Prop := s.Obliging kids a ∧ a.Calm ∧ s.Undisturbed a

lemma Lasts.step (lasts : Lasts kids s) (ok : s.Isolating kids a) : Lasts kids (s.step a) := by
  obtain ⟨v, v', good, watched⟩ := lasts
  obtain ⟨⟨heeds, fits⟩, calm, undisturbed⟩ := ok
  rw [good.step_eq] at fits ⊢
  cases a with
  | beginRead =>
    obtain ⟨le, safe, roots⟩ := good.current
    exact ⟨v, v', good, watched.register le ⟨_, safe, roots.symm⟩⟩
  | findSnapshot id => exact ⟨v, v', good.findSnapshot id, watched.findSnapshot undisturbed⟩
  | loadRoots i => exact ⟨v, v', good.loadRoots i, watched.loadRoots good⟩
  | registerRead i => exact ⟨v, v', good.registerRead i, watched.registerRead good⟩
  | release i => exact ⟨v, v', good.release i, watched.release⟩
  | beginWrite => exact .beginWrite good watched fits
  | alloc =>
    refine .onTxn good watched (fun w h => ?_) (.alloc good fits)
    cases done : w.alloc s.capacity with
    | ok pair => exact congrArg fst (alloc_outlook done)
    | error => rfl
  | free p => exact .onTxn good watched (fun w h => congrArg fst free_outlook) (.free good heeds)
  | write p page =>
    refine .onTxn good watched (fun w h => ?_) (.write good heeds)
    cases done : w.write p (.data page) with
    | ok w' => exact congrArg fst (write_outlook done)
    | error => rfl
  | cow p =>
    refine .onTxn good watched (fun w h => ?_) (.cow good heeds fits)
    cases done : w.cow s.file s.capacity p with
    | ok pair => exact congrArg fst (cow_outlook done)
    | error => rfl
  | setRoot key root => exact .onTxn good watched (fun _ _ => rfl) (.setRoot good key root)
  | removeRoot key => exact .onTxn good watched (fun _ _ => rfl) (.removeRoot good key)
  | createSnapshot expiresAt name pinned =>
    exact .onTxn good watched (fun _ _ => rfl) (.createSnapshot good expiresAt name pinned)
  | dropSnapshot id => exact .onTxn good watched (fun _ _ => rfl) (.dropSnapshot good id)
  | expireSnapshots now => exact .onTxn good watched (fun _ _ => rfl) (.expireSnapshots good now)
  | setCatalog entries =>
    exact .onTxn good watched (fun _ _ => congrArg fst setCatalog_outlook) (.setCatalog good entries)
  | rollback => exact .rollback good watched
  | commit => exact .commit good watched heeds fits undisturbed
  | truncateTail => exact .truncateTail good watched
  | advance => exact .advance good watched
  | fail fate | crash fates => exact calm.elim
  | reopen => exact .reopen good watched

lemma Lasts.run {capacity : Option Nat} (run : Run System.step (Isolating kids) (start capacity : System κ α) s) :
    Lasts kids s := by
  refine run.run (P := Lasts kids) ⟨firstSurvey, firstSurvey, Good.start _, rfl, fun _ => rfl, ?_, ?_, ?_⟩ fun s a ok lasts =>
    lasts.step ok
  · exact nofun
  · exact nofun
  · exact nofun

/-- As long as a reader is registered, every page of the trees it was opened on is in the file as its
transaction wrote it. -/
theorem readers_are_isolated {capacity : Option Nat} {r : ReadTxn κ}
    (run : Run System.step (Isolating kids) (start capacity : System κ α) s) (live : r ∈ s.reads) :
    ∃ img, s.past r.txnId = some img ∧ r.roots = img.state.roots ∧
      ∀ p, Tree kids img.file r.roots.values p → p < s.file.length ∧ s.file[p]? = img.file[p]? := by
  obtain ⟨v, v', good, watched⟩ := Lasts.run run
  obtain ⟨-, img, safe, roots⟩ := watched.reads r live
  refine ⟨img, safe.image, roots, fun p tree => ?_⟩
  rw [roots] at tree
  obtain ⟨-, high, -, same, -⟩ := safe.safe p (.inr tree)
  have := good.core.counted
  have := good.core.within
  exact ⟨by omega, same⟩

section Checking

def calmTest : Action κ α → Bool
  | .fail _ | .crash _ => false
  | _ => true

def undisturbedTest (s : System κ α) : Action κ α → Bool
  | .commit =>
    match s.writer with
    | .writing w _ => s.openings.all fun o => w.snapshots.snaps.contains o.snap
    | _ => true
  | .findSnapshot _ => !s.isCommitting
  | _ => true

variable (kids) in
def isolatingTest (s : System κ α) (a : Action κ α) : Bool :=
  s.obligingTest kids a && calmTest a && s.undisturbedTest a

omit [LinearOrder κ] in
lemma calm_of_test (test : calmTest a = true) : a.Calm := by
  cases a with
  | fail | crash => cases test
  | _ => trivial

lemma isolating_of_test (test : s.isolatingTest kids a = true) : s.Isolating kids a := by
  rw [isolatingTest, Bool.and_eq_true, Bool.and_eq_true] at test
  refine ⟨obliging_of_test test.1.1, calm_of_test test.1.2, ?_⟩
  have undisturbed := test.2
  cases a with
  | commit =>
    intro w h writing o ho
    rw [undisturbedTest, writing] at undisturbed
    exact contains_iff_mem.1 (all_eq_true.1 undisturbed o ho)
  | findSnapshot id =>
    intro w h c stage committing
    rw [undisturbedTest, isCommitting, committing] at undisturbed
    cases undisturbed
  | _ => trivial

end Checking

/-- The snapshot is opened after the page was replaced. -/
def reopened : List (Action Nat (List Nat)) :=
  flatten [replaced, replicate 8 .advance, [.findSnapshot 1, .loadRoots 0, .registerRead 0]]

theorem readers_are_isolated_reopened : ∃ r ∈ (after none reopened).reads, ∃ img,
    (after none reopened).past r.txnId = some img ∧ r.roots = img.state.roots ∧
    ∀ p, Tree id img.file r.roots.values p →
      p < (after none reopened).file.length ∧ (after none reopened).file[p]? = img.file[p]? := by
  have run : Run System.step (Isolating id) (start none) (after none reopened) :=
    Run.play (isolatingTest id) _ (by decide +kernel) fun _ _ => isolating_of_test
  obtain ⟨r, live⟩ : ∃ r, r ∈ (after none reopened).reads := exists_mem_of_length_pos (by decide +kernel)
  exact ⟨r, live, readers_are_isolated run live⟩

/-- The snapshot is dropped between the moment it is found and the moment the reader is registered. -/
def outrun : List (Action Nat (List Nat)) :=
  flatten [replaced, replicate 8 .advance, [.findSnapshot 1, .beginWrite, .dropSnapshot 1, .commit],
    replicate 6 .advance, [.loadRoots 0, .registerRead 0]]

/-- The reader's root is a page of the free list. -/
theorem outrun_reader_overwritten :
    Run System.step (fun s a => s.Obliging id a ∧ a.Calm) (start none) (after none outrun) ∧
    ∃ r ∈ (after none outrun).reads, ¬∃ img, (after none outrun).past r.txnId = some img ∧ r.roots = img.state.roots ∧
      ∀ p, Tree id img.file r.roots.values p →
        p < (after none outrun).file.length ∧ (after none outrun).file[p]? = img.file[p]? := by
  refine ⟨Run.play (fun s a => s.obligingTest id a && calmTest a) _ (by decide +kernel) fun s a test => ?_, ?_⟩
  · rw [Bool.and_eq_true] at test
    exact ⟨obliging_of_test test.1, calm_of_test test.2⟩
  have reads : (after none outrun).reads.map (fun r => (r.txnId, r.roots.values)) = [(1, [2])] := by decide +kernel
  have wrote : ((after none outrun).past 1).map (fun img => img.file[2]?) = some (some (.data [])) := by decide +kernel
  have now : (after none outrun).file[2]? ≠ some (.data []) := by decide +kernel
  generalize after none outrun = s at *
  obtain ⟨r, live, roots⟩ := mem_map.1 (reads ▸ mem_singleton_self (1, [2]))
  obtain ⟨first, values⟩ := Prod.mk.inj roots
  refine ⟨r, live, ?_⟩
  rintro ⟨img, written, -, same⟩
  rw [first] at written
  rw [written] at wrote
  obtain ⟨-, agree⟩ := same 2 (.start (by rw [values]; exact mem_singleton_self 2))
  exact now (agree.trans (some.inj wrote))

end System

end BigDb.Pager
