import BigDb.Pager.Readers

/-!
# Closing the store and opening it again

What is in memory is what the file says, the counter of snapshot ids apart: it is not stored, and a
registry that is read back counts on from the highest id it finds. As long as that one is the highest
that was ever given out, nobody can tell that the store was closed. If it was dropped, its id is given
out a second time.
-/

namespace BigDb.Pager
open Lib List OrderedMap Prod WriteTxn

/-- A registry that has given out the ids `issued`, and no other. -/
structure SnapshotRegistry.Tallies (r : SnapshotRegistry) (issued : List Nat) : Prop where
  registered : ∀ snap ∈ r.snaps, snap.id ∈ issued
  positive : ∀ id ∈ issued, 0 < id
  below : ∀ id ∈ issued, id < r.nextId
  last : r.nextId = 1 ∧ issued = [] ∨ ∃ id ∈ issued, id + 1 = r.nextId

def SnapshotRegistry.KeepsHighest (r : SnapshotRegistry) (issued : List Nat) : Prop :=
  ∀ id ∈ issued, ∃ snap ∈ r.snaps, id ≤ snap.id

namespace SnapshotRegistry.Tallies
variable {r : SnapshotRegistry} {issued : List Nat}

section
variable (tallies : r.Tallies issued)
include tallies

lemma create (txnId rootRecords expiresAt : Nat) (name : List UInt8) (pinned : Bool) :
    (r.create txnId rootRecords expiresAt name pinned).2.Tallies
      (issued ++ [(r.create txnId rootRecords expiresAt name pinned).1.id]) where
  registered snap hs := by
    rcases mem_concat.1 hs with old | rfl
    · exact mem_append_left _ (tallies.registered snap old)
    · exact mem_append_right _ (mem_singleton_self _)
  positive id hid := by
    rcases mem_concat.1 hid with old | rfl
    · exact tallies.positive id old
    have next := tallies.last
    change 0 < r.nextId
    omega
  below id hid := by
    rcases mem_concat.1 hid with old | rfl
    · exact Nat.lt_succ_of_lt (tallies.below id old)
    · exact Nat.lt_succ_self _
  last := .inr ⟨r.nextId, mem_append_right _ (mem_singleton_self _), rfl⟩

/-- Some snapshots are dropped. -/
lemma of_subset {r' : SnapshotRegistry} (fewer : ∀ snap ∈ r'.snaps, snap ∈ r.snaps)
    (same : r'.nextId = r.nextId) : r'.Tallies issued where
  registered snap hs := tallies.registered snap (fewer snap hs)
  positive := tallies.positive
  below := same ▸ tallies.below
  last := same ▸ tallies.last

lemma remove (id : Nat) : (r.remove id).Tallies issued :=
  tallies.of_subset (fun _ hs => mem_of_mem_eraseP hs) rfl

lemma expire (now : Nat) : (r.expire now).Tallies issued :=
  tallies.of_subset (fun _ hs => mem_of_mem_filter hs) rfl

/-- The counter is found again exactly if the highest id is still registered. -/
lemma fromEntries_iff : fromEntries r.snaps = r ↔ r.KeepsHighest issued := by
  have registered : ∀ snap ∈ r.snaps, snap.id < r.nextId := fun snap hs => tallies.below _ (tallies.registered snap hs)
  refine ⟨fun same id hid => ?_, fun keeps => fromEntries_snaps registered ?_⟩
  · have below := tallies.below id hid
    rw [← same, fromEntries] at below
    cases highest : (r.snaps.map Snapshot.id).max? with
    | none =>
      -- the counter starts at 1 again, and no id is below that
      rw [highest] at below
      exact absurd (tallies.positive id hid) (Nat.not_lt.2 (Nat.le_of_lt_succ below))
    | some top =>
      rw [highest] at below
      obtain ⟨snap, hs, rfl⟩ := mem_map.1 (max?_eq_some_iff.1 highest).1
      exact ⟨snap, hs, Nat.le_of_lt_succ below⟩
  · rcases tallies.last with ⟨first, rfl⟩ | ⟨id, hid, next⟩
    · refine .inl ⟨first, eq_nil_iff_forall_not_mem.2 fun snap hs => ?_⟩
      cases tallies.registered snap hs
    · obtain ⟨snap, hs, le⟩ := keeps id hid
      have lt := registered snap hs
      exact .inr ⟨snap, hs, by omega⟩

end

end SnapshotRegistry.Tallies

variable {κ α : Type} [LinearOrder κ] {kids : α → List Nat}

/-! ## Readers -/

/-- Everyone who reads is registered, and nobody else. -/
structure Readers.Counts (readers : Readers) (reads : List (ReadTxn κ)) : Prop where
  count : ∀ t, (readers.get t).getD 0 = reads.countP fun r => r.txnId = t
  positive : ∀ t, readers.get t ≠ some 0

namespace Readers.Counts
variable {readers : Readers} {reads : List (ReadTxn κ)} {r : ReadTxn κ}

lemma register (counts : readers.Counts reads) (r : ReadTxn κ) :
    (registerReader readers r.txnId).Counts (reads ++ [r]) where
  count := System.counts_register counts.count r
  positive t := by
    rw [registerReader]
    by_cases same : t = r.txnId
    · subst same
      simp
    · rw [get_insert_of_ne same]
      exact counts.positive t

lemma release {i : Nat} (counts : readers.Counts reads) (found : reads[i]? = some r) :
    (releaseReader readers r.txnId).Counts (reads.eraseIdx i) where
  count := System.counts_release counts.count found
  positive t := by
    rw [releaseReader]
    split
    · split
      · by_cases same : t = r.txnId
        · subst same
          simp
        · rw [get_erase_of_ne same]
          exact counts.positive t
      · next more =>
        by_cases same : t = r.txnId
        · subst same
          simpa using more
        · rw [get_insert_of_ne same]
          exact counts.positive t
    · exact counts.positive t

lemma eq_empty (counts : readers.Counts ([] : List (ReadTxn κ))) : readers = .empty := by
  refine ext (eq_nil_iff_forall_not_mem.2 fun e he => ?_)
  have found := get_of_mem_entries he
  have count := counts.count e.1
  rw [found] at count
  exact counts.positive e.1 (found.trans (congrArg some count))

end Readers.Counts

namespace System
variable {s : System κ α} {a : Action κ α} {v v' : Survey κ α}

/-- Which ids have been given out. -/
structure Numbered (s : System κ α) : Prop where
  tidy : s.tidy = true
  state : s.state.snapshots.Tallies s.issued
  writer : match s.writer with
    | .writing w h => w.snapshots.Tallies (s.issued ++ h.created)
    | .committing _ h c _ => c.state.snapshots.Tallies (s.issued ++ h.created)
    | .truncating c _ => c.state.snapshots = s.state.snapshots
    | _ => True

/-! ## Ids -/

section
variable (numbered : s.Numbered)
include numbered

variable {call : WriteTxn κ α → Handled → WriteTxn κ α × Handled}

lemma Numbered.onTxn (keeps : ∀ w h, w.snapshots.Tallies (s.issued ++ h.created) →
      (call w h).1.snapshots.Tallies (s.issued ++ (call w h).2.created)) : (s.onTxn call).Numbered := by
  rw [System.onTxn]
  split
  · next w h writing =>
    have tallies := numbered.writer
    rw [writing] at tallies
    exact ⟨numbered.tidy, numbered.state, keeps w h tallies⟩
  · exact numbered

/-- A call that leaves the snapshots alone. -/
lemma Numbered.onTxn_of_eq (same : ∀ w h, (call w h).1.snapshots = w.snapshots ∧ (call w h).2.created = h.created) :
    (s.onTxn call).Numbered :=
  numbered.onTxn fun w h tallies => by rwa [(same w h).1, (same w h).2]

lemma Numbered.commit : (s.act .commit).Numbered := by
  rw [act]
  split
  · next w h writing =>
    have tallies := numbered.writer
    rw [writing] at tallies
    split
    · next c done =>
      refine ⟨numbered.tidy, numbered.state, ?_⟩
      dsimp only
      rwa [(commit_horizon done).2]
    · exact ⟨numbered.tidy, numbered.state, trivial⟩
  · exact numbered

lemma Numbered.truncateTail : (s.act .truncateTail).Numbered := by
  rw [act]
  split
  · split
    · next c done =>
      refine ⟨numbered.tidy, numbered.state, ?_⟩
      rw [Pager.truncateTail] at done
      dsimp only at done
      split_ifs at done
      · cases done
      · obtain ⟨chain, -, done⟩ := bind_ok.1 done
        cases done
        rfl
    · exact numbered
  · exact numbered

lemma Numbered.advance : s.advance.Numbered := by
  have writer := numbered.writer
  rw [System.advance]
  split <;> rename_i now
  -- the state that was made is published, or the next one of the stages is reached
  case h_6 =>
    rw [now] at writer
    exact ⟨rfl, writer, trivial⟩
  case h_11 =>
    rw [now] at writer
    exact ⟨numbered.tidy, by dsimp only; rw [writer]; exact numbered.state, trivial⟩
  case h_12 => exact numbered
  all_goals
    rw [now] at writer
    exact ⟨numbered.tidy, numbered.state, writer⟩

end

/-! ## Reopening -/

/-- The highest id that was given out is registered. -/
def KeepsHighest (s : System κ α) : Prop := s.state.snapshots.KeepsHighest s.issued

/-! ## Runs -/

variable (kids) in
variable (s a) in
/-- The callers do their part, nothing fails, and the store is closed only while the highest id that was
given out is registered. -/
def Settled : Prop :=
  s.Obliging kids a ∧ a.Calm ∧ (a = .reopen → s.KeepsHighest)

lemma Settled.careful (numbered : s.Numbered) (ok : s.Settled kids a) : s.Careful kids a := by
  refine ⟨ok.1, ?_⟩
  cases a with
  | fail | crash => exact ok.2.1.elim
  | truncateTail => exact numbered.tidy
  | _ => trivial

/-- The readers after a step. -/
lemma counts_act (good : s.Good kids v v') (counts : s.readers.Counts s.reads) (calm : a.Calm) :
    (s.act a).readers.Counts (s.act a).reads := by
  have onTxn : ∀ call, (s.onTxn call).readers.Counts (s.onTxn call).reads := fun call => by
    rw [System.onTxn]
    split <;> exact counts
  cases a with
  | beginRead => exact counts.register _
  | registerRead i =>
    rw [act]
    split
    · exact counts.register _
    · exact counts
  | release i =>
    rw [act]
    split
    · next found => exact counts.release found
    · exact counts
  | reopen =>
    rw [act]
    split
    · next idle _ _ =>
      rw [opened, (good.of_idle idle).load_eq]
      exact ⟨fun t => rfl, fun t found => by cases found⟩
    · exact counts
  | fail fate | crash fates => exact calm.elim
  | findSnapshot id | beginWrite | rollback =>
    rw [act]
    split <;> exact counts
  | loadRoots i | commit | truncateTail =>
    rw [act]
    split
    · split <;> exact counts
    · exact counts
  | advance =>
    rw [act, System.advance]
    split <;> exact counts
  | _ => exact onTxn _

/-- The ids after a step. -/
lemma Numbered.act (good : s.Good kids v v') (numbered : s.Numbered) (ok : s.Settled kids a) :
    (s.act a).Numbered := by
  have reading : Reading a → (s.act a).Numbered := fun reading => by
    obtain ⟨readers, reads, openings, same⟩ := exists_act_of_reading (s := s) reading
    rw [same]
    exact ⟨numbered.tidy, numbered.state, numbered.writer⟩
  cases a with
  | beginRead | findSnapshot id | loadRoots i | registerRead i | release i => exact reading trivial
  | beginWrite =>
    rw [System.act]
    split
    · refine ⟨numbered.tidy, numbered.state, ?_⟩
      dsimp only [WriteTxn.start]
      rw [append_nil]
      exact numbered.state
    · exact numbered
  | rollback =>
    rw [System.act]
    split
    · exact ⟨numbered.tidy, numbered.state, trivial⟩
    · exact numbered
  | alloc =>
    rw [System.act]
    refine .onTxn_of_eq numbered fun w h => ?_
    cases done : w.alloc s.capacity with
    | ok pair => exact ⟨congrArg snd (alloc_outlook done), rfl⟩
    | error => exact ⟨rfl, rfl⟩
  | free p =>
    rw [System.act]
    exact .onTxn_of_eq numbered fun w h => ⟨congrArg snd free_outlook, Handled.created_free⟩
  | write p page =>
    rw [System.act]
    refine .onTxn_of_eq numbered fun w h => ?_
    cases done : w.write p (.data page) with
    | ok w' => exact ⟨congrArg snd (write_outlook done), rfl⟩
    | error => exact ⟨rfl, rfl⟩
  | cow p =>
    rw [System.act]
    refine .onTxn_of_eq numbered fun w h => ?_
    cases done : w.cow s.file s.capacity p with
    | ok pair => exact ⟨congrArg snd (cow_outlook done), Handled.created_free⟩
    | error => exact ⟨rfl, rfl⟩
  | setRoot key root | removeRoot key =>
    rw [System.act]
    exact .onTxn_of_eq numbered fun w h => ⟨rfl, rfl⟩
  | createSnapshot expiresAt name pinned =>
    rw [System.act]
    refine .onTxn numbered fun w h tallies => ?_
    have created := tallies.create w.base.txnId (w.base.rootRecords.getD 0) expiresAt name pinned
    rwa [append_assoc] at created
  | dropSnapshot id =>
    rw [System.act]
    exact .onTxn numbered fun w h tallies => tallies.remove id
  | expireSnapshots now =>
    rw [System.act]
    exact .onTxn numbered fun w h tallies => tallies.expire now
  | setCatalog entries =>
    rw [System.act]
    exact .onTxn_of_eq numbered fun w h => ⟨congrArg snd setCatalog_outlook, rfl⟩
  | commit => exact numbered.commit
  | truncateTail => exact numbered.truncateTail
  | advance => exact numbered.advance
  | fail fate | crash fates => exact ok.2.1.elim
  | reopen =>
    rw [System.act]
    split
    · next idle _ _ =>
      rw [System.opened, (good.of_idle idle).load_eq]
      refine ⟨numbered.tidy, ?_, trivial⟩
      rw [StoreState.reloaded, numbered.state.fromEntries_iff.2 (ok.2.2 rfl)]
      exact numbered.state
    · exact numbered

variable (kids) in
/-- What holds of a store that nothing has happened to. -/
def Unbroken (s : System κ α) : Prop := (∃ v v', s.Good kids v v') ∧ s.readers.Counts s.reads ∧ s.Numbered

lemma Unbroken.run {capacity : Option Nat} (run : Run System.step (Settled kids) (start capacity : System κ α) s) :
    s.Unbroken kids := by
  refine run.run (P := Unbroken kids) ⟨⟨firstSurvey, firstSurvey, Good.start _⟩, ?_, ?_⟩ fun s a ok unbroken => ?_
  · exact ⟨fun _ => rfl, nofun⟩
  · refine ⟨rfl, ⟨fun snap hs => ?_, fun id hid => ?_, fun id hid => ?_, .inl ⟨rfl, rfl⟩⟩, trivial⟩
    · cases hs
    · cases hid
    · cases hid
  · obtain ⟨⟨v, v', good⟩, counts, numbered⟩ := unbroken
    refine ⟨good.step (ok.careful numbered), ?_⟩
    rw [good.step_eq]
    exact ⟨counts_act good counts ok.2.1, numbered.act good ok⟩

/-- A store that is closed and opened again is the one that was closed, exactly if the highest snapshot
id that was given out is still registered. No snapshot that is created gets an id that was used. -/
theorem reopening_is_invisible {capacity : Option Nat}
    (run : Run System.step (Settled kids) (start capacity : System κ α) s) :
    (s.writer = .idle → s.reads = [] → s.openings = [] → (s.step .reopen = s ↔ s.KeepsHighest)) ∧
      ∀ w h expiresAt name pinned, s.writer = .writing w h →
        (w.createSnapshot expiresAt name pinned).1.id ∉ s.issued ++ h.created := by
  obtain ⟨⟨v, v', good⟩, counts, numbered⟩ := Unbroken.run run
  refine ⟨fun idle reads openings => ?_, fun w h expiresAt name pinned writing => ?_⟩
  · have load := (good.of_idle idle).load_eq
    have reopened : s.act .reopen = { s with state := s.state.reloaded } := by
      obtain ⟨disk, capacity, state, readers, _, _, _, past, issued, tidy⟩ := s
      subst idle reads openings
      cases counts.eq_empty
      simp only [act, System.opened, load]
      rfl
    rw [good.step_eq, reopened, KeepsHighest, ← numbered.state.fromEntries_iff]
    refine ⟨fun same => congrArg (fun s => s.state.snapshots) same, fun same => ?_⟩
    rw [StoreState.reloaded, same]
  · have tallies := numbered.writer
    rw [writing] at tallies
    exact fun mem => (tallies.below _ mem).false

section Checking

def settledTest (kids : α → List Nat) (s : System κ α) (a : Action κ α) : Bool :=
  s.obligingTest kids a && calmTest a &&
    match a with
    | .reopen => s.issued.all fun id => s.state.snapshots.snaps.any fun snap => id ≤ snap.id
    | _ => true

lemma settled_of_test (test : s.settledTest kids a = true) : s.Settled kids a := by
  unfold settledTest at test
  rw [Bool.and_eq_true, Bool.and_eq_true] at test
  refine ⟨obliging_of_test test.1.1, calm_of_test test.1.2, ?_⟩
  rintro rfl id hid
  have kept := all_eq_true.1 test.2 id hid
  simpa using kept

/-- The ids that the transaction under way has given out. -/
def givenOut (s : System κ α) : List Nat :=
  match s.writer with
  | .writing _ h => h.created
  | _ => []

end Checking

/-- The page is replaced, and the snapshot is still there. -/
def kept : List (Action Nat (List Nat)) := replaced ++ replicate 8 .advance

theorem reopening_is_invisible_kept : (after none kept).state.snapshots.snaps.map Snapshot.id = [1] ∧
    (after none kept).step .reopen = after none kept := by
  have run : Run System.step (Settled id) (start none) (after none kept) :=
    Run.play (settledTest id) _ (by decide +kernel) fun _ _ => settled_of_test
  have keeps : settledTest id (after none kept) .reopen = true := by decide +kernel
  exact ⟨by decide +kernel, ((reopening_is_invisible run).1 rfl rfl rfl).2 ((settled_of_test keeps).2.2 rfl)⟩

/-- A snapshot is created by one transaction and dropped by the next. -/
def droppedLast : List (Action Nat (List Nat)) :=
  flatten [[.beginWrite, .createSnapshot 0 [] false, .commit], replicate 8 .advance,
    [.beginWrite, .dropSnapshot 1, .commit], replicate 8 .advance]

theorem dropped_id_given_out_again :
    Run System.step (fun s a => s.Obliging id a ∧ a.Calm) (start none) (after none droppedLast) ∧
      (after none droppedLast).issued = [1] ∧
      (after none (droppedLast ++ [.beginWrite, .createSnapshot 0 [] false])).givenOut = [2] ∧
      (after none (droppedLast ++ [.reopen, .beginWrite, .createSnapshot 0 [] false])).givenOut = [1] := by
  refine ⟨Run.play (fun s a => s.obligingTest id a && calmTest a) _ (by decide +kernel) fun s a test => ?_, ?_⟩
  · rw [Bool.and_eq_true] at test
    exact ⟨obliging_of_test test.1, calm_of_test test.2⟩
  · decide +kernel

end System

end BigDb.Pager
