import BigDb.Lib.Runs
import BigDb.Pager.Trimming

/-!
# Stores in use

The invariant of a store and those who use it. It holds as long as the callers of a transaction keep to
copy-on-write, no operation fails from the meta page on, and a commit or a truncation is interrupted only
where that does no harm. Each step also keeps whatever is not older than the free pages that are being
taken, which is what readers rely on.
-/

namespace BigDb.Pager
open Lib Function List Bool
variable {κ α : Type} [LinearOrder κ] (kids : α → List Nat)

/-- For every snapshot one that is as old is kept. -/
def KeepsOldest (σ σ' : StoreState κ) : Prop :=
  ∀ snap ∈ σ.snapshots.snaps, ∃ snap' ∈ σ'.snapshots.snaps, snap'.txnId ≤ snap.txnId

namespace System
variable (s : System κ α)

/-- A page of the trees that the store has. -/
def InTree (p : Nat) : Prop := Tree kids s.file s.state.roots.values p

/-- A page that the callers of a transaction may unlink, or leave in the trees. -/
def Theirs (h : Handled) (p : Nat) : Prop :=
  p ∈ h.owned ∨ (s.InTree kids p ∧ p ∉ h.unlinked)

/-- The callers of a transaction write to pages they were given, free what is theirs, and leave no page
in the trees that is not. -/
def Heeds : Action κ α → Prop
  | .write p _ => ∀ w h, s.writer = .writing w h → p ∈ h.owned
  | .free p | .cow p => ∀ w h, s.writer = .writing w h → s.Theirs kids h p
  | .commit => ∀ w h, s.writer = .writing w h → ∀ p, Tree kids (w.seen s.file) w.roots.values p → s.Theirs kids h p
  | _ => True

/-- A commit may fail before it writes the meta page, and may be cut short by a crash, unless the
snapshots it drops are the oldest ones. A crash during a truncation may not tear the chain of the free
list, and no truncation follows it before the next commit. -/
def Bears : Action κ α → Prop
  | .fail _ =>
    match s.writer with
    | .committing _ _ c stage => (stage = .grow ∨ ∃ rest, stage = .pages rest) ∧ KeepsOldest s.state c.state
    | .truncating .. => False
    | _ => True
  | .crash fates =>
    match s.writer with
    | .committing _ _ c stage => stage = .publish ∨ KeepsOldest s.state c.state
    | .truncating c _ => Trimming.Untorn c s.disk fates
    | _ => True
  | .truncateTail => s.tidy = true
  | _ => True

/-- Every page has a number. -/
def Fits : Prop :=
  s.file.length ≤ 2 ^ 32 ∧
    match s.writer with
    | .writing w _ => w.supply.nextPgno ≤ 2 ^ 32
    | .committing _ _ c _ => c.state.info.pageCount ≤ 2 ^ 32
    | _ => True

/-- What the callers owe the store. -/
def Obliging (a : Action κ α) : Prop := s.Heeds kids a ∧ (s.step a).Fits

def Careful (a : Action κ α) : Prop := s.Obliging kids a ∧ s.Bears a

/-- No transaction before it may still be read by someone whose pages are taken. -/
def reach : Nat :=
  match s.writer with
  | .writing w _ => w.horizon
  | .committing w _ c _ => max w.horizon c.horizon
  | .truncating c _ => c.horizon
  | _ => 0

def held (s : System κ α) (v v' : Survey κ α) : StoreState κ × Survey κ α :=
  match s.writer with
  | .truncating c stage => stage.held s.state v c v'
  | _ => (s.state, v)

/-- The invariant. `v` surveys the state in memory, `v'` the one that a commit or a truncation makes. -/
def Good (v v' : Survey κ α) : Prop :=
  match s.writer with
  | .idle => Standing kids s.past s.disk s.state v 0 s.tidy
  | .writing w h => Standing kids s.past s.disk s.state v 0 s.tidy ∧ Draft kids s.file s.state v w h
  | .committing w _ c stage => Prepared kids s.past s.state v (max w.horizon c.horizon) c v' ∧
    Progress kids s.past s.disk s.state v (max w.horizon c.horizon) s.tidy c v' stage
  | .truncating c stage => Cut kids s.past s.state v c v' ∧ Narrowing kids s.past s.disk s.state v c v' stage
  | .closed => False

/-- What transaction `t` wrote is safe. -/
def Safe (v v' : Survey κ α) (t : Nat) (img : Image κ α) : Prop :=
  Guard kids s.past s.file (s.held v v').1 (s.held v v').2 t img

/-- What a step has to keep. -/
def Onward (s s' : System κ α) (v v' : Survey κ α) : Prop :=
  ∃ u u', s'.Good kids u u' ∧ ∀ t img, s.Safe kids v v' t img → s.reach ≤ t → s'.Safe kids u u' t img

variable {kids} {s s' : System κ α} {a : Action κ α} {v v' : Survey κ α}

lemma Onward.refl (good : s.Good kids v v') : Onward kids s s v v' := ⟨v, v', good, fun _ _ safe _ => safe⟩

lemma Good.step_eq (good : s.Good kids v v') : s.step a = s.act a := by
  rw [Good] at good
  rw [step]
  split
  · next closed =>
    rw [closed] at good
    exact good.elim
  · rfl

/-! ## Reading -/

section
variable (good : s.Good kids v v')
include good

lemma Good.findSnapshot (id : Nat) : (s.act (.findSnapshot id)).Good kids v v' := by
  rw [act]
  split <;> exact good

lemma Good.loadRoots (i : Nat) : (s.act (.loadRoots i)).Good kids v v' := by
  rw [act]
  split
  · split <;> exact good
  · exact good

lemma Good.registerRead (i : Nat) : (s.act (.registerRead i)).Good kids v v' := by
  rw [act]
  split <;> exact good

lemma Good.release (i : Nat) : (s.act (.release i)).Good kids v v' := by
  rw [act]
  split <;> exact good

end

/-! ## Writing -/

section Writing
variable {w : WriteTxn κ α} {h : Handled}

lemma Good.of_idle (good : s.Good kids v v') (idle : s.writer = .idle) :
    Standing kids s.past s.disk s.state v 0 s.tidy := by
  rwa [Good, idle] at good

lemma Good.of_writing (good : s.Good kids v v') (writing : s.writer = .writing w h) :
    Standing kids s.past s.disk s.state v 0 s.tidy ∧ Draft kids s.file s.state v w h := by
  rwa [Good, writing] at good

lemma Good.theirs (core : Core kids s.past s.file s.state v) {p : Nat} (theirs : s.Theirs kids h p) :
    h.MayFree kids v p := by
  refine theirs.imp_right (And.imp_left fun tree => ?_)
  have same := core.guard.tree (p := p)
  rw [core.same.1] at same
  exact same.1 tree

variable {call : WriteTxn κ α → Handled → WriteTxn κ α × Handled}

lemma Onward.onTxn (good : s.Good kids v v')
    (keeps : ∀ w h, s.writer = .writing w h → Core kids s.past s.file s.state v → Draft kids s.file s.state v w h →
      Draft kids s.file s.state v (call w h).1 (call w h).2) :
    Onward kids s (s.onTxn call) v v' := by
  rw [System.onTxn]
  split
  · next w h writing =>
    obtain ⟨st, draft⟩ := good.of_writing writing
    refine ⟨v, v', ⟨st, keeps w h writing st.core draft⟩, fun t img safe _ => ?_⟩
    rwa [Safe, held, writing] at safe
  · exact .refl good

lemma Fits.onTxn (fits : (s.onTxn call).Fits)
    (writing : s.writer = .writing w h) : (call w h).1.supply.nextPgno ≤ 2 ^ 32 := by
  rw [System.onTxn, writing] at fits
  exact fits.2

section
variable (good : s.Good kids v v')
include good

lemma Onward.alloc (fits : (s.act .alloc).Fits) : Onward kids s (s.act .alloc) v v' := by
  refine .onTxn good fun w h writing core draft => ?_
  have room := Fits.onTxn fits writing
  cases done : w.alloc s.capacity with
  | ok pair =>
    rw [done] at room
    exact draft.alloc done room
  | error => exact draft

variable {p : Nat}

lemma Onward.free (heeds : s.Heeds kids (.free p)) : Onward kids s (s.act (.free p)) v v' :=
  .onTxn good fun w h writing core draft => draft.free core (Good.theirs core (heeds w h writing))

lemma Onward.write {a : α} (heeds : s.Heeds kids (.write p a)) : Onward kids s (s.act (.write p a)) v v' := by
  refine .onTxn good fun w h writing core draft => ?_
  cases done : w.write p (.data a) with
  | ok w' => exact draft.write (heeds w h writing) done
  | error => exact draft

lemma Onward.cow (heeds : s.Heeds kids (.cow p)) (fits : (s.act (.cow p)).Fits) :
    Onward kids s (s.act (.cow p)) v v' := by
  refine .onTxn good fun w h writing core draft => ?_
  have room := Fits.onTxn fits writing
  cases done : w.cow s.file s.capacity p with
  | ok pair =>
    rw [done] at room
    exact draft.cow core (Good.theirs core (heeds w h writing)) done room
  | error => exact draft

end

section
variable (good : s.Good kids v v')
include good

lemma Onward.setRoot (key : κ) (root : Nat) : Onward kids s (s.act (.setRoot key root)) v v' :=
  .onTxn good fun _ _ _ _ draft => draft.setRoot key root

lemma Onward.removeRoot (key : κ) : Onward kids s (s.act (.removeRoot key)) v v' :=
  .onTxn good fun _ _ _ _ draft => draft.removeRoot key

lemma Onward.createSnapshot (expiresAt : Nat) (name : List UInt8) (pinned : Bool) :
    Onward kids s (s.act (.createSnapshot expiresAt name pinned)) v v' :=
  .onTxn good fun _ _ _ core draft => draft.createSnapshot core expiresAt name pinned _

lemma Onward.dropSnapshot (id : Nat) : Onward kids s (s.act (.dropSnapshot id)) v v' :=
  .onTxn good fun _ _ _ _ draft => draft.dropSnapshot id

lemma Onward.expireSnapshots (now : Nat) : Onward kids s (s.act (.expireSnapshots now)) v v' :=
  .onTxn good fun _ _ _ _ draft => draft.expireSnapshots now

lemma Onward.setCatalog (entries : List Record) : Onward kids s (s.act (.setCatalog entries)) v v' :=
  .onTxn good fun _ _ _ _ draft => draft.setCatalog entries

lemma Onward.beginWrite (fits : (s.act .beginWrite).Fits) : Onward kids s (s.act .beginWrite) v v' := by
  rw [act] at fits ⊢
  split at fits <;> rename_i idle
  · refine ⟨v, v', ⟨good.of_idle idle, .start fits.1⟩, fun t img safe _ => ?_⟩
    rwa [Safe, held, idle] at safe
  · exact .refl good

lemma Onward.rollback : Onward kids s (s.act .rollback) v v' := by
  rw [act]
  split <;> rename_i writing
  · refine ⟨v, v', (good.of_writing writing).1, fun t img safe _ => ?_⟩
    rwa [Safe, held, writing] at safe
  · exact .refl good

end

lemma past_before (past : Nat → Option (Image κ α)) (img : Option (Image κ α)) {t next : Nat} (later : next = t + 1) :
    ∀ t' ≤ t, update past next img t' = past t' := fun _ le =>
  update_of_ne (by omega) _ _

/-- A commit begins, or is given up. -/
lemma Onward.commit (good : s.Good kids v v') (heeds : s.Heeds kids .commit) (fits : (s.act .commit).Fits) :
    Onward kids s (s.act .commit) v v' := by
  rw [act] at fits ⊢
  split at fits <;> rename_i writing
  · obtain ⟨st, draft⟩ := good.of_writing writing
    have safe : ∀ {t img}, s.Safe kids v v' t img → Guard kids s.past s.file s.state v t img := fun safe => by
      rwa [Safe, held, writing] at safe
    split at fits <;> rename_i c done
    · obtain ⟨v₁, image, ready⟩ := prepared st.core draft st.chain
        (fun p tree => Good.theirs st.core (heeds _ _ writing p tree)) done fits.2
      have same := past_before s.past (some (c.image s.file)) ready.txnId
      refine ⟨v, v₁, ⟨ready, (st.of_past same).loosen (Nat.zero_le _), ?_⟩, fun t img h _ => ?_⟩
      · rw [image]
        rfl
      · exact (safe h).of_past (same t (safe h).le)
    · exact ⟨v, v', st, fun t img h _ => safe h⟩
  · exact .refl good

/-- A truncation begins, or finds nothing to do. -/
lemma Onward.truncateTail (good : s.Good kids v v') (bears : s.Bears .truncateTail) :
    Onward kids s (s.act .truncateTail) v v' := by
  rw [act]
  split <;> rename_i idle _
  · have st := good.of_idle idle
    have tidy : s.tidy = true := bears
    rw [tidy] at st
    have safe : ∀ {t img}, s.Safe kids v v' t img → Guard kids s.past s.file s.state v t img := fun safe => by
      rwa [Safe, held, idle] at safe
    split <;> rename_i done
    · obtain ⟨v₁, image, cut⟩ := st.cut done
      have same := past_before s.past (some v₁.image) cut.txnId
      rw [image] at same cut
      refine ⟨v, v₁, ⟨cut, (st.of_past same).trimming ?_⟩, fun t img h _ => ?_⟩
      · rw [image]
      · exact (safe h).of_past (same t (safe h).le)
    · exact .refl good
  · exact .refl good

end Writing

/-! ## Commits and truncations under way -/

section Advancing
variable {w : WriteTxn κ α} {h : Handled} {c : Change κ α}

lemma Good.of_committing {stage : CommitStage κ α} (good : s.Good kids v v')
    (committing : s.writer = .committing w h c stage) : Prepared kids s.past s.state v (max w.horizon c.horizon) c v' ∧
      Progress kids s.past s.disk s.state v (max w.horizon c.horizon) s.tidy c v' stage := by
  rwa [Good, committing] at good

variable {stage : TruncateStage κ α} {d : Disk (Page κ α)}

lemma Good.of_truncating (good : s.Good kids v v') (truncating : s.writer = .truncating c stage) :
    Cut kids s.past s.state v c v' ∧ Narrowing kids s.past s.disk s.state v c v' stage := by
  rwa [Good, truncating] at good

lemma advance_committing {stage stage' : CommitStage κ α}
    (committing : s.writer = .committing w h c stage) (next : stage.next c s.disk = some (d, stage')) :
    s.advance = { s with disk := d, writer := .committing w h c stage' } := by
  rw [advance, committing]
  cases stage with
  | grow | flip | confirm => cases next; rfl
  | pages rest =>
    cases rest with
    | nil | cons => cases next; rfl
  | publish => cases next

lemma advance_published (committing : s.writer = .committing w h c .publish) : s.advance = { s with
      state := c.state, writer := .idle, issued := s.issued ++ h.created, tidy := true } := by
  rw [advance, committing]

lemma advance_truncated (truncating : s.writer = .truncating c .publish) :
    s.advance = { s with state := c.state, writer := .idle } := by
  rw [advance, truncating]

lemma advance_truncating {stage stage' : TruncateStage κ α}
    (truncating : s.writer = .truncating c stage) (next : stage.next c s.disk = some (d, stage')) :
    s.advance = { s with disk := d, writer := .truncating c stage' } := by
  rw [advance, truncating]
  cases stage with
  | pages rest =>
    cases rest with
    | nil | cons => cases next; rfl
  | confirm | cut => cases next; rfl
  | publish => cases next

lemma Onward.committing {stage : CommitStage κ α} (good : s.Good kids v v')
    (committing : s.writer = .committing w h c stage) : Onward kids s s.advance v v' := by
  obtain ⟨ready, progress⟩ := good.of_committing committing
  have safe : ∀ {t img}, s.Safe kids v v' t img → Guard kids s.past s.file s.state v t img := fun safe => by
    rwa [Safe, held, committing] at safe
  have newer : ∀ {t}, s.reach ≤ t → max w.horizon c.horizon ≤ t := fun le => by
    rwa [reach, committing] at le
  cases next : stage.next c s.disk with
  | some pair =>
    obtain ⟨d, stage'⟩ := pair
    rw [advance_committing committing next]
    exact ⟨v, v', ⟨ready, progress.next ready next⟩, fun t img held le => progress.carry ready next (safe held) (newer le)⟩
  | none =>
    cases stage with
    | publish =>
      rw [advance_published committing]
      refine ⟨v', v', progress.done ready, fun t img held le => ?_⟩
      exact (safe held).commit progress.sound.core ready (newer le)
    | grow | flip | confirm => cases next
    | pages rest => cases rest <;> cases next

lemma Onward.truncating (good : s.Good kids v v')
    (truncating : s.writer = .truncating c stage) : Onward kids s s.advance v v' := by
  obtain ⟨cut, narrowing⟩ := good.of_truncating truncating
  have safe : ∀ {t img}, s.Safe kids v v' t img →
      Guard kids s.past s.file (stage.held s.state v c v').1 (stage.held s.state v c v').2 t img := fun safe => by
    rwa [Safe, held, truncating] at safe
  have newer : ∀ {t}, s.reach ≤ t → c.horizon ≤ t := fun le => by
    rwa [reach, truncating] at le
  cases next : stage.next c s.disk with
  | some pair =>
    obtain ⟨d, stage'⟩ := pair
    rw [advance_truncating truncating next]
    exact ⟨v, v', ⟨cut, narrowing.next cut next⟩, fun t img held le => narrowing.carry cut next (safe held) (newer le)⟩
  | none =>
    cases stage with
    | publish =>
      rw [advance_truncated truncating]
      exact ⟨v', v', narrowing.1.tidy_le fun _ => rfl, fun t img held le => safe held⟩
    | pages rest => cases rest <;> cases next
    | confirm | cut => cases next

lemma Onward.advance (good : s.Good kids v v') : Onward kids s s.advance v v' := by
  cases writer : s.writer with
  | committing w h c stage => exact .committing good writer
  | truncating c stage => exact .truncating good writer
  | idle | writing | closed =>
    rw [System.advance, writer]
    exact .refl good

end Advancing

/-! ## Failures, crashes and reopening -/

section Interrupted
variable {w : WriteTxn κ α} {h : Handled} {c : Change κ α}

section
variable (good : s.Good kids v v')
include good

lemma KeepsOldest.reach_le {stage : CommitStage κ α}
    (committing : s.writer = .committing w h c stage) (keeps : KeepsOldest s.state c.state) :
    ∀ snap ∈ s.state.snapshots.snaps, max w.horizon c.horizon ≤ snap.txnId := by
  obtain ⟨ready, -⟩ := good.of_committing committing
  intro snap hs
  obtain ⟨snap', hs', older⟩ := keeps snap hs
  exact ready.behind snap hs ((ready.kept snap' hs').trans older)

/-- A commit that fails early leaves the store as it was. -/
lemma Good.fail (fate : Fate (Page κ α)) (bears : s.Bears (.fail fate)) : ∃ u u', (s.fail fate).Good kids u u' := by
  cases writer : s.writer with
  | idle | writing w h | closed =>
    rw [System.fail, writer]
    exact ⟨v, v', good⟩
  | truncating c stage => simp only [Bears, writer] at bears
  | committing w h c stage =>
    simp only [Bears, writer] at bears
    obtain ⟨early, keeps⟩ := bears
    obtain ⟨ready, progress⟩ := good.of_committing writer
    have next : ∀ o ∈ s.nextOp, o = .resize c.state.info.pageCount ∨ ∃ x ∈ c.out, o = .write x.1 x.2 := by
      intro o ho
      rw [nextOp, writer] at ho
      rcases early with rfl | ⟨rest, rfl⟩
      · simp only at ho
        split_ifs at ho
        · cases ho
          exact .inl rfl
        · cases ho
      · cases rest with
        | nil => cases ho
        | cons x rest =>
          cases ho
          exact .inr ⟨x, progress.2.2.1 x mem_cons_self, rfl⟩
    have st := progress.stop ready fate early (KeepsOldest.reach_le good writer keeps) next
    refine ⟨v, v', ?_⟩
    have done : s.fail fate = { s with
        disk := ((s.nextOp.bind (fate.leaves spoil)).map s.disk.perform).getD s.disk, writer := .idle } := by
      rw [System.fail, writer]
      rcases early with rfl | ⟨rest, rfl⟩ <;> rfl
    rw [done]
    exact st

/-- Closing and opening the store finds the state again. -/
lemma Onward.reopen : Onward kids s (s.act .reopen) v v' := by
  rw [act]
  split <;> rename_i idle _ _
  · have st := good.of_idle idle
    rw [opened, st.load_eq]
    refine ⟨v, v', st.reloaded, fun t img safe _ => ?_⟩
    rw [Safe, held, idle] at safe
    exact { safe with }
  · exact .refl good

omit good in
lemma exists_of_isTruncating {w : Writer κ α} (test : w.isTruncating = true) :
    ∃ c stage, w = .truncating c stage := by
  cases w with
  | truncating c stage => exact ⟨c, stage, rfl⟩
  | _ => cases test

omit good in
/-- What a crash leaves is opened. -/
lemma Good.opened {fates : List (Fate (Page κ α))} {τ : StoreState κ} {u : Survey κ α} {tidy : Bool}
    (found : Found kids s.past (s.disk.crash spoil fates) τ u 0 tidy)
    (le : (s.tidy && !s.writer.isTruncating) = true → tidy = true) : ∃ u u', (s.crash fates).Good kids u u' := by
  have load : load (Disk.of (s.disk.crash spoil fates)).view = .ok τ.reloaded := found.load_eq
  have st := found.reloaded.rebase.tidy_le le
  have done : s.opened (.of (s.disk.crash spoil fates)) = { s with
      disk := .of (s.disk.crash spoil fates), state := τ.reloaded
      readers := .empty, reads := [], openings := [], writer := .idle } := by
    rw [System.opened, load]
  rw [System.crash, done]
  exact ⟨_, u, st⟩

/-- A crash that comes during no truncation leaves the state in memory, or the one being committed. -/
lemma Good.survives (fates : List (Fate (Page κ α))) (bears : s.Bears (.crash fates))
    (whole : s.writer.isTruncating = false) : Standing kids s.past (.of (s.disk.crash spoil fates)) s.state v 0 s.tidy ∨
      ∃ w h c stage, s.writer = .committing w h c stage ∧
        Standing kids s.past (.of (s.disk.crash spoil fates)) c.state v' 0 true := by
  cases writer : s.writer with
  | idle => exact .inl ((good.of_idle writer).crash fates)
  | writing w h => exact .inl ((good.of_writing writer).1.crash fates)
  | closed =>
    rw [Good, writer] at good
    exact good.elim
  | committing w h c stage =>
    simp only [Bears, writer] at bears
    obtain ⟨ready, progress⟩ := good.of_committing writer
    rcases progress.crash ready fates with ⟨old, unpublished⟩ | new
    · exact .inl (old.tighten (KeepsOldest.reach_le good writer (bears.resolve_left unpublished)))
    · exact .inr ⟨w, h, c, stage, rfl, new⟩
  | truncating c stage =>
    rw [writer] at whole
    cases whole

lemma Good.crash (fates : List (Fate (Page κ α))) (bears : s.Bears (.crash fates)) :
    ∃ u u', (s.crash fates).Good kids u u' := by
  cases truncating : s.writer.isTruncating with
  | false =>
    rcases good.survives fates bears truncating with old | ⟨-, -, c, -, -, new⟩
    · exact Good.opened old.toFound fun both => (and_eq_true_iff.1 both).1
    · exact Good.opened new.toFound fun _ => rfl
  | true =>
    obtain ⟨c, stage, writer⟩ := exists_of_isTruncating truncating
    simp only [Bears, writer] at bears
    obtain ⟨cut, narrowing⟩ := good.of_truncating writer
    obtain ⟨τ, u, -, found, -⟩ := narrowing.crash cut bears
    exact Good.opened found (by simp [truncating])

end

end Interrupted

/-! ## Runs -/

/-- The survey of a new file. -/
def firstSurvey : Survey κ α := ⟨⟨[], [], [], []⟩, ⟨initialState, initialDisk.view⟩, metaPages⟩

variable {capacity : Option Nat}

lemma Good.start (v' : Survey κ α) : (start capacity : System κ α).Good kids firstSurvey v' := by
  have tree : ∀ p, ¬(firstSurvey : Survey κ α).image.InTree kids p := by
    rintro p ⟨root, none, -⟩
    cases none
  have core : Core kids (System.start capacity : System κ α).past initialDisk.view initialState firstSurvey := by
    refine ⟨.nil, .nil, .nil, rfl, rfl, ⟨rfl, rfl⟩, fun _ _ => rfl, fun p => ?_, fun p hp => ?_, le_rfl, le_rfl, ?_, .nil⟩
    · rw [tally, flag_neg (tree p)]
      by_cases low : p < metaPages
      · have inside : p < (firstSurvey : Survey κ α).bound := low
        rw [flag_pos low, if_pos inside]
        exact le_rfl
      · have outside : ¬p < (firstSurvey : Survey κ α).bound := low
        rw [flag_neg low, if_neg outside]
        exact le_rfl
    · exact hp.elim (fun chain => by cases chain) fun inTree => (tree p inTree).elim
    · exact fun _ hx => by cases hx
  have listing : Listing initialDisk.view initialState (firstSurvey : Survey κ α) true :=
    ⟨.nil, fun _ x hx => (by cases hx), fun _ r hr => (by cases hr)⟩
  exact ⟨⟨⟨core, fun _ hs => (by cases hs)⟩, listing, ⟨rfl, fun m h => (by cases h)⟩⟩, fun _ hp => (by cases hp),
    le_rfl, fun _ hop => (by cases hop)⟩

/-- One step of a store in use. -/
lemma Good.step (good : s.Good kids v v') (careful : s.Careful kids a) : ∃ u u', (s.step a).Good kids u u' := by
  obtain ⟨⟨heeds, fits⟩, bears⟩ := careful
  rw [good.step_eq] at fits ⊢
  have onward : ∀ {s'}, Onward kids s s' v v' → ∃ u u', s'.Good kids u u' := fun ⟨u, u', good, _⟩ => ⟨u, u', good⟩
  cases a with
  | beginRead => exact ⟨v, v', good⟩
  | findSnapshot id => exact ⟨v, v', good.findSnapshot id⟩
  | loadRoots i => exact ⟨v, v', good.loadRoots i⟩
  | registerRead i => exact ⟨v, v', good.registerRead i⟩
  | release i => exact ⟨v, v', good.release i⟩
  | beginWrite => exact onward (.beginWrite good fits)
  | alloc => exact onward (.alloc good fits)
  | free p => exact onward (.free good heeds)
  | write p a => exact onward (.write good heeds)
  | cow p => exact onward (.cow good heeds fits)
  | setRoot key root => exact onward (.setRoot good key root)
  | removeRoot key => exact onward (.removeRoot good key)
  | createSnapshot expiresAt name pinned => exact onward (.createSnapshot good expiresAt name pinned)
  | dropSnapshot id => exact onward (.dropSnapshot good id)
  | expireSnapshots now => exact onward (.expireSnapshots good now)
  | setCatalog entries => exact onward (.setCatalog good entries)
  | rollback => exact onward (.rollback good)
  | commit => exact onward (.commit good heeds fits)
  | truncateTail => exact onward (.truncateTail good bears)
  | advance => exact onward (.advance good)
  | fail fate => exact good.fail fate bears
  | reopen => exact onward (.reopen good)
  | crash fates => exact good.crash fates bears

/-- Whatever is done carefully with a new store keeps it good. -/
lemma Good.run (run : Run System.step (Careful kids) (System.start capacity : System κ α) s) :
    ∃ v v', s.Good kids v v' := by
  refine run.run (P := fun s => ∃ v v', s.Good kids v v') ⟨firstSurvey, firstSurvey, Good.start _⟩ ?_
  rintro s a careful ⟨v, v', good⟩
  exact good.step careful

/-! ## Runs that can be checked -/

section Checking

instance (σ σ' : StoreState κ) : Decidable (KeepsOldest σ σ') :=
  inferInstanceAs (Decidable (∀ snap ∈ σ.snapshots.snaps, ∃ snap' ∈ σ'.snapshots.snaps, snap'.txnId ≤ snap.txnId))

variable (kids)

def treePages (file : List (Page κ α)) (roots : List Nat) : List Nat := explore (links kids file) file.length roots

section
variable (s : System κ α)

def theirsTest (h : Handled) (p : Nat) : Bool :=
  h.owned.contains p || ((treePages kids s.file s.state.roots.values).contains p && !h.unlinked.contains p)

def heedsTest : Action κ α → Bool
  | .write p _ =>
    match s.writer with
    | .writing _ h => h.owned.contains p
    | _ => true
  | .free p | .cow p =>
    match s.writer with
    | .writing _ h => s.theirsTest kids h p
    | _ => true
  | .commit =>
    match s.writer with
    | .writing w h =>
      let found := treePages kids (w.seen s.file) w.roots.values
      closedUnder (links kids (w.seen s.file)) found && found.all (s.theirsTest kids h)
    | _ => true
  | _ => true

def bearsTest : Action κ α → Bool
  | .fail _ =>
    match s.writer with
    | .committing _ _ c .grow | .committing _ _ c (.pages _) => decide (KeepsOldest s.state c.state)
    | .committing .. | .truncating .. => false
    | _ => true
  | .crash fates =>
    match s.writer with
    | .committing _ _ c _ => decide (KeepsOldest s.state c.state)
    | .truncating .. => fates.all fun fate => !fate.isTorn
    | _ => true
  | .truncateTail => s.tidy
  | _ => true

def fitsTest : Bool :=
  decide (s.file.length ≤ 2 ^ 32) &&
    match s.writer with
    | .writing w _ => decide (w.supply.nextPgno ≤ 2 ^ 32)
    | .committing _ _ c _ => decide (c.state.info.pageCount ≤ 2 ^ 32)
    | _ => true

end

variable {kids}

lemma theirs_of_test {h : Handled} {p : Nat} (test : s.theirsTest kids h p = true) : s.Theirs kids h p := by
  rw [theirsTest, or_eq_true, and_eq_true, not_eq_true', contains_iff_mem, contains_iff_mem] at test
  refine test.imp_right fun ⟨found, linked⟩ => ⟨reachable_of_mem_explore (fun a ha => .start ha) found, fun mem => ?_⟩
  rw [contains_iff_mem.2 mem] at linked
  cases linked

lemma heeds_of_test (test : s.heedsTest kids a = true) : s.Heeds kids a := by
  cases a with
  | write p page =>
    intro w h writing
    rw [heedsTest, writing] at test
    exact contains_iff_mem.1 test
  | free p | cow p =>
    intro w h writing
    rw [heedsTest, writing] at test
    exact theirs_of_test test
  | commit =>
    intro w h writing p tree
    rw [heedsTest, writing, and_eq_true] at test
    have found := (reachable_iff_mem_explore test.1).1 tree
    exact theirs_of_test (all_eq_true.1 test.2 p found)
  | _ => trivial

lemma fits_of_test (test : s.fitsTest = true) : s.Fits := by
  rw [fitsTest, and_eq_true, decide_eq_true_eq] at test
  refine ⟨test.1, ?_⟩
  have second := test.2
  cases writer : s.writer with
  | writing w h | committing w h c stage =>
    rw [writer] at second
    exact of_decide_eq_true second
  | _ => trivial

lemma bears_of_test (test : s.bearsTest a = true) : s.Bears a := by
  cases a with
  | fail fate =>
    rw [bearsTest] at test
    rw [Bears]
    cases writer : s.writer with
    | committing w h c stage =>
      rw [writer] at test
      cases stage with
      | grow => exact ⟨.inl rfl, of_decide_eq_true test⟩
      | pages rest => exact ⟨.inr ⟨rest, rfl⟩, of_decide_eq_true test⟩
      | flip | confirm | publish => cases test
    | truncating c stage =>
      rw [writer] at test
      cases test
    | _ => trivial
  | crash fates =>
    rw [bearsTest] at test
    rw [Bears]
    cases writer : s.writer with
    | committing w h c stage =>
      rw [writer] at test
      exact .inr (of_decide_eq_true test)
    | truncating c stage =>
      rw [writer] at test
      intro i p content garbage _ torn
      have whole := all_eq_true.1 test _ (mem_of_getElem? torn)
      cases whole
    | _ => trivial
  | truncateTail => exact test
  | _ => trivial

variable (kids)

variable (s a) in
def obligingTest : Bool := s.heedsTest kids a && (s.step a).fitsTest

variable (s a) in
def carefulTest : Bool := s.obligingTest kids a && s.bearsTest a

variable {kids}

lemma obliging_of_test (test : s.obligingTest kids a = true) : s.Obliging kids a := by
  rw [obligingTest, and_eq_true] at test
  exact ⟨heeds_of_test test.1, fits_of_test test.2⟩

lemma careful_of_test (test : s.carefulTest kids a = true) : s.Careful kids a := by
  rw [carefulTest, and_eq_true] at test
  exact ⟨obliging_of_test test.1, bears_of_test test.2⟩

/-- A commit that is under way. -/
def isCommitting (s : System κ α) : Bool :=
  match s.writer with
  | .committing .. => true
  | _ => false

lemma exists_of_isCommitting (test : s.isCommitting = true) : ∃ w h c stage, s.writer = .committing w h c stage := by
  rw [isCommitting] at test
  split at test
  · exact ⟨_, _, _, _, by assumption⟩
  · cases test

def after (capacity : Option Nat) (actions : List (Action κ α)) : System κ α :=
  play step (start capacity) (actions.map fun a _ => a)

/-- A tree of one page, a snapshot of it, and a transaction that replaces the page, up to its commit. Page
numbers are the data of pages here, so that a page names those in it. -/
def replaced : List (Action Nat (List Nat)) :=
  flatten [[.beginWrite, .alloc, .write 2 [], .setRoot 0 2, .commit], replicate 7 .advance,
    [.beginWrite, .createSnapshot 0 [] true, .commit], replicate 6 .advance,
    [.beginWrite, .alloc, .write 5 [], .free 2, .setRoot 0 5, .commit]]

end Checking

end System

end BigDb.Pager
