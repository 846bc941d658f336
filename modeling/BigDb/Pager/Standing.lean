import BigDb.Pager.Plan

/-!
# Stores between two commits

A store stands on its disk if a crash at this moment loses nothing: the file has the state, the state's
meta page is the newer one, and what was done since the last sync touched no page that matters. It is
kept by operations on other pages, by a sync and by a crash; opening the file finds the state again; and
writing the meta page of a commit that is prepared makes it stand on the new state.
-/

namespace BigDb.Pager
open Lib Function
variable {κ α : Type} [LinearOrder κ] (kids : α → List Nat)

variable (past : Nat → Option (Image κ α))

/-- A page whose content matters: it is in use, or belongs to a snapshot not older than `reach`. -/
def Vital (σ : StoreState κ) (v : Survey κ α) (reach p : Nat) : Prop :=
  v.Used kids p ∨ ∃ snap ∈ σ.snapshots.snaps, reach ≤ snap.txnId ∧ ∃ img, past snap.txnId = some img ∧ img.Holds kids p

variable (file : List (Page κ α)) (σ : StoreState κ)

/-- What the file has besides the meta pages and the free list's chain. -/
structure Sound
    (v : Survey κ α) (reach : Nat) : Prop where
  core : Core kids past file σ v
  snaps : ∀ snap ∈ σ.snapshots.snaps, reach ≤ snap.txnId → Readable kids past file σ v snap

/-- The free list's chain. While the store is tidy it is laid out as a commit lays it out, and lists
no page past the end that the meta page has. -/
structure Listing (v : Survey κ α) (tidy : Bool) : Prop where
  chain : Chain (fetch freeFormat file) σ.info.freelist v.layout.freelist σ.freelist.runs
  laid : tidy = true → ∀ x ∈ buildPages freeFormat σ.freelist.runs v.layout.freelist, file[x.1]? = some x.2
  inside : tidy = true → ∀ r ∈ σ.freelist.runs, r.stop ≤ σ.info.pageCount

/-- What opening the file finds. -/
structure Found (v : Survey κ α)
    (reach : Nat) (tidy : Bool) : Prop extends Sound kids past file σ v reach, Listing file σ v tidy where
  slots : Slots file σ.info

/-- The pages that nothing may touch. -/
def Fixed (v : Survey κ α) (reach p : Nat) : Prop :=
  p < metaPages ∨ p ∈ v.layout.freelist ∨ Vital kids past σ v reach p

structure Standing (d : Disk (Page κ α)) (σ : StoreState κ)
    (v : Survey κ α) (reach : Nat) (tidy : Bool) : Prop extends Found kids past d.view σ v reach tidy where
  same : ∀ p ∈ v.layout.freelist, d.view[p]? = v.image.file[p]?
  long : v.bound ≤ d.durable.length
  pending : ∀ op ∈ d.pending, op.Avoids (Fixed kids past σ v reach) ∧ op.Spares v.bound

variable {kids} {past past' : Nat → Option (Image κ α)} {file file' : List (Page κ α)} {d : Disk (Page κ α)}
  {σ} {v : Survey κ α} {reach reach' p : Nat} {tidy : Bool}

/-! ## What stays the same -/

lemma Vital.mono (h : Vital kids past σ v reach p) (le : reach' ≤ reach) : Vital kids past σ v reach' p :=
  h.imp_right fun ⟨snap, hs, newer, img⟩ => ⟨snap, hs, le.trans newer, img⟩

namespace Sound

section
variable (sound : Sound kids past file σ v reach)
include sound

lemma readable_mem {snap : Snapshot} {img : Image κ α}
    (hs : snap ∈ σ.snapshots.snaps) (newer : reach ≤ snap.txnId) (found : past snap.txnId = some img) :
    Guard kids past file σ v snap.txnId img := by
  obtain ⟨-, img', guard, -⟩ := sound.snaps snap hs newer
  cases found.symm.trans guard.image
  exact guard

lemma vital_lt (h : Vital kids past σ v reach p) : metaPages ≤ p ∧ p < σ.info.pageCount := by
  rcases h with used | ⟨snap, hs, newer, img, found, held⟩
  · refine ⟨?_, sound.core.live p used.cases⟩
    exact used.cases.elim (fun chain => (sound.core.of_chain chain).1) fun tree => (sound.core.of_tree tree).1
  · have := (sound.readable_mem hs newer found).safe p held
    exact ⟨this.1, this.2.1⟩

lemma mono (le : reach ≤ reach') : Sound kids past file σ v reach' :=
  { sound with snaps := fun snap hs newer => sound.snaps snap hs (le.trans newer) }

lemma frame (same : ∀ p, Vital kids past σ v reach p → file'[p]? = file[p]?) (long : v.bound ≤ file'.length) :
    Sound kids past file' σ v reach where
  core := sound.core.frame (fun p used => same p (.inl used)) long
  snaps snap hs newer := by
    obtain ⟨older, img, guard, head⟩ := sound.snaps snap hs newer
    exact ⟨older, img, guard.frame fun p held => same p (.inr ⟨snap, hs, newer, img, guard.image, held⟩), head⟩

lemma of_past (same : ∀ t ≤ σ.info.txnId, past' t = past t) : Sound kids past' file σ v reach where
  core := sound.core.of_past (same _ le_rfl)
  snaps snap hs newer := by
    obtain ⟨older, img, guard, head⟩ := sound.snaps snap hs newer
    exact ⟨older, img, guard.of_past (same _ older.le), head⟩

end

end Sound

lemma Listing.frame (listing : Listing file σ v tidy) (same : ∀ p ∈ v.layout.freelist, file'[p]? = file[p]?) :
    Listing file' σ v tidy where
  chain := chain_congr listing.chain same
  laid h x hx := by
    have mine : x.1 ∈ v.layout.freelist := by
      have key := List.mem_map_of_mem (f := Prod.fst) hx
      rwa [keys_buildPages] at key
    exact (same x.1 mine).trans (listing.laid h x hx)
  inside := listing.inside

variable {slot : Nat}

section
variable (low : slot < metaPages)
include low

/-- Writing a meta page changes nothing else. -/
lemma Core.write_low (core : Core kids past file σ v) (page : Page κ α)
    (high : metaPages ≤ p) (inside : p < σ.info.pageCount) : (DiskOp.apply file (.write slot page))[p]? = file[p]? := by
  have := core.counted
  have := core.within
  exact getElem?_write_ne (by omega) (by omega)

lemma Sound.write_low (sound : Sound kids past file σ v reach)
    (page : Page κ α) : Sound kids past (DiskOp.apply file (.write slot page)) σ v reach := by
  refine sound.frame (fun p vital => ?_) ?_
  · obtain ⟨high, inside⟩ := sound.vital_lt vital
    exact sound.core.write_low low page high inside
  · have := sound.core.within
    rw [length_write]
    omega

lemma Core.write_low_free (core : Core kids past file σ v) (page : Page κ α)
    (h : p ∈ v.layout.freelist) : (DiskOp.apply file (.write slot page))[p]? = file[p]? := by
  have chain : p ∈ v.layout.chains := by simp [Layout.chains, Layout.others, h]
  exact core.write_low low page (core.of_chain chain).1 (core.live p (.inl chain))

lemma Guard.write_low {t : Nat} {img : Image κ α} (guard : Guard kids past file σ v t img)
    (core : Core kids past file σ v) (page : Page κ α) :
    Guard kids past (DiskOp.apply file (.write slot page)) σ v t img :=
  guard.frame fun p held => core.write_low low page (guard.safe p held).1 (guard.safe p held).2.1

end

namespace Standing

section
variable (st : Standing kids past d σ v reach tidy)
include st

lemma view_long : v.bound ≤ d.view.length := st.core.within

lemma fixed_lt (h : Fixed kids past σ v reach p) : p < v.bound := by
  have counted := st.core.counted
  rcases h with low | free | vital
  · exact low.trans_le st.core.two_le
  · have := st.core.live p (.inl (by simp [Layout.chains, Layout.others, free]))
    omega
  · have := (st.vital_lt vital).2
    omega

lemma loosen (le : reach ≤ reach') : Standing kids past d σ v reach' tidy :=
  { st with
    toSound := st.toSound.mono le
    pending := fun op hop => (st.pending op hop).imp_left fun avoids => avoids.mono fun _ =>
      Or.imp_right (Or.imp_right fun vital => vital.mono le) }

lemma tidy_le {tidy' : Bool} (le : tidy' = true → tidy = true) : Standing kids past d σ v reach tidy' :=
  { st with
    laid := fun h => st.laid (le h)
    inside := fun h => st.inside (le h) }

lemma frame {d' : Disk (Page κ α)}
    (same : ∀ p, p ∈ v.layout.freelist ∨ Vital kids past σ v reach p → d'.view[p]? = d.view[p]?)
    (slots : Slots d'.view σ.info) (long : v.bound ≤ d'.durable.length)
    (pending : ∀ op ∈ d'.pending, op.Avoids (Fixed kids past σ v reach) ∧ op.Spares v.bound) :
    Standing kids past d' σ v reach tidy where
  toSound := st.toSound.frame (fun p vital => same p (.inr vital))
    (length_le_foldl long fun op hop => (pending op hop).2)
  toListing := st.toListing.frame fun p free => same p (.inl free)
  slots := slots
  same p hp := (same p (.inl hp)).trans (st.same p hp)
  long := long
  pending := pending

lemma perform {op : DiskOp (Page κ α)} (avoids : op.Avoids (Fixed kids past σ v reach)) (spares : op.Spares v.bound) :
    Standing kids past (d.perform op) σ v reach tidy := by
  have same : ∀ p, Fixed kids past σ v reach p → (d.perform op).view[p]? = d.view[p]? := by
    intro p fixed
    have inside := (st.fixed_lt fixed).trans_le st.view_long
    rw [view_perform]
    exact avoids.getElem? fixed inside
  refine st.frame (fun p h => same p (.inr h)) (st.slots.congr fun p low => same p (.inl low)) st.long ?_
  intro o ho
  rcases List.mem_append.1 ho with old | new
  · exact st.pending o old
  · rw [List.mem_singleton.1 new]
    exact ⟨avoids, spares⟩

lemma grow {pages : Nat} (more : v.bound ≤ pages) : Standing kids past (d.grow pages) σ v reach tidy := by
  rw [Disk.grow]
  split_ifs
  · exact st.perform (fun q fixed => (st.fixed_lt fixed).trans_le more) more
  · exact st

lemma sync : Standing kids past d.sync σ v reach tidy :=
  st.frame (fun _ _ => rfl) st.slots st.view_long nofun

/-- Everything is as it reads, whatever the crash keeps of what was not synced. -/
lemma crash (fates : List (Fate (Page κ α))) : Standing kids past (.of (d.crash spoil fates)) σ v reach tidy := by
  have avoids : ∀ op ∈ d.pending, op.Avoids (Fixed kids past σ v reach) := fun op hop => (st.pending op hop).1
  have same : ∀ p, Fixed kids past σ v reach p → (d.crash spoil fates)[p]? = d.view[p]? := by
    intro p fixed
    have inside := (st.fixed_lt fixed).trans_le st.long
    exact (crash_eq_durable avoids fixed inside).trans (getElem?_foldl fixed inside avoids).symm
  refine st.frame (fun p h => same p (.inr h)) (st.slots.congr fun p low => same p (.inl low)) ?_ ?_
  · exact length_le_crash st.long fun op hop => (st.pending op hop).2
  · intro op hop
    cases hop

lemma of_past (same : ∀ t ≤ σ.info.txnId, past' t = past t) : Standing kids past' d σ v reach tidy :=
  { st with
    toSound := st.toSound.of_past same
    pending := fun op hop => (st.pending op hop).imp_left fun avoids => avoids.mono fun _ => by
      refine Or.imp_right (Or.imp_right (Or.imp_right ?_))
      rintro ⟨snap, hs, newer, img, found, held⟩
      have older := (st.snaps snap hs newer).1
      exact ⟨snap, hs, newer, img, (same _ older.le).symm.trans found, held⟩ }

end

end Standing

/-! ## Opening the file -/

/-- A state as it is loaded: the counter of snapshot ids is made anew. -/
def StoreState.reloaded (σ : StoreState κ) : StoreState κ :=
  { σ with snapshots := .fromEntries σ.snapshots.snaps }

/-- Opening a file finds the state it holds. -/
lemma Found.load_eq (found : Found kids past file σ v reach tidy) : load file = .ok σ.reloaded := by
  have core := found.core
  have long : ¬file.length < metaPages := by
    have := core.two_le
    have := core.within
    omega
  have list : Freelist.fromEntries σ.freelist.runs = σ.freelist := compact_of_compacted core.compacted
  have map : OrderedMap.ofEntries σ.roots.entries = σ.roots := OrderedMap.ofEntries_entries _
  simp only [load, if_neg long, found.slots.pick core.encode_eq, loadEntries_of_chain core.roots,
    loadEntries_of_chain core.snapshots, loadEntries_of_chain core.catalog, loadEntries_of_chain found.chain, bind,
    Except.bind, pure, Except.pure, list, map, StoreState.reloaded]

lemma Found.reloaded (found : Found kids past file σ v reach tidy) : Found kids past file σ.reloaded v reach tidy :=
  { found with
    core := { found.core with }
    snaps := fun snap hs newer => by
      obtain ⟨older, img, guard, head⟩ := found.snaps snap hs newer
      exact ⟨older, img, { guard with }, head⟩ }

lemma Standing.reloaded (st : Standing kids past d σ v reach tidy) : Standing kids past d σ.reloaded v reach tidy :=
  { st with toFound := st.toFound.reloaded }

/-- The survey of a file in which what a state has is what its transaction wrote. -/
def Survey.rebased (v : Survey κ α) (σ : StoreState κ) (file : List (Page κ α)) : Survey κ α :=
  { v with image := ⟨σ, file⟩ }

lemma Core.tree (core : Core kids past file σ v) : Tree kids file σ.roots.values p ↔ v.image.InTree kids p := by
  have tree := core.guard.tree (p := p)
  rwa [core.same.1] at tree

/-- What is found is taken for what the last transaction wrote. -/
lemma Found.rebase (found : Found kids past file σ v reach tidy) :
    Standing kids (update past σ.info.txnId (some ⟨σ, file⟩)) (.of file) σ (v.rebased σ file) reach tidy :=
  { found with
    core := { found.core with
      image := update_self ..
      same := ⟨rfl, rfl⟩
      agree := fun _ _ => rfl
      single := fun p => by
        have once := found.core.single p
        rwa [tally, ← propext found.core.tree] at once
      live := fun p hp => found.core.live p (hp.imp_right found.core.tree.1) }
    snaps := fun snap hs newer => by
      obtain ⟨older, img, guard, head⟩ := found.snaps snap hs newer
      exact ⟨older, img, { guard with image := (update_of_ne older.ne _ _).trans guard.image }, head⟩
    same := fun _ _ => rfl
    long := found.core.within
    pending := fun op hop => by cases hop }

/-! ## Publishing -/

section Publish
variable {c : Change κ α} {v' : Survey κ α}

/-- With its meta page written, a commit that is prepared has happened. -/
lemma Standing.publish (st : Standing kids past (.of v'.image.file) σ v reach tidy)
    (ready : Prepared kids past σ v reach c v') :
    Standing kids past (.of (DiskOp.apply v'.image.file (.write c.state.info.slot c.state.info.encode)))
      c.state v' 0 true := by
  have long : metaPages ≤ v'.image.file.length := st.core.two_le.trans st.view_long
  have low : c.state.info.slot < metaPages := slot_lt c.state.info
  have sound : Sound kids past v'.image.file c.state v' 0 :=
    ⟨ready.core, fun snap hs _ => ready.readable st.core st.snaps snap hs⟩
  have listing : Listing v'.image.file c.state v' true :=
    ⟨ready.free, fun _ => ready.tidy, fun _ => ready.inside⟩
  have free := fun p (h : p ∈ v'.layout.freelist) => ready.core.write_low_free low c.state.info.encode h
  have sound' := sound.write_low low c.state.info.encode
  exact ⟨⟨sound', listing.frame free, st.slots.flip ready.txnId long⟩, free, sound'.core.within, nofun⟩

end Publish

/-! ## Commits under way

What is on the disk at each stage of a commit. Until the meta page is written the store stands on the
state it had, for pages taken at `reach` or before were of no use to it; from then on the disk has
everything of the new state, and a crash decides between the two.
-/

variable (kids) in
def Progress (past : Nat → Option (Image κ α)) (d : Disk (Page κ α)) (σ : StoreState κ) (v : Survey κ α)
    (reach : Nat) (tidy : Bool) (c : Change κ α) (v' : Survey κ α) : CommitStage κ α → Prop
  | .grow => Standing kids past d σ v reach tidy ∧ v'.image.file = writeAll (growTo d.view c.state.info.pageCount) c.out
  | .pages rest => Standing kids past d σ v reach tidy ∧ d.view.length = c.state.info.pageCount ∧
    (∀ x ∈ rest, x ∈ c.out) ∧ v'.image.file = writeAll d.view rest
  | .flip => Standing kids past d σ v reach tidy ∧ d = .of v'.image.file
  | .confirm => Standing kids past (.of v'.image.file) σ v reach tidy ∧
    d = (Disk.of v'.image.file).write c.state.info.slot c.state.info.encode
  | .publish => Standing kids past (.of v'.image.file) σ v reach tidy ∧
    d = .of (DiskOp.apply v'.image.file (.write c.state.info.slot c.state.info.encode))

/-- The stage that comes next, if the commit is not over, and what it makes of the disk. -/
def CommitStage.next (c : Change κ α) (d : Disk (Page κ α)) :
    CommitStage κ α → Option (Disk (Page κ α) × CommitStage κ α)
  | .grow => some (d.grow c.state.info.pageCount, .pages c.out)
  | .pages (x :: rest) => some (d.write x.1 x.2, .pages rest)
  | .pages [] => some (d.sync, .flip)
  | .flip => some (d.write c.state.info.slot c.state.info.encode, .confirm)
  | .confirm => some (d.sync, .publish)
  | .publish => none

variable {d' : Disk (Page κ α)} {v' : Survey κ α} {c : Change κ α} {stage stage' : CommitStage κ α}

/-- If nobody can tell, the pages taken were of no use to anyone. -/
lemma Standing.tighten (st : Standing kids past d σ v reach tidy)
    (all : ∀ snap ∈ σ.snapshots.snaps, reach ≤ snap.txnId) : Standing kids past d σ v 0 tidy :=
  { st with
    snaps := fun snap hs _ => st.snaps snap hs (all snap hs)
    pending := fun op hop => (st.pending op hop).imp_left fun avoids => avoids.mono fun _ =>
      Or.imp_right (Or.imp_right (Or.imp_right fun ⟨snap, hs, _, img⟩ => ⟨snap, hs, all snap hs, img⟩)) }

section Steps
variable (ready : Prepared kids past σ v reach c v')
include ready

lemma Standing.write_target {x : Nat × Page κ α} (st : Standing kids past d σ v reach tidy) (hx : x ∈ c.out)
    (content : Page κ α) : Standing kids past (d.write x.1 content) σ v reach tidy := by
  have fresh := (ready.targets x.1 (List.mem_map_of_mem hx)).1
  obtain ⟨low, chain, tree⟩ := st.core.of_fresh fresh
  refine st.perform ?_ trivial
  rintro (first | free | used | ⟨snap, hs, newer, img, found, held⟩)
  · omega
  · exact chain (by simp [Layout.chains, Layout.others, free])
  · exact used.cases.elim chain tree
  · exact (st.readable_mem hs newer found).of_fresh st.core newer fresh held

section
variable (h : Progress kids past d σ v reach tidy c v' stage)
include h

/-- One step of a commit. -/
lemma Progress.next
    (next : stage.next c d = some (d', stage')) : Progress kids past d' σ v reach tidy c v' stage' := by
  cases stage with
  | grow =>
    cases next
    obtain ⟨st, made⟩ := h
    have inside : ∀ x ∈ c.out, x.1 < (growTo d.view c.state.info.pageCount).length := by
      intro x hx
      have := (ready.targets x.1 (List.mem_map_of_mem hx)).2
      rw [length_growTo]
      omega
    have size := length_writeAll inside
    rw [← made, ready.length] at size
    exact ⟨st.grow ready.larger, view_grow (d := d) ▸ size.symm, fun x hx => hx, view_grow (d := d) ▸ made⟩
  | pages rest =>
    obtain ⟨st, size, sub, made⟩ := h
    cases rest with
    | nil =>
      cases next
      refine ⟨st.sync, ?_⟩
      rw [made]
      rfl
    | cons x rest =>
      cases next
      have hx := sub x List.mem_cons_self
      have := (ready.targets x.1 (List.mem_map_of_mem hx)).2
      refine ⟨st.write_target ready hx x.2, ?_, fun y hy => sub y (List.mem_cons_of_mem _ hy), ?_⟩
      · rw [view_write, length_write]
        omega
      · rw [view_write, made]
        rfl
  | flip | confirm =>
    cases next
    obtain ⟨st, rfl⟩ := h
    exact ⟨st, rfl⟩
  | publish => cases next

/-- Nothing that anyone not older than `reach` reads is touched. -/
lemma Progress.carry {t : Nat} {img : Image κ α}
    (next : stage.next c d = some (d', stage')) (guard : Guard kids past d.view σ v t img) (newer : reach ≤ t) :
    Guard kids past d'.view σ v t img := by
  cases stage with
  | grow =>
    cases next
    obtain ⟨st, -⟩ := h
    refine guard.frame fun p held => ?_
    have := (guard.safe p held).2.1
    have := st.core.counted
    have := st.core.within
    rw [view_grow]
    exact getElem?_growTo (by omega)
  | pages rest =>
    obtain ⟨st, size, sub, -⟩ := h
    cases rest with
    | nil =>
      cases next
      exact guard
    | cons x rest =>
      cases next
      have target := ready.targets x.1 (List.mem_map_of_mem (sub x List.mem_cons_self))
      refine guard.frame fun p held => ?_
      have := (guard.safe p held).2.1
      have := st.core.counted
      have := st.core.within
      have other : p ≠ x.1 := by
        rintro rfl
        exact guard.of_fresh st.core newer target.1 held
      rw [view_write]
      exact getElem?_write_ne other (by omega)
  | flip =>
    cases next
    obtain ⟨st, rfl⟩ := h
    rw [view_write]
    exact guard.write_low (slot_lt c.state.info) st.core _
  | confirm =>
    cases next
    exact guard
  | publish => cases next

omit ready in
lemma Progress.sound : Sound kids past d.view σ v reach := by
  cases stage with
  | grow | pages | flip => exact h.1.toSound
  | confirm =>
    obtain ⟨st, rfl⟩ := h
    rw [view_write]
    exact st.toSound.write_low (slot_lt c.state.info) _
  | publish =>
    obtain ⟨st, rfl⟩ := h
    exact st.toSound.write_low (slot_lt c.state.info) _

omit h in
/-- The last step. -/
lemma Progress.done (h : Progress kids past d σ v reach tidy c v' .publish) :
    Standing kids past d c.state v' 0 true := by
  obtain ⟨st, rfl⟩ := h
  exact st.publish ready

omit h in
/-- Until it writes the meta page a commit may stop after any part of its next operation. -/
lemma Progress.stop {op : Option (DiskOp (Page κ α))} (fate : Fate (Page κ α))
    (h : Progress kids past d σ v reach tidy c v' stage) (early : stage = .grow ∨ ∃ rest, stage = .pages rest)
    (all : ∀ snap ∈ σ.snapshots.snaps, reach ≤ snap.txnId)
    (next : ∀ o ∈ op, o = .resize c.state.info.pageCount ∨ ∃ x ∈ c.out, o = .write x.1 x.2) :
    Standing kids past (((op.bind (fate.leaves spoil)).map d.perform).getD d) σ v 0 tidy := by
  have st : Standing kids past d σ v reach tidy := by
    rcases early with rfl | ⟨rest, rfl⟩ <;> exact h.1
  refine Standing.tighten ?_ all
  cases op with
  | none => exact st
  | some o =>
    rcases next o rfl with rfl | ⟨x, hx, rfl⟩
    · cases fate with
      | lost | torn => exact st
      | kept => exact st.perform (fun q fixed => (st.fixed_lt fixed).trans_le ready.larger) ready.larger
    · cases fate with
      | lost => exact st
      | kept => exact st.write_target ready hx x.2
      | torn garbage => exact st.write_target ready hx _

/-- A crash before the meta page is durable leaves the state as it was or the new one. -/
lemma Progress.crash (fates : List (Fate (Page κ α))) :
    Standing kids past (.of (d.crash spoil fates)) σ v reach tidy ∧ stage ≠ .publish ∨
      Standing kids past (.of (d.crash spoil fates)) c.state v' 0 true := by
  cases stage with
  | grow | pages | flip => exact .inl ⟨h.1.crash fates, by simp⟩
  | publish =>
    obtain ⟨st, rfl⟩ := h
    exact .inr (st.publish ready)
  | confirm =>
    obtain ⟨st, rfl⟩ := h
    rcases crash_perform spoil (.of v'.image.file) (.write c.state.info.slot c.state.info.encode) fates with
      lost | ⟨fate, op, -, leaves, left⟩
    · rw [Disk.write, lost, crash_of]
      exact .inl ⟨st, by simp⟩
    rw [Disk.write, left, crash_of]
    cases fate with
    | lost => cases leaves
    | kept =>
      cases leaves
      exact .inr (st.publish ready)
    | torn garbage =>
      cases leaves
      have long : metaPages ≤ v'.image.file.length := st.core.two_le.trans st.view_long
      have low : c.state.info.slot < metaPages := slot_lt c.state.info
      have sound := st.toSound.write_low low .damaged
      have free := fun p (h : p ∈ v.layout.freelist) => st.core.write_low_free low .damaged h
      exact .inl ⟨⟨⟨sound, st.toListing.frame free, st.slots.torn ready.txnId long⟩,
        fun p h => (free p h).trans (st.same p h), sound.core.within, nofun⟩, by simp⟩

end

end Steps

end BigDb.Pager
