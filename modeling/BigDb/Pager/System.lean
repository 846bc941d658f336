import BigDb.Pager.Store

/-!
# A store and those who use it

A store with its file, the readers that are open, the writer that holds the write lock, and the
openings of snapshots that are under way: the snapshot is looked up, its root records are loaded and
the reader is registered in three steps. A commit takes one step for every operation on the disk:
the file grows, pages are written, a sync, the meta page, a sync; then the state in memory is
replaced. A truncation likewise. Any operation of the two may fail, and the machine may crash between
any two steps.

`past`, `issued`, `tidy` and what a transaction's callers have done with pages are history variables:
no step reads them. `past t` is what transaction `t` wrote, as its commit decided it or as recovery
found it; `issued` are the snapshot ids of the transactions that were committed; `tidy` is false from a
crash that interrupted a truncation to the next commit.
-/

namespace BigDb.Pager
open Lib Function
variable {κ α : Type} [LinearOrder κ]

structure ReadTxn (κ : Type) [LinearOrder κ] where
  txnId : Nat
  roots : OrderedMap κ Nat
  catalog : List Record

/-- A snapshot that is being opened. -/
inductive Opening (κ : Type) [LinearOrder κ] where
  | found (snap : Snapshot) (catalog : List Record)
  | loaded (snap : Snapshot) (roots : OrderedMap κ Nat) (catalog : List Record)

def Opening.snap : Opening κ → Snapshot
  | .found snap _ => snap
  | .loaded snap _ _ => snap

/-- What the callers of a transaction have done. -/
structure Handled where
  /-- pages allocated and not freed since -/
  owned : List Nat
  /-- pages freed that were not allocated by the transaction -/
  unlinked : List Nat
  /-- ids of the snapshots created -/
  created : List Nat

namespace Handled

def alloc (h : Handled) (pgno : Nat) : Handled := { h with owned := pgno :: h.owned }

def free (h : Handled) (pgno : Nat) : Handled :=
  if pgno ∈ h.owned then { h with owned := h.owned.erase pgno }
  else { h with unlinked := pgno :: h.unlinked }

lemma created_free {h : Handled} {pgno : Nat} : (h.free pgno).created = h.created := by
  rw [free]
  split <;> rfl

end Handled

inductive CommitStage (κ α : Type) where
  | grow
  /-- the pages still to be written, then a sync -/
  | pages (rest : List (Nat × Page κ α))
  | flip
  | confirm
  | publish

inductive TruncateStage (κ α : Type) where
  /-- the pages still to be written, then the meta page -/
  | pages (rest : List (Nat × Page κ α))
  | confirm
  | cut
  | publish

inductive Writer (κ α : Type) [LinearOrder κ] where
  | idle
  | writing (w : WriteTxn κ α) (h : Handled)
  | committing (w : WriteTxn κ α) (h : Handled) (c : Change κ α) (stage : CommitStage κ α)
  | truncating (c : Change κ α) (stage : TruncateStage κ α)
  /-- the file could not be opened -/
  | closed

def Writer.isTruncating : Writer κ α → Bool
  | .truncating .. => true
  | _ => false

/-- What a transaction wrote. -/
structure Image (κ α : Type) [LinearOrder κ] where
  state : StoreState κ
  file : List (Page κ α)

structure System (κ α : Type) [LinearOrder κ] where
  disk : Disk (Page κ α)
  capacity : Option Nat
  state : StoreState κ
  readers : Readers
  reads : List (ReadTxn κ)
  openings : List (Opening κ)
  writer : Writer κ α
  past : Nat → Option (Image κ α)
  issued : List Nat
  tidy : Bool

inductive Action (κ α : Type) where
  | beginRead
  | findSnapshot (id : Nat)
  | loadRoots (i : Nat)
  | registerRead (i : Nat)
  | release (i : Nat)
  | beginWrite
  | alloc
  | free (pgno : Nat)
  | write (pgno : Nat) (a : α)
  | cow (pgno : Nat)
  | setRoot (key : κ) (root : Nat)
  | removeRoot (key : κ)
  | createSnapshot (expiresAt : Nat) (name : List UInt8) (pinned : Bool)
  | dropSnapshot (id : Nat)
  | expireSnapshots (now : Nat)
  | setCatalog (entries : List Record)
  | rollback
  | commit
  | truncateTail
  /-- the next step of the commit or truncation under way -/
  | advance
  /-- the next operation of it on the disk fails, after part of it was done -/
  | fail (fate : Fate (Page κ α))
  /-- the store is closed and opened again -/
  | reopen
  | crash (fates : List (Fate (Page κ α)))

def registerReader (readers : Readers) (txnId : Nat) : Readers :=
  readers.insert txnId ((readers.get txnId).getD 0 + 1)

def releaseReader (readers : Readers) (txnId : Nat) : Readers :=
  match readers.get txnId with
  | some n => if n - 1 = 0 then readers.erase txnId else readers.insert txnId (n - 1)
  | none => readers

/-- What a commit makes of a file, the meta page apart. -/
def Change.image (c : Change κ α) (file : List (Page κ α)) : Image κ α :=
  ⟨c.state, writeAll (growTo file c.state.info.pageCount) c.out⟩

namespace System

/-- A store on a new file. -/
def start (capacity : Option Nat) : System κ α where
  disk := initialDisk
  capacity
  state := initialState
  readers := .empty
  reads := []
  openings := []
  writer := .idle
  past t := if t = 0 then some ⟨initialState, initialDisk.view⟩ else none
  issued := []
  tidy := true

variable (s : System κ α)

def file : List (Page κ α) := s.disk.view

def register (r : ReadTxn κ) : System κ α :=
  { s with readers := registerReader s.readers r.txnId, reads := s.reads ++ [r] }

/-- A call on the transaction that is open. -/
def onTxn (call : WriteTxn κ α → Handled → WriteTxn κ α × Handled) : System κ α :=
  match s.writer with
  | .writing w h =>
    let (w, h) := call w h
    { s with writer := .writing w h }
  | _ => s

/-- What the commit or truncation under way does next on the disk, if that is a write. -/
def nextOp : Option (DiskOp (Page κ α)) :=
  match s.writer with
  | .committing _ _ c .grow =>
    if s.file.length < c.state.info.pageCount then some (.resize c.state.info.pageCount) else none
  | .committing _ _ _ (.pages (x :: _)) => some (.write x.1 x.2)
  | .committing _ _ c .flip => some (.write c.state.info.slot c.state.info.encode)
  | .truncating _ (.pages (x :: _)) => some (.write x.1 x.2)
  | .truncating c (.pages []) => some (.write c.state.info.slot c.state.info.encode)
  | .truncating c .cut => some (.resize c.state.info.pageCount)
  | _ => none

def advance : System κ α :=
  match s.writer with
  | .committing w h c .grow =>
    { s with disk := s.disk.grow c.state.info.pageCount, writer := .committing w h c (.pages c.out) }
  | .committing w h c (.pages (x :: rest)) =>
    { s with disk := s.disk.write x.1 x.2, writer := .committing w h c (.pages rest) }
  | .committing w h c (.pages []) => { s with disk := s.disk.sync, writer := .committing w h c .flip }
  | .committing w h c .flip =>
    { s with disk := s.disk.write c.state.info.slot c.state.info.encode, writer := .committing w h c .confirm }
  | .committing w h c .confirm => { s with disk := s.disk.sync, writer := .committing w h c .publish }
  | .committing _ h c .publish =>
    { s with state := c.state, writer := .idle, issued := s.issued ++ h.created, tidy := true }
  | .truncating c (.pages (x :: rest)) =>
    { s with disk := s.disk.write x.1 x.2, writer := .truncating c (.pages rest) }
  | .truncating c (.pages []) =>
    { s with disk := s.disk.write c.state.info.slot c.state.info.encode, writer := .truncating c .confirm }
  | .truncating c .confirm => { s with disk := s.disk.sync, writer := .truncating c .cut }
  | .truncating c .cut => { s with disk := s.disk.truncate c.state.info.pageCount, writer := .truncating c .publish }
  | .truncating c .publish => { s with state := c.state, writer := .idle }
  | _ => s

/-- The operation under way fails: the caller gets an error, and what is in memory stays. -/
def fail (fate : Fate (Page κ α)) : System κ α :=
  match s.writer with
  | .committing _ _ _ .publish | .truncating _ .publish => s
  | .committing .. | .truncating .. =>
    { s with
      disk := ((s.nextOp.bind (fate.leaves spoil)).map s.disk.perform).getD s.disk
      writer := .idle }
  | _ => s

/-- The store as it is when the file is opened. -/
def opened (disk : Disk (Page κ α)) : System κ α :=
  match load disk.view with
  | .ok state => { s with disk, state, readers := .empty, reads := [], openings := [], writer := .idle }
  | .error _ => { s with disk, readers := .empty, reads := [], openings := [], writer := .closed }

/-- The store after a crash. -/
def crash (s : System κ α) (fates : List (Fate (Page κ α))) : System κ α :=
  let s' := s.opened (.of (s.disk.crash spoil fates))
  { s' with
    past := update s'.past s'.state.info.txnId (some ⟨s'.state, s'.file⟩)
    tidy := s.tidy && !s.writer.isTruncating }

def act : Action κ α → System κ α
  | .beginRead => s.register ⟨s.state.info.txnId, s.state.roots, s.state.catalog⟩
  | .findSnapshot id =>
    match s.state.snapshots.get id with
    | some snap => { s with openings := s.openings ++ [.found snap s.state.catalog] }
    | none => s
  | .loadRoots i =>
    match s.openings[i]? with
    | some (.found snap catalog) =>
      match loadEntries rootFormat s.file (present snap.rootRecords) with
      | .ok entries => { s with openings := s.openings.set i (.loaded snap (.ofEntries entries) catalog) }
      | .error _ => { s with openings := s.openings.eraseIdx i }
    | _ => s
  | .registerRead i =>
    match s.openings[i]? with
    | some (.loaded snap roots catalog) =>
      { s with openings := s.openings.eraseIdx i }.register ⟨snap.txnId, roots, catalog⟩
    | _ => s
  | .release i =>
    match s.reads[i]? with
    | some r => { s with reads := s.reads.eraseIdx i, readers := releaseReader s.readers r.txnId }
    | none => s
  | .beginWrite =>
    match s.writer with
    | .idle => { s with writer := .writing (.start s.state s.readers s.file.length) ⟨[], [], []⟩ }
    | _ => s
  | .alloc => s.onTxn fun w h =>
    match w.alloc s.capacity with
    | .ok (p, w) => (w, h.alloc p)
    | .error _ => (w, h)
  | .free pgno => s.onTxn fun w h => (w.free pgno, h.free pgno)
  | .write pgno a => s.onTxn fun w h => (((w.write pgno (.data a)).toOption.getD w), h)
  | .cow pgno => s.onTxn fun w h =>
    match w.cow s.file s.capacity pgno with
    | .ok (new, w) => (w, (h.alloc new).free pgno)
    | .error _ => (w, h)
  | .setRoot key root => s.onTxn fun w h => (w.setRoot key root, h)
  | .removeRoot key => s.onTxn fun w h => (w.removeRoot key, h)
  | .createSnapshot expiresAt name pinned => s.onTxn fun w h =>
    let (snap, w) := w.createSnapshot expiresAt name pinned
    (w, { h with created := h.created ++ [snap.id] })
  | .dropSnapshot id => s.onTxn fun w h => (w.dropSnapshot id, h)
  | .expireSnapshots now => s.onTxn fun w h => (w.expireSnapshots now, h)
  | .setCatalog entries => s.onTxn fun w h => (w.setCatalog entries, h)
  | .rollback =>
    match s.writer with
    | .writing .. => { s with writer := .idle }
    | _ => s
  | .commit =>
    match s.writer with
    | .writing w h =>
      match w.commit s.file s.state s.readers s.capacity with
      | .ok c =>
        { s with
          writer := .committing w h c .grow
          past := update s.past c.state.info.txnId (some (c.image s.file)) }
      | .error _ => { s with writer := .idle }
    | _ => s
  | .truncateTail =>
    match s.writer, s.readers.entries with
    | .idle, [] =>
      match truncateTail s.file s.state with
      | .ok (some c) =>
        { s with
          writer := .truncating c (.pages c.out)
          past := update s.past c.state.info.txnId (some ⟨c.state, writeAll s.file c.out⟩) }
      | _ => s
    | _, _ => s
  | .advance => s.advance
  | .fail fate => s.fail fate
  | .reopen =>
    match s.writer, s.reads, s.openings with
    | .idle, [], [] => s.opened s.disk
    | _, _, _ => s
  | .crash fates => s.crash fates

/-- What is done for a reader. -/
def Reading : Action κ α → Prop
  | .beginRead | .findSnapshot _ | .loadRoots _ | .registerRead _ | .release _ => True
  | _ => False

/-- It touches nothing but the readers and what is being opened for them. -/
lemma exists_act_of_reading {s : System κ α} {a : Action κ α} (reading : Reading a) :
    ∃ readers reads openings, s.act a = { s with readers, reads, openings } := by
  cases a with
  | beginRead => exact ⟨_, _, _, rfl⟩
  | findSnapshot id | registerRead i | release i =>
    rw [act]
    split <;> exact ⟨_, _, _, rfl⟩
  | loadRoots i =>
    rw [act]
    split
    · split <;> exact ⟨_, _, _, rfl⟩
    · exact ⟨_, _, _, rfl⟩
  | _ => exact reading.elim

/-- One step. Nothing is done with a store whose file could not be opened. -/
def step (a : Action κ α) : System κ α :=
  match s.writer with
  | .closed => s
  | _ => s.act a

end System

end BigDb.Pager
