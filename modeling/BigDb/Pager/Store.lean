import BigDb.Pager.Page
import Mathlib.Algebra.Group.Nat.Defs

/-!
# Transactions and commits

A write transaction takes pages from the free list and from the tail of the file, collects the pages
it writes, and hands back those it unlinks. A commit places the chains that changed, the free list
last, and comes out as a change: the pages to write and the state they make. Truncation comes out as
a change too, and rewrites the chain of the free list in place.
-/

namespace BigDb.Pager
open Lib
variable {κ α β : Type}

/-! ## Taking pages -/

/-- The pages that can be taken: free ones, and those past the end of the file. -/
structure Supply where
  freelist : Freelist
  nextPgno : Nat

def allocTail (capacity : Option Nat) (s : Supply) : Except StoreError (Nat × Supply) :=
  if capacity.any (· ≤ s.nextPgno) then .error (.mapSizeExhausted (s.nextPgno + 1) (capacity.getD 0))
  else .ok (s.nextPgno % 2 ^ 32, { s with nextPgno := s.nextPgno + 1 })

/-- A free page that may be taken, or else one past the end of the file. -/
def allocPage (horizon : Nat) (capacity : Option Nat) (s : Supply) : Except StoreError (Nat × Supply) :=
  match s.freelist.alloc horizon with
  | some (p, freelist) => .ok (p, { s with freelist })
  | none => allocTail capacity s

def allocPages (horizon : Nat) (capacity : Option Nat) : Nat → Supply → Except StoreError (List Nat × Supply)
  | 0, s => .ok ([], s)
  | n + 1, s => do
    let (p, s) ← allocPage horizon capacity s
    let (pages, s) ← allocPages horizon capacity n s
    return (p :: pages, s)

/-- Takes pages until there are enough for the entries that are left. -/
def allocFreelistLoop (horizon : Nat) (capacity : Option Nat) :
    Nat → List Nat → Supply → Except StoreError (List Nat × Supply)
  | 0, out, s => .ok (out, s)
  | turns + 1, out, s =>
    if out.length < pagesNeeded (chainCapacity 16) s.freelist.entryCount then do
      let (p, s) ← allocPage horizon capacity s
      allocFreelistLoop horizon capacity turns (out ++ [p]) s
    else .ok (out, s)

/-- The free list's own pages. Taking one never adds an entry, so that as many turns are enough as
there are pages needed at first. -/
def allocFreelistPages (horizon : Nat) (capacity : Option Nat) (s : Supply) : Except StoreError (List Nat × Supply) :=
  let freelist := s.freelist.compact
  allocFreelistLoop horizon capacity (pagesNeeded (chainCapacity 16) freelist.entryCount) [] { s with freelist }

/-! ## Placing the chains -/

variable (format : Format κ β)

def recycleChain (file : List (Page κ α)) (head : Option Nat) (freelist : Freelist)
    (txnId : Nat) : Except StoreError Freelist := do
  let pgnos ← chainPgnos format file head
  return pgnos.foldl (fun l p => l.push p txnId) freelist

/-- Where a chain ended up: rewritten into new pages, or left exactly where it was. -/
inductive Placed where
  | fresh (pgnos : List Nat)
  | kept (head : Option Nat)

def Placed.head : Placed → Option Nat
  | .fresh pgnos => pgnos.head?
  | .kept head => head

def Placed.pages (entries : List β) : Placed → List (Nat × Page κ α)
  | .fresh pgnos => buildPages format entries pgnos
  | .kept _ => []

def placeChain (file : List (Page κ α)) (dirty : Bool) (head : Option Nat)
    (entries : List β) (txnId horizon : Nat) (capacity : Option Nat) (s : Supply) :
    Except StoreError (Placed × Supply) :=
  if dirty then do
    let freelist ← recycleChain format file head s.freelist txnId
    let (pgnos, s) ← allocPages horizon capacity (pagesNeeded format.capacity entries.length) { s with freelist }
    return (.fresh pgnos, s)
  else .ok (.kept head, s)

/-! ## Transactions -/

/-- Which of the chains a transaction changed. -/
structure DirtyChains where
  roots : Bool
  catalog : Bool
  snapshots : Bool

structure WriteTxn (κ α : Type) [LinearOrder κ] where
  txnId : Nat
  /-- a page replaced at or before it is invisible to every reader -/
  horizon : Nat
  base : MetaPage
  dirty : OrderedMap Nat (Page κ α)
  supply : Supply
  roots : OrderedMap κ Nat
  snapshots : SnapshotRegistry
  catalog : List Record
  /-- pages the transaction both allocated and freed, the last one first -/
  scratch : List Nat
  dirtyChains : DirtyChains
  /-- what is at or above it was allocated by this transaction -/
  tailFloor : Nat

/-- The readers that are registered, by transaction, with how many there are of each. -/
abbrev Readers := OrderedMap Nat Nat

/-- The oldest transaction that anything can still be reading. -/
def reclaimHorizon (txnId : Nat) (readers : Readers) (snapshots : SnapshotRegistry) : Nat :=
  min (min (readers.first.getD txnId) (snapshots.oldestTxnId.getD txnId)) txnId

/-- What a commit or a truncation has decided: the pages to write, the state they make, and the
horizon at which free pages were taken. -/
structure Change (κ α : Type) [LinearOrder κ] where
  out : List (Nat × Page κ α)
  state : StoreState κ
  horizon : Nat

variable [LinearOrder κ]

namespace WriteTxn

/-- A transaction on a state, in a file of `pageCount` pages. -/
def start (σ : StoreState κ) (readers : Readers) (pageCount : Nat) : WriteTxn κ α where
  txnId := σ.info.txnId + 1
  horizon := reclaimHorizon σ.info.txnId readers σ.snapshots
  base := σ.info
  dirty := .empty
  supply := ⟨σ.freelist, pageCount⟩
  roots := σ.roots
  snapshots := σ.snapshots
  catalog := σ.catalog
  scratch := []
  dirtyChains := ⟨false, false, false⟩
  tailFloor := pageCount

variable (w : WriteTxn κ α)

variable (file : List (Page κ α))

/-- A page as the transaction sees it. -/
def read (pgno : Nat) : Except StoreError (Page κ α) :=
  match w.dirty.get pgno with
  | some page => .ok page
  | none => readPage file pgno

def alloc (capacity : Option Nat) : Except StoreError (Nat × WriteTxn κ α) :=
  match w.scratch with
  | p :: scratch => .ok (p, { w with scratch, dirty := w.dirty.erase p })
  | [] => do
    let (p, supply) ← allocPage w.horizon capacity w.supply
    return (p, { w with supply })

def free (pgno : Nat) : WriteTxn κ α :=
  if w.tailFloor ≤ pgno then { w with dirty := w.dirty.erase pgno, scratch := pgno :: w.scratch }
  else { w with supply := { w.supply with freelist := w.supply.freelist.push pgno w.txnId } }

def write (pgno : Nat) (page : Page κ α) : Except StoreError (WriteTxn κ α) :=
  if w.supply.nextPgno ≤ pgno then .error (.unallocatedPage pgno)
  else .ok { w with dirty := w.dirty.insert pgno page }

/-- A page that is to change gets a new number. -/
def cow (capacity : Option Nat) (pgno : Nat) :
    Except StoreError (Nat × WriteTxn κ α) := do
  let content ← w.read file pgno
  let (new, w) ← w.alloc capacity
  return (new, ({ w with dirty := w.dirty.insert new content } : WriteTxn κ α).free pgno)

def setRoot (key : κ) (root : Nat) : WriteTxn κ α :=
  { w with roots := w.roots.insert key root, dirtyChains := { w.dirtyChains with roots := true } }

def removeRoot (key : κ) : WriteTxn κ α :=
  { w with roots := w.roots.erase key, dirtyChains := { w.dirtyChains with roots := true } }

/-- Pins the state as of before this transaction. -/
def createSnapshot (expiresAt : Nat) (name : List UInt8) (pinned : Bool) : Snapshot × WriteTxn κ α :=
  let (snap, snapshots) := w.snapshots.create w.base.txnId (w.base.rootRecords.getD 0) expiresAt name pinned
  (snap, { w with snapshots, dirtyChains := { w.dirtyChains with snapshots := true } })

def dropSnapshot (id : Nat) : WriteTxn κ α :=
  { w with snapshots := w.snapshots.remove id, dirtyChains := { w.dirtyChains with snapshots := true } }

def expireSnapshots (now : Nat) : WriteTxn κ α :=
  { w with snapshots := w.snapshots.expire now, dirtyChains := { w.dirtyChains with snapshots := true } }

def setCatalog (entries : List Record) : WriteTxn κ α :=
  if entries ≠ w.catalog then
    { w with catalog := entries, dirtyChains := { w.dirtyChains with catalog := true } }
  else w

def commit (σ : StoreState κ) (readers : Readers)
    (capacity : Option Nat) : Except StoreError (Change κ α) := do
  let (freelist, nextPgno) := w.supply.freelist.absorbScratch w.scratch w.supply.nextPgno w.txnId
  let horizon := reclaimHorizon w.base.txnId readers w.snapshots
  let (roots, s) ← placeChain rootFormat file w.dirtyChains.roots w.base.rootRecords w.roots.entries
    w.txnId horizon capacity ⟨freelist, nextPgno⟩
  let (snaps, s) ← placeChain snapshotFormat file w.dirtyChains.snapshots w.base.snapshots w.snapshots.snaps
    w.txnId horizon capacity s
  let (cat, s) ← placeChain catalogFormat file w.dirtyChains.catalog w.base.catalog w.catalog
    w.txnId horizon capacity s
  let freelist ← recycleChain freeFormat file w.base.freelist s.freelist w.txnId
  let (free, s) ← allocFreelistPages horizon capacity { s with freelist }
  return {
    out := w.dirty.entries ++ roots.pages rootFormat w.roots.entries
      ++ snaps.pages snapshotFormat w.snapshots.snaps ++ cat.pages catalogFormat w.catalog
      ++ buildPages freeFormat s.freelist.runs free
    state := {
      info := {
        txnId := w.txnId
        pageCount := s.nextPgno
        rootRecords := roots.head
        freelist := free.head?
        snapshots := snaps.head
        catalog := cat.head
        flags := w.base.flags }
      roots := w.roots
      snapshots := w.snapshots
      catalog := if w.dirtyChains.catalog then w.catalog else σ.catalog
      freelist := s.freelist }
    horizon }

section Keeps
variable {w w' : WriteTxn κ α} {p : Nat} {capacity : Option Nat}

def outlook (w : WriteTxn κ α) : Nat × SnapshotRegistry := (w.horizon, w.snapshots)

lemma alloc_outlook (done : w.alloc capacity = .ok (p, w')) : w'.outlook = w.outlook := by
  rw [alloc] at done
  split at done
  · cases done
    rfl
  · obtain ⟨⟨q, supply⟩, -, done⟩ := bind_ok.1 done
    cases done
    rfl

lemma free_outlook : (w.free p).outlook = w.outlook := by
  rw [free]
  split <;> rfl

lemma write_outlook {page : Page κ α} (done : w.write p page = .ok w') : w'.outlook = w.outlook := by
  rw [write] at done
  split_ifs at done
  cases done
  rfl

lemma cow_outlook {file : List (Page κ α)} {new : Nat} (done : w.cow file capacity p = .ok (new, w')) :
    w'.outlook = w.outlook := by
  obtain ⟨content, -, done⟩ := bind_ok.1 done
  obtain ⟨⟨q, middle⟩, taken, done⟩ := bind_ok.1 done
  cases done
  have same := alloc_outlook taken
  exact free_outlook.trans same

lemma setCatalog_outlook {entries : List Record} : (w.setCatalog entries).outlook = w.outlook := by
  rw [setCatalog]
  split <;> rfl

/-- The horizon a commit works with, and the snapshots it has. -/
lemma commit_horizon {file : List (Page κ α)} {σ : StoreState κ} {readers : Readers} {c : Change κ α}
    (done : w.commit file σ readers capacity = .ok c) :
    c.horizon = reclaimHorizon w.base.txnId readers w.snapshots ∧ c.state.snapshots = w.snapshots := by
  obtain ⟨⟨roots, s₁⟩, -, done⟩ := bind_ok.1 done
  obtain ⟨⟨snaps, s₂⟩, -, done⟩ := bind_ok.1 done
  obtain ⟨⟨cat, s₃⟩, -, done⟩ := bind_ok.1 done
  obtain ⟨recycled, -, done⟩ := bind_ok.1 done
  obtain ⟨⟨free, s₄⟩, -, done⟩ := bind_ok.1 done
  cases done
  exact ⟨rfl, rfl⟩

end Keeps

end WriteTxn

/-- What a truncation decides; nothing, if no free page is flush against the end of the file. -/
def truncateTail (file : List (Page κ α)) (σ : StoreState κ) : Except StoreError (Option (Change κ α)) :=
  let horizon := min (σ.snapshots.oldestTxnId.getD σ.info.txnId) σ.info.txnId
  let (freelist, released) := σ.freelist.trimTail σ.info.pageCount horizon
  if released = 0 then .ok none
  else do
    let chain ← chainPgnos freeFormat file σ.info.freelist
    return some {
      out := buildPages freeFormat freelist.runs chain
      state := { σ with
        info := { σ.info with txnId := σ.info.txnId + 1, pageCount := σ.info.pageCount - released }
        freelist }
      horizon }

/-! ## A new file -/

def initialInfo : MetaPage := ⟨0, metaPages, none, none, none, none, 0⟩

/-- A fresh file: two meta pages, the first one written. -/
def initialDisk : Disk (Page κ α) :=
  (((Disk.of []).grow metaPages).write initialInfo.slot initialInfo.encode).sync

def initialState : StoreState κ := ⟨initialInfo, .empty, .empty, [], .empty⟩

end BigDb.Pager
