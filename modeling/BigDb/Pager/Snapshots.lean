import Mathlib.Data.List.Basic

/-!
# The snapshot registry

Two meta pages carry no history, so the transactions that must stay readable are registered. An id
is one more than the last one given out; the counter itself is not stored, and a registry that is
read back starts after the highest id it finds.
-/

namespace BigDb.Pager

/-- A registered transaction. `rootRecords` is 0 if it had no roots. -/
structure Snapshot where
  id : Nat
  txnId : Nat
  rootRecords : Nat
  pinned : Bool
  expiresAt : Nat
  name : List UInt8
deriving DecidableEq, Repr

def snapshotNameLen : Nat := 32

/-- A name of exactly the length the entry has room for. -/
def makeName (name : List UInt8) : List UInt8 :=
  name.take snapshotNameLen ++ List.replicate (snapshotNameLen - name.length) 0

def Snapshot.isExpired (s : Snapshot) (now : Nat) : Bool := !s.pinned && decide (s.expiresAt ≤ now)

structure SnapshotRegistry where
  snaps : List Snapshot
  nextId : Nat
deriving DecidableEq, Repr

namespace SnapshotRegistry

def empty : SnapshotRegistry := ⟨[], 1⟩

def fromEntries (entries : List Snapshot) : SnapshotRegistry :=
  ⟨entries, (entries.map Snapshot.id).max?.elim 1 (· + 1)⟩

variable (r : SnapshotRegistry)

def get (id : Nat) : Option Snapshot := r.snaps.find? fun s => s.id = id

def create (txnId rootRecords expiresAt : Nat) (name : List UInt8) (pinned : Bool) :
    Snapshot × SnapshotRegistry :=
  let snap := ⟨r.nextId, txnId, rootRecords, pinned, expiresAt, makeName name⟩
  (snap, ⟨r.snaps ++ [snap], r.nextId + 1⟩)

def remove (id : Nat) : SnapshotRegistry :=
  { r with snaps := r.snaps.eraseP fun s => s.id = id }

def expire (now : Nat) : SnapshotRegistry :=
  { r with snaps := r.snaps.filter fun s => !s.isExpired now }

/-- The oldest transaction that must stay readable. -/
def oldestTxnId : Option Nat := (r.snaps.map Snapshot.txnId).min?

end SnapshotRegistry

variable {r : SnapshotRegistry} {s : Snapshot} {id : Nat}

lemma mem_of_get (h : r.get id = some s) : s ∈ r.snaps ∧ s.id = id :=
  ⟨List.mem_of_find?_eq_some h, by simpa using List.find?_some h⟩

lemma oldestTxnId_le (h : s ∈ r.snaps) : ∃ t, r.oldestTxnId = some t ∧ t ≤ s.txnId := by
  have listed : s.txnId ∈ r.snaps.map Snapshot.txnId := List.mem_map.2 ⟨s, h, rfl⟩
  cases least : (r.snaps.map Snapshot.txnId).min? with
  | none =>
    rw [List.min?_eq_none_iff.1 least] at listed
    cases listed
  | some t => exact ⟨t, least, (List.min?_eq_some_iff.1 least).2 _ listed⟩

/-- A registry that holds the highest id it ever gave out is read back as it is. -/
lemma fromEntries_snaps (below : ∀ s ∈ r.snaps, s.id < r.nextId)
    (top : r.nextId = 1 ∧ r.snaps = [] ∨ ∃ s ∈ r.snaps, s.id + 1 = r.nextId) :
    SnapshotRegistry.fromEntries r.snaps = r := by
  obtain ⟨snaps, nextId⟩ := r
  simp only [SnapshotRegistry.fromEntries, SnapshotRegistry.mk.injEq, true_and]
  rcases top with ⟨rfl, rfl⟩ | ⟨s, hs, rfl⟩
  · rfl
  have highest : (snaps.map Snapshot.id).max? = some s.id := by
    refine List.max?_eq_some_iff.2 ⟨List.mem_map.2 ⟨s, hs, rfl⟩, fun b hb => ?_⟩
    obtain ⟨x, hx, rfl⟩ := List.mem_map.1 hb
    exact Nat.le_of_lt_succ (below x hx)
  rw [highest]
  rfl

end BigDb.Pager
