import BigDb.Cluster.Ownership
import Mathlib.Data.List.Dedup

/-!
# Catching a copy up

`catch_up_in`, as the node that runs it takes it: it lists the fragments of the source and of the
target, and replaces on the target every fragment that differs in size and every one the source
does not have. A fragment is fetched by one request and pushed by another, so anything can happen
to either node in between. Schemas and row keys, which are copied along, are left out.

Whether two copies agree is asked with digests. Those are taken to tell any two contents apart,
so a digest is the contents themselves.
-/

namespace BigDb.Cluster
variable {α : Type}

/-- A fragment: a shard of one view of one field. -/
structure FragmentAddr where
  shard : Nat
  part : Nat
deriving DecidableEq, Repr

/-- How far one pass of `catch_up_in` has come. -/
inductive Copying (α : Type) where
  | listing
  /-- the source's fragments, with how much is in each -/
  | listed (mine : List (FragmentAddr × Nat))
  /-- what has to be copied, and what the target has too much -/
  | filling (todo extra : List FragmentAddr)
  /-- a fragment on its way -/
  | carrying (addr : FragmentAddr) (body : List α) (todo extra : List FragmentAddr)
deriving DecidableEq, Repr

section Copies
variable [DecidableEq α] (record part : α → Nat)

def fragmentOf (f : α) : FragmentAddr := ⟨shardOf (record f), part f⟩

/-- The fragments of some shards, with how much is in each. `none` is everything. -/
def fragmentsIn (scope : Option ShardRange) (store : List α) : List (FragmentAddr × Nat) :=
  let held := store.filter fun f => scope.all (·.holds (record f))
  (held.map (fragmentOf record part)).dedup.map fun addr =>
    (addr, (held.filter fun f => fragmentOf record part f = addr).dedup.length)

def pushFragment (addr : FragmentAddr) (body store : List α) : List α :=
  (store.filter fun f => fragmentOf record part f ≠ addr) ++ body

/-- One step of a pass that makes the target hold `mine`, which the source does, instead of
`theirs`: what the target holds then, and how far the pass is. `none` is its end. -/
def copyStep (scope : Option ShardRange) (mine theirs : List α) : Copying α → List α × Option (Copying α)
  | .listing => (theirs, some (.listed (fragmentsIn record part scope mine)))
  | .listed listed =>
    let found := fragmentsIn record part scope theirs
    (theirs, some (.filling ((listed.filter fun m => m ∉ found).map Prod.fst)
      ((found.filter fun t => t.1 ∉ listed.map Prod.fst).map Prod.fst)))
  | .filling (addr :: todo) extra =>
    (theirs, some (.carrying addr (mine.filter fun f => fragmentOf record part f = addr) todo extra))
  | .filling [] (addr :: extra) => (pushFragment record part addr [] theirs, some (.filling [] extra))
  | .filling [] [] => (theirs, none)
  | .carrying addr body todo extra =>
    (pushFragment record part addr body theirs, some (.filling todo extra))

/-- What is held of some shards. -/
def contentsIn (shards : ShardRange) (store : List α) : List α :=
  store.filter fun f => shards.holds (record f)

def sameFacts (a b : List α) : Bool := a.all (· ∈ b) && b.all (· ∈ a)

variable {record}

lemma mem_of_sameFacts {a b : List α} (h : sameFacts a b = true) {f : α} : f ∈ a ↔ f ∈ b := by
  obtain ⟨hab, hba⟩ := Bool.and_eq_true_iff.1 h
  constructor
  · exact fun hf => of_decide_eq_true (List.all_eq_true.1 hab f hf)
  · exact fun hf => of_decide_eq_true (List.all_eq_true.1 hba f hf)

omit [DecidableEq α] in
lemma mem_contentsIn {shards : ShardRange} {store : List α} {f : α} :
    f ∈ contentsIn record shards store ↔ f ∈ store ∧ shards.holds (record f) = true :=
  List.mem_filter

end Copies

end BigDb.Cluster
