import BigDb.Cluster.Ownership
import BigDb.Db.Catalog
import Mathlib.Data.List.Dedup

/-!
# The digest of a copy

`digest_in` hashes totals of what a node holds: how many records a table has, and of each field how many of them are in each
row, the sum, the extremes, or how many are true and how many false. The hash is a function of the names and numbers it is
given, one after another.
-/

namespace BigDb.Cluster.Digest
open List Function Db

/-- A field and what a node has of it: records with their row or number, or with 1 for true and 0 for false. -/
structure Field where
  name : String
  kind : FieldKind
  facts : List (Nat × Int)

structure Table where
  name : String
  records : List Nat
  fields : List Field

variable (scope : Option (List ShardRange))

def inShards (record : Nat) : Bool := scope.all fun shards => shards.any (·.holds record)

def Field.values (f : Field) : List Int := (f.facts.filter fun x => inShards scope x.1).map Prod.snd

def Table.count (t : Table) : Nat := (t.records.filter (inShards scope)).length

/-- What the hash is given of the values of a field. There is nothing to say where the rows end. -/
def totals (kind : FieldKind) (values : List Int) : List Int :=
  match kind with
  | .set | .mutex | .timeQuantum =>
    (values.dedup.insertionSort (· ≤ ·)).flatMap fun row => [row, values.count row]
  | .int | .decimal | .signedInt | .date | .dateTime => [values.foldl (· + ·) 0]
  | .float32 | .float64 => [values.min?.getD 0, values.max?.getD 0]
  | .bool => [values.count 1, values.count 0]

def Table.sorted (t : Table) : List Field := t.fields.insertionSort fun f g => f.name ≤ g.name

def sorted (tables : List Table) : List Table := tables.insertionSort fun s t => s.name ≤ t.name

/-- The names and what follows each of them. -/
def Table.entries (t : Table) : List (String × List Int) :=
  (t.name, [t.count scope]) :: t.sorted.map fun f => (f.name, f.kind.ctorIdx :: totals f.kind (f.values scope))

/-- Tables and fields of the same names and kinds, that are related. -/
def Matched (tables : Table → Table → Prop) (fields : Field → Field → Prop) (a b : List Table) : Prop :=
  Forall₂ (fun s t => (s.name = t.name ∧ tables s t) ∧
    Forall₂ (fun f g => (f.name = g.name ∧ f.kind = g.kind) ∧ fields f g) s.sorted t.sorted) (sorted a) (sorted b)

def SameTotals (kind : FieldKind) (a b : List Int) : Prop :=
  match kind with
  | .set | .mutex | .timeQuantum => ∀ row, a.count row = b.count row
  | .int | .decimal | .signedInt | .date | .dateTime => a.foldl (· + ·) 0 = b.foldl (· + ·) 0
  | .float32 | .float64 => a.min?.getD 0 = b.min?.getD 0 ∧ a.max?.getD 0 = b.max?.getD 0
  | .bool => a.count 1 = b.count 1 ∧ a.count 0 = b.count 0

/-- As many records, and the same totals. -/
def Agree (a b : List Table) : Prop :=
  Matched (fun s t => s.count scope = t.count scope)
    (fun f g => SameTotals f.kind (f.values scope) (g.values scope)) a b

variable {scope}

end BigDb.Cluster.Digest
