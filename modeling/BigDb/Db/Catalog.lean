import BigDb.Cluster.KeyStore
import BigDb.Lib.Assoc
import Mathlib.Algebra.Group.Nat.Defs

/-!
# The catalog

Schema and per-fragment metadata as `big-db` keeps them in memory: names are interned to ids, and
ids come from counters that only go up. Where the source nests one map in another to look a name up
without building a key, the key is the pair here. What nothing here reads is left out: the
privileges of roles, the shards a read transaction is restricted to, and the records the catalog is
stored in.

A catalog carries the proof that its tables and fields are below the counters their ids come from.
-/

namespace BigDb.Db
open Lib Cluster Function

abbrev DatabaseId := Nat
abbrev TableId := Nat
abbrev FieldId := Nat
abbrev ViewId := Nat
abbrev QueryId := Nat
abbrev RoleId := Nat

/-- `u32::MAX`, which no database, table or field has for an id. -/
def maxId : Nat := 2 ^ 32 - 1

/-- `CATALOG_ENTRY_BYTES - NAME_AT`. -/
def maxNameLen : Nat := 104

def maxViewBytes : Nat := 4096
def maxRoles : Nat := 64
def defaultDatabase : DatabaseId := 0
def defaultDatabaseName : String := "default"

/-- How many ids at the top of the range `internView` never hands out. -/
def reservedViews : Nat := 2

def superuser : String := "superuser"

inductive TableEngine where
  | bitmap
  | columnar
  | hybrid
deriving DecidableEq, Repr

def TableEngine.asStr : TableEngine → String
  | .bitmap => "bitmap"
  | .columnar => "columnar"
  | .hybrid => "bitmap+columnar"

inductive FieldKind where
  | set | mutex | bool | int | decimal | timeQuantum | signedInt | float32 | float64 | date | dateTime
deriving DecidableEq, Repr

def FieldKind.isKeyed : FieldKind → Bool
  | .set | .mutex | .timeQuantum => true
  | _ => false

inductive Granularity where
  | year | month | day | hour
deriving DecidableEq, Repr

/-- A table, under the database its name is unique within. -/
structure TableRef where
  database : String
  table : String
deriving DecidableEq, Repr

/-- Qualified only when it says something. -/
def TableRef.display (r : TableRef) : String :=
  if r.database = defaultDatabaseName then r.table else r.database ++ "." ++ r.table

/-- The halves of a name around its first dot. -/
def splitOnce (name : String) : Option (String × String) :=
  match name.toList.dropWhile (· ≠ '.') with
  | [] => none
  | _ :: table => some (String.ofList (name.toList.takeWhile (· ≠ '.')), String.ofList table)

/-- `database.table`, or a bare name, which is in the default database. -/
def TableRef.parse (name : String) : TableRef :=
  match splitOnce name with
  | some (database, table) => ⟨database, table⟩
  | none => ⟨defaultDatabaseName, name⟩

structure TableDef where
  id : TableId
  name : String
  engine : TableEngine
  database : DatabaseId
deriving DecidableEq, Repr

structure FieldDef where
  id : FieldId
  table : TableId
  name : String
  kind : FieldKind
  bitDepth : Nat
  scale : Int
  granularity : List Granularity
  members : List String
deriving DecidableEq, Repr

structure SavedQuery where
  id : QueryId
  database : DatabaseId
  name : String
  text : String
deriving DecidableEq, Repr

structure FragmentKey where
  table : TableId
  field : FieldId
  view : ViewId
  shard : Nat
deriving DecidableEq, Repr

structure FragmentMeta where
  bitDepth : Nat
  min : Nat
  max : Nat
  hasValues : Bool
deriving DecidableEq, Repr, Inhabited

/-- Widens the zone map by one value. -/
def FragmentMeta.observe (m : FragmentMeta) (value : Nat) : FragmentMeta :=
  let needed := Nat.log2 value + 1
  if m.hasValues then
    { m with min := Nat.min m.min value, max := Nat.max m.max value, bitDepth := Nat.max m.bitDepth needed }
  else ⟨Nat.max m.bitDepth needed, value, value, true⟩

inductive DbError where
  | unknownTable (name : String)
  | unknownDatabase (name : String)
  | unknownField (table field : String)
  | wrongFieldKind (field expected : String)
  | nameTooLong (name : String) (max : Nat)
  | nameTaken (name : String)
  | nameSeparator (name : String)
  | viewRedefined (name : String)
  | viewNameTaken (name : String)
  | viewTooLong (view : String) (bytes max : Nat)
  | fieldRedefined (table field : String)
  | tableRedefined (table existing asked : String)
  | reservedRole (name : String)
  | tooManyRoles (max : Nat)
  | roleIdsExhausted
  | key (e : KeyError)
deriving DecidableEq, Repr

/-- Where ids come from. -/
structure Sequences where
  database : DatabaseId
  table : TableId
  view : ViewId
  savedQuery : QueryId
  /-- zero for a table that has none yet -/
  field : TableId → FieldId
  role : RoleId

structure Catalog where
  databases : Assoc DatabaseId String
  databaseIds : Assoc String DatabaseId
  tables : Assoc TableId TableDef
  tableIds : Assoc (DatabaseId × String) TableId
  fields : Assoc (TableId × FieldId) FieldDef
  fieldIds : Assoc (TableId × String) FieldId
  views : Assoc ViewId String
  viewIds : Assoc String ViewId
  savedQueries : Assoc QueryId SavedQuery
  savedQueryIds : Assoc (DatabaseId × String) QueryId
  fragments : Assoc FragmentKey FragmentMeta
  roles : Assoc RoleId String
  roleIds : Assoc String RoleId
  seq : Sequences
  keys : KeyStore
  tableOwn : ∀ t d, tables.lookup t = some d → d.id = t
  tableBelow : ∀ t ∈ tables, t < seq.table
  fieldOwn : ∀ p d, fields.lookup p = some d → (d.table, d.id) = p
  fieldBelow : ∀ p ∈ fields, p.1 ∈ tables ∧ p.2 < seq.field p.1

namespace Catalog

def empty : Catalog where
  databases := ∅
  databaseIds := ∅
  tables := ∅
  tableIds := ∅
  fields := ∅
  fieldIds := ∅
  views := ∅
  viewIds := ∅
  savedQueries := ∅
  savedQueryIds := ∅
  fragments := ∅
  roles := ∅
  roleIds := ∅
  seq := ⟨1, 0, 1, 0, fun _ => 0, 0⟩
  keys := .empty
  tableOwn _ _ h := by cases h
  tableBelow t h := (AList.notMem_empty t h).elim
  fieldOwn _ _ h := by cases h
  fieldBelow p h := (AList.notMem_empty p h).elim

variable (c : Catalog)

/-! ## Looking names up -/

def database (name : String) : Option DatabaseId :=
  if name = defaultDatabaseName then some defaultDatabase else c.databaseIds.lookup name

def databaseOf (r : TableRef) : Except DbError DatabaseId :=
  match c.database r.database with
  | some id => .ok id
  | none => .error (.unknownDatabase r.database)

variable (database : DatabaseId) (name : String)

def table : Option TableDef :=
  (c.tableIds.lookup (database, name)).bind fun id => c.tables.lookup id

/-- A table by qualified reference, or why there is none. -/
def require (r : TableRef) : Except DbError TableDef := do
  match c.table (← c.databaseOf r) r.table with
  | some t => .ok t
  | none => .error (.unknownTable r.display)

def savedQuery : Option SavedQuery :=
  (c.savedQueryIds.lookup (database, name)).bind fun id => c.savedQueries.lookup id

variable (table : TableId)

def field (name : String) : Option FieldDef :=
  (c.fieldIds.lookup (table, name)).bind fun id => c.fields.lookup (table, id)

def resolve (r : TableRef) (field : String) : Except DbError (TableId × FieldDef) := do
  let t ← c.require r
  match c.field t.id field with
  | some f => .ok (t.id, f)
  | none => .error (.unknownField r.display field)

/-- The rule every name in a catalog record is held to. -/
def checkName : Except DbError Unit :=
  if maxNameLen < name.utf8ByteSize then .error (.nameTooLong name maxNameLen)
  else if '.' ∈ name.toList then .error (.nameSeparator name)
  else .ok ()

/-! ## Changing it -/

def internDatabase : Except DbError (DatabaseId × Catalog) := do
  checkName name
  match c.database name with
  | some id => .ok (id, c)
  | none =>
    let id := c.seq.database
    if id = maxId then .error (.nameTaken name)
    else .ok (id, { c with
      databases := c.databases.insert id name
      databaseIds := c.databaseIds.insert name id
      seq := { c.seq with database := id + 1 } })

/-- Removes a database that holds no tables and no saved queries. -/
def dropDatabase : Option (DatabaseId × Catalog) :=
  if name = defaultDatabaseName then none
  else
    match c.databaseIds.lookup name with
    | none => none
    | some id =>
      if c.tables.entries.any (fun t => t.2.database = id) ||
          c.savedQueries.entries.any (fun q => q.2.database = id) then none
      else some (id, { c with
        databaseIds := c.databaseIds.erase name
        databases := c.databases.erase id
        tableIds := removeIf c.tableIds fun p => p.1 = id
        savedQueryIds := removeIf c.savedQueryIds fun p => p.1 = id })

def putTable (engine : TableEngine) : Catalog :=
  { c with
    tables := c.tables.insert c.seq.table ⟨c.seq.table, name, engine, database⟩
    tableIds := c.tableIds.insert (database, name) c.seq.table
    seq := { c.seq with table := c.seq.table + 1 }
    tableOwn := fun t d h => by
      by_cases ht : t = c.seq.table
      · subst ht
        rw [AList.lookup_insert] at h
        cases h
        rfl
      · rw [AList.lookup_insert_ne ht] at h
        exact c.tableOwn t d h
    tableBelow := fun t ht => by
      rcases (AList.mem_insert _).1 ht with rfl | ht
      · exact Nat.lt_succ_self _
      · exact Nat.lt_succ_of_lt (c.tableBelow t ht)
    fieldBelow := fun p hp =>
      ⟨(AList.mem_insert _).2 (.inr (c.fieldBelow p hp).1), (c.fieldBelow p hp).2⟩ }

/-- Idempotent for an identical declaration, an error for a contradicting one. -/
def internTableWith (engine : TableEngine) :
    Except DbError (TableId × Catalog) := do
  checkName name
  if (c.savedQuery database name).isSome then .error (.viewNameTaken name)
  else
    match c.tableIds.lookup (database, name) with
    | some id =>
      match c.tables.lookup id with
      | some existing =>
        if existing.engine = engine then .ok (id, c)
        else .error (.tableRedefined name existing.engine.asStr engine.asStr)
      -- the source indexes the map here
      | none => .error (.unknownTable name)
    | none =>
      if c.seq.table = maxId then .error (.nameTaken name)
      else .ok (c.seq.table, c.putTable database name engine)

/-- Stores a `SELECT` under a name. The counter is 32 bits wide and nothing looks at its end. -/
def internSavedQuery (name text : String) (replace : Bool) :
    Except DbError (QueryId × Catalog) := do
  checkName name
  if maxViewBytes < text.utf8ByteSize then .error (.viewTooLong name text.utf8ByteSize maxViewBytes)
  else if (c.table database name).isSome then .error (.viewNameTaken name)
  else
    match c.savedQueryIds.lookup (database, name) with
    | some id =>
      if (c.savedQueries.lookup id).any fun q => q.text = text then .ok (id, c)
      else if !replace then .error (.viewRedefined name)
      else .ok (id, { c with savedQueries := c.savedQueries.insert id ⟨id, database, name, text⟩ })
    | none =>
      let id := c.seq.savedQuery
      .ok (id, { c with
        savedQueries := c.savedQueries.insert id ⟨id, database, name, text⟩
        savedQueryIds := c.savedQueryIds.insert (database, name) id
        seq := { c.seq with savedQuery := (id + 1) % 2 ^ 32 } })

def dropSavedQuery : Bool × Catalog :=
  match c.savedQueryIds.lookup (database, name) with
  | none => (false, c)
  | some id => (true, { c with
      savedQueryIds := c.savedQueryIds.erase (database, name)
      savedQueries := c.savedQueries.erase id })

def internView : Except DbError (ViewId × Catalog) := do
  checkName name
  match c.viewIds.lookup name with
  | some id => .ok (id, c)
  | none =>
    let id := c.seq.view
    if maxId - reservedViews < id then .error (.nameTaken name)
    else .ok (id, { c with
      views := c.views.insert id name
      viewIds := c.viewIds.insert name id
      seq := { c.seq with view := id + 1 } })

def putField (ht : table ∈ c.tables) (d : FieldDef) : Catalog :=
  let id := c.seq.field table
  { c with
    fieldIds := c.fieldIds.insert (table, d.name) id
    fields := c.fields.insert (table, id) { d with table, id }
    seq := { c.seq with field := update c.seq.field table (id + 1) }
    fieldOwn := fun p d' h => by
      by_cases hp : p = (table, id)
      · subst hp
        rw [AList.lookup_insert] at h
        cases h
        rfl
      · rw [AList.lookup_insert_ne hp] at h
        exact c.fieldOwn p d' h
    fieldBelow := fun p hp => by
      rcases (AList.mem_insert _).1 hp with rfl | hp
      · exact ⟨ht, by dsimp only; rw [update_self]; exact Nat.lt_succ_self _⟩
      obtain ⟨hin, hlt⟩ := c.fieldBelow p hp
      refine ⟨hin, ?_⟩
      by_cases hpt : p.1 = table
      · dsimp only
        rw [hpt, update_self]
        rw [hpt] at hlt
        exact Nat.lt_succ_of_lt hlt
      · dsimp only
        rw [update_of_ne hpt]
        exact hlt }

/-- `declare`: idempotent for an identical definition, an error for a different one. -/
def addField (r : TableRef) (d : FieldDef) : Except DbError (TableId × FieldId × Catalog) := do
  let t ← c.require r
  checkName d.name
  match c.fieldIds.lookup (t.id, d.name) with
  | some id =>
    match c.fields.lookup (t.id, id) with
    | some existing =>
      if existing.kind = d.kind ∧ existing.bitDepth = d.bitDepth ∧ existing.scale = d.scale ∧
          existing.granularity = d.granularity then .ok (t.id, id, c)
      else .error (.fieldRedefined t.name d.name)
    -- the source indexes the map here
    | none => .error (.unknownField t.name d.name)
  | none =>
    if c.seq.field t.id = maxId then .error (.nameTaken d.name)
    else if ht : t.id ∈ c.tables then .ok (t.id, c.seq.field t.id, c.putField t.id ht d)
    else .error (.unknownTable r.display)

def nameTable (id : TableId) (name : String) : Catalog :=
  match h : c.tables.lookup id with
  | none => c
  | some t =>
    { c with
      tables := c.tables.insert id { t with name }
      tableOwn := fun t' d hd => by
        by_cases ht : t' = id
        · subst ht
          rw [AList.lookup_insert] at hd
          cases hd
          exact c.tableOwn t' t h
        · rw [AList.lookup_insert_ne ht] at hd
          exact c.tableOwn t' d hd
      tableBelow := fun t' ht => by
        rcases (AList.mem_insert _).1 ht with rfl | ht
        · exact c.tableBelow t' (AList.lookup_isSome.1 (by rw [h]; rfl))
        · exact c.tableBelow t' ht
      fieldBelow := fun p hp =>
        ⟨(AList.mem_insert _).2 (.inr (c.fieldBelow p hp).1), (c.fieldBelow p hp).2⟩ }

def renameTable (old new : String) : Except DbError (Bool × Catalog) := do
  checkName new
  if old ≠ new ∧ (database, new) ∈ c.tableIds then .error (.nameTaken new)
  else
    match c.tableIds.lookup (database, old) with
    | none => .ok (false, c)
    | some id =>
      .ok (true, { c with tableIds := (c.tableIds.erase (database, old)).insert (database, new) id }.nameTable id new)

def exchangeTables (a b : String) : Bool × Catalog :=
  match c.tableIds.lookup (database, a), c.tableIds.lookup (database, b) with
  | some ia, some ib =>
    if ia = ib then (true, c)
    else
      let named := { c with tableIds := (c.tableIds.insert (database, a) ib).insert (database, b) ia }
      (true, (named.nameTable ia b).nameTable ib a)
  | _, _ => (false, c)

/-- Removes the fragments that satisfy a test, and says which they were. -/
def takeFragments (p : FragmentKey → Bool) : List FragmentKey × Catalog :=
  (c.fragments.keys.filter p, { c with fragments := removeIf c.fragments p })

/-- Takes every fragment of one table, leaving its definition, its fields and its keys alone. -/
def takeTableFragments (id : TableId) : List FragmentKey × Catalog := c.takeFragments fun k => k.table = id

def forgetTable (id : TableId) : Catalog :=
  { c with
    tableIds := c.tableIds.erase (database, name)
    tables := c.tables.erase id
    fields := removeIf c.fields fun p => p.1 = id
    fieldIds := removeIf c.fieldIds fun p => p.1 = id
    keys := c.keys.removeTable id
    seq := { c.seq with field := update c.seq.field id 0 }
    tableOwn := fun t d h => by
      by_cases ht : t = id
      · subst ht
        rw [AList.lookup_erase] at h
        cases h
      · rw [AList.lookup_erase_ne ht] at h
        exact c.tableOwn t d h
    tableBelow := fun t ht => c.tableBelow t (AList.mem_erase.1 ht).2
    fieldOwn := fun p d h => c.fieldOwn p d (lookup_of_removeIf h)
    fieldBelow := fun p hp => by
      obtain ⟨hp, hne⟩ := mem_removeIf.1 hp
      have hne : p.1 ≠ id := by simpa using hne
      obtain ⟨hin, hlt⟩ := c.fieldBelow p hp
      refine ⟨AList.mem_erase.2 ⟨hne, hin⟩, ?_⟩
      dsimp only
      rw [update_of_ne hne]
      exact hlt }

/-- Removes a table, its fields, its row keys and its fragment metadata. -/
def dropTable : Option (List FragmentKey × Catalog) :=
  (c.tableIds.lookup (database, name)).map fun id => (c.forgetTable database name id).takeTableFragments id

def forgetField (name : String) (id : FieldId) : Catalog :=
  { c with
    fieldIds := c.fieldIds.erase (table, name)
    fields := c.fields.erase (table, id)
    keys := c.keys.removeScope (table, id)
    fieldOwn := fun p d h => by
      by_cases hp : p = (table, id)
      · subst hp
        rw [AList.lookup_erase] at h
        cases h
      · rw [AList.lookup_erase_ne hp] at h
        exact c.fieldOwn p d h
    fieldBelow := fun p hp => c.fieldBelow p (AList.mem_erase.1 hp).2 }

/-- Removes one field of a table, with its row keys and its fragment metadata. -/
def dropField (name : String) : Option (List FragmentKey × Catalog) :=
  (c.fieldIds.lookup (table, name)).map fun id =>
    (c.forgetField table name id).takeFragments fun k => k.table = table && k.field = id

/-- Whether a time view's period ends before a cutoff. -/
def whollyBefore (name cutoff : String) : Bool :=
  let digits := name.toList
  if !(digits.length = 4 || digits.length = 6 || digits.length = 8 || digits.length = 10) ||
      !digits.all Char.isDigit then false
  else
    let k := Nat.min digits.length cutoff.toList.length
    digits.take k < cutoff.toList.take k

/-- Removes the fragments of one field in every view wholly before `cutoff`. -/
def dropViewsBefore (field : FieldId) (cutoff : String) : List FragmentKey × Catalog :=
  let doomed := (c.viewIds.entries.filter fun v => whollyBefore v.1 cutoff).map (·.2)
  c.takeFragments fun k => k.table = table && k.field = field && k.view ∈ doomed

/-- `fragment_mut`, and what is done to the entry. -/
def editFragment (key : FragmentKey) (f : FragmentMeta → FragmentMeta) : Catalog :=
  { c with fragments := c.fragments.insert key (f ((c.fragments.lookup key).getD ⟨0, 0, 0, false⟩)) }

def internRole : Except DbError (RoleId × Catalog) :=
  if name = superuser then .error (.reservedRole name)
  else
    match c.roleIds.lookup name with
    | some id => .ok (id, c)
    | none =>
      if maxRoles ≤ c.roles.keys.length then .error (.tooManyRoles maxRoles)
      else if c.seq.role = maxId then .error .roleIdsExhausted
      else .ok (c.seq.role, { c with
        roles := c.roles.insert c.seq.role name
        roleIds := c.roleIds.insert name c.seq.role
        seq := { c.seq with role := c.seq.role + 1 } })

def dropRole : Except DbError (Bool × Catalog) :=
  if name = superuser then .error (.reservedRole name)
  else
    match c.roleIds.lookup name with
    | none => .ok (false, c)
    | some id => .ok (true, { c with roleIds := c.roleIds.erase name, roles := c.roles.erase id })

end Catalog

end BigDb.Db
