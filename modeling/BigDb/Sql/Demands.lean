import BigDb.Rbac.Grants
import BigDb.Sql.Lower
import Mathlib.Data.List.TakeWhile

/-!
# Statements and what they demand

One statement as it is parsed, as it is translated, and the privileges it asks for before any of it is run. Of a
statement that changes the schema or the grants only what it names is kept, since that is what its demands are made of.
A statement that is parsed has had its view names expanded and its database filled in: every text gives one of these,
under every request database.
-/

namespace BigDb.Sql
open Rbac Db

inductive InsertSource where
  | values
  | select (s : Select)

structure Insert where
  database : Option String
  table : String
  source : InsertSource
  overwrite : Bool

/-- A `DELETE` as it is written; an `UPDATE` differs only in what is assigned, which is left out. -/
structure Filtered where
  database : Option String
  table : String
  filter : Cond

/-- The same, lowered: what selects the records, and every other table that reads. -/
structure Delete where
  database : Option String
  table : String
  rows : Expr
  reads : List String

inductive Ddl where
  | createDatabase (name : String)
  | dropDatabase (name : String) (cascade : Bool)
  | createTable (database : Option String) (table : String)
  | alterTable (database : Option String) (table : String)
  | dropTable (database : Option String) (table : String)
  | truncateTable (database : Option String) (table : String)
  | renameTable (database : Option String) (table newName : String)
  | exchangeTables (database : Option String) (a b : String)
  | createView (database : Option String) (name body : String)
  | dropView (database : Option String) (name : String)

inductive AclObject where
  | server
  | database (name : Option String)
  | table (database : Option String) (table : String)

inductive Acl where
  | createRole (name : String)
  | dropRole (name : String)
  | grant (privileges : Privileges) (on : AclObject) (role : String)
  | revoke (privileges : Privileges) (on : AclObject) (role : String)

inductive Shown where
  | columns (database : Option String) (table : String)
  | create (database : Option String) (table : String)
  | tables (database : Option String)
  | views (database : Option String)
  | databases
  | roles
  | grants (role : Option String)
  | processlist
  | system
  | numbers (n : Nat)

/-- The limits a statement puts on itself; the others bound what it reads. -/
structure Settings where
  maxDeleteRecords : Option Nat

inductive Parsed where
  | query (q : Query)
  | insert (i : Insert)
  | shown (s : Shown)
  | ddl (d : Ddl)
  | delete (d : Filtered)
  | update (u : Filtered)
  | kill (id : String)
  | acl (a : Acl)
  | explain (inner : Parsed)
  | settings (s : Settings) (inner : Parsed)

/-- `Sql` of the source. -/
inductive Translated where
  | query (s : Statement)
  | insert (i : Insert)
  | shown (s : Shown)
  | ddl (d : Ddl)
  | delete (d : Delete)
  | update (u : Delete)
  | kill (id : String)
  | acl (a : Acl)
  | explain (inner : Translated)
  | settings (s : Settings) (inner : Translated)

/-! ## Translating -/

def lowerFiltered (written : Filtered) : Lowering Delete := do
  return ⟨written.database, written.table, ← rows written.filter, reads written.filter⟩

def Translated.isDelete : Translated → Bool
  | .delete _ => true
  | _ => false

/-- A limit on deletions is refused on a statement that deletes nothing. -/
def finish : Parsed → Lowering Translated
  | .query q => do return .query (← lower q)
  | .insert i => .ok (.insert i)
  | .shown s => .ok (.shown s)
  | .ddl d => .ok (.ddl d)
  | .delete d => do return .delete (← lowerFiltered d)
  | .update u => do return .update (← lowerFiltered u)
  | .kill id => .ok (.kill id)
  | .acl a => .ok (.acl a)
  | .explain inner => do return .explain (← finish inner)
  | .settings s inner => do
    let inner ← finish inner
    refuseIf (s.maxDeleteRecords.isSome && !inner.isDelete) .setting 0
    return .settings s inner

/-! ## Demands -/

def Statement.tables (s : Statement) : List String := (s.calls.map Ask.table).eraseDups

def objectOf (name : String) : Rbac.Object :=
  match splitOnce name with
  | some (database, table) => .table database table
  | none => .table defaultDatabaseName name

variable (database : Option String)

def tableRef (table : String) : Rbac.Object :=
  .table (database.getD defaultDatabaseName) table

def databaseRef : Rbac.Object := .database (database.getD defaultDatabaseName)

def ddlDemands : Ddl → List Demand
  | .createDatabase _ => [⟨.create, .server⟩]
  | .dropDatabase .. => [⟨.drop, .server⟩]
  | .createTable database _ => [⟨.create, databaseRef database⟩]
  | .createView database .. => [⟨.create, databaseRef database⟩]
  | .alterTable database table => [⟨.alter, tableRef database table⟩]
  | .dropTable database table => [⟨.drop, tableRef database table⟩]
  | .truncateTable database table => [⟨.drop, tableRef database table⟩]
  | .dropView database name => [⟨.drop, tableRef database name⟩]
  | .renameTable database table _ => [⟨.alter, tableRef database table⟩, ⟨.create, databaseRef database⟩]
  | .exchangeTables database a b => [⟨.drop, tableRef database a⟩, ⟨.drop, tableRef database b⟩]

def insertDemands (i : Insert) : List Demand :=
  [⟨.insert, tableRef i.database i.table⟩] ++ (if i.overwrite then [⟨.delete, tableRef i.database i.table⟩] else []) ++
    match i.source with
    | .values => []
    | .select s => s.sources.map fun source => ⟨.select, tableRef source.database source.table⟩

def showDemands : Shown → List Demand
  | .columns database table => [⟨.select, tableRef database table⟩]
  | .create database table => [⟨.select, tableRef database table⟩]
  | .grants (some _) => [⟨.roles, .server⟩]
  | .roles => [⟨.roles, .server⟩]
  | .processlist => [⟨.operate, .server⟩]
  -- listings of names
  | .tables _ | .views _ | .databases | .numbers _ | .grants none | .system => []

def collectDemands : Translated → List Demand
  | .query s => s.tables.map fun table => ⟨.select, objectOf table⟩
  | .insert i => insertDemands i
  | .shown s => showDemands s
  | .ddl d => ddlDemands d
  | .kill _ => [⟨.operate, .server⟩]
  | .update u =>
    [⟨.insert, tableRef u.database u.table⟩, ⟨.delete, tableRef u.database u.table⟩] ++
      u.reads.map fun table => ⟨.select, objectOf table⟩
  | .delete d =>
    ⟨.delete, tableRef d.database d.table⟩ :: d.reads.map fun table => ⟨.select, objectOf table⟩
  | .acl _ => [⟨.roles, .server⟩]
  | .explain inner => collectDemands inner
  | .settings _ inner => collectDemands inner

/-- Without the repeats that follow each other. -/
def dedup : List Demand → List Demand
  | [] => []
  | [d] => [d]
  | d :: e :: rest => if d = e then dedup (e :: rest) else d :: dedup (e :: rest)

def demands (sql : Translated) : List Demand := dedup (collectDemands sql)

lemma mem_dedup {d : Demand} {ds : List Demand} : d ∈ dedup ds ↔ d ∈ ds := by
  induction ds using dedup.induct with
  | case1 | case2 => rfl
  | case3 e rest ih =>
    rw [dedup, if_pos rfl, ih]
    simp
  | case4 d' e rest hne ih =>
    rw [dedup, if_neg hne, List.mem_cons, ih, List.mem_cons (b := d')]

lemma mem_demands {d : Demand} {sql : Translated} : d ∈ demands sql ↔ d ∈ collectDemands sql := mem_dedup

/-! ## Names -/

def onTable (r : TableRef) : Rbac.Object := .table r.database r.table

/-- What a name is demanded as is what it is looked up as. -/
lemma objectOf_eq (name : String) : objectOf name = onTable (TableRef.parse name) := by
  unfold objectOf TableRef.parse
  cases splitOnce name <;> rfl

/-- A name that is looked up as the table it was written as: its first dot, if any, is the one between the database
and the table. -/
def plain (table : String) : Bool :=
  match database with
  | some d => !d.toList.contains '.'
  | none => !table.toList.contains '.'

lemma not_dot {name : String} (h : '.' ∉ name.toList) : ∀ c ∈ name.toList, decide (c ≠ '.') = true := by
  intro c hc
  simpa using fun heq : c = '.' => h (heq ▸ hc)

lemma splitOnce_none {name : String} (h : '.' ∉ name.toList) : splitOnce name = none := by
  rw [splitOnce, List.dropWhile_eq_nil_iff.mpr (not_dot h)]

lemma splitOnce_append {d t : String} (h : '.' ∉ d.toList) : splitOnce (d ++ "." ++ t) = some (d, t) := by
  have hlist : (d ++ "." ++ t).toList = d.toList ++ ('.' :: t.toList) := by simp
  rw [splitOnce, hlist, List.takeWhile_append_of_pos (not_dot h), List.dropWhile_append_of_pos (not_dot h)]
  simp

lemma parse_qualified {database : Option String} {table : String} (h : plain database table = true) :
    onTable (TableRef.parse (qualified database table)) = tableRef database table := by
  unfold plain at h
  split at h
  · rename_i d
    have hd : '.' ∉ d.toList := by simpa using h
    simp [qualified, TableRef.parse, splitOnce_append hd, onTable, tableRef]
  · have ht : '.' ∉ table.toList := by simpa using h
    simp [qualified, TableRef.parse, splitOnce_none ht, onTable, tableRef]

end BigDb.Sql
