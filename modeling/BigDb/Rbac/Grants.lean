import BigDb.Db.Catalog
import Mathlib.Data.Nat.Bitwise

/-!
# Roles and what they hold

`big-rbac`: privileges are bits of a mask, a grant is a mask filed under a role and the id of a database and a table,
and one id that no object has stands for every object. What a role holds on a table is the union of three grants.
A name that resolves to nothing is widened to the level that does.
-/

namespace BigDb.Rbac
open Lib Db Bool

inductive Privilege where
  | select | insert | delete | create | drop | alter | roles | operate
deriving DecidableEq, Repr

namespace Privilege

def all : List Privilege := [select, insert, delete, create, drop, alter, roles, operate]

def index : Privilege → Nat
  | select => 0
  | insert => 1
  | delete => 2
  | create => 3
  | drop => 4
  | alter => 5
  | roles => 6
  | operate => 7

def bit (p : Privilege) : Nat := 2 ^ p.index

end Privilege

/-- A set of privileges; bits no privilege has may be set. -/
structure Privileges where
  mask : Nat
deriving DecidableEq, Repr

namespace Privileges

def known : Privileges := ⟨Privilege.all.foldl (fun acc p => acc ||| p.bit) 0⟩

def empty : Privileges := ⟨0⟩

def contains (s : Privileges) (p : Privilege) : Bool := s.mask &&& p.bit != 0

def union (s t : Privileges) : Privileges := ⟨s.mask ||| t.mask⟩

def of (ps : List Privilege) : Privileges := ⟨ps.foldl (fun acc p => acc ||| p.bit) 0⟩

lemma contains_eq (s : Privileges) (p : Privilege) : s.contains p = s.mask.testBit p.index := by
  rw [contains, Privilege.bit, Nat.and_two_pow]
  cases s.mask.testBit p.index <;> simp

lemma contains_union (s t : Privileges) (p : Privilege) :
    (s.union t).contains p = (s.contains p || t.contains p) := by
  simp only [contains_eq, union, Nat.testBit_or]

end Privileges

inductive Object where
  | server
  | database (name : String)
  | table (database table : String)
deriving DecidableEq, Repr

structure Demand where
  privilege : Privilege
  on : Object
deriving DecidableEq, Repr

structure GrantKey where
  role : RoleId
  database : DatabaseId
  table : TableId
deriving DecidableEq, Repr

def anyDatabase : DatabaseId := maxId
def anyTable : TableId := maxId

/-- Who a request is made by. -/
inductive Who where
  | trusted
  | role (name : String)
deriving DecidableEq, Repr

def Who.isSuperuser : Who → Bool
  | .trusted => false
  | .role name => name = superuser

/-- The grants; the roles they are filed under are the catalog's. -/
abbrev Grants := Assoc GrantKey Privileges

namespace Grants
variable (g : Grants)

def get (key : GrantKey) : Privileges := (g.lookup key).getD .empty

def effective (role : RoleId) (database : DatabaseId) (table : TableId) : Privileges :=
  let server := Grants.get g ⟨role, anyDatabase, anyTable⟩
  let held :=
    if database ≠ anyDatabase then
      let held := server.union (Grants.get g ⟨role, database, anyTable⟩)
      if table ≠ anyTable then held.union (Grants.get g ⟨role, database, table⟩) else held
    else server
  ⟨held.mask &&& Privileges.known.mask⟩

def allows (role : RoleId) (privilege : Privilege) (database : DatabaseId) (table : TableId) : Bool :=
  (effective g role database table).contains privilege

end Grants

/-- A node as far as its decisions about who may do what go. -/
structure Api where
  catalog : Catalog
  grants : Grants

namespace Api
variable (api : Api)

/-- The ids a demand is decided at. -/
def resolve : Object → DatabaseId × TableId
  | .server => (anyDatabase, anyTable)
  | .database name =>
    match api.catalog.database name with
    | some id => (id, anyTable)
    | none => (anyDatabase, anyTable)
  | .table database table =>
    match api.catalog.database database with
    | none => (anyDatabase, anyTable)
    | some d =>
      match api.catalog.table d table with
      | some t => (d, t.id)
      | none => (d, anyTable)

def allows (who : Who) (demand : Demand) : Bool :=
  match who with
  | .trusted => true
  | .role name =>
    if who.isSuperuser then true
    else
      match api.catalog.roleIds.lookup name with
      | none => false
      | some role =>
        let (database, table) := api.resolve demand.on
        Grants.allows api.grants role demand.privilege database table

/-! ## Holding a privilege -/

/-- The grants that count on an object: over the server, over the database there is of its name, and over the table
there is of its name. -/
def levels (role : RoleId) : Object → List GrantKey
  | .server => [⟨role, anyDatabase, anyTable⟩]
  | .database name =>
    ⟨role, anyDatabase, anyTable⟩ :: ((api.catalog.database name).map fun d => (⟨role, d, anyTable⟩ : GrantKey)).toList
  | .table database table =>
    ⟨role, anyDatabase, anyTable⟩ :: (match api.catalog.database database with
        | none => []
        | some d =>
          ⟨role, d, anyTable⟩ :: ((api.catalog.table d table).map fun t => (⟨role, d, t.id⟩ : GrantKey)).toList)

/-- A role holds a privilege on an object if some grant that counts on it has the privilege. -/
def Holds (role : String) (privilege : Privilege) (on : Object) : Prop :=
  ∃ r ∈ api.catalog.roleIds.lookup role, ∃ key ∈ api.levels r on, (Grants.get api.grants key).contains privilege = true

instance (role : String) (privilege : Privilege) (on : Object) : Decidable (api.Holds role privilege on) :=
  match h : api.catalog.roleIds.lookup role with
  | none => .isFalse (by simp [Holds, h])
  | some r =>
    decidable_of_iff (∃ key ∈ api.levels r on, (Grants.get api.grants key).contains privilege = true)
      (by simp [Holds, h])

variable {api} {on : Object} {r : RoleId} {p : Privilege} {role : String}

/-- Where the name of the database resolves, the grant over it counts. -/
lemma database_mem_levels (hd : (api.resolve on).1 ≠ anyDatabase) :
    ⟨r, (api.resolve on).1, anyTable⟩ ∈ api.levels r on := by
  cases on with
  | server => exact absurd rfl hd
  | database name =>
    cases h : api.catalog.database name with
    | none => simp [resolve, h] at hd
    | some d => simp [resolve, levels, h]
  | table database table =>
    cases h : api.catalog.database database with
    | none => simp [resolve, h] at hd
    | some d => cases ht : api.catalog.table d table <;> simp [resolve, levels, h, ht]

/-- Where the name of the table resolves too, so does the grant over it. -/
lemma table_mem_levels (ht : (api.resolve on).2 ≠ anyTable) :
    ⟨r, (api.resolve on).1, (api.resolve on).2⟩ ∈ api.levels r on := by
  cases on with
  | server => exact absurd rfl ht
  | database name => cases h : api.catalog.database name <;> simp [resolve, h] at ht
  | table database table =>
    cases h : api.catalog.database database with
    | none => simp [resolve, h] at ht
    | some d =>
      cases htable : api.catalog.table d table with
      | none => simp [resolve, h, htable] at ht
      | some t => simp [resolve, levels, h, htable]

lemma server_mem_levels : ⟨r, anyDatabase, anyTable⟩ ∈ api.levels r on := by
  cases on <;> simp [levels]

/-- Widening a name that resolves to nothing never lets through what is not held. -/
lemma holds_of_allows (hrole : role ≠ superuser) {demand : Demand}
    (h : api.allows (.role role) demand = true) : api.Holds role demand.privilege demand.on := by
  unfold allows at h
  simp only [Who.isSuperuser, hrole, decide_false, false_eq_true, if_false] at h
  split at h
  · cases h
  rename_i r hr
  refine ⟨r, hr, ?_⟩
  simp only [Grants.allows, Grants.effective, Privileges.contains_eq, Nat.testBit_and, and_eq_true] at h
  have h := h.1
  by_cases hd : (api.resolve demand.on).1 = anyDatabase
  · rw [if_neg (by simpa using hd)] at h
    exact ⟨_, server_mem_levels, by rwa [Privileges.contains_eq]⟩
  rw [if_pos hd] at h
  by_cases ht : (api.resolve demand.on).2 = anyTable
  · rw [if_neg (by simpa using ht), ← Privileges.contains_eq, Privileges.contains_union, or_eq_true] at h
    obtain h | h := h
    · exact ⟨_, server_mem_levels, h⟩
    · exact ⟨_, database_mem_levels hd, h⟩
  rw [if_pos ht, ← Privileges.contains_eq, Privileges.contains_union, Privileges.contains_union, or_eq_true,
    or_eq_true] at h
  obtain (h | h) | h := h
  · exact ⟨_, server_mem_levels, h⟩
  · exact ⟨_, database_mem_levels hd, h⟩
  · exact ⟨_, table_mem_levels ht, h⟩

/-- What is held over the server is held everywhere. -/
lemma Holds.of_server (h : api.Holds role p .server) (on : Object) : api.Holds role p on := by
  obtain ⟨r, hr, key, hkey, hp⟩ := h
  rw [levels, List.mem_singleton] at hkey
  exact ⟨r, hr, key, hkey ▸ server_mem_levels, hp⟩

end Api

end BigDb.Rbac
