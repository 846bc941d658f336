import BigDb.Sql.Demands
import BigDb.Sql.Sources

/-!
# Running a statement under a role

`Cluster::run` asks for every demand of a statement before any of its work, and then does the work without asking
again. The work is kept as the tables it executes a plan against and the objects it changes, in order; a run that
fails on the way has done the first of them. An `INSERT ... SELECT` lowers its query inside the run and runs it
as nobody in particular, so what that reads has to have been demanded of the statement around it.
-/

namespace BigDb.Sql
open Lib Rbac Db List

inductive Effect where
  | read (table : TableRef)
  /-- what was done to an object, as the privilege that guards it -/
  | change (privilege : Privilege) (on : Rbac.Object)
deriving DecidableEq, Repr

def readOf (name : String) : Effect := .read (TableRef.parse name)

/-! ## What each kind of statement does -/

/-- The sets first, then the calls, then the searches. -/
def queryEffects (s : Statement) : List Effect :=
  (s.calls.flatMap fun a => a.call.sets.map readOf) ++ (s.calls.map fun a => readOf a.table) ++
    s.probes.map fun p => readOf p.table

def insertEffects (i : Insert) : List Effect :=
  let target := onTable (TableRef.parse (qualified i.database i.table))
  let writes := (if i.overwrite then [Effect.change .delete target] else []) ++ [.change .insert target]
  match i.source with
  | .values => writes
  | .select s =>
    match lower ⟨[s]⟩ with
    | .ok statement => queryEffects statement ++ writes
    | .error _ => []

/-- The records a filter selects, and what is done to them. -/
def filteredEffects (d : Delete) (privileges : List Privilege) : List Effect :=
  let name := qualified d.database d.table
  d.rows.sets.map readOf ++ [readOf name] ++ privileges.map fun p => .change p (onTable (TableRef.parse name))

variable (catalog : Catalog)

def dropDatabaseEffects (name : String) : List Effect :=
  match catalog.database name with
  | none => []
  | some id =>
    (catalog.tables.entries.filter fun t => t.2.database = id).map (fun t => .change .drop (.table name t.2.name)) ++
      (catalog.savedQueries.entries.filter fun q => q.2.database = id).map
        (fun q => .change .drop (.table name q.2.name)) ++
      [.change .drop (.database name)]

def ddlEffects : Ddl → List Effect
  | .createDatabase name => [.change .create (.database name)]
  | .dropDatabase name _ => dropDatabaseEffects catalog name
  | .createTable database table => [.change .create (.database (TableRef.parse (qualified database table)).database)]
  | .createView database name _ => [.change .create (.database (TableRef.parse (qualified database name)).database)]
  | .alterTable database table => [.change .alter (onTable (TableRef.parse (qualified database table)))]
  | .dropTable database table => [.change .drop (onTable (TableRef.parse (qualified database table)))]
  | .truncateTable database table => [.change .drop (onTable (TableRef.parse (qualified database table)))]
  | .dropView database name => [.change .drop (onTable (TableRef.parse (qualified database name)))]
  | .renameTable database table _ =>
    let r := TableRef.parse (qualified database table)
    [.change .alter (onTable r), .change .create (.database r.database)]
  | .exchangeTables database a b =>
    [.change .drop (onTable (TableRef.parse (qualified database a))),
      .change .drop (onTable (TableRef.parse (qualified database b)))]

/-- What is done without the `SETTINGS` around it. A question about the catalog reads no records, an explained
statement is not run, and a `KILL` is answered elsewhere. -/
def bareEffects : Translated → List Effect
  | .query s => queryEffects s
  | .insert i => insertEffects i
  | .ddl d => ddlEffects catalog d
  | .delete d => filteredEffects d [.delete]
  | .update u => filteredEffects u [.insert, .delete]
  | .acl _ => [.change .roles .server]
  | .shown _ | .explain _ | .kill _ | .settings .. => []

def effects : Translated → List Effect
  | .settings _ inner => bareEffects catalog inner
  | sql => bareEffects catalog sql

structure Denied where
  role : Option String
  privilege : Privilege
  on : Rbac.Object
deriving DecidableEq, Repr

def run (api : Api) (sql : Translated) (who : Who) : Except Denied (List Effect) :=
  match (demands sql).find? fun d => !api.allows who d with
  | some d => .error ⟨(match who with
      | .role name => some name
      | .trusted => none), d.privilege, d.on⟩
  | none => .ok (effects api.catalog sql)

/-! ## What a statement reads beyond its demands -/

/-- The tables that a statement may read without `SELECT` on them: the one whose records a `DELETE` or an `UPDATE`
is about, the ones a query names in place of a set of records, and the ones it only searches. -/
def unasked : Parsed → List String
  | .query q => q.semijoined ++ q.searched
  | .insert i =>
    match i.source with
    | .values => []
    | .select s => s.members
  | .delete d => [qualified d.database d.table]
  | .update u => [qualified u.database u.table]
  | .explain inner => unasked inner
  | .settings _ inner => unasked inner
  | .shown _ | .ddl _ | .kill _ | .acl _ => []

/-- The tables that a statement may read only with `SELECT` on them, wherever else it names them too: the ones a query
asks a call of, the ones an `INSERT ... SELECT` selects from, and the ones the filter of a `DELETE` or an `UPDATE` names in
place of a set of records. -/
def asked : Translated → List String
  | .query s => s.calls.map Ask.table
  | .insert i =>
    match i.source with
    | .values => []
    | .select s => s.tables
  | .delete d => d.rows.sets
  | .update u => u.rows.sets
  | .explain inner => asked inner
  | .settings _ inner => asked inner
  | .shown _ | .ddl _ | .kill _ | .acl _ => []

/-- Every name of something to be changed is looked up as it was written. -/
def plainTargets : Parsed → Bool
  | .insert i => plain i.database i.table
  | .delete d => plain d.database d.table
  | .update u => plain u.database u.table
  | .ddl (.createTable database table) => plain database table
  | .ddl (.createView database name _) => plain database name
  | .ddl (.alterTable database table) => plain database table
  | .ddl (.dropTable database table) => plain database table
  | .ddl (.truncateTable database table) => plain database table
  | .ddl (.dropView database name) => plain database name
  | .ddl (.renameTable database table _) => plain database table
  | .ddl (.exchangeTables database a b) => plain database a && plain database b
  | .explain inner => plainTargets inner
  | .settings _ inner => plainTargets inner
  | .query _ | .ddl (.createDatabase _) | .ddl (.dropDatabase ..) | .shown _ | .kill _ | .acl _ => true

/-- And so is every table an `INSERT ... SELECT` selects from. -/
def plainSources : Parsed → Bool
  | .insert i =>
    match i.source with
    | .values => true
    | .select s => s.sources.all fun source => plain source.database source.table
  | .explain inner => plainSources inner
  | .settings _ inner => plainSources inner
  | _ => true

/-- An effect that a demand answers for: the privilege that guards it, over its object or over the server. -/
def Answered (ds : List Demand) (privilege : Privilege) (on : Rbac.Object) : Prop :=
  ⟨privilege, on⟩ ∈ ds ∨ ⟨privilege, .server⟩ ∈ ds

/-- What a statement does, against what it demands. -/
structure Accounted (p : Parsed) (ds : List Demand) (es : List Effect) : Prop where
  reads : plainSources p = true → ∀ t, .read t ∈ es →
    t ∈ (unasked p).map TableRef.parse ∨ Answered ds .select (onTable t)
  changes : plainTargets p = true → ∀ privilege on, .change privilege on ∈ es → Answered ds privilege on

section Accounts
variable {T S Q : List String} {catalog} {st : Statement} {ds : List Demand} {p : Parsed} {e : Effect} {s : Select}

lemma accounted_nil : Accounted p ds [] :=
  ⟨fun _ _ h => (not_mem_nil h).elim, fun _ _ _ h => (not_mem_nil h).elim⟩

/-- A table that a query reads is one it asks of, one it names as a set of records, or one it only searches. -/
lemma queryEffects_reads (h : st.Within T S Q) (he : e ∈ queryEffects st) :
    (∃ a ∈ st.calls, e = readOf a.table) ∨ ∃ t, (t ∈ S ∨ t ∈ Q) ∧ e = readOf t := by
  simp only [queryEffects, mem_append, mem_flatMap, mem_map] at he
  obtain (⟨a, ha, t, ht, rfl⟩ | ⟨a, ha, rfl⟩) | ⟨p, hp, rfl⟩ := he
  · exact .inr ⟨t, .inl ((h.calls a ha).2 t ht), rfl⟩
  · exact .inl ⟨a, ha, rfl⟩
  · obtain ⟨a, ha, hap⟩ | hq := (h.probes p hp).2
    · exact .inl ⟨a, ha, by rw [hap]⟩
    · exact .inr ⟨p.table, .inr hq, rfl⟩

lemma accounted_query {q : Query} (h : lower q = .ok st) :
    Accounted (.query q) (collectDemands (.query st)) (queryEffects st) where
  reads _ t ht := by
    obtain ⟨a, ha, heq⟩ | ⟨name, hname, heq⟩ := queryEffects_reads (lower_within q st h) ht
    · cases heq
      refine .inr (.inl (mem_map.mpr ⟨a.table, ?_, by rw [objectOf_eq]⟩))
      exact mem_eraseDups.mpr (mem_map_of_mem ha)
    · cases heq
      exact .inl (mem_map_of_mem (by simpa [unasked] using hname))
  changes _ privilege on h := by
    obtain ⟨a, -, heq⟩ | ⟨name, -, heq⟩ := queryEffects_reads (lower_within q st ‹_›) h <;> cases heq

/-- What a `SELECT` reads was written after `FROM` or `JOIN`, or inside an `IN (SELECT ...)`. -/
lemma selectEffects_reads (h : lowerOne s = .ok st)
    (he : e ∈ queryEffects st) : ∃ name, e = readOf name ∧ (name ∈ s.tables ∨ name ∈ s.members) := by
  have hwithin := lowerOne_within s st h
  obtain ⟨a, ha, rfl⟩ | ⟨name, hs | hq, rfl⟩ := queryEffects_reads hwithin he
  · exact ⟨a.table, rfl, .inl (hwithin.calls a ha).1⟩
  · obtain hm | hj := mem_append.mp hs
    · exact ⟨name, rfl, .inr hm⟩
    obtain ⟨j, hjoin, rfl⟩ := mem_map.mp hj
    obtain ⟨⟨j', n⟩, hjn, rfl⟩ := mem_map.mp hjoin
    have hmem : j' ∈ s.joins := fst_mem_of_mem_zipIdx (mem_of_mem_filter hjn)
    refine ⟨_, rfl, .inl (mem_map_of_mem ?_)⟩
    exact mem_cons_of_mem _ (mem_map_of_mem hmem)
  · unfold Select.searched at hq
    split at hq
    · rw [mem_singleton.mp hq]
      exact ⟨_, rfl, .inl (mem_map_of_mem (by simp [Select.sources]))⟩
    · cases hq

/-- What an insertion selects from is demanded. -/
lemma insert_sources {i : Insert} (hs : i.source = .select s) (hplain : plainSources (.insert i) = true) {name : String}
    (hname : name ∈ s.tables) : Answered (insertDemands i) .select (onTable (TableRef.parse name)) := by
  obtain ⟨source, hsource, rfl⟩ := mem_map.mp hname
  simp only [plainSources, hs, all_eq_true] at hplain
  have hobject : onTable (TableRef.parse source.qualified) = tableRef source.database source.table :=
    parse_qualified (hplain source hsource)
  rw [hobject]
  refine .inl (mem_append_right _ ?_)
  rw [hs]
  exact mem_map.mpr ⟨source, hsource, rfl⟩

/-- A query inside an insertion reads tables that the insertion demands. -/
lemma insert_reads {i : Insert} (hs : i.source = .select s)
    (hplain : plainSources (.insert i) = true) (hst : lowerOne s = .ok st) {t : TableRef}
    (ht : .read t ∈ queryEffects st) :
    t ∈ (unasked (.insert i)).map TableRef.parse ∨ Answered (insertDemands i) .select (onTable t) := by
  obtain ⟨name, heq, hname | hname⟩ := selectEffects_reads hst ht
  · cases heq
    exact .inr (insert_sources hs hplain hname)
  · cases heq
    refine .inl (mem_map_of_mem ?_)
    simpa only [unasked, hs] using hname

lemma accounted_insert (i : Insert) : Accounted (.insert i) (insertDemands i) (insertEffects i) := by
  have hwrites (privilege : Privilege) (on : Rbac.Object) (hplain : plainTargets (.insert i) = true)
      (h : .change privilege on ∈ (if i.overwrite then [Effect.change .delete
        (onTable (TableRef.parse (qualified i.database i.table)))] else []) ++
        [.change .insert (onTable (TableRef.parse (qualified i.database i.table)))]) :
      Answered (insertDemands i) privilege on := by
    rw [parse_qualified hplain] at h
    obtain h | h := mem_append.mp h
    · split at h
      · rename_i hover
        cases mem_singleton.mp h
        exact .inl (by simp [insertDemands, hover])
      · cases h
    · cases mem_singleton.mp h
      exact .inl (by simp [insertDemands])
  unfold insertEffects
  dsimp only
  split
  · refine ⟨fun _ t ht => ?_, fun hplain privilege on h => hwrites privilege on hplain h⟩
    split at ht <;> simp at ht
  · rename_i s hs
    split
    · rename_i st hst
      refine ⟨fun hplain t ht => ?_, fun hplain privilege on h => ?_⟩
      · obtain h | h := mem_append.mp ht
        · exact insert_reads hs hplain hst h
        · split at h <;> simp at h
      · obtain h | h := mem_append.mp h
        · obtain ⟨name, heq, -⟩ := selectEffects_reads hst h
          cases heq
        · exact hwrites privilege on hplain h
    · exact accounted_nil

lemma lowerFiltered_ok {d : Filtered} {l : Delete} (h : lowerFiltered d = .ok l) :
    ∃ e, rows d.filter = .ok e ∧ l = ⟨d.database, d.table, e, reads d.filter⟩ := by
  obtain ⟨e, he, heq⟩ := bind_ok.mp h
  cases heq
  exact ⟨e, he, rfl⟩

/-- A `DELETE` or an `UPDATE`, by the privileges it demands on the table it is about. -/
lemma accounted_filtered {d : Filtered} {privileges : List Privilege}
    (hunasked : unasked p = [qualified d.database d.table])
    (htarget : plainTargets p = true → plain d.database d.table = true)
    (hown : ∀ privilege ∈ privileges, ⟨privilege, tableRef d.database d.table⟩ ∈ ds)
    (hreads : ∀ t ∈ reads d.filter, ⟨.select, objectOf t⟩ ∈ ds) :
    Gives (lowerFiltered d) fun lowered => Accounted p ds (filteredEffects lowered privileges) := by
  refine (only_rows d.filter fun _ h => h).bind fun e he => .ok ⟨fun _ t ht => ?_, fun hplain privilege on h => ?_⟩
  · simp only [filteredEffects, mem_append, mem_map, mem_singleton] at ht
    obtain (⟨name, hname, heq⟩ | heq) | ⟨_, _, heq⟩ := ht
    · cases heq
      exact .inr (.inl (objectOf_eq name ▸ hreads name (mem_eraseDups.mpr (he name hname))))
    · cases heq
      rw [hunasked]
      exact .inl (mem_singleton.mpr rfl)
    · cases heq
  · simp only [filteredEffects, mem_append, mem_map, mem_singleton] at h
    obtain (⟨_, _, heq⟩ | heq) | ⟨p, hp, heq⟩ := h
    · cases heq
    · cases heq
    · cases heq
      rw [parse_qualified (htarget hplain)]
      exact .inl (hown privilege hp)

lemma database_parse {database : Option String} {table : String} (h : plain database table = true) :
    Rbac.Object.database (TableRef.parse (qualified database table)).database = databaseRef database := by
  have := parse_qualified h
  simp only [onTable, tableRef, Rbac.Object.table.injEq] at this
  rw [this.1, databaseRef]

lemma accounted_ddl (d : Ddl) : Accounted (.ddl d) (ddlDemands d) (ddlEffects catalog d) := by
  refine ⟨fun _ t ht => ?_, fun hplain privilege on h => ?_⟩
  · cases d <;> simp only [ddlEffects, dropDatabaseEffects] at ht <;> try simp at ht
    split at ht <;> simp at ht
  cases d with
  | createDatabase name => exact .inr (by simp_all [ddlEffects, ddlDemands])
  | dropDatabase name cascade =>
    refine .inr ?_
    simp only [ddlEffects, dropDatabaseEffects] at h
    split at h
    · cases h
    · simp only [mem_append, mem_map, mem_singleton] at h
      obtain (⟨_, _, heq⟩ | ⟨_, _, heq⟩) | heq := h <;> cases heq <;> simp [ddlDemands]
  | createTable database table | createView database name body =>
    refine .inl ?_
    simp_all [ddlEffects, ddlDemands, database_parse hplain]
  | renameTable database table newName =>
    refine .inl ?_
    simp only [ddlEffects, parse_qualified hplain, database_parse hplain] at h
    simpa [ddlDemands] using h
  | exchangeTables database a b =>
    refine .inl ?_
    simp only [plainTargets, Bool.and_eq_true] at hplain
    simp only [ddlEffects, parse_qualified hplain.1, parse_qualified hplain.2] at h
    simpa [ddlDemands] using h
  | _ =>
    refine .inl ?_
    simp_all [ddlEffects, ddlDemands, parse_qualified hplain]

lemma accounted_bare (p : Parsed) (sql : Translated) (h : finish p = .ok sql) :
    Accounted p (collectDemands sql) (bareEffects catalog sql) := by
  cases p with
  | query q =>
    obtain ⟨st, hst, heq⟩ := bind_ok.mp h
    cases heq
    exact accounted_query hst
  | insert i =>
    cases h
    exact accounted_insert i
  | ddl d =>
    cases h
    exact accounted_ddl d
  | delete d =>
    obtain ⟨l, hl, heq⟩ := bind_ok.mp h
    cases heq
    obtain ⟨e, -, rfl⟩ := lowerFiltered_ok hl
    refine accounted_filtered rfl id (by simp [collectDemands]) (fun t ht => ?_) _ hl
    exact mem_cons_of_mem _ (mem_map.mpr ⟨t, ht, rfl⟩)
  | update u =>
    obtain ⟨l, hl, heq⟩ := bind_ok.mp h
    cases heq
    obtain ⟨e, -, rfl⟩ := lowerFiltered_ok hl
    refine accounted_filtered rfl id (by simp [collectDemands]) (fun t ht => ?_) _ hl
    exact mem_append_right _ (mem_map.mpr ⟨t, ht, rfl⟩)
  | acl a =>
    cases h
    exact ⟨fun _ t ht => by simp [bareEffects] at ht, fun _ _ _ h => .inl (by simp_all [bareEffects, collectDemands])⟩
  | shown s | kill id =>
    cases h
    exact accounted_nil
  | explain inner =>
    obtain ⟨sql', -, heq⟩ := bind_ok.mp h
    cases heq
    exact accounted_nil
  | settings s inner =>
    obtain ⟨sql', -, h⟩ := bind_ok.mp h
    obtain ⟨-, -, heq⟩ := bind_ok.mp h
    cases heq
    exact accounted_nil

/-- What has to be asked for is asked for. -/
lemma answered_asked (p : Parsed) (sql : Translated) (h : finish p = .ok sql) (hplain : plainSources p = true) :
    ∀ name ∈ asked sql, Answered (collectDemands sql) .select (onTable (TableRef.parse name)) := by
  have hreads {cond : Cond} {e : Expr} (he : rows cond = .ok e) {name : String} (hname : name ∈ e.sets) :
      ⟨.select, onTable (TableRef.parse name)⟩ ∈ (reads cond).map fun table => (⟨.select, objectOf table⟩ : Demand) := by
    have hmem : name ∈ cond.members := only_rows cond (fun _ h => h) e he name hname
    exact mem_map.mpr ⟨name, mem_eraseDups.mpr hmem, by rw [objectOf_eq]⟩
  induction p generalizing sql with
  | query q =>
    obtain ⟨st, -, heq⟩ := bind_ok.mp h
    cases heq
    intro name hname
    exact .inl (mem_map.mpr ⟨name, mem_eraseDups.mpr hname, by rw [objectOf_eq]⟩)
  | insert i =>
    cases h
    intro name hname
    unfold asked at hname
    split at hname
    · cases hname
    · exact insert_sources ‹_› hplain hname
  | delete d =>
    obtain ⟨l, hl, heq⟩ := bind_ok.mp h
    cases heq
    obtain ⟨e, he, rfl⟩ := lowerFiltered_ok hl
    exact fun name hname => .inl (mem_cons_of_mem _ (hreads he hname))
  | update u =>
    obtain ⟨l, hl, heq⟩ := bind_ok.mp h
    cases heq
    obtain ⟨e, he, rfl⟩ := lowerFiltered_ok hl
    exact fun name hname => .inl (mem_append_right _ (hreads he hname))
  | explain inner ih =>
    obtain ⟨sql', hinner, heq⟩ := bind_ok.mp h
    cases heq
    exact ih sql' hinner hplain
  | settings s inner ih =>
    obtain ⟨sql', hinner, h⟩ := bind_ok.mp h
    obtain ⟨-, -, heq⟩ := bind_ok.mp h
    cases heq
    exact ih sql' hinner hplain
  | _ =>
    cases h
    exact fun name hname => (not_mem_nil hname).elim

/-- A clause of limits changes neither what is demanded nor what is done. -/
lemma accounted_effects (p : Parsed) (sql : Translated) (h : finish p = .ok sql) :
    Accounted p (collectDemands sql) (effects catalog sql) := by
  by_cases hs : ∃ s inner, p = .settings s inner
  · obtain ⟨s, inner, rfl⟩ := hs
    obtain ⟨sql', hinner, h⟩ := bind_ok.mp h
    obtain ⟨-, -, heq⟩ := bind_ok.mp h
    cases heq
    obtain ⟨hreads, hchanges⟩ := accounted_bare inner sql' hinner
    exact ⟨hreads, hchanges⟩
  · have heq : effects catalog sql = bareEffects catalog sql := by
      cases p with
      | query | explain | delete | update =>
        obtain ⟨_, -, heq⟩ := bind_ok.mp h
        cases heq
        rfl
      | settings s inner => exact absurd ⟨s, inner, rfl⟩ hs
      | _ =>
        cases h
        rfl
    rw [heq]
    exact accounted_bare p sql h

end Accounts

/-! ## No statement reaches past its role's grants -/

/-- A demand that was not denied is held, over the object or over the whole server. -/
lemma holds_of_answered {api : Api} {role : String} (hrole : role ≠ superuser) {sql : Translated}
    (hrun : ∀ d ∈ demands sql, api.allows (.role role) d = true) {privilege : Privilege} {on : Rbac.Object}
    (h : Answered (collectDemands sql) privilege on) : api.Holds role privilege on := by
  obtain h | h := h
  · exact Api.holds_of_allows hrole (hrun _ (mem_demands.mpr h))
  · exact (Api.holds_of_allows hrole (hrun _ (mem_demands.mpr h))).of_server on

/-- A statement that is not denied reads and changes only what its role may. The table that a `DELETE` or an `UPDATE`
selects from is not demanded to be readable, nor are the tables a query reaches only through a set of records or a
search, while one that it also asks a call of is; and a name with a dot of its own is demanded as one table and looked up as another. -/
theorem run_within_grants (api : Api) (role : String) (hrole : role ≠ superuser) (p : Parsed) (sql : Translated)
    (hp : finish p = .ok sql) (es : List Effect) (hrun : run api sql (.role role) = .ok es) :
    (plainSources p = true → (∀ name ∈ asked sql, api.Holds role .select (onTable (TableRef.parse name))) ∧
      ∀ t, .read t ∈ es → t ∈ (unasked p).map TableRef.parse ∨ api.Holds role .select (onTable t)) ∧
    (plainTargets p = true → ∀ privilege on, .change privilege on ∈ es → api.Holds role privilege on) := by
  unfold run at hrun
  split at hrun
  · cases hrun
  rename_i hnone
  cases hrun
  have hallowed : ∀ d ∈ demands sql, api.allows (.role role) d = true := by
    simpa [List.find?_eq_none] using hnone
  obtain ⟨hreads, hchanges⟩ := accounted_effects p sql hp
  refine ⟨fun hplain => ⟨fun name hname => ?_, fun t ht => ?_⟩, fun hplain privilege on h => ?_⟩
  · exact holds_of_answered hrole hallowed (answered_asked p sql hp hplain name hname)
  · exact (hreads hplain t ht).imp_right (holds_of_answered hrole hallowed)
  · exact holds_of_answered hrole hallowed (hchanges hplain privilege on h)

/-- Two tables in the default database and one in another, and three roles. -/
def shopCatalog : Except DbError Catalog := do
  let (_, c) ← Catalog.empty.internDatabase "sales"
  let (_, c) ← c.internTableWith 0 "orders" .bitmap
  let (_, c) ← c.internTableWith 0 "clients" .bitmap
  let (_, c) ← c.internTableWith 1 "orders" .bitmap
  let (_, c) ← c.internRole "clerk"
  let (_, c) ← c.internRole "reader"
  let (_, c) ← c.internRole "loader"
  return c

/-- A clerk may insert into the default database and delete from its `orders`; a reader may read `orders`; a loader may
read it and insert into `clients`. -/
def shop : Api where
  catalog := shopCatalog.toOption.getD .empty
  grants := (((((∅ : Grants).insert ⟨0, 0, anyTable⟩ (.of [.insert])).insert ⟨0, 0, 0⟩ (.of [.delete])).insert
    ⟨1, 0, 0⟩ (.of [.select])).insert ⟨2, 0, 0⟩ (.of [.select])).insert ⟨2, 0, 1⟩ (.of [.insert])

def selectFrom (proj : Proj) (table : String) (filter : Option Cond) : Select :=
  ⟨[⟨proj, none, none, 0⟩], ⟨none, table, none⟩, [], none, filter, [], none, none, none, none, false, none⟩

/-- `INSERT INTO clients SELECT a FROM orders WHERE a IN (SELECT _record_id FROM orders)`. -/
theorem run_within_grants_insert :
    let again := some (.inRecords ⟨none, "a"⟩ ⟨none, "orders", none⟩ none 0)
    let i : Insert := ⟨none, "clients", .select (selectFrom (.column ⟨none, "a"⟩) "orders" again), false⟩
    run shop (.insert i) (.role "loader") = .ok [.read ⟨"default", "orders"⟩, .read ⟨"default", "orders"⟩,
      .change .insert (.table "default" "clients")] ∧
    shop.Holds "loader" .select (.table "default" "orders") ∧
    shop.Holds "loader" .insert (.table "default" "clients") := by
  intro again i
  have hrun : run shop (.insert i) (.role "loader") = .ok [.read ⟨"default", "orders"⟩, .read ⟨"default", "orders"⟩,
      .change .insert (.table "default" "clients")] := by decide +kernel
  obtain ⟨hreads, hchanges⟩ := run_within_grants shop "loader" (by decide) (.insert i) (.insert i) rfl _ hrun
  exact ⟨hrun, (hreads (by decide +kernel)).1 "orders" (by decide), hchanges (by decide +kernel) _ _ (by decide)⟩

/-- What a role is let through to do with a statement. -/
def runAs (role : String) (p : Parsed) : Option (Except Denied (List Effect)) :=
  (finish p).toOption.map fun sql => run shop sql (.role role)

/-- `DELETE FROM orders WHERE a = 1` reads `orders` for a clerk, who may not. A reader, who may read nothing but
`orders`, reads `clients` with `SELECT median(a) FROM clients` and with `SELECT count(*) FROM orders WHERE a IN
(SELECT _record_id FROM clients)`. And a clerk writes to `sales.orders`, quoted as one name. -/
theorem reads_and_changes_unasked : (runAs "clerk" (.delete ⟨none, "orders", .cmp ⟨none, "a"⟩ .eq (.int 1)⟩) =
        some (.ok [.read ⟨"default", "orders"⟩, .change .delete (.table "default" "orders")]) ∧
      ¬ shop.Holds "clerk" .select (.table "default" "orders")) ∧
    (runAs "reader" (.query ⟨[selectFrom (.quantile 500 ⟨none, "a"⟩) "clients" none]⟩) =
        some (.ok [.read ⟨"default", "clients"⟩]) ∧
      runAs "reader" (.query ⟨[selectFrom .count "orders"
          (some (.inRecords ⟨none, "a"⟩ ⟨none, "clients", none⟩ none 0))]⟩) =
        some (.ok [.read ⟨"default", "clients"⟩, .read ⟨"default", "orders"⟩]) ∧
      ¬ shop.Holds "reader" .select (.table "default" "clients")) ∧
    (runAs "clerk" (.insert ⟨none, "sales.orders", .values, false⟩) =
        some (.ok [.change .insert (.table "sales" "orders")]) ∧
      ¬ shop.Holds "clerk" .insert (.table "sales" "orders")) := by
  decide +kernel

end BigDb.Sql
