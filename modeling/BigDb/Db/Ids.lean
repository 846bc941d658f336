import BigDb.Db.Catalog
import BigDb.Lib.Fallible

/-!
# What a transaction does to its catalog

Everything a write transaction can do to its copy of the catalog, one operation at a time, with the
ids each of them gives out. An id is given out once: what has been given is below its counter for
good (`Covers`), and what is given is not. A field's id is only looked at under its table's, and a
row under its field's, so their counters may be forgotten with the table or the field.
-/

namespace BigDb.Db
open Lib Cluster Function Option

/-- What a write transaction does to its catalog. Facts come down to the last four. -/
inductive Op where
  | createDatabase (name : String)
  | dropDatabase (name : String)
  | createTable (r : TableRef) (engine : TableEngine)
  | dropTable (r : TableRef)
  | truncateTable (r : TableRef)
  | renameTable (r : TableRef) (new : String)
  | exchangeTables (r : TableRef) (other : TableRef)
  | createView (r : TableRef) (text : String) (replace : Bool)
  | dropView (r : TableRef)
  | addField (r : TableRef) (d : FieldDef)
  | dropField (r : TableRef) (field : String)
  | dropDaysBefore (r : TableRef) (field : String) (cutoff : String)
  | createRole (name : String)
  | dropRole (name : String)
  | internView (name : String)
  | internKey (r : TableRef) (field : String) (value : String)
  | assignKey (r : TableRef) (field : String) (value : String) (row : Nat)
  | editFragment (key : FragmentKey) (edit : FragmentMeta → FragmentMeta)

/-- An id that was given out. -/
inductive Issue where
  | database (id : DatabaseId)
  | table (id : TableId)
  | field (table : TableId) (id : FieldId)
  | row (table : TableId) (field : FieldId) (id : Nat)
  | view (id : ViewId)
  | savedQuery (id : QueryId)
  | role (id : RoleId)
deriving DecidableEq, Repr

/-- The id, unless it was there. -/
def newly (known : Bool) (i : Issue) : List Issue := if known then [] else [i]

namespace Catalog

/-- One operation, and the ids it gives out. -/
def apply (c : Catalog) : Op → Except DbError (Catalog × List Issue)
  | .createDatabase name => do
    let (id, next) ← c.internDatabase name
    .ok (next, newly (c.database name).isSome (.database id))
  | .dropDatabase name => .ok (((c.dropDatabase name).map Prod.snd).getD c, [])
  | .createTable r engine => do
    let database ← c.databaseOf r
    let (id, next) ← c.internTableWith database r.table engine
    .ok (next, newly (c.tableIds.lookup (database, r.table)).isSome (.table id))
  | .dropTable r => do
    let database ← c.databaseOf r
    .ok (((c.dropTable database r.table).map Prod.snd).getD c, [])
  | .truncateTable r => do
    let database ← c.databaseOf r
    .ok (((c.table database r.table).map fun t => (c.takeTableFragments t.id).2).getD c, [])
  | .renameTable r new => do
    let database ← c.databaseOf r
    let (_, next) ← c.renameTable database r.table new
    .ok (next, [])
  | .exchangeTables r other => do
    let database ← c.databaseOf r
    if (← c.databaseOf other) ≠ database then .error (.unknownTable other.display)
    else .ok ((c.exchangeTables database r.table other.table).2, [])
  | .createView r text replace => do
    let database ← c.databaseOf r
    let (id, next) ← c.internSavedQuery database r.table text replace
    .ok (next, newly (c.savedQueryIds.lookup (database, r.table)).isSome (.savedQuery id))
  | .dropView r => do
    let database ← c.databaseOf r
    .ok ((c.dropSavedQuery database r.table).2, [])
  | .addField r d => do
    let (table, id, next) ← c.addField r d
    .ok (next, newly (c.fieldIds.lookup (table, d.name)).isSome (.field table id))
  | .dropField r field => do
    let t ← c.require r
    .ok (((c.dropField t.id field).map Prod.snd).getD c, [])
  | .dropDaysBefore r field cutoff => do
    let (table, d) ← c.resolve r field
    if d.kind ≠ .timeQuantum then .error (.wrongFieldKind field "time quantum")
    else .ok ((c.dropViewsBefore table d.id cutoff).2, [])
  | .createRole name => do
    checkName name
    let (id, next) ← c.internRole name
    .ok (next, newly (c.roleIds.lookup name).isSome (.role id))
  | .dropRole name => do
    let (_, next) ← c.dropRole name
    .ok (next, [])
  | .internView name => do
    let (id, next) ← c.internView name
    .ok (next, newly (c.viewIds.lookup name).isSome (.view id))
  | .internKey r field value => do
    let (table, d) ← c.resolve r field
    if !d.kind.isKeyed then .error (.wrongFieldKind field "set, mutex or time quantum")
    else do
      let (row, keys) ← (c.keys.intern (table, d.id) value).mapError .key
      .ok ({ c with keys }, newly (c.keys.id (table, d.id) value).isSome (.row table d.id row))
  | .assignKey r field value row => do
    let (table, d) ← c.resolve r field
    if !d.kind.isKeyed then .error (.wrongFieldKind field "set, mutex or time quantum")
    else do
      let keys ← (c.keys.assign ⟨(table, d.id), value, row⟩).mapError .key
      .ok ({ c with keys }, newly (c.keys.id (table, d.id) value).isSome (.row table d.id row))
  | .editFragment key edit => .ok (c.editFragment key edit, [])

/-- Whether an id has been given out, as far as a catalog can tell. -/
def Covers (c : Catalog) : Issue → Prop
  | .database id => id < c.seq.database
  | .table id => id < c.seq.table
  | .field t f => t < c.seq.table ∧ (t ∈ c.tables → f < c.seq.field t)
  | .row t f r => (t < c.seq.table ∧ (t ∈ c.tables → f < c.seq.field t)) ∧
      ((t, f) ∈ c.fields → ∃ e ∈ c.keys.entries, e.scope = (t, f) ∧ e.row = r)
  | .view id => id < c.seq.view
  | .savedQuery id => id < c.seq.savedQuery
  | .role id => id < c.seq.role

/-- Nothing that was given out is forgotten, and what is given out now was not given before. -/
structure Gives (c next : Catalog) (issued : List Issue) : Prop where
  within : ∀ i, c.Covers i → next.Covers i
  fresh : ∀ i ∈ issued, ¬ c.Covers i ∧ next.Covers i

variable {c next : Catalog} {name : String} {database : DatabaseId}

/-- An operation that leaves tables, fields, keys and counters alone. -/
lemma Gives.same (tables : next.tables = c.tables) (fields : next.fields = c.fields)
    (keys : next.keys = c.keys) (seq : next.seq = c.seq) : Gives c next [] where
  within i h := by
    cases i <;> simpa only [Covers, tables, fields, keys, seq] using h
  fresh i hi := by cases hi

lemma Gives.refl (c : Catalog) : Gives c c [] := .same rfl rfl rfl rfl

lemma Gives.known (G : Gives c next []) {known : Bool} (hknown : known = true) (i : Issue) :
    Gives c next (newly known i) := by
  rw [newly, if_pos hknown]
  exact G

lemma Gives.one {known : Bool} {i : Issue} (within : ∀ j, c.Covers j → next.Covers j)
    (fresh : ¬ c.Covers i ∧ next.Covers i) : Gives c next (newly known i) where
  within := within
  fresh j hj := by
    rw [newly] at hj
    split at hj
    · cases hj
    · rw [List.mem_singleton.1 hj]
      exact fresh

lemma Gives.of_getD {ops : Option Catalog} (h : ∀ next, ops = some next → Gives c next []) :
    Gives c (ops.getD c) [] := by
  cases ops with
  | none => exact .refl c
  | some next => exact h next rfl

/-! ## Operation by operation -/

lemma gives_internTableWith {engine : TableEngine} {id : TableId}
    (h : c.internTableWith database name engine = .ok (id, next)) :
    Gives c next (newly (c.tableIds.lookup (database, name)).isSome (.table id)) := by
  obtain ⟨-, -, h⟩ := bind_ok.1 h
  split at h
  · cases h
  cases hknown : c.tableIds.lookup (database, name) with
  | some id' =>
    rw [hknown] at h
    dsimp only at h
    split at h
    · split at h
      · cases h
        exact (Gives.refl c).known rfl _
      · cases h
    · cases h
  | none =>
    rw [hknown] at h
    dsimp only at h
    split at h
    · cases h
    cases h
    -- the new table is past every table whose fields were given out
    have field : ∀ t f, t < c.seq.table ∧ (t ∈ c.tables → f < c.seq.field t) →
        t < c.seq.table + 1 ∧ (t ∈ c.tables.insert c.seq.table ⟨c.seq.table, name, engine, database⟩ →
          f < c.seq.field t) := by
      rintro t f ⟨ht, hf⟩
      refine ⟨Nat.lt_succ_of_lt ht, fun hin => hf ?_⟩
      exact ((AList.mem_insert _).1 hin).resolve_left ht.ne
    refine .one (fun j hj => ?_) ⟨lt_irrefl _, Nat.lt_succ_self _⟩
    cases j with
    | table id => exact Nat.lt_succ_of_lt hj
    | field t f => exact field t f hj
    | row t f r => exact ⟨field t f hj.1, hj.2⟩
    | _ => exact hj

lemma gives_internSavedQuery {name text : String} {replace : Bool} {id : QueryId}
    (h : c.internSavedQuery database name text replace = .ok (id, next)) (room : c.seq.savedQuery + 1 < 2 ^ 32) :
    Gives c next (newly (c.savedQueryIds.lookup (database, name)).isSome (.savedQuery id)) := by
  obtain ⟨-, -, h⟩ := bind_ok.1 h
  split at h
  · cases h
  split at h
  · cases h
  cases hknown : c.savedQueryIds.lookup (database, name) with
  | some id' =>
    rw [hknown] at h
    dsimp only at h
    split at h
    · cases h
      exact (Gives.refl c).known rfl _
    · split at h
      · cases h
      cases h
      refine Gives.known ?_ rfl _
      exact .same rfl rfl rfl rfl
  | none =>
    rw [hknown] at h
    cases h
    have hmod : (c.seq.savedQuery + 1) % 2 ^ 32 = c.seq.savedQuery + 1 := Nat.mod_eq_of_lt room
    refine .one (fun j hj => ?_) ⟨lt_irrefl _, ?_⟩
    · cases j with
      | savedQuery id =>
        show id < (c.seq.savedQuery + 1) % 2 ^ 32
        rw [hmod]
        exact Nat.lt_succ_of_lt hj
      | _ => exact hj
    · show c.seq.savedQuery < (c.seq.savedQuery + 1) % 2 ^ 32
      rw [hmod]
      exact Nat.lt_succ_self _

lemma gives_internView {id : ViewId} (h : c.internView name = .ok (id, next)) :
    Gives c next (newly (c.viewIds.lookup name).isSome (.view id)) := by
  obtain ⟨-, -, h⟩ := bind_ok.1 h
  cases hknown : c.viewIds.lookup name with
  | some id' =>
    rw [hknown] at h
    cases h
    exact (Gives.refl c).known rfl _
  | none =>
    rw [hknown] at h
    dsimp only at h
    split at h
    · cases h
    cases h
    refine .one (fun j hj => ?_) ⟨lt_irrefl _, Nat.lt_succ_self _⟩
    cases j with
    | view id => exact Nat.lt_succ_of_lt hj
    | _ => exact hj

lemma gives_internRole {id : RoleId} (h : c.internRole name = .ok (id, next)) :
    Gives c next (newly (c.roleIds.lookup name).isSome (.role id)) := by
  unfold internRole at h
  split at h
  · cases h
  cases hknown : c.roleIds.lookup name with
  | some id' =>
    rw [hknown] at h
    cases h
    exact (Gives.refl c).known rfl _
  | none =>
    rw [hknown] at h
    dsimp only at h
    split at h
    · cases h
    split at h
    · cases h
    cases h
    refine .one (fun j hj => ?_) ⟨lt_irrefl _, Nat.lt_succ_self _⟩
    cases j with
    | role id => exact Nat.lt_succ_of_lt hj
    | _ => exact hj

variable {mid : Catalog} {r : TableRef} {d : FieldDef} {b : Bool}

lemma gives_dropRole (h : c.dropRole name = .ok (b, next)) : Gives c next [] := by
  unfold dropRole at h
  split at h
  · cases h
  split at h
  · cases h
    exact .refl c
  · cases h
    exact .same rfl rfl rfl rfl

lemma mem_nameTable {id t : TableId} : t ∈ (c.nameTable id name).tables ↔ t ∈ c.tables := by
  unfold nameTable
  split
  · exact Iff.rfl
  · next t' h =>
    constructor
    · intro ht
      rcases (AList.mem_insert _).1 ht with rfl | ht
      · exact AList.lookup_isSome.1 (by rw [h]; rfl)
      · exact ht
    · exact fun ht => (AList.mem_insert _).2 (.inr ht)

lemma gives_nameTable (c : Catalog) (id : TableId) (name : String) : Gives c (c.nameTable id name) [] where
  within i hi := by
    obtain ⟨hfields, hkeys, hseq⟩ : (c.nameTable id name).fields = c.fields ∧
        (c.nameTable id name).keys = c.keys ∧ (c.nameTable id name).seq = c.seq := by
      unfold nameTable
      split <;> exact ⟨rfl, rfl, rfl⟩
    cases i <;> simpa only [Covers, mem_nameTable, hfields, hkeys, hseq] using hi
  fresh i hi := by cases hi

lemma Gives.trans {issued issued' : List Issue} (G : Gives c mid issued)
    (G' : Gives mid next issued') : Gives c next (issued ++ issued') where
  within i hi := G'.within i (G.within i hi)
  fresh i hi := by
    rcases List.mem_append.1 hi with hi | hi
    · exact ⟨(G.fresh i hi).1, G'.within i (G.fresh i hi).2⟩
    · exact ⟨fun hc => (G'.fresh i hi).1 (G.within i hc), (G'.fresh i hi).2⟩

lemma Gives.silent (G : Gives c mid []) (G' : Gives mid next []) : Gives c next [] :=
  G.trans G'

lemma gives_renameTable {old new : String}
    (h : c.renameTable database old new = .ok (b, next)) : Gives c next [] := by
  obtain ⟨-, -, h⟩ := bind_ok.1 h
  split at h
  · cases h
  split at h
  · cases h
    exact .refl c
  · cases h
    refine Gives.silent ?_ (gives_nameTable _ _ _)
    exact .same rfl rfl rfl rfl

lemma gives_exchangeTables (c : Catalog) (database : DatabaseId) (a b : String) :
    Gives c (c.exchangeTables database a b).2 [] := by
  unfold exchangeTables
  split
  · split
    · exact .refl c
    refine Gives.silent ?_ (gives_nameTable _ _ _)
    refine Gives.silent ?_ (gives_nameTable _ _ _)
    exact .same rfl rfl rfl rfl
  · exact .refl c

lemma gives_takeFragments (c : Catalog) (p : FragmentKey → Bool) : Gives c (c.takeFragments p).2 [] :=
  .same rfl rfl rfl rfl

lemma gives_forgetTable (c : Catalog) (database : DatabaseId) (name : String) (id : TableId) :
    Gives c (c.forgetTable database name id) [] where
  within i hi := by
    -- the fields of a table that is gone are given out with it
    have field : ∀ t f, t < c.seq.table ∧ (t ∈ c.tables → f < c.seq.field t) → t < c.seq.table ∧
        (t ∈ c.tables.erase id → f < update c.seq.field id 0 t) := by
      rintro t f ⟨ht, hf⟩
      refine ⟨ht, fun hin => ?_⟩
      obtain ⟨hne, hin⟩ := AList.mem_erase.1 hin
      rw [update_of_ne hne]
      exact hf hin
    cases i with
    | field t f => exact field t f hi
    | row t f r =>
      refine ⟨field t f hi.1, fun hin => ?_⟩
      obtain ⟨hin, hne⟩ := mem_removeIf.1 hin
      obtain ⟨e, he, hscope, hrow⟩ := hi.2 hin
      refine ⟨e, KeyStore.mem_forget.2 ⟨he, ?_⟩, hscope, hrow⟩
      rw [hscope]
      exact hne
    | _ => exact hi
  fresh i hi := by cases hi

variable {keys : List FragmentKey}

lemma gives_dropTable (h : c.dropTable database name = some (keys, next)) : Gives c next [] := by
  obtain ⟨id, -, heq⟩ := map_eq_some_iff.1 h
  have G := (gives_forgetTable c database name id).trans (gives_takeFragments _ fun k => k.table = id)
  have hnext : ((c.forgetTable database name id).takeTableFragments id).2 = next := by rw [heq]
  rw [← hnext]
  exact G

lemma gives_forgetField (c : Catalog) (table : TableId) (name : String) (id : FieldId) :
    Gives c (c.forgetField table name id) [] where
  within i hi := by
    cases i with
    | row t f r =>
      refine ⟨hi.1, fun hin => ?_⟩
      obtain ⟨hne, hin⟩ := AList.mem_erase.1 hin
      obtain ⟨e, he, hscope, hrow⟩ := hi.2 hin
      refine ⟨e, KeyStore.mem_forget.2 ⟨he, ?_⟩, hscope, hrow⟩
      rw [hscope]
      exact decide_eq_false hne
    | _ => exact hi
  fresh i hi := by cases hi

variable {table : TableId}

lemma gives_dropField (h : c.dropField table name = some (keys, next)) : Gives c next [] := by
  obtain ⟨id, -, heq⟩ := map_eq_some_iff.1 h
  have hnext : ((c.forgetField table name id).takeFragments fun k => k.table = table && k.field = id).2 = next := by
    rw [heq]
  rw [← hnext]
  exact (gives_forgetField c table name id).trans (gives_takeFragments _ _)

lemma gives_addField {id : FieldId} (h : c.addField r d = .ok (table, id, next)) :
    Gives c next (newly (c.fieldIds.lookup (table, d.name)).isSome (.field table id)) := by
  obtain ⟨t, -, h⟩ := bind_ok.1 h
  obtain ⟨-, -, h⟩ := bind_ok.1 h
  cases hknown : c.fieldIds.lookup (t.id, d.name) with
  | some id' =>
    rw [hknown] at h
    dsimp only at h
    split at h
    · split at h
      · cases h
        exact (Gives.refl c).known (by rw [hknown]; rfl) _
      · cases h
    · cases h
  | none =>
    rw [hknown] at h
    dsimp only at h
    split at h
    · cases h
    split at h
    · next ht =>
      cases h
      have hlt := c.tableBelow t.id ht
      have field : ∀ t' f, t' < c.seq.table ∧ (t' ∈ c.tables → f < c.seq.field t') → t' < c.seq.table ∧
          (t' ∈ c.tables → f < update c.seq.field t.id (c.seq.field t.id + 1) t') := by
        rintro t' f ⟨ht', hf⟩
        refine ⟨ht', fun hin => ?_⟩
        have hf := hf hin
        by_cases heq : t' = t.id
        · rw [heq, update_self]
          rw [heq] at hf
          exact Nat.lt_succ_of_lt hf
        · rw [update_of_ne heq]
          exact hf
      refine .one (fun j hj => ?_) ⟨fun hc => ?_, hlt, fun _ => ?_⟩
      · cases j with
        | field t' f => exact field t' f hj
        | row t' f r =>
          refine ⟨field t' f hj.1, fun hin => ?_⟩
          rcases (AList.mem_insert _).1 hin with heq | hin
          · -- the field is new, so no row of it was given out
            cases heq
            exact (lt_irrefl _ (hj.1.2 ht)).elim
          · exact hj.2 hin
        | _ => exact hj
      · exact lt_irrefl _ (hc.2 ht)
      · show c.seq.field t.id < update c.seq.field t.id (c.seq.field t.id + 1) t.id
        rw [update_self]
        exact Nat.lt_succ_self _
    · cases h

/-- A field that was looked up is there. -/
lemma mem_fields_of_resolve {field : String} {t : TableId}
    (h : c.resolve r field = .ok (t, d)) : (t, d.id) ∈ c.fields := by
  obtain ⟨table, -, h⟩ := bind_ok.1 h
  split at h
  · next f hf =>
    cases h
    obtain ⟨id, -, hlookup⟩ := bind_eq_some_iff.1 hf
    rw [(Prod.mk.inj (c.fieldOwn _ _ hlookup)).2]
    exact AList.lookup_isSome.1 (by rw [hlookup]; rfl)
  · cases h

/-- A key that is new to a field that is there. -/
lemma gives_key {scope : Scope} {row : Nat} {keys : KeyStore}
    (hin : scope ∈ c.fields) (here : ⟨scope, name, row⟩ ∈ keys.entries) (kept : ∀ e ∈ c.keys.entries, e ∈ keys.entries)
    (free : c.keys.id scope name = none → ∀ e ∈ c.keys.entries, e.scope = scope → e.row ≠ row) :
    Gives c { c with keys } (newly (c.keys.id scope name).isSome (.row scope.1 scope.2 row)) := by
  have within : ∀ j, c.Covers j → Covers { c with keys } j := by
    intro j hj
    cases j with
    | row t f r =>
      refine ⟨hj.1, fun hin => ?_⟩
      obtain ⟨e, he, heq⟩ := hj.2 hin
      exact ⟨e, kept e he, heq⟩
    | _ => exact hj
  cases hid : c.keys.id scope name with
  | some row' => exact ⟨within, nofun⟩
  | none =>
    obtain ⟨htable, hfield⟩ := c.fieldBelow scope hin
    refine .one within ⟨fun hc => ?_, ⟨c.tableBelow _ htable, fun _ => hfield⟩, fun _ => ⟨_, here, rfl, rfl⟩⟩
    obtain ⟨e, he, hscope, hrow⟩ := hc.2 hin
    exact free hid e he hscope hrow

/-- Whether an operation finds a counter it can still count on. -/
def room (c : Catalog) : Op → Bool
  | .createView .. => c.seq.savedQuery + 1 < 2 ^ 32
  | _ => true

/-- **Every operation gives out ids that were not given out before.** -/
lemma gives_apply {op : Op} {issued : List Issue} (h : c.apply op = .ok (next, issued))
    (room : c.room op = true) : Gives c next issued := by
  cases op with
  | createDatabase name =>
    obtain ⟨⟨id, next'⟩, hop, h⟩ := bind_ok.1 h
    cases h
    obtain ⟨-, -, hop⟩ := bind_ok.1 hop
    cases hknown : c.database name with
    | some id' =>
      rw [hknown] at hop
      cases hop
      exact (Gives.refl c).known rfl _
    | none =>
      rw [hknown] at hop
      dsimp only at hop
      split at hop
      · cases hop
      cases hop
      refine .one (fun j hj => ?_) ⟨lt_irrefl _, Nat.lt_succ_self _⟩
      cases j with
      | database id => exact Nat.lt_succ_of_lt hj
      | _ => exact hj
  | dropDatabase name =>
    cases h
    refine .of_getD fun next hnext => ?_
    obtain ⟨⟨id, next'⟩, hop, rfl⟩ := map_eq_some_iff.1 hnext
    unfold dropDatabase at hop
    split at hop
    · cases hop
    split at hop
    · cases hop
    split at hop
    · cases hop
    · cases hop
      exact .same rfl rfl rfl rfl
  | createTable r engine =>
    obtain ⟨database, -, h⟩ := bind_ok.1 h
    obtain ⟨⟨id, next'⟩, hop, h⟩ := bind_ok.1 h
    cases h
    exact gives_internTableWith hop
  | dropTable r =>
    obtain ⟨database, -, h⟩ := bind_ok.1 h
    cases h
    refine .of_getD fun next hnext => ?_
    obtain ⟨⟨keys, next'⟩, hop, rfl⟩ := map_eq_some_iff.1 hnext
    exact gives_dropTable hop
  | truncateTable r =>
    obtain ⟨database, -, h⟩ := bind_ok.1 h
    cases h
    refine .of_getD fun next hnext => ?_
    obtain ⟨t, -, rfl⟩ := map_eq_some_iff.1 hnext
    exact gives_takeFragments c _
  | renameTable r new =>
    obtain ⟨database, -, h⟩ := bind_ok.1 h
    obtain ⟨⟨b, next'⟩, hop, h⟩ := bind_ok.1 h
    cases h
    exact gives_renameTable hop
  | exchangeTables r other =>
    obtain ⟨database, -, h⟩ := bind_ok.1 h
    obtain ⟨database', -, h⟩ := bind_ok.1 h
    split at h
    · cases h
    · cases h
      exact gives_exchangeTables c _ _ _
  | createView r text replace =>
    obtain ⟨database, -, h⟩ := bind_ok.1 h
    obtain ⟨⟨id, next'⟩, hop, h⟩ := bind_ok.1 h
    cases h
    exact gives_internSavedQuery hop (of_decide_eq_true room)
  | dropView r =>
    obtain ⟨database, -, h⟩ := bind_ok.1 h
    cases h
    unfold dropSavedQuery
    split
    · exact .refl c
    · exact .same rfl rfl rfl rfl
  | addField r d =>
    obtain ⟨⟨table, id, next'⟩, hop, h⟩ := bind_ok.1 h
    cases h
    exact gives_addField hop
  | dropField r field =>
    obtain ⟨t, -, h⟩ := bind_ok.1 h
    cases h
    refine .of_getD fun next hnext => ?_
    obtain ⟨⟨keys, next'⟩, hop, rfl⟩ := map_eq_some_iff.1 hnext
    exact gives_dropField hop
  | dropDaysBefore r field cutoff =>
    obtain ⟨⟨table, d⟩, -, h⟩ := bind_ok.1 h
    dsimp only at h
    split at h
    · cases h
    · cases h
      exact gives_takeFragments c _
  | createRole name =>
    obtain ⟨-, -, h⟩ := bind_ok.1 h
    obtain ⟨⟨id, next'⟩, hop, h⟩ := bind_ok.1 h
    cases h
    exact gives_internRole hop
  | dropRole name =>
    obtain ⟨⟨b, next'⟩, hop, h⟩ := bind_ok.1 h
    cases h
    exact gives_dropRole hop
  | internView name =>
    obtain ⟨⟨id, next'⟩, hop, h⟩ := bind_ok.1 h
    cases h
    exact gives_internView hop
  | internKey r field value =>
    obtain ⟨⟨table, d⟩, hresolve, h⟩ := bind_ok.1 h
    dsimp only at h
    split at h
    · cases h
    obtain ⟨⟨row, keys⟩, hop, h⟩ := bind_ok.1 h
    cases h
    have hop := mapError_ok hop
    obtain ⟨here, kept⟩ := KeyStore.intern_ok hop
    refine gives_key (mem_fields_of_resolve hresolve) here kept fun new => ?_
    unfold KeyStore.intern at hop
    split at hop
    · cases hop
    split at hop
    · next hid =>
      rw [new] at hid
      cases hid
    split at hop
    · cases hop
    cases hop
    intro e he hscope hrow
    have := KeyStore.below _ e he
    rw [hrow, hscope] at this
    exact lt_irrefl _ this
  | assignKey r field value row =>
    obtain ⟨⟨table, d⟩, hresolve, h⟩ := bind_ok.1 h
    dsimp only at h
    split at h
    · cases h
    obtain ⟨keys, hop, h⟩ := bind_ok.1 h
    cases h
    have hop := mapError_ok hop
    obtain ⟨here, kept⟩ := KeyStore.assign_ok hop
    refine gives_key (mem_fields_of_resolve hresolve) here kept fun new => ?_
    unfold KeyStore.assign at hop
    split at hop
    · cases hop
    split at hop
    · next hid =>
      rw [new] at hid
      cases hid
    · split at hop
      · next free => exact free
      · cases hop
  | editFragment key edit =>
    cases h
    exact .same rfl rfl rfl rfl

end Catalog

end BigDb.Db
