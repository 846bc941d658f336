import BigDb.Lib.Fallible
import BigDb.Sql.Lower

/-!
# Which tables a lowered statement touches

`resolve_sets` of `big-embed` answers the `InRecords` calls inside a statement before anything is planned: each
names another table, whose records are selected and put in its place. `Expr.sets` are the tables read that way.

What `lower` emits stays with the tables that were written: a call is asked of one named by `FROM` or `JOIN`, and an
`InRecords` inside one names a table of an `IN (SELECT ...)` or of a join on a record id.
-/

namespace BigDb.Sql
open Lib List Prod

/-! ## Resolving sets -/

/-- The arguments of an `InRecords` as they are collected. Of the inner set it is kept which tables are read to
resolve it, and whether it is a call. -/
structure Member where
  field : Bool
  table : Option String
  inner : Option (List String × Bool)

mutual

/-- The tables whose records are selected to resolve an expression. -/
def Expr.sets : Expr → List String
  | .call .inRecords args =>
    match memberOf args ⟨false, none, none⟩ with
    | some ⟨true, some table, some (read, isCall)⟩ => if isCall then read ++ [table] else read
    | _ => []
  | .call _ args => setsOf args
  | .named _ value => value.sets
  | _ => []

def setsOf : List Expr → List String
  | [] => []
  | e :: es => e.sets ++ setsOf es

/-- Nothing is resolved if a field or a table is given as something else than a name. -/
def memberOf : List Expr → Member → Option Member
  | [], m => some m
  | .named name value :: args, m =>
    if name = "field" then
      match value with
      | .ident _ => memberOf args { m with field := true }
      | _ => none
    else if name = "table" then
      match value with
      | .literal (.str table) => memberOf args { m with table := some table }
      | _ => none
    else memberOf args { m with inner := some (value.sets, false) }
  | .call verb inner :: args, m => memberOf args { m with inner := some ((Expr.call verb inner).sets, true) }
  | e :: args, m => memberOf args { m with inner := some (e.sets, false) }

end

/-! ## The tables an expression names -/

/-- Resolving `e` reads no table but those of `S`. -/
def Only (S : List String) (e : Expr) : Prop := ∀ t ∈ e.sets, t ∈ S

section Expressions
variable {S : List String}

lemma setsOf_eq (es : List Expr) : setsOf es = es.flatMap Expr.sets := by
  induction es with
  | nil => simp [setsOf]
  | cons e es ih => simp [setsOf, ih]

/-- Only an `InRecords` names a table. -/
lemma only_call {verb : Verb} (hv : verb ≠ .inRecords) {args : List Expr} (h : ∀ e ∈ args, Only S e) :
    Only S (.call verb args) := by
  have hsets : (Expr.call verb args).sets = args.flatMap Expr.sets := by
    cases verb <;> simp_all [Expr.sets, setsOf_eq]
  intro t ht
  obtain ⟨e, he, hte⟩ := mem_flatMap.mp (hsets ▸ ht)
  exact h e he t hte

lemma only_named {name : String} {e : Expr} (h : Only S e) : Only S (.named name e) := by
  intro t ht
  exact h t (by simpa [Expr.sets] using ht)

lemma only_literal (v : Literal) : Only S (.literal v) := by simp [Only, Expr.sets]

lemma only_ident (name : String) : Only S (.ident name) := by simp [Only, Expr.sets]

lemma only_compare (field : String) (op : CmpOp) (v : Literal) : Only S (.compare field op v) := by
  simp [Only, Expr.sets]

variable (field : Name)

lemma only_fieldArg : Only S (fieldArg field) := only_named (only_ident _)

lemma only_intArg (name : String) (v : Nat) : Only S (intArg name v) := only_named (only_literal _)

lemma only_all : Only S (.call .all []) := only_call (by decide) (by simp)

lemma only_row (op : CmpOp) (v : Literal) : Only S (row field op v) :=
  only_call (by decide) (by simp [only_compare])

lemma only_window (key : String) (lo hi : Option Nat) : Only S (window field key lo hi) := by
  refine only_call (by decide) fun e he => ?_
  simp only [mem_cons, mem_append, Option.mem_toList, Option.map_eq_some_iff] at he
  obtain rfl | ⟨v, -, rfl⟩ | ⟨v, -, rfl⟩ := he <;> exact only_named (only_literal _)

lemma only_rounded (round : Rounding) (op : CmpOp) (v : Literal) : Only S (rounded field round op v) := by
  cases round <;>
    exact only_call (by decide) (by simp [only_compare, only_named, only_literal])

lemma only_like (pattern : String) (fold : Bool) : Only S (like field pattern fold) := by
  cases fold <;> exact only_call (by decide) (by simp [only_compare])

/-- A set names its table and whatever its inner set names. -/
lemma only_inRecords {field : Name} {table : String} {e : Expr} (ht : table ∈ S) (he : Only S e) :
    Only S (.call .inRecords [fieldArg field, .named "table" (.literal (.str table)), e]) := by
  intro t h
  cases e with
  | call verb args =>
    simp only [Expr.sets, memberOf, fieldArg, if_true, if_neg (show "table" ≠ "field" by decide), mem_append,
      mem_singleton] at h
    rcases h with h | rfl
    · exact he t h
    · exact ht
  | named name value =>
    -- an argument with a name of its own is the inner set only if it is neither the field nor the table
    by_cases hf : name = "field"
    · cases value <;> simp [Expr.sets, memberOf, fieldArg, hf] at h
    by_cases hn : name = "table"
    · cases value with
      | literal v => cases v <;> simp [Expr.sets, memberOf, fieldArg, hn] at h
      | _ => simp [Expr.sets, memberOf, fieldArg, hn] at h
    simp only [Expr.sets, memberOf, fieldArg, if_true, if_neg (show "table" ≠ "field" by decide), if_neg hf,
      if_neg hn, Bool.false_eq_true, if_false] at h
    exact he t (by simpa [Expr.sets] using h)
  | _ => simp_all [Expr.sets, memberOf, fieldArg]

end Expressions

/-! ## Conditions -/

section Conditions
variable {S : List String}

def Part.Only (S : List String) (p : Part) : Prop := Sql.Only S p.expr ∧ ∀ e, p.negated = some e → Sql.Only S e

lemma boundsOf_parts (field : Name) (parts : List (Part × Bool)) (b : Bounds) :
    (boundsOf field parts b).2.map fst = parts.map fst := by
  induction parts generalizing b with
  | nil => simp [boundsOf]
  | cons p ps ih =>
    obtain ⟨p, used⟩ := p
    simp only [boundsOf]
    split <;> simp [ih]

lemma fuseAt_parts (parts : List (Part × Bool)) (i : Nat) : (fuseAt parts i).2.map fst = parts.map fst := by
  have hmodify (ps : List (Part × Bool)) : (ps.modify i fun p => (p.1, true)).map fst = ps.map fst := by
    apply ext_getElem?
    intro n
    simp only [getElem?_map, getElem?_modify]
    split <;> simp [Function.comp_def]
  unfold fuseAt
  split
  · dsimp only
    split
    · rw [hmodify, boundsOf_parts]
    · rfl
  · rfl

/-- A term comes from a part, or is a window, which names no table. -/
def Term.From (parts : List Part) : Term → Prop
  | .plain p => p ∈ parts
  | .window .. => True

/-- Fusing at a part emits a window or nothing. -/
lemma fuseAt_terms (parts : List (Part × Bool)) (i : Nat) (ps : List Part) : ∀ t ∈ (fuseAt parts i).1, t.From ps := by
  intro t ht
  unfold fuseAt at ht
  split at ht
  · dsimp only at ht
    split at ht
    · rw [mem_singleton.mp ht]
      trivial
    · cases ht
  · cases ht

lemma fuse_from (is : List Nat) (parts : List (Part × Bool)) (ps : List Part) :
    (∀ t ∈ (fuse is parts).1, t.From ps) ∧ (fuse is parts).2.map fst = parts.map fst := by
  induction is generalizing parts with
  | nil => simp [fuse]
  | cons i is ih =>
    obtain ⟨hterms, hparts⟩ := ih (fuseAt parts i).2
    simp only [fuse]
    refine ⟨fun t ht => ?_, hparts.trans (fuseAt_parts parts i)⟩
    obtain ht | ht := mem_append.mp ht
    · exact fuseAt_terms parts i ps t ht
    · exact hterms t ht

/-- Fusing bounds into windows makes no other terms. -/
lemma windows_from (parts : List Part) : ∀ t ∈ windows parts, t.From parts := by
  obtain ⟨hterms, hparts⟩ := fuse_from (range parts.length) (parts.map fun p => (p, false)) parts
  intro t ht
  simp only [windows] at ht
  obtain ht | ht := mem_append.mp ht
  · exact hterms t ht
  obtain ⟨p, hp, hpt⟩ := mem_filterMap.mp ht
  have hmem : p.1 ∈ parts := by
    have := mem_map_of_mem (f := fst) hp
    rw [hparts] at this
    simpa using this
  split at hpt
  · cases hpt
  · cases hpt
    exact hmem

lemma only_combine {verb : Verb} (hv : verb ≠ .inRecords) {es : List Expr} (h : ∀ e ∈ es, Only S e) :
    ∀ e, combine verb es = some e → Only S e := by
  intro e he
  unfold combine at he
  split at he
  · cases he
  · cases he
    exact h _ (mem_singleton_self _)
  · cases he
    exact only_call hv h

lemma only_conjunction {parts : List Part} (h : ∀ p ∈ parts, p.Only S) : Only S (conjunction parts) := by
  have hdrop : ∀ e, combine .union ((windows parts).filterMap Term.negated) = some e → Only S e := by
    refine only_combine (by decide) fun e he => ?_
    obtain ⟨t, ht, hte⟩ := mem_filterMap.mp he
    cases t with
    | plain p => exact (h p (windows_from parts _ ht)).2 e hte
    | window => cases hte
  have hkeep : ∀ e, combine .intersect (((windows parts).filter fun t => t.negated.isNone).map Term.lower) = some e →
      Only S e := by
    refine only_combine (by decide) fun e he => ?_
    obtain ⟨t, ht, rfl⟩ := mem_map.mp he
    cases t with
    | plain p => exact (h p (windows_from parts _ (mem_of_mem_filter ht))).1
    | window => exact only_window _ _ _ _
  unfold conjunction
  dsimp only
  split
  · rename_i keep drop hk hd
    exact only_call (by decide) (by simp [hkeep _ hk, hdrop _ hd])
  · rename_i keep hk _
    exact hkeep _ hk
  · rename_i drop _ hd
    exact only_call (by decide) (by simp [hdrop _ hd])
  · exact only_all

/-- What a condition is lowered to, in all three of its forms. -/
structure Lowered.Only (S : List String) (l : Lowered) : Prop where
  expr : Sql.Only S l.expr
  ands : ∀ p ∈ l.ands, p.Only S
  ors : ∀ e ∈ l.ors, Sql.Only S e

lemma Lowered.Only.single {cond : Cond} {e : Expr} {negated : Option Expr} (he : Sql.Only S e)
    (hn : ∀ x, negated = some x → Sql.Only S x) : (Lowered.single cond e negated).Only S :=
  ⟨he, by simpa [Lowered.single, Part.Only, he] using hn, by simp [Lowered.single, he]⟩

/-- What a condition lowers to reads the tables of its `IN (SELECT ...)`s. -/
lemma only_lowered (cond : Cond) (h : ∀ t ∈ cond.members, t ∈ S) : Gives (lowered cond) (·.Only S) := by
  -- the induction follows `lowered`, which recurses into the filter of an `IN (SELECT ...)` too
  induction cond using lowered.induct with
  | case1 a b iha ihb =>
    simp only [Cond.members, mem_append] at h
    rw [lowered]
    refine (iha fun t ht => h t (.inl ht)).bind fun la ha => (ihb fun t ht => h t (.inr ht)).bind fun lb hb => .ok ?_
    have hands : ∀ p ∈ la.ands ++ lb.ands, p.Only S := by
      intro p hp
      exact (mem_append.mp hp).elim (ha.ands p) (hb.ands p)
    have hexpr := only_conjunction hands
    exact ⟨hexpr, hands, by simpa using hexpr⟩
  | case2 a b iha ihb =>
    simp only [Cond.members, mem_append] at h
    rw [lowered]
    refine (iha fun t ht => h t (.inl ht)).bind fun la ha => (ihb fun t ht => h t (.inr ht)).bind fun lb hb => .ok ?_
    have hors : ∀ e ∈ la.ors ++ lb.ors, Sql.Only S e := by
      intro e he
      exact (mem_append.mp he).elim (ha.ors e) (hb.ors e)
    have hexpr : Sql.Only S (.call .union (la.ors ++ lb.ors)) := only_call (by decide) hors
    exact ⟨hexpr, by simpa [Part.Only] using hexpr, hors⟩
  | case3 a ih =>
    rw [lowered]
    refine (ih (by simpa [Cond.members] using h)).bind fun la ha => .ok ?_
    exact .single (only_call (by decide) (by simp [ha.expr])) (by simp [ha.expr])
  | case4 field op value => exact .ok (.single (only_row field op value) (by simp))
  | case5 field one => exact .ok (.single (only_row field .eq one) (by simp))
  | case6 field values hmany =>
    rw [lowered]
    · refine .ok (.single (only_call (by decide) fun e he => ?_) (by simp))
      obtain ⟨v, -, rfl⟩ := mem_map.mp he
      exact only_row field .eq v
    · exact hmany
  | case7 => exact .error
  | case8 field table pos =>
    rw [lowered]
    exact .ok (.single (only_inRecords (h _ (by simp [Cond.members])) only_all) (by simp))
  | case9 field table filter pos ih =>
    rw [lowered]
    refine (ih fun t ht => h t (by simp [Cond.members, ht])).bind fun l hl => .ok ?_
    exact .single (only_inRecords (h _ (by simp [Cond.members])) hl.expr) (by simp)
  | case10 field pattern fold => exact .ok (.single (only_like field pattern fold) (by simp))
  | case11 field low high =>
    rw [lowered]
    exact .ok (.single (only_call (by decide) (by simp [only_row])) (by simp))
  | case12 field round op value => exact .ok (.single (only_rounded field round op value) (by simp))

lemma only_rows (cond : Cond) (h : ∀ t ∈ cond.members, t ∈ S) : Gives (rows cond) (Only S) :=
  (only_lowered cond h).bind fun _ hl => .ok hl.expr

end Conditions

end BigDb.Sql
