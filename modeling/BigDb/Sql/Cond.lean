import BigDb.Sql.Ast

/-!
# Lowering a condition

A `WHERE` as the set of records it selects, in the query language. A condition is lowered in one pass that
also keeps it flattened: `Lowered.ands` are the terms of the conjunction it is, `Lowered.ors` those of the
disjunction, each with what it lowers to. A key equality and the bounds on the same column are fused into one
time window.
-/

namespace BigDb.Sql

/-! ## Refusals -/

/-- `panicked` is no refusal of the source: it stands for its `unreachable!`. -/
inductive Refused where
  | panicked | tooManyCalls | union | segment | window | shape | having | offset | order | multiDistinct | rollupOrder
  | ambiguous | outerJoin | joinOn | joins | joinShape | joinFilter | setting
deriving DecidableEq, Repr

structure SqlError where
  what : Refused
  pos : Nat
deriving DecidableEq, Repr

abbrev Lowering := Except SqlError

def refuse {α : Type} (what : Refused) (pos : Nat) : Lowering α := .error ⟨what, pos⟩

def refuseIf (cond : Bool) (what : Refused) (pos : Nat) : Lowering Unit :=
  if cond then refuse what pos else .ok ()

def refuseFound {α : Type} (found : Option α) (what : Refused) (pos : α → Nat) : Lowering Unit :=
  match found with
  | some a => refuse what (pos a)
  | none => .ok ()

/-! ## Building the query language -/

def row (field : Name) (op : CmpOp) (value : Literal) : Expr := .call .row [.compare field.column op value]

def rounded (field : Name) (round : Rounding) (op : CmpOp) (value : Literal) : Expr :=
  let compared := Expr.compare field.column op value
  match round with
  | .round digits =>
    .call .rounded [compared, .named "by" (.literal (.str "round")), .named "digits" (.literal (.int digits))]
  | .floor => .call .rounded [compared, .named "by" (.literal (.str "floor"))]
  | .ceil => .call .rounded [compared, .named "by" (.literal (.str "ceil"))]

def like (field : Name) (pattern : String) (fold : Bool) : Expr :=
  .call (if fold then .iLike else .like) [.compare field.column .eq (.str pattern)]

/-- A key and the bounds on when. -/
def window (field : Name) (key : String) (lo hi : Option Nat) : Expr :=
  .call .row (.named field.column (.literal (.str key)) ::
    ((lo.map fun v => Expr.named "from" (.literal (.int v))).toList ++
      (hi.map fun v => Expr.named "to" (.literal (.int v))).toList))

def fieldArg (field : Name) : Expr := .named "field" (.ident field.column)

def intArg (name : String) (v : Nat) : Expr := .named name (.literal (.int v))

/-! ## Conditions -/

/-- One term of a conjunction, and what it is lowered to; for a negation also what is negated. -/
structure Part where
  cond : Cond
  expr : Expr
  negated : Option Expr

structure Lowered where
  expr : Expr
  ands : List Part
  ors : List Expr

/-- A condition that is neither a conjunction nor a disjunction. -/
def Lowered.single (cond : Cond) (expr : Expr) (negated : Option Expr) : Lowered :=
  ⟨expr, [⟨cond, expr, negated⟩], [expr]⟩

/-- The bounds a key equality has taken in so far: from, to, and whether there is any. -/
structure Bounds where
  lo : Option Nat
  hi : Option Nat
  any : Bool

/-- A term that bounds the same column is taken in. -/
def Bounds.take (b : Bounds) (field : Name) : Cond → Option Bounds
  | .between f (.int lo) (.int hi) => if f = field then some ⟨some lo, some hi, true⟩ else none
  | .cmp f op (.int v) =>
    if f = field then
      match op with
      | .ge | .gt => some ⟨some v, b.hi, true⟩
      | .le | .lt => some ⟨b.lo, some v, true⟩
      | _ => none
    else none
  | _ => none

/-- Every bound on a column that no earlier window has used. -/
def boundsOf (field : Name) : List (Part × Bool) → Bounds → Bounds × List (Part × Bool)
  | [], b => (b, [])
  | (p, used) :: rest, b =>
    match if used then none else b.take field p.cond with
    | some b' =>
      let (last, rest') := boundsOf field rest b'
      (last, (p, true) :: rest')
    | none =>
      let (last, rest') := boundsOf field rest b
      (last, (p, used) :: rest')

/-- A term of a conjunction: a condition, or a time window fused out of several. -/
inductive Term where
  | plain (part : Part)
  | window (field : Name) (key : String) (lo hi : Option Nat)

/-- Fuses the key equality at a position with the bounds on the same column. -/
def fuseAt (parts : List (Part × Bool)) (i : Nat) : List Term × List (Part × Bool) :=
  match parts[i]? with
  | some (⟨.cmp field .eq (.str key), _, _⟩, _) =>
    let (b, parts') := boundsOf field parts ⟨none, none, false⟩
    if b.any then
      ([.window field key b.lo b.hi], parts'.modify i fun p => (p.1, true))
    else ([], parts)
  | _ => ([], parts)

def fuse : List Nat → List (Part × Bool) → List Term × List (Part × Bool)
  | [], parts => ([], parts)
  | i :: is, parts =>
    let (out, parts') := fuseAt parts i
    let (more, parts'') := fuse is parts'
    (out ++ more, parts'')

def windows (parts : List Part) : List Term :=
  let (fused, rest) := fuse (List.range parts.length) (parts.map fun p => (p, false))
  fused ++ (rest.filterMap fun p => if p.2 then none else some (.plain p.1))

def combine (verb : Verb) : List Expr → Option Expr
  | [] => none
  | [one] => some one
  | many => some (.call verb many)

def Term.negated : Term → Option Expr
  | .plain p => p.negated
  | .window .. => none

def Term.lower : Term → Expr
  | .plain p => p.expr
  | .window field key lo hi => Sql.window field key lo hi

/-- What is negated is unioned and subtracted. -/
def conjunction (parts : List Part) : Expr :=
  let terms := windows parts
  let drop := combine .union (terms.filterMap Term.negated)
  let keep := combine .intersect ((terms.filter fun t => t.negated.isNone).map Term.lower)
  match keep, drop with
  | some keep, some drop => .call .difference [keep, drop]
  | some keep, none => keep
  | none, some drop => .call .not [drop]
  -- a conjunction has terms
  | none, none => .call .all []

def lowered : Cond → Lowering Lowered
  | .and a b => do
    let ands := (← lowered a).ands ++ (← lowered b).ands
    return ⟨conjunction ands, ands, [conjunction ands]⟩
  | .or a b => do
    let ors := (← lowered a).ors ++ (← lowered b).ors
    let expr := Expr.call .union ors
    return ⟨expr, [⟨.or a b, expr, none⟩], ors⟩
  | .not a => do
    let inner := (← lowered a).expr
    return .single (.not a) (.call .not [inner]) (some inner)
  | .cmp field op value => .ok (.single (.cmp field op value) (row field op value) none)
  | .inList field [one] => .ok (.single (.inList field [one]) (row field .eq one) none)
  | .inList field values =>
    .ok (.single (.inList field values) (.call .union (values.map fun v => row field .eq v)) none)
  | .segment .. => refuse .panicked 0
  | .inRecords field table none pos =>
    .ok (.single (.inRecords field table none pos)
      (.call .inRecords [fieldArg field, .named "table" (.literal (.str table.qualified)), .call .all []]) none)
  | .inRecords field table (some filter) pos => do
    let inner := (← lowered filter).expr
    return .single (.inRecords field table (some filter) pos)
      (.call .inRecords [fieldArg field, .named "table" (.literal (.str table.qualified)), inner]) none
  | .like field pattern fold => .ok (.single (.like field pattern fold) (like field pattern fold) none)
  | .between field low high =>
    .ok (.single (.between field low high) (.call .intersect [row field .ge low, row field .le high]) none)
  | .rounded field round op value =>
    .ok (.single (.rounded field round op value) (rounded field round op value) none)

/-- A condition as the set of records it selects. -/
def rows (cond : Cond) : Lowering Expr := do return (← lowered cond).expr

/-- The tables the `IN (SELECT ...)`s of a condition name, as they are met. -/
def Cond.members : Cond → List String
  | .and a b => a.members ++ b.members
  | .or a b => a.members ++ b.members
  | .not a => a.members
  | .inRecords _ table none _ => [table.qualified]
  | .inRecords _ table (some filter) _ => table.qualified :: filter.members
  | _ => []

/-- Every other table a filter reads. -/
def reads (cond : Cond) : List String := cond.members.eraseDups

def noSegments : Cond → Lowering Unit
  | .segment _ pos => refuse .segment pos
  | .and a b => do noSegments a; noSegments b
  | .or a b => do noSegments a; noSegments b
  | .not a => noSegments a
  | .inRecords _ _ none _ => .ok ()
  | .inRecords _ _ (some filter) _ => noSegments filter
  | _ => .ok ()

end BigDb.Sql
