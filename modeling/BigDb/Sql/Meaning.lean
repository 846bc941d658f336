import BigDb.Lib.Fallible
import BigDb.Sql.Cond
import Mathlib.Algebra.Group.Nat.Defs

/-!
# What a lowered condition selects

The set operations of the query language, over what the planner and the executor answer for every other call,
and the Boolean formula a condition is written as. Records are those that exist. A key equality and the bounds on its
column are one question about the days on which a record was given the key, and a bound is the day it falls on.

Days are numbers here. The source compares their names, which sort as they do for the years of four digits, and
panics at a window whose end is on an earlier day than its start.
-/

namespace BigDb.Sql
open Lib List
variable {R : Type} {x : R} {cond : Cond} {parts : List Part} {es : List Expr}

/-! ## Windows -/

/-- `day_view` of a number that was written as a bound, which is taken for an `i64`. -/
def dayOf (seconds : Nat) : Int := (if seconds < 2 ^ 63 then (seconds : Int) else seconds - (2 ^ 64 : Nat)) / 86400

def Bounds.allows (b : Bounds) (day : Int) : Bool := b.lo.all (dayOf · ≤ day) && b.hi.all (day ≤ dayOf ·)

/-- `row_between`: the field, the key and the bounds of a window, if the arguments are one. -/
def rowBetween : List Expr → Option (Option (String × String) × Option Nat × Option Nat)
  | [] => some (none, none, none)
  | .named name (.literal value) :: args => do
    let (key, lo, hi) ← rowBetween args
    match name, value with
    | "from", .int v => some (key, lo.or (some v), hi)
    | "to", .int v => some (key, lo, hi.or (some v))
    | _, .str s => some (key.or (some (name, s)), lo, hi)
    | _, _ => none
  | _ :: _ => none

/-- What a table answers: on which days a record was given a key, and every other call. -/
structure Table (R : Type) where
  given : R → String → String → List Int
  other : Expr → R → Bool

variable {t : Table R}

/-- `matching_key_between`, where a call is a window. -/
def Table.leaf (t : Table R) (e : Expr) (x : R) : Bool :=
  match e with
  | .call .row args =>
    match rowBetween args with
    | some (some (field, key), lo, hi) =>
      if lo.isSome || hi.isSome then (t.given x field key).any (Bounds.allows ⟨lo, hi, true⟩) else t.other e x
    | _ => t.other e x
  | _ => t.other e x

def Expr.selects (leaf : Expr → R → Bool) (x : R) : Expr → Bool
  | .call .union args => args.attach.any fun e => e.1.selects leaf x
  | .call .intersect args => args.attach.all fun e => e.1.selects leaf x
  | .call .difference [a, b] => a.selects leaf x && !b.selects leaf x
  | .call .not [a] => !a.selects leaf x
  | .call .all [] => true
  | e => leaf e x
decreasing_by
  all_goals first
    | decreasing_tactic
    | have := List.sizeOf_lt_of_mem e.2
      simp
      omega

section
variable {leaf : Expr → R → Bool}

@[simp] lemma selects_intersect : (Expr.call .intersect es).selects leaf x = es.all (Expr.selects leaf x) := by
  simp [Expr.selects]

end

/-- The bound a term is on a column. -/
def Cond.bound (field : Name) (c : Cond) : Option Bounds := Bounds.take ⟨none, none, false⟩ field c

def bounded (field : Name) (cs : List Cond) : Bool := cs.any fun c => (c.bound field).isSome

def Cond.isKey (field : Name) : Cond → Bool
  | .cmp f .eq (.str _) => f = field
  | _ => false

/-- Whether a term is asked together with a key equality on a column that is bounded. -/
def Cond.joins (cs : List Cond) (c : Cond) : Cond → Bool
  | .cmp field .eq (.str _) => bounded field cs && ((c.bound field).isSome || c.isKey field)
  | _ => false

/-- What a term of a conjunction says, and `own` by itself. A key and the bounds on its column say together that the key
was given on a day that is allowed. -/
def termSays (t : Table R) (x : R) (allowed : Name → List Cond → Int → Bool) (cs : List Cond) (own : Bool) : Cond → Bool
  | .cmp field .eq (.str key) =>
    if bounded field cs then (t.given x field.column key).any (allowed field cs) else own
  | c => own || cs.any (Cond.joins cs c)

def conjoined (t : Table R) (x : R) (allowed : Name → List Cond → Int → Bool) (terms : List (Cond × Bool)) : Bool :=
  terms.all fun (c, own) => termSays t x allowed (terms.map Prod.fst) own c

/-- A day is in all of the bounds. -/
def inBounds (field : Name) (cs : List Cond) (day : Int) : Bool := (cs.filterMap (Cond.bound field)).all (·.allows day)

/-- What a condition says of a record, and its terms if it is a conjunction. A comparison, a pattern or a set of records
is one question. -/
def Cond.meaning (t : Table R) (x : R) : Cond → Bool × List (Cond × Bool)
  | .and a b =>
    let terms := (a.meaning t x).2 ++ (b.meaning t x).2
    (conjoined t x inBounds terms, terms)
  | .or a b =>
    let own := (a.meaning t x).1 || (b.meaning t x).1
    (own, [(.or a b, own)])
  | .not a => (!(a.meaning t x).1, [(.not a, !(a.meaning t x).1)])
  | .inList field values =>
    let own := values.any fun v => t.leaf (row field .eq v) x
    (own, [(.inList field values, own)])
  | .between field low high =>
    let own := t.leaf (row field .ge low) x && t.leaf (row field .le high) x
    (own, [(.between field low high, own)])
  | c =>
    let own := (rows c).toOption.any (t.leaf · x)
    (own, [(c, own)])

/-! ## Which bounds are kept -/

def Bounds.takeAll (b : Bounds) (field : Name) (cs : List Cond) : Bounds :=
  cs.foldl (fun b c => (b.take field c).getD b) b

/-- The bounds of a window: of two on one side the last. -/
def keptOn (field : Name) (cs : List Cond) : Bounds := .takeAll ⟨none, none, false⟩ field cs

/-- Every day in the one is in the other. -/
def Bounds.within (b c : Bounds) : Bool :=
  (c.lo.all fun v => b.lo.any (dayOf v ≤ dayOf ·)) && c.hi.all fun v => b.hi.any (dayOf · ≤ dayOf v)

/-- The last bounds on a column are the narrowest. -/
def narrowing (field : Name) (cs : List Cond) : Bool := cs.all fun c => (c.bound field).all (keptOn field cs).within

/-- The terms of a conjunction. -/
def Cond.terms : Cond → List Cond
  | .and a b => a.terms ++ b.terms
  | c => [c]

variable {field : Name} {c : Cond} {cs : List Cond} {b o : Bounds} {day : Int} {key : String}

lemma take_eq : b.take field c = (c.bound field).map fun o => ⟨o.lo.or b.lo, o.hi.or b.hi, true⟩ := by
  unfold Cond.bound Bounds.take
  split
  · next f lo hi => by_cases same : f = field <;> simp [same]
  · next f op v => by_cases same : f = field <;> cases op <;> simp [same]
  · rfl

/-- What a term asks of a record. -/
def Term.holds (leaf : Expr → R → Bool) (x : R) (term : Term) : Bool :=
  match term.negated with
  | some e => !e.selects leaf x
  | none => term.lower.selects leaf x

/-- The terms of a conjunction with what each of them asks. -/
def said (t : Table R) (x : R) (parts : List Part) : List (Cond × Bool) :=
  parts.map fun p => (p.cond, (Term.plain p).holds t.leaf x)

/-- What a condition is lowered to, in all three of its forms; the first and the last are those of a condition that is not
a term of a conjunction. -/
structure Lowered.Means (t : Table R) (x : R) (inside : Bool) (cond : Cond) (l : Lowered) : Prop where
  expr : inside = false → l.expr.selects t.leaf x = (cond.meaning t x).1
  ors : inside = false → l.ors.any (Expr.selects t.leaf x) = (cond.meaning t x).1
  ands : said t x l.ands = (cond.meaning t x).2
  terms : l.ands.map Part.cond = cond.terms

def visit : Name := ⟨none, "visit"⟩

end BigDb.Sql
