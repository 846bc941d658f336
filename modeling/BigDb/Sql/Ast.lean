import Mathlib.Data.List.Basic

/-!
# Statements as they are parsed

The parse tree of `big-sql` and the query language it is lowered to (`big_plan::ast`). A name still
carries the qualifier it was written with, and a clause the position it was written at, which is where a
refusal points. What a statement asks its answer to look like (`FORMAT`) is left out.
-/

namespace BigDb.Sql

inductive Literal where
  | int (v : Nat)
  | sint (v : Int)
  | dec (units scale : Nat)
  | sdec (units : Int) (scale : Nat)
  | str (s : String)
  | bool (b : Bool)
deriving DecidableEq, Repr

inductive CmpOp where
  | eq | ne | lt | le | gt | ge
deriving DecidableEq, Repr

/-! ## The query language -/

/-- The calls the lowering emits. -/
inductive Verb where
  | row | all | union | intersect | difference | not | inRecords | like | iLike | rounded | sample
  | count | sum | min | max | distinct | groupBy | groupByBucket | groupByTuple | bucket | topN | project
deriving DecidableEq, Repr

inductive Expr where
  | call (verb : Verb) (args : List Expr)
  | compare (field : String) (op : CmpOp) (value : Literal)
  | literal (value : Literal)
  | named (name : String) (value : Expr)
  | ident (name : String)
deriving BEq, Repr

/-! ## Names and sources -/

structure Name where
  qualifier : Option String
  column : String
deriving DecidableEq, Repr

structure Source where
  database : Option String
  table : String
  aliased : Option String
deriving DecidableEq, Repr

/-- `database.table`, or the bare table when there is no database. -/
def qualified (database : Option String) (table : String) : String :=
  match database with
  | some d => d ++ "." ++ table
  | none => table

namespace Source
variable (s : Source)

/-- The name the rest of the statement knows it by. -/
def label : String := s.aliased.getD s.table

def qualified : String := Sql.qualified s.database s.table

end Source

inductive JoinKind where
  | inner | left | right | full
deriving DecidableEq, Repr

structure Join where
  kind : JoinKind
  source : Source
  left : Name
  right : Name
  pos : Nat
deriving DecidableEq, Repr

/-! ## Conditions -/

inductive Rounding where
  | round (digits : Nat)
  | floor
  | ceil
deriving DecidableEq, Repr

inductive Cond where
  | and (a b : Cond)
  | or (a b : Cond)
  | not (a : Cond)
  | cmp (field : Name) (op : CmpOp) (value : Literal)
  | inList (field : Name) (values : List Literal)
  /-- `SEGMENT(view)` -/
  | segment (view : Source) (pos : Nat)
  /-- `field IN (SELECT _record_id FROM table [WHERE filter])` -/
  | inRecords (field : Name) (table : Source) (filter : Option Cond) (pos : Nat)
  | like (field : Name) (pattern : String) (fold : Bool)
  | between (field : Name) (low high : Literal)
  | rounded (field : Name) (round : Rounding) (op : CmpOp) (value : Literal)
deriving Repr

/-! ## Scalar expressions -/

inductive UnOp where
  | neg | not
deriving DecidableEq, Repr

inductive BinOp where
  | add | sub | mul | div | mod | eq | ne | lt | le | gt | ge | and | or
deriving DecidableEq, Repr

inductive Func where
  | abs | round | floor | ceil | sqrt | exp | ln | log10 | log2 | pow | sign
  | bitAnd | bitOr | bitXor | bitNot | shl | shr
  | lower | upper | length | substring | position | concat | trim | lTrim | rTrim | reverse
  | startsWith | endsWith | splitByChar
  | toInt | toFloat | toStr
  | coalesce | nullIf | ifNull
  | toDate | dateTrunc | dateDiff | dateAdd | dateSub | formatDateTime
  | toYear | toMonth | toDayOfMonth | toHour | toMinute | toSecond
  | jsonExtractString | jsonExtractInt | jsonExtractFloat | jsonExtractRaw | jsonHas
deriving DecidableEq, Repr

/-- An expression around one cell, which `value` stands for. -/
inductive Scalar where
  | value
  | literal (v : Literal)
  | now (unixSeconds : Int)
  | unary (op : UnOp) (arg : Scalar)
  | binary (op : BinOp) (left right : Scalar)
  | call (func : Func) (args : List Scalar)
  | case (arms : List (Scalar × Scalar)) (default : Option Scalar)
deriving Repr

/-- A calendar boundary. -/
inductive CivilUnit where
  | year | quarter | month | week | day | hour | minute | second
deriving DecidableEq, Repr

namespace CivilUnit

def name : CivilUnit → String
  | .year => "year"
  | .quarter => "quarter"
  | .month => "month"
  | .week => "week"
  | .day => "day"
  | .hour => "hour"
  | .minute => "minute"
  | .second => "second"

/-- In any case, singular or plural. -/
def parse (s : String) : Option CivilUnit :=
  match String.ofList ((s.toList.map Char.toLower).reverse.dropWhile (· = 's')).reverse with
  | "year" => some .year
  | "quarter" => some .quarter
  | "month" => some .month
  | "week" => some .week
  | "day" => some .day
  | "hour" => some .hour
  | "minute" | "min" => some .minute
  | "second" | "sec" => some .second
  | _ => none

end CivilUnit

/-- The boundary a `date_trunc` of the cell rounds to. -/
def bucketOf : Option Scalar → Option CivilUnit
  | some (.call .dateTrunc [.literal (.str unit), .value]) => CivilUnit.parse unit
  | _ => none

/-! ## The select list -/

inductive Agg where
  | sum | min | max
deriving DecidableEq, Repr

namespace Agg

def name : Agg → String
  | .sum => "sum"
  | .min => "min"
  | .max => "max"

def verb : Agg → Verb
  | .sum => .sum
  | .min => .min
  | .max => .max

end Agg

inductive WinFunc where
  | rowNumber | rank | denseRank | nTile | percentRank | cumeDist | lag | lead | firstValue | lastValue | nthValue
  | sum | avg | count | min | max | runningDifference
deriving DecidableEq, Repr

def WinFunc.name : WinFunc → String
  | .rowNumber => "row_number"
  | .rank => "rank"
  | .denseRank => "dense_rank"
  | .nTile => "ntile"
  | .percentRank => "percent_rank"
  | .cumeDist => "cume_dist"
  | .lag => "lag"
  | .lead => "lead"
  | .firstValue => "first_value"
  | .lastValue => "last_value"
  | .nthValue => "nth_value"
  | .sum => "sum"
  | .avg => "avg"
  | .count => "count"
  | .min => "min"
  | .max => "max"
  | .runningDifference => "runningDifference"

structure Over where
  func : WinFunc
  arg : Option Name
  offset : Nat
  partition : List Name
  order : List (Name × Bool)
  pos : Nat
deriving DecidableEq, Repr

inductive Proj where
  | window (w : Over)
  | star
  | column (name : Name)
  | now (unixSeconds : Int)
  | scalar (inner : Proj) (expr : Scalar) (written : String)
  | count
  | countDistinct (field : Name)
  | agg (func : Agg) (field : Name)
  | avg (field : Name)
  | quantile (perMille : Nat) (field : Name)
  | topKeys (n : Nat) (field : Name)
deriving Repr

structure Item where
  proj : Proj
  filter : Option Cond
  aliased : Option String
  pos : Nat
deriving Repr

/-! ## Clauses -/

inductive HavingAgg where
  | count
  | agg (func : Agg) (field : Name)
  | avg (field : Name)
deriving DecidableEq, Repr

inductive HavingOperand where
  | agg (a : HavingAgg)
  | value (v : Literal)
deriving DecidableEq, Repr

inductive Having where
  | and (a b : Having)
  | or (a b : Having)
  | not (a : Having)
  | cmp (left : HavingOperand) (op : CmpOp) (right : HavingOperand) (pos : Nat)
deriving DecidableEq, Repr

def Having.pos : Having → Nat
  | .and a _ => a.pos
  | .or a _ => a.pos
  | .not a => a.pos
  | .cmp _ _ _ pos => pos

inductive OrderKey where
  | count
  | agg (func : Agg) (field : Name)
  | avg (field : Name)
  | name (name : Name)
deriving DecidableEq, Repr

structure Order where
  key : OrderKey
  desc : Bool
  pos : Nat
deriving DecidableEq, Repr

structure Grouping where
  name : Name
  bucket : Option CivilUnit
  pos : Nat
deriving DecidableEq, Repr

/-- Subsets of the columns grouped by, as positions in that list. -/
structure GroupingSets where
  of : List (List Nat)
  pos : Nat
deriving DecidableEq, Repr

structure Select where
  items : List Item
  source : Source
  joins : List Join
  sample : Option Nat
  filter : Option Cond
  groupBy : List Grouping
  groupingSets : Option GroupingSets
  having : Option Having
  orderBy : Option Order
  limit : Option Nat
  withTies : Bool
  offset : Option Nat
deriving Repr

/-- Branches stacked by `UNION ALL`. -/
structure Query where
  branches : List Select
deriving Repr

def recordColumn : String := "_record_id"

namespace Item
variable (i : Item)

/-- What is read, under whatever expression is written around it. -/
def leaf : Proj :=
  match i.proj with
  | .scalar inner _ _ => inner
  | other => other

def apply : Option Scalar :=
  match i.proj with
  | .scalar _ expr _ => some expr
  | _ => none

/-- What the column is called in the answer. -/
def column : String :=
  i.aliased.getD <|
    match i.proj with
    | .star => recordColumn
    | .column c => c.column
    | .scalar _ _ written => written
    | .count => "count"
    | .countDistinct _ => "count"
    | .agg func _ => func.name
    | .avg _ => "avg"
    | .topKeys _ _ => "topK"
    | .quantile _ _ => "quantile"
    | .now _ => "now()"
    | .window w => w.func.name

end Item

end BigDb.Sql
