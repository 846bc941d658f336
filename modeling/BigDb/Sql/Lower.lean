import BigDb.Sql.Cond
import Mathlib.Algebra.Group.Nat.Defs
import Mathlib.Data.List.Dedup

/-!
# Lowering a `SELECT`

`lower` of `big-sql`: a parsed query as the calls of the query language that it means, each asked of one
table, and the quantile searches that are run after them. What the shape of the answer is made of (which
cell shows which call) is left out, except where a clause is refused over it: a measure remembers where its
number comes from, and a statement how many columns it shows.
-/

namespace BigDb.Sql
open Prod

/-! ## Statements -/

/-- One call, asked of one table. -/
structure Ask where
  table : String
  call : Expr
deriving BEq, Repr

/-- A quantile, which is found by asking with moving bounds. -/
structure Probe where
  table : String
  rows : Expr
  field : String
  perMille : Nat
deriving Repr

/-- Of the answer's shape only how many columns it has is kept. -/
structure Statement where
  calls : List Ask
  probes : List Probe
  columns : Nat
deriving Repr

def maxCalls : Nat := 16

structure Calls where
  out : List Ask
  pos : Nat

abbrev Asking := StateT Calls Lowering

/-- The position of a call, which is asked once however often it is needed. -/
def push (table : String) (call : Expr) : Asking Nat := fun c =>
  match c.out.findIdx? (· == ⟨table, call⟩) with
  | some i => .ok (i, c)
  | none =>
    if c.out.length = maxCalls then refuse .tooManyCalls c.pos
    else .ok (c.out.length, { c with out := c.out ++ [⟨table, call⟩] })

/-- A call that only says which keys there are, where no measure does. -/
def pushIf (cond : Bool) (table : String) (call : Expr) : Asking Unit :=
  if cond then do
    let _ ← push table call
  else pure ()

/-! ## Measures -/

inductive Absent where
  | zero | null
deriving DecidableEq, Repr

inductive Pairing where
  | product | least | greatest
deriving DecidableEq, Repr

inductive Of where
  | value (plan : Nat)
  | groups (plan : Nat)
  | ratio (plan count : Nat)
  | now (unixSeconds : Int)
  | keys (plan : Nat)
  | probe (probe : Nat)
  | group (plan : Nat) (absent : Absent)
  | paired (plan side : Nat) (how : Pairing)
  | pairedRatio (top bottom side : Nat)
  | sharedKeys
deriving DecidableEq, Repr

inductive Measure where
  | count
  | agg (func : Agg) (field : Name)
  | avg (field : Name)
  /-- an entry with a `FILTER` of its own, which no other clause can name -/
  | filtered
deriving DecidableEq, Repr

abbrev Measures := List (Measure × Of)

def measureOf (item : Item) : Measure :=
  if item.filter.isSome then .filtered
  else
    match item.proj with
    | .agg func field => .agg func field
    | .avg field => .avg field
    | _ => .count

/-- One measure per entry, in the order of the select list. -/
def measured (of : Item → Asking Of) : List Item → Asking Measures
  | [] => return []
  | item :: items => do
    let one ← of item
    return (measureOf item, one) :: (← measured of items)

def HavingAgg.measure : HavingAgg → Measure
  | .count => .count
  | .agg func field => .agg func field
  | .avg field => .avg field

/-- The number an aggregate in a `HAVING` or an `ORDER BY` names. -/
def names (agg : HavingAgg) (measures : Measures) : Option Of :=
  if measures.isEmpty && decide (agg = .count) then some (.group 0 .zero)
  else (measures.find? fun m => m.1 = agg.measure).map snd

/-- Whether an operand can be compared with the other side: a number with a number of the same field, or with a
count when it is whole. -/
def operandOk (number : HavingAgg → Nat → Lowering Of) (field : HavingAgg → Nat → Lowering (Option Name)) (pos : Nat) :
    HavingOperand → HavingOperand → Lowering Unit
  | .agg a, _ => do
    let _ ← number a pos
    let _ ← field a pos
  | .value v, .agg a => do
    match ← field a pos, v with
    | some _, _ => .ok ()
    | none, .int _ => .ok ()
    | none, _ => refuse .having pos
  | .value _, .value _ => refuse .having pos

def havingTree (number : HavingAgg → Nat → Lowering Of) (field : HavingAgg → Nat → Lowering (Option Name)) :
    Having → Lowering Unit
  | .and a b => do havingTree number field a; havingTree number field b
  | .or a b => do havingTree number field a; havingTree number field b
  | .not a => havingTree number field a
  | .cmp left _ right pos => do
    operandOk number field pos left right
    operandOk number field pos right left

def HavingAgg.field : HavingAgg → Option Name
  | .count => none
  | .agg _ field => some field
  | .avg field => some field

def Of.isRatio : Of → Bool
  | .ratio .. => true
  | _ => false

def Of.isPairedRatio : Of → Bool
  | .pairedRatio .. => true
  | _ => false

def havingOf (select : Select) (measures : Measures) : Lowering Unit :=
  match select.having with
  | none => .ok ()
  | some h =>
    let number := fun a pos =>
      match names a measures with
      | some of => if of.isRatio then refuse .having pos else .ok of
      | none => refuse .having pos
    havingTree number (fun a _ => .ok a.field) h

/-! ## Buckets of the select list -/

/-- The records an entry is about: the statement's, and its own `FILTER`. -/
def rowsOf (rows : Expr) (item : Item) : Lowering Expr :=
  match item.filter with
  | none => .ok rows
  | some cond => do return .call .intersect [rows, ← Sql.rows cond]

def agrees (item : Item) (group : Grouping) : Bool :=
  match group.bucket with
  | none => item.apply.isNone
  | some unit => bucketOf item.apply = some unit

namespace Select
variable (s : Select)

def pos : Nat := (s.items.head?.map Item.pos).getD 0

def stars : List Item := s.items.filter fun i => match i.leaf with
  | .star => true
  | _ => false

def columns : List (Item × Name) := s.items.filterMap fun i => match i.leaf with
  | .column name => some (i, name)
  | _ => none

def windowed : List (Item × Over) := s.items.filterMap fun i => match i.leaf with
  | .window w => some (i, w)
  | _ => none

def aggregates : List Item := s.items.filter fun i => match i.leaf with
  | .star | .column _ | .window _ => false
  | _ => true

end Select

/-! ## One row, or the records themselves -/

section Select
variable (select : Select)

/-- An `ORDER BY` over records names a column of theirs. -/
def orderOk (known : String → Bool) : Lowering Unit :=
  match select.orderBy with
  | none => .ok ()
  | some order =>
    match order.key with
    | .name name => if name.qualifier.isSome || !known name.column then refuse .order order.pos else .ok ()
    | _ => refuse .order order.pos

/-- A column is read once however often it is named. -/
def internField (fields : List Name) (name : Name) : List Name :=
  if fields.any fun f => f.column = name.column then fields else fields ++ [name]

def Over.fields (o : Over) : List Name := o.arg.toList ++ o.partition ++ o.order.map fst

variable (table : String) (rows : Expr)

/-- Stored values, and the windows over them. -/
def projection (first : Item) : Lowering Statement := do
  refuseIf (!select.aggregates.isEmpty || !select.stars.isEmpty) .shape first.pos
  refuseIf select.offset.isSome .offset first.pos
  let named := select.columns.map snd ++ select.windowed.flatMap fun w => w.2.fields
  let fields := named.foldl internField []
  orderOk select fun c => select.items.any fun i => i.column = c
  -- an order or a window has to see every record before it knows which ones are shown
  let limit := if select.orderBy.isSome || !select.windowed.isEmpty then none else select.limit
  .ok ⟨[⟨table, .call .project (rows :: fields.map fieldArg ++ (limit.map (intArg "n")).toList)⟩], [], select.items.length⟩

/-- `SELECT *`, whose columns are not known until the table is. -/
def listing (item : Item) : Lowering Statement := do
  refuseIf (!select.aggregates.isEmpty || decide (1 < select.stars.length)) .shape item.pos
  refuseIf select.offset.isSome .offset item.pos
  orderOk select fun _ => true
  let limit := if select.orderBy.isSome then none else select.limit
  .ok ⟨[⟨table, .call .project (rows :: (limit.map (intArg "n")).toList)⟩], [], 0⟩

/-- One number about the whole set; a quantile is a search and not a call. -/
def wholeOf (item : Item) (probes : List Probe) : Asking (Of × List Probe) :=
  match item.leaf with
  | .count => do return (.value (← push table (.call .count [rows])), probes)
  | .agg func field => do return (.value (← push table (.call func.verb [rows, fieldArg field])), probes)
  | .countDistinct field => do return (.groups (← push table (.call .distinct [rows, fieldArg field])), probes)
  | .avg field => do
    let plan ← push table (.call .sum [rows, fieldArg field])
    let count ← push table (.call .count [rows])
    return (.ratio plan count, probes)
  | .topKeys n field => do return (.keys (← push table (.call .topN [rows, fieldArg field, intArg "n" n])), probes)
  | .quantile perMille field => return (.probe probes.length, probes ++ [⟨table, rows, field.column, perMille⟩])
  | .now unixSeconds => return (.now unixSeconds, probes)
  -- sorted into the other buckets
  | _ => throw ⟨.shape, item.pos⟩

/-- The entries of an ungrouped `SELECT`, in order. -/
def wholesOf (table : String) (rows : Expr) : List Item → List Probe → Asking (Measures × List Probe)
  | [], probes => return ([], probes)
  | item :: items, probes => do
    let (of, probes) ← wholeOf table (← rowsOf rows item) item probes
    let (rest, probes) ← wholesOf table rows items probes
    return ((measureOf item, of) :: rest, probes)

/-- No `GROUP BY`: a projection, a listing, or one row of numbers. -/
def ungrouped : Lowering Statement := do
  refuseFound (if select.columns.isEmpty && select.stars.isEmpty then none else select.having) .having Having.pos
  match (select.columns.map fst ++ select.windowed.map fst).head?, select.stars.head? with
  | some first, _ => projection select table rows first
  | none, some item => listing select table rows item
  | none, none => do
    let pos := (select.aggregates.head?.map Item.pos).getD 0
    refuseFound select.orderBy .order Order.pos
    refuseIf (select.limit.isSome || select.offset.isSome) .shape pos
    let ((measures, probes), calls) ← (wholesOf table rows select.aggregates []).run ⟨[], pos⟩
    havingOf select measures
    .ok ⟨calls.out, probes, select.items.length⟩

/-! ## One grouping column -/

def maxBuckets : Nat := 10000

/-- The groups of a column, or of its buckets. -/
def groupCall (group : Grouping) (rows : Expr) (aggregate : Option Expr) : Expr :=
  let aggregate := (aggregate.map (Expr.named "aggregate")).toList
  match group.bucket with
  | none => .call .groupBy ([rows, fieldArg group.name] ++ aggregate)
  | some unit =>
    .call .groupByBucket
      ([rows, fieldArg group.name, .named "unit" (.literal (.str unit.name)), intArg "n" maxBuckets] ++ aggregate)

/-- One entry of a grouped `SELECT`. An average is a sum and a count. -/
def groupOf (group : Grouping) (item : Item) : Asking Of :=
  match item.leaf with
  | .now unixSeconds => return .now unixSeconds
  | .count => do return .group (← push table (groupCall group rows none)) .zero
  | .agg func field => do
    let plan ← push table (groupCall group rows (some (.call func.verb [fieldArg field])))
    return .group plan (match func with
      | .sum => .zero
      | _ => .null)
  | .avg field => do
    let plan ← push table (groupCall group rows (some (.call .sum [fieldArg field])))
    let count ← push table (groupCall group rows none)
    return .ratio plan count
  -- refused before
  | _ => throw ⟨.shape, item.pos⟩

def measuresOf (group : Grouping) : List Item → Asking Measures :=
  measured fun item => do groupOf table (← rowsOf rows item) group item

/-- The entries no grouping has a number for. -/
def refuseAggregates : List Item → Lowering Unit
  | [] => .ok ()
  | item :: items =>
    match item.leaf with
    | .countDistinct _ => refuse .multiDistinct item.pos
    | .topKeys .. | .quantile .. => refuse .shape item.pos
    | _ => refuseAggregates items

/-- Only the grouping column may stand beside the aggregates. -/
def refuseGrouped (group : Grouping) : Lowering Unit := do
  refuseFound select.stars.head? .shape Item.pos
  refuseFound (select.columns.find? fun c => c.2.column ≠ group.name.column || !agrees c.1 group) .shape (·.1.pos)
  refuseAggregates select.aggregates

inductive OrderBy where
  | key
  | value (of : Of)
deriving DecidableEq, Repr

def Item.isColumn (i : Item) : Bool :=
  match i.proj with
  | .column _ => true
  | _ => false

variable (measures : Measures)

/-- The entries with a number, by the name they are shown under. -/
def valueNames : List (String × Of) :=
  ((select.items.filter fun i => !i.isColumn).map Item.column).zip (measures.map snd)

/-- What an `ORDER BY` over groups sorts by; `keys` are the names of the grouping columns. -/
def orderedBy (order : Order) (keys : List String) : Lowering OrderBy :=
  let named := fun a => match names a measures with
    | some of => .ok (.value of)
    | none => refuse .order order.pos
  match order.key with
  | .count => named .count
  | .agg func field => named (.agg func field)
  | .avg field => named (.avg field)
  | .name n =>
    match (valueNames select measures).find? fun v => v.1 = n.column with
    | some (_, of) => .ok (.value of)
    | none => if n.column ∈ keys then .ok .key else refuse .order order.pos

def Of.isGroup : Of → Bool
  | .group .. => true
  | _ => false

/-- Whether the order is a ranking by count, which one call answers. -/
def ranked (group : Grouping) (measures : Measures) : Lowering Bool := do
  match select.orderBy with
  | none => .ok false
  | some order =>
    let keys := (select.items.filter Item.isColumn).map Item.column ++ [group.name.column]
    let single := !select.withTies && group.bucket.isNone && decide (measures.length ≤ 1) &&
      (measures.head?.all fun m => m.1 = .count)
    match ← orderedBy select measures order keys with
    | .value of => .ok (order.desc && single && of.isGroup)
    | .key => .ok false

def maxUsize : Nat := 2 ^ 64

/-- How many groups a ranking is asked for. -/
def planCut : Option Nat :=
  if select.having.isSome || select.withTies then none
  else
    match select.limit, select.offset with
    | some l, some o => if l + o < maxUsize then some (l + o) else none
    | some l, none => some l
    | none, _ => none

def groupKeys (group : Grouping) (rows : Expr) : Expr :=
  match group.bucket with
  | none => .call .distinct [rows, fieldArg group.name]
  | some _ => groupCall group rows none

/-- The measures, and the keys where the measures do not say which groups there are. -/
def groupMeasures (rows : Expr) (group : Grouping) : Asking Measures := do
  let measures ← measuresOf table rows group select.aggregates
  pushIf (measures.isEmpty || select.aggregates.any fun i => i.filter.isSome) table (groupKeys group rows)
  return measures

/-- A ranking is one `TopN`, whatever was pushed before. -/
def grouped (rows : Expr) (group : Grouping) : Lowering Statement := do
  refuseGrouped select group
  let (measures, calls) ← (groupMeasures select table rows group).run ⟨[], select.pos⟩
  havingOf select measures
  if ← ranked select group measures then
    .ok ⟨[⟨table, .call .topN ([rows, fieldArg group.name] ++ ((planCut select).map (intArg "n")).toList)⟩], [],
      select.items.length⟩
  else .ok ⟨calls.out, [], select.items.length⟩

/-! ## Several grouping columns -/

def maxPasses : Nat := 1000

variable (groups : List Grouping) (rows : Expr)

def tupleArgs : List Expr :=
  [rows] ++ (groups.map fun g => Expr.named "by" (match g.bucket with
    | none => .ident g.name.column
    | some unit =>
      .call .bucket [fieldArg g.name, .named "unit" (.literal (.str unit.name)), intArg "n" maxBuckets])) ++
    [intArg "n" maxPasses]

/-- Unlike the other groupings this looks at the entry itself, so an expression around one is refused. -/
def tupleOf (groups : List Grouping) (item : Item) : Asking Of :=
  match item.proj with
  | .count => do return .group (← push table (.call .groupByTuple (tupleArgs groups rows))) .zero
  | .agg func field => do
    let aggregate := Expr.named "aggregate" (.call func.verb [fieldArg field])
    let plan ← push table (.call .groupByTuple (tupleArgs groups rows ++ [aggregate]))
    return .group plan (match func with
      | .sum => .zero
      | _ => .null)
  | _ => throw ⟨.shape, item.pos⟩

def tupleMeasures (groups : List Grouping) : List Item → Asking Measures :=
  measured fun item => do tupleOf table (← rowsOf rows item) groups item

/-- A grouping column written twice. -/
def repeats : List Grouping → Bool
  | [] => false
  | g :: gs => (gs.any fun g' => g'.name.column = g.name.column) || repeats gs

/-- A column of the select list that is not one of the grouping columns as written. -/
def strayColumn : Option Item :=
  (select.columns.find? fun c => match groups.find? fun g => g.name.column = c.2.column with
    | some g => !agrees c.1 g
    | none => true).map fst

def tuplesOrder (measures : Measures) : Lowering Unit := do
  match select.orderBy with
  | none => .ok ()
  | some order =>
    match order.key with
    | .avg _ => refuse .order order.pos
    | _ => let _ ← orderedBy select measures order (groups.map fun g => g.name.column)

def tuplesHaving : Lowering Unit :=
  match select.having with
  | none => .ok ()
  | some h =>
    let number := fun a pos => match names a measures with
      | some of => .ok of
      | none => refuse .having pos
    havingTree number (fun a _ => .ok a.field) h

def tuplesMeasures (groups : List Grouping) : Asking Measures := do
  let measures ← tupleMeasures table rows groups select.aggregates
  pushIf measures.isEmpty table (.call .groupByTuple (tupleArgs groups rows))
  return measures

def tuples (groups : List Grouping) : Lowering Statement := do
  refuseFound select.stars.head? .shape Item.pos
  refuseIf (repeats groups) .shape select.pos
  refuseFound (strayColumn select groups) .shape Item.pos
  let (measures, calls) ← (tuplesMeasures select table rows groups).run ⟨[], select.pos⟩
  tuplesHaving select measures
  tuplesOrder select groups measures
  .ok ⟨calls.out, [], select.items.length⟩

/-! ## Grouping sets -/

/-- What no grouping set can be asked for. -/
def refuseSets : Lowering Unit := do
  refuseFound select.stars.head? .shape Item.pos
  refuseIf (repeats select.groupBy) .shape ((select.groupBy.head?.map Grouping.pos).getD 0)
  refuseFound (strayColumn select select.groupBy) .shape Item.pos
  refuseAggregates select.aggregates
  refuseFound select.orderBy .rollupOrder Order.pos
  refuseIf (select.limit.isSome || select.offset.isSome || select.withTies) .rollupOrder select.pos

/-- The whole set, as one row. The entries that are not one call each were refused above. -/
def wholeSet : List Item → Asking Measures :=
  measured fun item => do
    let (of, _) ← wholeOf table (← rowsOf rows item) item []
    return of

/-- A set of no, one or several columns. -/
def setMeasures : List Grouping → Asking Measures
  | [] => wholeSet table rows select.aggregates
  | [one] => groupMeasures select table rows one
  | many => tuplesMeasures select table rows many

def branch (held : List Grouping) : Asking Unit := do
  havingOf select (← setMeasures select table rows held)

def branches (select : Select) (table : String) (rows : Expr) : List (List Nat) → Asking Unit
  | [] => return ()
  | set :: sets => do
    branch select table rows (set.filterMap (select.groupBy[·]?))
    branches select table rows sets

def groupingSets (sets : GroupingSets) : Lowering Statement := do
  refuseSets select
  let (_, calls) ← (branches select table rows sets.of).run ⟨[], select.pos⟩
  .ok ⟨calls.out, [], if sets.of.isEmpty then 0 else select.items.length⟩

/-! ## Joins -/

def Select.sources (s : Select) : List Source := s.source :: s.joins.map Join.source

/-- The source a qualified name is of. -/
def sideOf (sources : List Source) (name : Name) (pos : Nat) : Lowering Nat :=
  match name.qualifier.bind fun q => sources.findIdx? fun s => s.label = q with
  | some side => .ok side
  | none => refuse .ambiguous pos

def tableAt (sources : List Source) (side : Nat) : String := ((sources[side]?).map Source.qualified).getD ""

/-- A label names one source. -/
def distinctLabels : Lowering Unit :=
  let labels := select.sources.map Source.label
  match (List.range labels.length).find? fun i => labels[i]? ∈ (labels.take i).map some with
  | some i => refuse .ambiguous (((select.joins[i - 1]?).map Join.pos).getD 0)
  | none => .ok ()

/-- Inner, left and right joins may be mixed, full ones only with each other. -/
def requiredSides (joins : List Join) : Lowering Unit :=
  let fulls := joins.filter fun j => j.kind = .full
  if !fulls.isEmpty && fulls.length ≠ joins.length then
    refuse .outerJoin (((joins.find? fun j => j.kind ≠ .full).map Join.pos).getD 0)
  else .ok ()

/-- Notes which column a table is joined by; it is the same one in every join. -/
def keySide (keys : List (Option Name)) (side : Nat) (name : Name) (pos : Nat) : Lowering (List (Option Name)) :=
  match (keys[side]?).join with
  | none => .ok (keys.set side (some name))
  | some k => if k.column = name.column then .ok keys else refuse .joins pos

/-- The side of an `ON` that was there before the table it brings in. -/
def knownSide (l r new pos : Nat) : Lowering Nat :=
  match decide (l = new), decide (r = new) with
  | true, false => .ok r
  | false, true => .ok l
  | _, _ => refuse .joinOn pos

/-- Every join ties the table it brings in to one before it. -/
def starKeys (sources : List Source) : List Join → Nat → List (Option Name) → Lowering (List (Option Name))
  | [], _, keys => .ok keys
  | join :: joins, new, keys => do
    let l ← sideOf sources join.left join.pos
    let r ← sideOf sources join.right join.pos
    let known ← knownSide l r new join.pos
    refuseIf (decide (new ≤ known)) .joinOn join.pos
    let keys ← keySide keys l join.left join.pos
    let keys ← keySide keys r join.right join.pos
    starKeys sources joins (new + 1) keys

/-- The sources a condition is about. -/
def touches (sources : List Source) (pos : Nat) : Cond → Lowering (List Nat)
  | .and a b => do return (← touches sources pos a) ++ (← touches sources pos b)
  | .or a b => do return (← touches sources pos a) ++ (← touches sources pos b)
  | .not a => touches sources pos a
  | .segment _ segmentPos => refuse .segment segmentPos
  | .cmp field _ _ => do return [← sideOf sources field pos]
  | .inList field _ => do return [← sideOf sources field pos]
  | .inRecords field _ _ _ => do return [← sideOf sources field pos]
  | .like field _ _ => do return [← sideOf sources field pos]
  | .between field _ _ => do return [← sideOf sources field pos]
  | .rounded field _ _ _ => do return [← sideOf sources field pos]

def both : Option Cond → Option Cond → Option Cond
  | some a, some b => some (.and a b)
  | some a, none => some a
  | none, b => b

/-- A condition on the one side it is about. -/
def placeCond (pos n : Nat) (cond : Cond) (sides : List Nat) : Lowering (List (Option Cond)) :=
  match sides.dedup with
  | [side] => .ok ((List.replicate n none).set side (some cond))
  | _ => refuse .joinFilter pos

/-- A `WHERE` over several tables, as a condition on each. -/
def splitCond (sources : List Source) (pos n : Nat) : Cond → Lowering (List (Option Cond))
  | .and a b => do return List.zipWith both (← splitCond sources pos n a) (← splitCond sources pos n b)
  | cond => do placeCond pos n cond (← touches sources pos cond)

/-- The `WHERE` of a join, as a condition on each source. -/
def splitFilter : Lowering (List (Option Cond)) :=
  match select.filter with
  | none => .ok (List.replicate select.sources.length none)
  | some cond => splitCond select.sources 0 select.sources.length cond

end Select

/-- What each side of a join is asked with. -/
structure Sides where
  sources : List Source
  keys : List Name
  rows : List Expr
  counts : List Nat

namespace Sides
variable (s : Sides)

def key (side : Nat) : Name := (s.keys[side]?).getD ⟨none, ""⟩
def rowsAt (side : Nat) : Expr := (s.rows[side]?).getD (.call .all [])

def aggregate (side : Nat) (func : Agg) (field : Name) : Expr :=
  .call .groupBy [s.rowsAt side, fieldArg (s.key side), .named "aggregate" (.call func.verb [fieldArg field])]

/-- One entry over a join: a number of one side, paired with the counts of the others. -/
def cell (item : Item) (perKey : Bool) : Asking Of := do
  refuseIf item.filter.isSome .joinShape item.pos
  match item.leaf with
  | .now unixSeconds => return .now unixSeconds
  | .count => return .paired ((s.counts[0]?).getD 0) 0 .product
  | .agg func field =>
    let side ← sideOf s.sources field item.pos
    let plan ← push (tableAt s.sources side) (s.aggregate side func field)
    return .paired plan side (match func with
      | .sum => .product
      | .min => .least
      | .max => .greatest)
  | .countDistinct field =>
    let side ← sideOf s.sources field item.pos
    refuseIf (field.column ≠ (s.key side).column || perKey) .joinShape item.pos
    return .sharedKeys
  | .avg field =>
    let side ← sideOf s.sources field item.pos
    let top ← push (tableAt s.sources side) (s.aggregate side .sum field)
    return .pairedRatio top ((s.counts[side]?).getD 0) side
  | _ => throw ⟨.joinShape, item.pos⟩

def cells (perKey : Bool) : List Item → Asking Measures := measured fun item => s.cell item perKey

def checkColumns (perKey : Bool) : List (Item × Name) → Lowering Unit
  | [] => .ok ()
  | (item, name) :: rest => do
    let side ← sideOf s.sources name item.pos
    refuseIf (!perKey || name.column ≠ (s.key side).column) .joinShape item.pos
    checkColumns perKey rest

/-- Whether the answer is per key. -/
def grouping (select : Select) : Lowering Bool := do
  let perKey ← match select.groupBy with
    | [] => .ok false
    | [g] => do
      refuseIf g.bucket.isSome .joinShape select.pos
      let side ← sideOf s.sources g.name select.pos
      refuseIf (g.name.column ≠ (s.key side).column) .joinShape select.pos
      .ok true
    | _ => refuse .joinShape select.pos
  s.checkColumns perKey select.columns
  .ok perKey

end Sides

/-- The counts of each key, one call a side. -/
def countSides (sources : List Source) (rows : List Expr) : List Name → Nat → Asking (List Nat)
  | [], _ => return []
  | key :: keys, side => do
    let plan ← push (tableAt sources side) (.call .distinct [(rows[side]?).getD (.call .all []), fieldArg key])
    return plan :: (← countSides sources rows keys (side + 1))

def fieldMeasured : Proj → Option Name
  | .agg _ field => some field
  | .avg field => some field
  | .quantile _ field => some field
  | .scalar inner _ _ => fieldMeasured inner
  | _ => none

def joinUnits (sources : List Source) : List Item → Lowering Unit
  | [] => .ok ()
  | item :: items => do
    match fieldMeasured item.proj with
    | some field => let _ ← sideOf sources field item.pos
    | none => pure ()
    joinUnits sources items

variable (select : Select)

def joinHaving (measures : Measures) (perKey : Bool) : Lowering Unit :=
  match select.having with
  | none => .ok ()
  | some h =>
    if !perKey then refuse .having h.pos
    else
      let number := fun a pos =>
        match names a measures with
        | some of => if of.isPairedRatio then refuse .having pos else .ok of
        | none => refuse .having pos
      let field := fun (a : HavingAgg) pos =>
        match a.field with
        | none => .ok none
        | some f => do
          let _ ← sideOf select.sources f pos
          .ok (some f)
      havingTree number field h

def joinOrder (keys : List Name) (measures : Measures) (perKey : Bool) : Lowering Unit := do
  match select.orderBy with
  | none => .ok ()
  | some order =>
    refuseIf (!perKey) .order order.pos
    let _ ← orderedBy select measures order (keys.map Name.column)

def joinMeasures (keys : List Name) (rows : List Expr) : Asking (Measures × Bool) := do
  let counts ← countSides select.sources rows keys 0
  let sides : Sides := ⟨select.sources, keys, rows, counts⟩
  let perKey ← sides.grouping select
  return (← sides.cells perKey select.aggregates, perKey)

/-- The records a filter selects, if there is one. -/
def filterRows : Option Cond → Lowering Expr
  | some cond => Sql.rows cond
  | none => .ok (.call .all [])

/-- An equality join of any number of tables. -/
def joined : Lowering Statement := do
  distinctLabels select
  refuseFound select.stars.head? .joinShape Item.pos
  let sources := select.sources
  refuseIf (decide (maxCalls < sources.length)) .tooManyCalls select.pos
  let keys ← starKeys sources select.joins 1 (List.replicate sources.length none)
  let keys := keys.map fun k => k.getD ⟨none, ""⟩
  let conds ← splitFilter select
  let rows ← conds.mapM filterRows
  requiredSides select.joins
  let ((measures, perKey), calls) ← (joinMeasures select keys rows).run ⟨[], select.pos⟩
  joinUnits sources select.items
  joinHaving select measures perKey
  joinOrder select keys measures perKey
  refuseIf (!perKey && (select.limit.isSome || select.offset.isSome)) .shape select.pos
  .ok ⟨calls.out, [], select.items.length⟩

/-! ## Joins on a record id -/

/-- The column of an earlier source that holds the record ids of the one a join brings in. -/
def recordKey (sources : List Source) (join : Join) (new : Nat) : Option Name :=
  let isId := fun (n : Name) =>
    decide (n.column = recordColumn) && decide (n.qualifier = (sources[new]?).map Source.label)
  let outer := fun (n : Name) =>
    match sideOf sources n join.pos with
    | .ok side => if side < new ∧ n.column ≠ recordColumn then some n else none
    | .error _ => none
  match isId join.left, isId join.right with
  | true, false => outer join.right
  | false, true => outer join.left
  | _, _ => none

def Proj.names : Proj → List Name
  | .column n => [n]
  | .countDistinct n => [n]
  | .avg n => [n]
  | .agg _ field => [field]
  | .quantile _ field => [field]
  | .topKeys _ field => [field]
  | .scalar inner _ _ => inner.names
  | _ => []

def HavingOperand.names : HavingOperand → List Name
  | .agg a => a.field.toList
  | .value _ => []

def Having.names : Having → List (Name × Nat)
  | .and a b => a.names ++ b.names
  | .or a b => a.names ++ b.names
  | .not a => a.names
  | .cmp left _ right pos => (left.names ++ right.names).map fun n => (n, pos)

def OrderKey.names : OrderKey → List Name
  | .count => []
  | .agg _ field => [field]
  | .avg field => [field]
  | .name n => [n]

/-- Every name outside the `WHERE`. -/
def namesOutside : List (Name × Nat) :=
  (select.items.flatMap fun i => i.proj.names.map fun n => (n, i.pos)) ++
    (select.groupBy.map fun g => (g.name, g.pos)) ++
    (match select.orderBy with
      | some order => order.key.names.map fun n => (n, order.pos)
      | none => []) ++
    (match select.having with
      | some h => h.names
      | none => [])

/-- Turns the joins on a record id into terms; a left join nothing is asked of is dropped. -/
def foldTerms (joins : List Join) :
    List (Nat × Name) → List (Option Cond) → Option Cond → Lowering (List (Option Cond) × Option Cond)
  | [], conds, extra => .ok (conds, extra)
  | (n, field) :: rest, conds, extra => do
    match joins[n]? with
    | none => foldTerms joins rest conds extra
    | some join =>
      let cond := (conds[n + 1]?).join
      refuseIf (decide (join.kind = .right) || decide (join.kind = .full)) .outerJoin join.pos
      if join.kind = .left && cond.isNone then foldTerms joins rest conds extra
      else
        let term := Cond.inRecords field join.source cond join.pos
        foldTerms joins rest (conds.set (n + 1) none) (both extra (some term))

/-- A join on a record id is a term of the `WHERE`; what is left has no join. -/
def foldRecordJoins : Lowering (Option Select) := do
  let sources := select.sources
  let folded := (select.joins.zipIdx.filterMap fun j => (recordKey sources j.1 (j.2 + 1)).map fun f => (j.2, f))
  if folded.isEmpty then .ok none
  else
    distinctLabels select
    let (conds, extra) ← foldTerms select.joins folded (← splitFilter select) none
    let labels := folded.filterMap fun f => (select.joins[f.1]?).map fun j => j.source.label
    refuseFound
      (labels.filterMap fun label => (namesOutside select).find? fun n => n.1.qualifier = some label).head? .joinShape
      snd
    refuseFound (select.joins.zipIdx.find? fun j => !folded.any fun f => f.1 = j.2) .joins (·.1.pos)
    let rest := conds.foldl (fun acc c => match c with
      | some c => both acc (some c)
      | none => acc) none
    .ok (some { select with joins := [], filter := both rest extra })

/-! ## One `SELECT`, and several -/

/-- A window is over rows, not over groups or pairs. -/
def refuseWindows : Lowering Unit :=
  match select.windowed.head? with
  | some (item, _) =>
    if !select.joins.isEmpty || !select.groupBy.isEmpty || !select.stars.isEmpty then refuse .window item.pos
    else .ok ()
  | none => .ok ()

def checkSegments : Lowering Unit :=
  match select.filter with
  | some cond => noSegments cond
  | none => .ok ()

/-- The records a statement is about. -/
def Select.rows (select : Select) : Lowering Expr := do
  let rows ← filterRows select.filter
  match select.sample with
  | none => return rows
  | some stride => return .call .sample [rows, intArg "stride" stride]

/-- A `SELECT` with no join on a record id left. -/
def lowerFolded : Lowering Statement := do
  let rows ← select.rows
  refuseWindows select
  if !select.joins.isEmpty then joined select
  else
    let table := select.source.qualified
    match select.groupingSets with
    | some sets => groupingSets select table rows sets
    | none =>
      match select.groupBy with
      | [] => ungrouped select table rows
      | [one] => grouped select table rows one
      | many => tuples select table rows many

/-- Joins on a record id are folded once, and the folded `WHERE` is checked again. -/
def lowerOne : Lowering Statement := do
  checkSegments select
  match ← foldRecordJoins select with
  | some folded => do
    checkSegments folded
    lowerFolded folded
  | none => lowerFolded select

/-- The branches from some point on; every one is as wide as the first. -/
def unionFrom (pos : Nat) : List Select → Statement → Option Nat → Lowering Statement
  | [], acc, _ => .ok acc
  | select :: rest, acc, width => do
    let one ← lowerOne select
    refuseIf (width.any (· ≠ one.columns)) .union select.pos
    refuseIf (decide (maxCalls < acc.calls.length + one.calls.length)) .tooManyCalls pos
    unionFrom pos rest ⟨acc.calls ++ one.calls, acc.probes ++ one.probes, width.getD one.columns⟩
      (some (width.getD one.columns))

def union (query : Query) : Lowering Statement :=
  unionFrom ((query.branches.head?.map Select.pos).getD 0) query.branches ⟨[], [], 0⟩ none

def lower (query : Query) : Lowering Statement :=
  match query.branches with
  | [only] => lowerOne only
  | _ => union query

end BigDb.Sql
