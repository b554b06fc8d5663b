import Dpone.Schemes.Python
import Dpone.Schemes.Rounding

/-! Range partition planning and the predicates of the planned partitions.

    A partition column holds integers, decimals, dates or timestamps. Integers and dates are the
    integers and day numbers they are, timestamps are microseconds, decimals are rationals; Python's
    float and decimal arithmetic is rational arithmetic rounded after every operation. A predicate
    is kept as the condition that the rendered text denotes. -/

namespace Dpone.Partitioning
open Dpone.Schemes

inductive ValueKind where
  | int | decimal | date | datetime
  deriving DecidableEq, Repr

/-- The last day of the calendar, 9999-12-31. -/
def maxOrdinal : ℤ := 3652059

def microsecondsPerDay : ℤ := 86400000000

abbrev ValueKind.Value : ValueKind → Type
  | .int => ℤ
  | .decimal => ℚ
  | .date => ℤ
  | .datetime => ℤ

instance : ∀ kind : ValueKind, LinearOrder kind.Value
  | .int => Int.instLinearOrder
  | .decimal => inferInstanceAs (LinearOrder ℚ)
  | .date => Int.instLinearOrder
  | .datetime => Int.instLinearOrder

/-- The place of a value on the column's axis: its number, its day, its microsecond. -/
def ValueKind.place : (kind : ValueKind) → kind.Value → ℚ
  | .int, n => (n : ℤ)
  | .decimal, q => q
  | .date, day => (day : ℤ)
  | .datetime, us => (us : ℤ)

structure RangePartition (kind : ValueKind) where
  index : ℕ
  lowerBound : Option kind.Value
  upperBound : Option kind.Value
  includeLower : Bool := true
  includeUpper : Bool := false
  isNullPartition : Bool := false
  includeNulls : Bool := false
  scale : Option ℤ

inductive BoundsRole where
  | filter | stride
  deriving DecidableEq, Repr

inductive NullBucket where
  | separate | includeFirst | fail
  deriving DecidableEq, Repr

structure RangePartitioner (kind : ValueKind) where
  column : String
  lowerBound : kind.Value
  upperBound : kind.Value
  numPartitions : ℕ
  boundsRole : BoundsRole := .filter
  nullBucket : NullBucket := .separate
  scale : Option ℤ := none
  nullCount : Option ℕ := none
  explicitPartitions : List (RangePartition kind) := []

/-! Python arithmetic. -/

/-- The decimal context: 28 digits. -/
def decimalContext (x : ℚ) : ℚ := roundSig 10 28 x

/-- A finite binary64 result. -/
def floatResult (x : ℚ) : Except PyError ℚ :=
  let rounded := roundSig 2 53 x
  if (2 : ℚ) ^ 1024 ≤ |rounded| then .error .overflowError else .ok rounded

/-- `m / n` of two integers. -/
def trueDiv (m n : ℤ) : Except PyError ℚ := floatResult (m / n)

/-! The step of each kind, and moving a bound by it. -/

section Steps
variable (lower upper : ℤ) (numPartitions : ℕ)

/-- `max(1, math.ceil(span / num_partitions))`, for an integer or day span. -/
def intStep : Except PyError ℤ := do
  let quotient ← trueDiv (upper - lower) numPartitions
  .ok (max 1 ⌈quotient⌉)

def decimalStep (lower upper : ℚ) (numPartitions : ℕ) : ℤ :=
  max 1 ⌈decimalContext (decimalContext (upper - lower) / numPartitions)⌉

/-- `span.total_seconds()`, then microseconds again through a float. -/
def datetimeStep : Except PyError ℤ := do
  let totalSeconds ← trueDiv (upper - lower) 1000000
  let total ← floatResult (totalSeconds * 1000000)
  let quotient ← trueDiv (max 1 ⌈total⌉) numPartitions
  .ok (max 1 ⌈quotient⌉)

end Steps

/-- Adding a `timedelta` leaves the calendar with an exception. -/
def addWithin (bound value step : ℤ) : Except PyError ℤ := do
  raiseIf (bound < value + step) .overflowError
  .ok (value + step)

section Planning
variable {kind : ValueKind}

/-- The loop of `_core_partitions`, `_date_partitions` and `_datetime_partitions`: `advance` adds
    the step; the two temporal loops also stop early, at the partition that reaches the upper
    bound. -/
def planLoop (p : RangePartitioner kind) (stopsEarly : Bool)
    (advance : kind.Value → Except PyError kind.Value) :
    ℕ → ℕ → kind.Value → Except PyError (List (RangePartition kind))
  | 0, _, _ => .ok []
  | rest + 1, index, lower => do
    let next ← advance lower
    let upper := min p.upperBound next
    let includeUpper : Bool := index = p.numPartitions - 1 ∨ (stopsEarly ∧ p.upperBound ≤ upper)
    let partition : RangePartition kind :=
      { index := index, lowerBound := some lower
        upperBound := some (if includeUpper then p.upperBound else upper)
        includeUpper := includeUpper, scale := p.scale }
    if includeUpper then .ok [partition]
    else do
      let later ← planLoop p stopsEarly advance rest (index + 1) upper
      .ok (partition :: later)

end Planning

def corePartitions : (kind : ValueKind) → RangePartitioner kind →
    Except PyError (List (RangePartition kind))
  | .int, p => do
    let step ← intStep p.lowerBound p.upperBound p.numPartitions
    planLoop p false (fun lower => .ok ((lower : ℤ) + step)) p.numPartitions 0 p.lowerBound
  | .decimal, p =>
    let step := decimalStep p.lowerBound p.upperBound p.numPartitions
    planLoop p false (fun lower => .ok (decimalContext ((lower : ℚ) + step)))
      p.numPartitions 0 p.lowerBound
  | .date, p => do
    let step ← intStep p.lowerBound p.upperBound p.numPartitions
    planLoop p true (fun lower => addWithin maxOrdinal lower step) p.numPartitions 0 p.lowerBound
  | .datetime, p => do
    let step ← datetimeStep p.lowerBound p.upperBound p.numPartitions
    planLoop p true (fun lower => addWithin ((maxOrdinal + 1) * microsecondsPerDay - 1) lower step)
      p.numPartitions 0 p.lowerBound

section Edges
variable {kind : ValueKind}

/-- `adjusted[-1]` of `_with_spark_stride_edges`. -/
def openLast : List (RangePartition kind) → List (RangePartition kind)
  | [] => []
  | [p] => [{ p with upperBound := none, includeUpper := false }]
  | p :: ps => p :: openLast ps

def withSparkStrideEdges : List (RangePartition kind) → List (RangePartition kind)
  | [] => []
  | [p] => [{ p with lowerBound := none, upperBound := none, includeUpper := false }]
  | p :: ps => { p with lowerBound := none } :: openLast ps

def withNullPartition (p : RangePartitioner kind) (partitions : List (RangePartition kind)) :
    Except PyError (List (RangePartition kind)) :=
  match p.nullCount with
  | none | some 0 => .ok partitions
  | some (_ + 1) =>
    match p.nullBucket with
    | .fail => .error (.valueError s!"Partition column '{p.column}' contains NULL values.")
    | .includeFirst =>
      match partitions with
      | [] => .error .indexError
      | first :: rest => .ok ({ first with includeNulls := true } :: rest)
    | .separate => .ok
        ({ index := 0, lowerBound := none, upperBound := none, isNullPartition := true
           scale := p.scale } ::
          partitions.map fun q => { q with index := q.index + 1 })

def RangePartitioner.enabled (p : RangePartitioner kind) : Bool :=
  p.column ≠ "" ∧ (1 < p.numPartitions ∨ p.explicitPartitions ≠ [])

def RangePartitioner.partitions (p : RangePartitioner kind) :
    Except PyError (List (RangePartition kind)) :=
  if ¬ p.enabled then .ok []
  else if p.explicitPartitions ≠ [] then .ok p.explicitPartitions
  else do
    let core ← corePartitions kind p
    withNullPartition p (if p.boundsRole = .stride then withSparkStrideEdges core else core)

end Edges

/-! Predicates. -/

inductive Comparison where
  | ge | gt | le | lt
  deriving DecidableEq, Repr

/-- What the renderer writes about the partition column. -/
inductive Condition where
  | isNull
  | compare (op : Comparison) (literal : ℚ)
  | always
  | and (left right : Condition)
  | or (left right : Condition)

def Comparison.holds : Comparison → ℚ → ℚ → Bool
  | .ge, v, x => x ≤ v
  | .gt, v, x => x < v
  | .le, v, x => v ≤ x
  | .lt, v, x => v < x

/-- SQL `AND` on three truth values, `none` for unknown. -/
def sqlAnd : Option Bool → Option Bool → Option Bool
  | some false, _ => some false
  | _, some false => some false
  | some true, some true => some true
  | _, _ => none

/-- SQL `OR` on three truth values. -/
def sqlOr : Option Bool → Option Bool → Option Bool
  | some true, _ => some true
  | _, some true => some true
  | some false, some false => some false
  | _, _ => none

@[simp] theorem sqlAnd_some (a b : Bool) : sqlAnd (some a) (some b) = some (a && b) := by
  cases a <;> cases b <;> rfl

@[simp] theorem sqlOr_some (a b : Bool) : sqlOr (some a) (some b) = some (a || b) := by
  cases a <;> cases b <;> rfl

@[simp] theorem sqlOr_true (a : Option Bool) : sqlOr (some true) a = some true := rfl

@[simp] theorem sqlAnd_none : sqlAnd none none = none := rfl

/-- On a column value or NULL. -/
def Condition.eval (value : Option ℚ) : Condition → Option Bool
  | .isNull => some value.isNone
  | .compare op literal => value.map fun v => op.holds v literal
  | .always => some true
  | .and left right => sqlAnd (left.eval value) (right.eval value)
  | .or left right => sqlOr (left.eval value) (right.eval value)

/-- `format_datetime_literal` keeps this many digits of the second. -/
def literalDigits (scale : Option ℤ) : ℕ := (max 0 (min 7 (scale.getD 6))).toNat

/-- The value that `literal` writes: a timestamp loses the digits beyond the boundary's scale. -/
def literal : (kind : ValueKind) → Option ℤ → kind.Value → ℚ
  | .datetime, scale, us =>
    let unit : ℤ := 10 ^ (6 - literalDigits scale)
    (((us : ℤ) / unit * unit : ℤ) : ℚ)
  | kind, _, value => kind.place value

variable {kind : ValueKind}

def RangePartition.lowerClause (p : RangePartition kind) : Option Condition :=
  p.lowerBound.map fun l => .compare (if p.includeLower then .ge else .gt) (literal kind p.scale l)

def RangePartition.upperClause (p : RangePartition kind) : Option Condition :=
  p.upperBound.map fun u => .compare (if p.includeUpper then .le else .lt) (literal kind p.scale u)

/-- `DefaultPartitionPredicateRenderer.render`. -/
def RangePartition.render (p : RangePartition kind) : Condition :=
  if p.isNullPartition then .isNull
  else
    let predicate := match p.lowerClause, p.upperClause with
      | some lower, some upper => .and lower upper
      | some lower, none => lower
      | none, some upper => upper
      | none, none => .always
    if p.includeNulls then .or .isNull predicate else predicate

/-- The rows a `WHERE` with the partition's predicate keeps. -/
def RangePartition.selects (value : Option ℚ) (p : RangePartition kind) : Bool :=
  p.render.eval value = some true

end Dpone.Partitioning
