import Mathlib.Data.Sum.Order
import Dpone.Partitioning.RangePartitioner
import Dpone.Schemes.Numeral

/-! The statistics-aware planner of `runtime/snapshot_partition_planner.py`: the steps of a source
    histogram become ranges of the boundary column. Row estimates and numeric keys are finite
    numbers, and Python's float arithmetic on them is rational arithmetic rounded after every
    operation; a sum or quotient past the largest float is an `OverflowError`. -/

namespace Dpone.Partitioning
open Dpone.Schemes

/-- A boundary key: an `int` or `float` and which of the two it is, or a value of another type. -/
inductive StepKey (α : Type) where
  | number (value : ℚ) (integral : Bool)
  | other (value : α)
  deriving DecidableEq

/-- The values of the boundary column, numbers below the others. -/
abbrev ColumnValue (α : Type) := Lex (ℚ ⊕ α)

/-- The value that a key names. -/
def StepKey.rank {α : Type} : StepKey α → ColumnValue α
  | .number value _ => toLex (.inl value)
  | .other value => toLex (.inr value)

structure HistogramStep (α : Type) where
  rangeHiKey : StepKey α
  equalRows : ℚ
  rangeRows : ℚ
  lowerKey : Option (StepKey α) := none
  deriving DecidableEq

inductive Confidence where
  | high
  | other (text : String)
  deriving DecidableEq

structure SourceStatistic (α : Type) where
  column : String
  totalRows : ℤ
  steps : List (HistogramStep α)
  nullRows : ℕ := 0
  confidence : Confidence := .other "low"
  sourceIsView : Bool := false
  deriving DecidableEq

inductive SkewPolicy where
  | splitHotRanges
  | failFast
  | other (text : String)
  deriving DecidableEq

structure PlannerPolicy where
  skewPolicy : SkewPolicy := .splitHotRanges
  maxHotPartitionFactor : ℚ := 2
  minPartitionRows : ℤ := 50000
  targetRows : Option ℤ := none
  maxPartitions : ℕ := 16
  separateNulls : Bool := true
  deriving DecidableEq

inductive PartitionKind where
  | null
  | range
  deriving DecidableEq

structure SnapshotPartition (α : Type) where
  partitionId : Str
  kind : PartitionKind
  column : String
  lowerBound : Option (StepKey α)
  upperBound : Option (StepKey α)
  estimatedRows : ℤ
  includeLower : Bool := true
  includeUpper : Bool := false
  deriving DecidableEq

structure SnapshotPartitionPlan (α : Type) where
  planner : String
  boundaryColumn : String
  statsConfidence : Confidence
  partitions : List (SnapshotPartition α)
  maxParallelExports : ℕ
  warnings : List String
  deriving DecidableEq

variable {α : Type}

/-- `HistogramStep.estimated_rows`. -/
def HistogramStep.estimatedRows (step : HistogramStep α) : Except PyError ℚ := do
  let equal ← floatResult step.equalRows
  let range ← floatResult step.rangeRows
  let sum ← floatResult (equal + range)
  return max 0 sum

/-- `_base_warnings`. -/
def baseWarnings (statistic : SourceStatistic α) : List String :=
  if statistic.sourceIsView then ["source_stats_view_route"] else []

/-- `_null_partition`. -/
def nullPartition (statistic : SourceStatistic α) (policy : PlannerPolicy) :
    List (SnapshotPartition α) :=
  if statistic.nullRows = 0 ∨ ¬ policy.separateNulls then []
  else
    [{ partitionId := "null".toList, kind := .null, column := statistic.column, lowerBound := none,
       upperBound := none, estimatedRows := statistic.nullRows }]

/-- `f"range_{index:04d}"`. -/
def rangeId (index : ℕ) : Str :=
  "range_".toList ++ numeral 10 (max 4 (Nat.log 10 index + 1)) index

/-- `_partition`. -/
def rangePartition (column : String) (index : ℕ) (lower : Option (StepKey α)) (upper : StepKey α)
    (rows : ℤ) : SnapshotPartition α :=
  { partitionId := rangeId index, kind := .range, column := column, lowerBound := lower,
    upperBound := some upper, estimatedRows := max 0 rows }

/-- `_target_rows`. -/
def targetRowsOf (statistic : SourceStatistic α) (policy : PlannerPolicy) : Except PyError ℤ :=
  match policy.targetRows with
  | some (.ofNat (n + 1)) => .ok (n + 1)
  | some (.negSucc _) => .ok 1
  | _ => do
    let nonNullRows := max 1 (statistic.totalRows - statistic.nullRows)
    let quotient ← trueDiv nonNullRows (max 1 policy.maxPartitions)
    return max policy.minPartitionRows ⌈quotient⌉

/-- `_can_split`, with the two numbers of a step that can be. -/
def splitBounds (step : HistogramStep α) : Option ((ℚ × Bool) × (ℚ × Bool)) :=
  match step.lowerKey, step.rangeHiKey with
  | some (.number lower lowerInt), .number upper upperInt =>
    if lower < upper then some ((lower, lowerInt), (upper, upperInt)) else none
  | _, _ => none

/-- `_normalize_number`: the number stays what it is. -/
def normalizeNumber (value : ℚ) (integral : Bool) : StepKey α :=
  .number value (integral || value.isInt)

/-- `upper - lower`, exact for two integers. -/
def keySpan (lower upper : ℚ × Bool) : Except PyError ℚ := do
  if lower.2 && upper.2 then return upper.1 - lower.1
  else
    let low ← floatResult lower.1
    let high ← floatResult upper.1
    floatResult (high - low)

/-- `lower + index * width`. -/
def cutPoint (lower : ℚ × Bool) (width : ℚ) (index : ℕ) : Except PyError ℚ := do
  let low ← floatResult lower.1
  let distance ← floatResult (index * width)
  floatResult (low + distance)

/-- The end of a part: the last one ends at the upper key itself. -/
def partUpper (lower upper : ℚ × Bool) (count : ℕ) (width : ℚ) (index : ℕ) :
    Except PyError (StepKey α) :=
  if index = count - 1 then .ok (normalizeNumber upper.1 upper.2)
  else (cutPoint lower width (index + 1)).map (normalizeNumber · false)

/-- One turn of the loop of `_split_hot_step`. -/
def splitPart (column : String) (lower upper : ℚ × Bool) (stepRows : ℤ) (count : ℕ) (width : ℚ)
    (index : ℕ) : Except PyError (SnapshotPartition α) := do
  let partLower ← cutPoint lower width index
  let partUpper ← partUpper lower upper count width index
  return rangePartition column index (some (normalizeNumber partLower false)) partUpper
    (stepRows / count)

/-- The number of parts that a hot step is split into. -/
def splitCount (stepRows targetRows : ℤ) (remaining : ℕ) : Except PyError ℕ := do
  let quotient ← trueDiv stepRows (max 1 targetRows)
  return max 1 (min remaining ⌈quotient⌉.toNat)

/-- `_split_hot_step`. -/
def splitHotStep (column : String) (lower upper : ℚ × Bool) (stepRows targetRows : ℤ)
    (remaining : ℕ) : Except PyError (List (SnapshotPartition α)) := do
  let count ← splitCount stepRows targetRows remaining
  let span ← keySpan lower upper
  let width ← floatResult (span / count)
  (List.range count).mapM (splitPart column lower upper stepRows count width)

/-- Whether a step has more rows than a partition may have. -/
def isHot (policy : PlannerPolicy) (stepRows targetRows : ℤ) : Except PyError Bool := do
  let target ← floatResult targetRows
  return roundSig 2 53 (target * policy.maxHotPartitionFactor) < stepRows

/-- The partitions and warnings of one step, after `made` partitions. -/
def stepPartitions (column : String) (policy : PlannerPolicy) (targetRows : ℤ) (remaining made : ℕ)
    (step : HistogramStep α) : Except PyError (List (SnapshotPartition α) × List String) := do
  let estimated ← step.estimatedRows
  let stepRows := ⌈estimated⌉
  let hot ← isHot policy stepRows targetRows
  match hot && policy.skewPolicy = .splitHotRanges, splitBounds step with
  | true, some (lower, upper) =>
    let parts ← splitHotStep column lower upper stepRows targetRows (remaining - made)
    return (parts, ["snapshot_hot_range_split"])
  | _, _ =>
    return ([rangePartition column made step.lowerKey step.rangeHiKey stepRows],
      if hot && policy.skewPolicy = .failFast then ["snapshot_hot_range_blocked"] else [])

/-- The loop of `_range_partitions`, which stops as soon as enough partitions were made. -/
def rangeLoop (column : String) (policy : PlannerPolicy) (targetRows : ℤ) (remaining : ℕ) :
    List (HistogramStep α) → List (SnapshotPartition α) × List String →
      Except PyError (List (SnapshotPartition α) × List String)
  | [], done => .ok done
  | step :: steps, done =>
    if remaining ≤ done.1.length then .ok done
    else do
      let next ← stepPartitions column policy targetRows remaining done.1.length step
      rangeLoop column policy targetRows remaining steps (done.1 ++ next.1, done.2 ++ next.2)

/-- `SnapshotPartitionPlanner.plan`. -/
def snapshotPlan (statistic : SourceStatistic α) (policy : PlannerPolicy) :
    Except PyError (SnapshotPartitionPlan α) := do
  let warnings := baseWarnings statistic
  if statistic.confidence ≠ .high ∨ statistic.steps.isEmpty then
    return { planner := "statistics", boundaryColumn := statistic.column,
             statsConfidence := statistic.confidence, partitions := nullPartition statistic policy,
             maxParallelExports := 1, warnings := warnings ++ ["source_stats_low_confidence"] }
  else
    let targetRows ← targetRowsOf statistic policy
    let nulls := nullPartition statistic policy
    let remaining := max 1 (policy.maxPartitions - nulls.length)
    let ranges ← rangeLoop statistic.column policy targetRows remaining statistic.steps ([], [])
    let partitions := nulls ++ ranges.1
    return { planner := "statistics", boundaryColumn := statistic.column,
             statsConfidence := statistic.confidence, partitions := partitions,
             maxParallelExports := max 1 (min partitions.length policy.maxPartitions),
             warnings := (warnings ++ ranges.2).eraseDups }

end Dpone.Partitioning
