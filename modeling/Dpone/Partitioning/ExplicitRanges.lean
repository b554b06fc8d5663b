import Dpone.Partitioning.Bounds

/-! Explicit ranges: `RangePartitioner._from_explicit_ranges` and `validate_explicit_coverage`.

    The options are those that the options resolver hands over, so that every range is a mapping and
    the choices are among those it knows. -/

namespace Dpone.Partitioning
open Dpone.Schemes

/-- One item of `ranges`; its flags are the truth values of what is declared. -/
structure RangeItem where
  null : Bool := false
  lower : Option BoundValue
  upper : Option BoundValue
  includeLower : Bool := true
  includeUpper : Bool := false

inductive GapPolicy where
  | reject | allowExplicit
  deriving DecidableEq

/-- The options that explicit ranges are planned with. -/
structure PartitioningOptions where
  column : Str
  strategy : Str
  ranges : List RangeItem
  boundaryType : Str
  boundsRole : BoundsRole
  nullBucket : NullBucket
  gapPolicy : GapPolicy
  exportWorkers : ℕ
  loadWorkers : ℕ
  warnings : List Str

/-- A `RangePartition` whose bounds are of any family. -/
structure ExplicitPartition where
  index : ℕ
  lowerBound : Option PartitionBound
  upperBound : Option PartitionBound
  includeLower : Bool := true
  includeUpper : Bool := false
  isNullPartition : Bool := false
  includeNulls : Bool := false

/-- A partition of two bounds, as the loop makes it. -/
structure ExplicitRange where
  lower : PartitionBound
  upper : PartitionBound
  includeLower : Bool
  includeUpper : Bool

def ExplicitRange.partition (r : ExplicitRange) (index : ℕ) (includeNulls : Bool) :
    ExplicitPartition where
  index := index
  lowerBound := some r.lower
  upperBound := some r.upper
  includeLower := r.includeLower
  includeUpper := r.includeUpper
  includeNulls := includeNulls

/-- The `RangePartitioner` of explicit ranges. -/
structure ExplicitPartitioner where
  column : Str
  lowerBound : Option PartitionBound
  upperBound : Option PartitionBound
  numPartitions : ℕ
  maxWorkers : ℕ
  loadWorkers : ℕ
  strategy : Str
  boundsRole : BoundsRole
  nullBucket : NullBucket
  boundary : PartitionBoundaryResolution
  warnings : List Str
  explicitPartitions : List ExplicitPartition

section Ranges
variable (u : Unicode) (iso : IsoReader)

/-- The given bounds of the items that are no NULL bucket. -/
def boundSamples (ranges : List RangeItem) : List BoundValue :=
  (ranges.filter fun item => !item.null).flatMap fun item =>
    item.lower.toList ++ item.upper.toList

/-- A range with both bounds. -/
def readRange (kind : PartitionBoundKind) (lower upper : BoundValue)
    (includeLower includeUpper : Bool) : Except BoundError ExplicitRange := do
  let lowerBound ← normalizePartitionBound u iso kind lower
  let upperBound ← normalizePartitionBound u iso kind upper
  let comparison ← comparePartitionBounds lowerBound upperBound
  refuseIf (comparison = .gt ∨ comparison = .eq ∧ ¬ (includeLower ∧ includeUpper))
    (boundValueError
      "Explicit range lower bound must precede its upper bound using source semantics.")
  return ⟨lowerBound, upperBound, includeLower, includeUpper⟩

/-- The loop of the ranges: whether a NULL bucket was seen, and the ranges of values. -/
def readRanges (kind : PartitionBoundKind) :
    Bool → List RangeItem → Except BoundError (Bool × List ExplicitRange)
  | nullSeen, [] => .ok (nullSeen, [])
  | nullSeen, item :: items => do
    refuseIf (item.null ∧ nullSeen)
      (boundValueError "Explicit ranges may declare the NULL bucket only once.")
    if item.null ∧ item.lower.isNone ∧ item.upper.isNone then readRanges kind true items
    else match item.lower, item.upper with
      | some lower, some upper => do
        let range ← readRange u iso kind lower upper item.includeLower item.includeUpper
        let (seen, ranges) ← readRanges kind (nullSeen || item.null) items
        return (seen, range :: ranges)
      | _, _ => .error (boundValueError
          "Every explicit non-NULL range requires typed lower and upper bounds.")

/-- The check of two neighbours. -/
def checkNeighbours (policy : GapPolicy) (previous current : ExplicitRange) :
    Except BoundError Unit := do
  let comparison ← comparePartitionBounds previous.upper current.lower
  refuseIf (comparison = .gt ∨ comparison = .eq ∧ previous.includeUpper ∧ current.includeLower)
    (boundValueError "Explicit partition ranges overlap under source comparison semantics.")
  refuseIf ((comparison = .lt ∨ comparison = .eq ∧ ¬ previous.includeUpper ∧
      ¬ current.includeLower) ∧ policy ≠ .allowExplicit) (boundValueError
    "Explicit partition ranges contain a gap; set gap_policy=allow_explicit to accept it.")

/-- `validate_explicit_coverage`. -/
def validateExplicitCoverage (policy : GapPolicy) : List ExplicitRange → Except BoundError Unit
  | previous :: current :: ranges => do
    checkNeighbours policy previous current
    validateExplicitCoverage policy (current :: ranges)
  | _ => .ok ()

/-- The partitions of the ranges, numbered from an index. -/
def numberedFrom (index : ℕ) (ranges : List ExplicitRange) : List ExplicitPartition :=
  (ranges.zipIdx index).map fun r => r.1.partition r.2 false

/-- The partition of the NULL bucket. -/
def nullBucketPartition : ExplicitPartition where
  index := 0
  lowerBound := none
  upperBound := none
  isNullPartition := true

/-- The partitions, with NULL where the options put it. -/
def bucketed (bucket : NullBucket) (nullSeen : Bool) (ranges : List ExplicitRange) :
    List ExplicitPartition :=
  match nullSeen, bucket, ranges with
  | true, .includeFirst, first :: rest => first.partition 0 true :: numberedFrom 1 rest
  | true, _, ranges => nullBucketPartition :: numberedFrom 1 ranges
  | false, _, ranges => numberedFrom 0 ranges

/-- `_from_explicit_ranges`. -/
def fromExplicitRanges (resolved : PartitioningOptions) :
    Except BoundError ExplicitPartitioner := do
  let boundary ← lifted
    (resolveBoundary u iso resolved.boundaryType (boundSamples resolved.ranges))
  let (nullSeen, ranges) ← readRanges u iso boundary.kind false resolved.ranges
  refuseIf (ranges = [])
    (boundValueError "Explicit partitioning requires at least one non-NULL range.")
  validateExplicitCoverage resolved.gapPolicy ranges
  refuseIf (nullSeen ∧ resolved.nullBucket = .fail) (boundValueError
    (s!"Partition column '{String.ofList resolved.column}' declares a NULL range " ++
      "but null_bucket=fail."))
  let partitions := bucketed resolved.nullBucket nullSeen ranges
  return {
    column := resolved.column
    lowerBound := partitions.head?.bind ExplicitPartition.lowerBound
    upperBound := partitions.getLast?.bind ExplicitPartition.upperBound
    numPartitions := partitions.length
    maxWorkers := max 1 (min resolved.exportWorkers partitions.length)
    loadWorkers := max 1 (min resolved.loadWorkers partitions.length)
    strategy := resolved.strategy
    boundsRole := resolved.boundsRole
    nullBucket := resolved.nullBucket
    boundary := boundary
    warnings := resolved.warnings
    explicitPartitions := partitions }

end Ranges

end Dpone.Partitioning
