import Dpone.Partitioning.RangePartitioner
import Dpone.Schemes.IsoText
import Dpone.Schemes.NumberText
import Dpone.Schemes.Uuid

/-! Typed bounds of explicit ranges, `partitioning_bounds.py`: which family a boundary is of, how a
    declared value becomes a bound of it, and how two bounds are compared.

    A declared value that is compared or read by its text carries that text where Python's own
    `str` is not modelled, as of floats, decimals and bytes. -/

namespace Dpone.Partitioning
open Dpone.Schemes

inductive PartitionBoundKind where
  | numeric | date | datetime | datetimeOffset | rowversion | uuid | timeCyclic
  deriving DecidableEq

structure PartitionBoundaryResolution where
  kind : PartitionBoundKind
  sourceType : Str := []
  scale : Option ℕ := none
  warningCode : Option Str := none

/-- The exceptions of reading and comparing bounds; `InvalidOperation` is no `ValueError`. -/
inductive BoundError where
  | python (e : PyError)
  | invalidOperation
  deriving DecidableEq

def BoundError.IsValueError (e : BoundError) : Prop := ∃ text, e = .python (.valueError text)

def boundValueError (text : String) : BoundError := .python (.valueError text)

/-- A call that raises none but Python's own exceptions. -/
def lifted {α : Type} (r : Except PyError α) : Except BoundError α := r.mapError .python

def refuseIf (p : Prop) [Decidable p] (e : BoundError) : Except BoundError Unit :=
  if p then .error e else .ok ()

/-- A declared bound. -/
inductive BoundValue where
  | bool (b : Bool)
  | int (n : ℤ)
  | float (f : PyFloat) (asText : Str)
  | decimal (x : PyNumber) (asText : Str)
  | date (d : Date)
  | datetime (t : DateTime)
  | bytes (b : Bytes) (asText : Str)
  | uuid (x : Uuid)
  | text (s : Str)
  | other (asText : Str)

def BoundValue.isNumber : BoundValue → Bool
  | .bool _ | .int _ | .float _ _ | .decimal _ _ => true
  | _ => false

/-- `str(value)`. -/
def BoundValue.str : BoundValue → Str
  | .bool b => if b then "True".toList else "False".toList
  | .int n => intText n
  | .float _ asText | .decimal _ asText | .bytes _ asText | .other asText => asText
  | .date d => d.isoformat
  | .datetime t => t.isoformat ' '
  | .uuid x => x.text
  | .text s => s

inductive BoundNumber where
  | int (n : ℤ)
  | float (f : PyFloat)
  | decimal (x : PyNumber)
  deriving DecidableEq

/-- `PreciseTemporalBound`: its text, the time to the microsecond and the seventh digit. -/
structure PreciseTemporalBound where
  text : Str
  parsed : DateTime
  tick : Fin 10
  deriving DecidableEq

/-- A normalized bound. -/
inductive PartitionBound where
  | number (n : BoundNumber)
  | date (d : Date)
  | datetime (t : DateTime)
  | precise (p : PreciseTemporalBound)
  | rowversion (n : ℤ)
  | uuid (x : Uuid)
  deriving DecidableEq

section Reading
variable (u : Unicode) (iso : IsoReader)

/-! ### The forms of texts -/

/-- A text of the form of a template, in which `d` stands for any digit. -/
def hasForm (template s : Str) : Bool :=
  s.length = template.length && (template.zip s).all fun p =>
    if p.1 = 'd' then (u.digit p.2).isSome else p.1 = p.2

def dateForm : Str := "dddd-dd-dd".toList

def clockForm : Str := "dddd-dd-ddTdd:dd:dd".toList

/-- `[+-]\d\d:\d\d`. -/
def isZone (s : Str) : Bool := hasForm u "+dd:dd".toList s || hasForm u "-dd:dd".toList s

/-- `text.replace("Z", "+00:00")`. -/
def replaceZ (s : Str) : Str := s.flatMap fun c => if c = 'Z' then "+00:00".toList else [c]

/-- `text.ljust(width, "0")`. -/
def padZeros (width : ℕ) (s : Str) : Str := s ++ List.replicate (width - s.length) '0'

/-- `_fractional_scale`. -/
def fractionalScale (s : Str) : ℕ :=
  let run : Str → Option ℕ := fun s => do
    let digits := (← lit '.' s).takeWhile fun c => (u.digit c).isSome
    if digits = [] then none else some digits.length
  ((search run s).map (min 7)).getD 0

/-- `_temporal_scale`, of a type's name. -/
def temporalScale (name : Str) : Option ℕ :=
  match search (parenNumber u) name with
  | some n => some n
  | none =>
    if name = "datetime2".toList ∨ name = "datetimeoffset".toList then some 7
    else if name = "datetime".toList then some 3
    else if name = "smalldatetime".toList then some 0
    else none

/-! ### Temporal texts -/

/-- The end of a fraction: `tail[: -len(zone)]` and the zone. -/
def cutZone (tail : Str) : Str × Str :=
  let zone := tail.drop (tail.length - 6)
  if isZone u zone then (tail.take (tail.length - 6), zone) else (tail, [])

/-- The text that `_parse_datetime` hands to `fromisoformat`: six digits of a fraction. -/
def sixDigits (s : Str) : Str :=
  let text := replaceZ (strip u s)
  if '.' ∈ text then
    let head := text.takeWhile (· ≠ '.')
    let parts := cutZone u ((text.dropWhile (· ≠ '.')).drop 1)
    head ++ '.' :: (padZeros 6 (parts.1.take 6) ++ parts.2)
  else text

/-- `_parse_datetime`. -/
def parseDatetime : BoundValue → Except PyError DateTime
  | .datetime t => .ok t
  | .date d => .ok ⟨d, 0, none, dayMicros_pos, none_offset_lt⟩
  | value => iso.datetime (sixDigits u value.str)

/-- `_parse_date`. -/
def parseDate : BoundValue → Except PyError Date
  | .datetime t => .ok t.date
  | .date d => .ok d
  | value => iso.date (strip u value.str)

/-- The groups of the pattern of `_precise_temporal`: clock, fraction and zone. -/
def preciseParts (text : Str) : Option (Str × Str × Str) := do
  let tail ← lit '.' (text.drop 19)
  let fraction := tail.takeWhile fun c => (u.digit c).isSome
  let zone := tail.dropWhile fun c => (u.digit c).isSome
  if hasForm u clockForm (text.take 19) ∧ 1 ≤ fraction.length ∧ fraction.length ≤ 7 ∧
      (zone = [] ∨ isZone u zone) then some (text.take 19, fraction, zone) else none

/-- Times of a boundary with offsets are taken to UTC. -/
def inUtc (withOffset : Bool) (t : DateTime) : Except PyError DateTime :=
  if withOffset then t.toUtc else .ok t

/-- The text of a precise bound, the part of it that `fromisoformat` reads, and the last digit. -/
def preciseForm (value : Str) (withOffset : Bool) : Except PyError (Str × Str × Fin 10) := do
  let text := replaceZ ((strip u value).map fun c => if c = ' ' then 'T' else c)
  match preciseParts u text with
  | none => .error (.valueError "Invalid precise temporal partition boundary.")
  | some (clock, digits, zone) =>
    raiseIf (withOffset = decide (zone = []))
      (.valueError "datetimeoffset boundaries require an explicit UTC offset.")
    let fraction := padZeros 7 digits
    return (clock ++ '.' :: (fraction ++ zone), clock ++ '.' :: (fraction.take 6 ++ zone),
      Fin.ofNat 10 ((u.digit (fraction.getD 6 '0')).getD 0))

/-- `_precise_temporal`. -/
def preciseTemporal (value : Str) (withOffset : Bool) : Except PyError PreciseTemporalBound := do
  let form ← preciseForm u value withOffset
  let parsed ← iso.datetime form.2.1
  let utc ← inUtc withOffset parsed
  return ⟨form.1, utc, form.2.2⟩

/-! ### Other texts -/

/-- `int.from_bytes(value, byteorder="big", signed=False)`. -/
def ofBigEndian (b : Bytes) : ℕ := ofLE b.reverse

def invalidLiteral (base : ℕ) (s : Str) : PyError :=
  .valueError s!"invalid literal for int() with base {base}: '{String.ofList s}'"

/-- `_rowversion_to_int`. -/
def rowversionToInt : BoundValue → Except PyError ℤ
  | .bool b => .ok b.toNat
  | .int n => .ok n
  | .bytes b _ => .ok (ofBigEndian b)
  | value =>
    let text := strip u value.str
    if "0x".toList.isPrefixOf (u.lower text) then
      ((pyHexInt u (text.drop 2)).map Except.ok).getD (.error (invalidLiteral 16 (text.drop 2)))
    else ((pyInt u text).map Except.ok).getD (.error (invalidLiteral 10 text))

/-- `[-+]?\d+`. -/
def integerForm (text : Str) : Bool :=
  (cutSign text).2 ≠ [] && (cutSign text).2.all fun c => (u.digit c).isSome

/-- The name of a signalling NaN, perhaps with a payload. -/
def signallingNan (text : Str) : Bool :=
  let name := ((cutSign (text.filter (· ≠ '_'))).2).map Char.toLower
  name.take 4 = "snan".toList && (digitsFrom u 0 (name.drop 4)).isSome

/-- `Decimal(text)`; comparisons raise alike for both kinds of NaN. -/
def readDecimal (text : Str) : Option PyNumber :=
  if signallingNan u text then some .nan else pyDecimal u text

/-- The branch of `_normalize_numeric` for what is no number. -/
def readNumeral (text : Str) : Except BoundError BoundNumber :=
  if integerForm u text then
    ((pyInt u text).map fun n => .ok (.int n)).getD (.error (.python (invalidLiteral 10 text)))
  else ((readDecimal u text).map fun x => .ok (.decimal x)).getD (.error .invalidOperation)

/-- `_normalize_numeric`. -/
def normalizeNumeric : BoundValue → Except BoundError BoundNumber
  | .bool b => .ok (.int b.toNat)
  | .int n => .ok (.int n)
  | .float f _ => .ok (.float f)
  | .decimal x _ => .ok (.decimal x)
  | value => readNumeral u (strip u value.str)

/-! ### The family of a boundary -/

/-- `_clean`. -/
def cleanName (s : Str) : Str := u.lower (strip u s)

def startsWith (word s : Str) : Bool := word.isPrefixOf s

/-- `_from_type_name`, without a source system. -/
def boundaryOfName (name : Str) : PartitionBoundaryResolution :=
  let normalized := cleanName u name
  if normalized ∈ ["rowversion".toList, "bytea_boundary".toList] then
    { kind := .rowversion, sourceType := normalized }
  else if normalized ∈ ["uuid".toList, "uniqueidentifier".toList] then
    { kind := .uuid, sourceType := normalized }
  else if normalized = "date".toList then { kind := .date, sourceType := normalized }
  else if normalized ∈ ["datetime".toList, "smalldatetime".toList] ∨
      startsWith "datetime2".toList normalized then
    { kind := .datetime, sourceType := normalized, scale := temporalScale u normalized }
  else if normalized ∈ ["datetimeoffset".toList, "timestamptz".toList,
      "timestamp with time zone".toList] ∨ startsWith "datetimeoffset(".toList normalized then
    { kind := .datetimeOffset, sourceType := normalized, scale := temporalScale u normalized }
  else if normalized ∈ ["timestamp".toList, "timestamp without time zone".toList,
      "datetime64".toList] then
    { kind := .datetime, sourceType := normalized, scale := temporalScale u normalized }
  else if normalized = "time".toList then { kind := .timeCyclic, sourceType := normalized }
  else { kind := .numeric, sourceType := normalized }

/-- The family of a time, by whether it has an offset. -/
def temporalBoundary (t : DateTime) (scale : ℕ) : PartitionBoundaryResolution where
  kind := if t.offset.isSome then .datetimeOffset else .datetime
  scale := some scale

/-- `_from_value` of a text; exceptions other than `ValueError` pass through. -/
def boundaryOfText (s : Str) : Except PyError (Option PartitionBoundaryResolution) :=
  let stripped := strip u s
  if hasForm u dateForm stripped then .ok (some { kind := .date })
  else if 'T' ∈ stripped ∨ ':' ∈ stripped then
    match iso.datetime (sixDigits u stripped) with
    | .ok t => .ok (some (temporalBoundary t (fractionalScale u stripped)))
    | .error (.valueError _) => .ok none
    | .error e => .error e
  else .ok ((readDecimal u stripped).map fun _ => { kind := .numeric })

/-- `_from_value`. -/
def boundaryOfValue : BoundValue → Except PyError (Option PartitionBoundaryResolution)
  | .datetime t => .ok (some (temporalBoundary t 6))
  | .date _ => .ok (some { kind := .date })
  | .bytes _ _ => .ok (some { kind := .rowversion })
  | .uuid _ => .ok (some { kind := .uuid })
  | .bool _ | .int _ | .float _ _ | .decimal _ _ => .ok (some { kind := .numeric })
  | .text s => boundaryOfText u iso s
  | .other _ => .ok none

/-- The first sample that has a family; numbers where none has one. -/
def boundaryOfSamples : List BoundValue → Except PyError PartitionBoundaryResolution
  | [] => .ok { kind := .numeric }
  | value :: values => do
    match ← boundaryOfValue u iso value with
    | some boundary => return boundary
    | none => boundaryOfSamples values

/-- `PartitionBoundaryTypeResolver.resolve` of a requested type and samples. -/
def resolveBoundary (requested : Str) (samples : List BoundValue) :
    Except PyError PartitionBoundaryResolution :=
  let name := cleanName u requested
  if name ≠ [] ∧ name ≠ "auto".toList then .ok (boundaryOfName u name)
  else boundaryOfSamples u iso samples

/-! ### Normalized bounds -/

/-- The temporal branch of `normalize_partition_bound`. -/
def normalizeTemporal (withOffset : Bool) (value : BoundValue) : Except PyError PartitionBound :=
  match value with
  | .text s =>
    if 6 < fractionalScale u s then .precise <$> preciseTemporal u iso s withOffset
    else .datetime <$> (parseDatetime u iso (.text s) >>= inUtc withOffset)
  | value => .datetime <$> (parseDatetime u iso value >>= inUtc withOffset)

/-- `normalize_partition_bound`. -/
def normalizePartitionBound (kind : PartitionBoundKind) (value : BoundValue) :
    Except BoundError PartitionBound :=
  match kind with
  | .date => lifted (.date <$> parseDate u iso value)
  | .datetime => lifted (normalizeTemporal u iso false value)
  | .datetimeOffset => lifted (normalizeTemporal u iso true value)
  | .rowversion => lifted (.rowversion <$> rowversionToInt u value)
  | .uuid => ((Uuid.ofText u value.str).map fun x => .ok (.uuid x)).getD
      (.error (boundValueError "badly formed hexadecimal UUID string"))
  | .timeCyclic => .error (boundValueError
      "time-only partition boundaries are cyclic and require an explicit certified policy.")
  | .numeric => .number <$> normalizeNumeric u value

end Reading

/-! ### Comparison -/

/-- The numbers and both infinities. -/
abbrev ExtendedRational := WithBot (WithTop ℚ)

def infinity (negative : Bool) : ExtendedRational := if negative then ⊥ else (⊤ : WithTop ℚ)

/-- Nothing where it is no number. -/
def BoundNumber.value : BoundNumber → Option ExtendedRational
  | .int n => some (((n : ℚ) : WithTop ℚ) : ExtendedRational)
  | .float f => match floatValue f with
    | some q => some ((q : WithTop ℚ) : ExtendedRational)
    | none => if f.val % 2 ^ 63 = infinityBits then some (infinity (2 ^ 63 ≤ f.val)) else none
  | .decimal (.infinite negative) => some (infinity negative)
  | .decimal x => x.value.map fun q => ((q : WithTop ℚ) : ExtendedRational)

def BoundNumber.isDecimal : BoundNumber → Bool
  | .decimal _ => true
  | _ => false

/-- `(left > right) - (left < right)` of numbers: all comparisons with a float that is no number are
    false, and with such a decimal they raise. -/
def compareNumbers (left right : BoundNumber) : Except BoundError Ordering :=
  match left.value, right.value with
  | some x, some y => .ok (cmp x y)
  | _, _ => if left.isDecimal ∨ right.isDecimal then .error .invalidOperation else .ok .eq

/-- The fields of a clock, from the hour to the microsecond. -/
def clockFields (us : ℕ) : List ℕ :=
  [us / 3600000000, us / 60000000 % 60, us / 1000000 % 60, us % 1000000]

/-- `comparison_key`. -/
def PreciseTemporalBound.comparisonKey (p : PreciseTemporalBound) : List ℕ :=
  p.parsed.date.year :: p.parsed.date.month :: p.parsed.date.day ::
    (clockFields p.parsed.micros ++ [p.tick.val])

/-- `uuid.bytes`. -/
def uuidBytes (x : Uuid) : Bytes := (toLE 16 x.val).reverse

/-- `mssql_uuid_sort_key`. -/
def mssqlUuidSortKey (x : Uuid) : List ℕ :=
  [10, 11, 12, 13, 14, 15, 8, 9, 6, 7, 4, 5, 0, 1, 2, 3].map fun index =>
    ((uuidBytes x).getD index 0).toNat

/-- `compare_partition_bounds`; bounds of two kinds are never compared but for the two kinds of
    times, of which one is a text. -/
def comparePartitionBounds : PartitionBound → PartitionBound → Except BoundError Ordering
  | .uuid x, .uuid y => .ok (cmp (mssqlUuidSortKey x) (mssqlUuidSortKey y))
  | .precise p, .precise q => .ok (cmp p.comparisonKey q.comparisonKey)
  | .number x, .number y => compareNumbers x y
  | .date d, .date e => .ok (cmp d.toordinal e.toordinal)
  | .datetime s, .datetime t =>
    if s.offset.isSome = t.offset.isSome then .ok (cmp s.instant t.instant)
    else .error (.python .typeError)
  | .rowversion m, .rowversion n => .ok (cmp m n)
  | _, _ => .error (.python .typeError)

end Dpone.Partitioning
