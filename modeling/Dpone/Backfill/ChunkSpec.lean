import Dpone.Schemes.IsoText
import Dpone.Schemes.Records

/-! The chunk block of a backfill configuration.

    `chunk_spec_from_options` reads an options document of any shape and either raises or returns a
    window declaration: its kind, given or inferred, its boundaries in order, a step that fits the
    kind, and the limit on the number of chunks. -/

namespace Dpone.Backfill
open Dpone.Schemes

inductive ChunkKind where
  | date | timestamp | integer | uuid
  deriving DecidableEq, Repr

def ChunkKind.name : ChunkKind → String
  | date => "date" | timestamp => "timestamp" | integer => "integer" | uuid => "uuid"

def ChunkKind.ofName (s : Str) : Option ChunkKind :=
  [ChunkKind.date, .timestamp, .integer, .uuid].find? fun k => k.name.toList = s

inductive StepUnit where
  | h | d | w | mo | y
  deriving DecidableEq, Repr

def StepUnit.ofName (s : Str) : Option StepUnit :=
  if s = "h".toList then some .h
  else if s = "d".toList then some .d
  else if s = "w".toList then some .w
  else if s = "mo".toList then some .mo
  else if s = "y".toList then some .y
  else none

/-- Parsed chunk step: temporal where there is a unit, else an integer. -/
structure BackfillStep where
  count : ℕ
  unit : Option StepUnit
  deriving DecidableEq

structure BackfillChunkSpec where
  column : Str
  start : Str
  stop : Str
  step : Str
  kind : ChunkKind
  maxChunks : ℕ
  buckets : Option ℕ
  deriving DecidableEq

/-- A value of the options document, told apart as far as it is looked at. -/
inductive OptionValue where
  | str (s : Str)
  | int (n : ℤ)
  | bool (b : Bool)
  | other

inductive ChunkBlock where
  | mapping (entries : List (Str × OptionValue))
  | other

inductive BackfillOptions where
  | none
  | mapping (chunk : Option ChunkBlock) (maxChunks : Option OptionValue)
  | other

/-- `{value!r}` of a text. -/
def quoted (s : Str) : String := "'" ++ String.ofList s ++ "'"

def supportedKinds : String := "date, timestamp, integer, uuid"

variable (u : Unicode) (iso : IsoReader)

/-- `^(?P<count>\d+)\s*(?P<unit>h|d|w|mo|y)$` on a lower-cased token. -/
def stepPattern (token : Str) : Option (ℕ × StepUnit) := do
  let (count, rest) ← digits u token
  let unit ← StepUnit.ofName (blanks u rest)
  return (count, unit)

/-- `parse_step`. -/
def parseStep (step : Str) (kind : ChunkKind) : Except PyError BackfillStep :=
  if kind = .uuid then
    .error (.valueError "backfill.chunk.kind=uuid uses buckets instead of step")
  else
    let token := u.lower (strip u step)
    match stepPattern u token with
    | some (count, unit) =>
      if kind = .integer then
        .error (.valueError s!"backfill.chunk.step {quoted step} is temporal but chunk kind is integer")
      else if kind = .date ∧ unit = .h then
        .error (.valueError "backfill.chunk.step in hours requires kind: timestamp")
      else .ok { count := count, unit := some unit }
    | none =>
      match pyInt u token with
      | none => .error (.valueError (s!"backfill.chunk.step {quoted step} is not supported; " ++
          "use Nh/Nd/Nw/Nmo/Ny or an integer step"))
      | some count =>
        if kind ≠ .integer then
          .error (.valueError
            s!"backfill.chunk.step {quoted step} is an integer step but chunk kind is {kind.name}")
        else if count < 1 then .error (.valueError "backfill.chunk.step must be >= 1")
        else .ok { count := count.toNat, unit := none }

/-- `_required_chunk_column`. -/
def requiredChunkColumn (entries : List (Str × OptionValue)) : Except PyError Str :=
  match entries.lookup "column".toList with
  | none => .ok []
  | some (.str s) =>
    if strip u s = [] then
      .error (.valueError "backfill.chunk.column must be a non-empty string")
    else .ok (strip u s)
  | some _ => .error (.valueError "backfill.chunk.column must be a non-empty string")

/-- `_required_chunk_boundary`. -/
def requiredChunkBoundary (entries : List (Str × OptionValue)) (key : String) :
    Except PyError Str :=
  let malformed : PyError := .valueError s!"backfill.chunk.{key} must be a string or integer"
  match entries.lookup key.toList with
  | none => .ok []
  | some (.str s) => if strip u s = [] then .error malformed else .ok (strip u s)
  | some (.int n) => .ok (strip u (intText n))
  | some _ => .error malformed

def unsupportedKind (kind : Str) : PyError :=
  .valueError s!"backfill.chunk.kind must be one of: {supportedKinds} (got {quoted kind})"

/-- `_required_or_inferred_chunk_kind`; an absent kind is inferred later. -/
def requiredOrInferredChunkKind (entries : List (Str × OptionValue)) :
    Except PyError (Option ChunkKind) :=
  let malformed : PyError := .valueError "backfill.chunk.kind must be a non-empty string"
  match entries.lookup "kind".toList with
  | none => .ok none
  | some (.str s) =>
    if strip u s = [] then .error malformed
    else
      let kind := u.lower (strip u s)
      match ChunkKind.ofName kind with
      | some k => .ok (some k)
      | none => .error (unsupportedKind kind)
  | some _ => .error malformed

/-- `^\d{4}-\d{2}-\d{2}$`. -/
def datePattern (s : Str) : Bool :=
  s.length = 10 ∧ ∀ p ∈ s.zipIdx, if p.2 = 4 ∨ p.2 = 7 then p.1 = '-' else (u.digit p.1).isSome

/-- `_infer_kind`. -/
def inferKind (start : Str) : Option ChunkKind :=
  if datePattern u start then some .date
  else if (pyInt u start).isSome then some .integer
  else match iso.datetime start with
    | .ok _ => some .timestamp
    | .error _ => none

def invalidInt (s : Str) : PyError :=
  .valueError s!"invalid literal for int() with base 10: {quoted s}"

/-- `int(text)`, or the exception it raises. -/
def parseInt (s : Str) : Except PyError ℤ :=
  match pyInt u s with
  | some n => .ok n
  | none => .error (invalidInt s)

/-- `start > end` of two date-times, which are both aware or both naive. -/
def datetimeInverted (start stop : DateTime) : Except PyError Bool :=
  if start.offset.isSome = stop.offset.isSome then .ok (decide (stop.instant < start.instant))
  else .error .typeError

/-- Whether the boundaries parse and are out of order. -/
def inverted (start stop : Str) : ChunkKind → Except PyError Bool
  | .integer => do
    let a ← parseInt u start
    let b ← parseInt u stop
    return decide (b < a)
  | .date => do
    let a ← iso.date start
    let b ← iso.date stop
    return decide (b.toordinal < a.toordinal)
  | _ => do
    let a ← iso.datetime start
    let b ← iso.datetime stop
    datetimeInverted a b

/-- `_validate_boundaries`. -/
def validateBoundaries (start stop : Str) (kind : ChunkKind) : Except PyError Unit :=
  match inverted u iso start stop kind with
  | .error (.valueError text) => .error (.valueError
      s!"backfill.chunk boundaries are not valid for kind={kind.name}: {text}")
  | .error e => .error e
  | .ok true => .error (.valueError "backfill.chunk.from must be <= backfill.chunk.to")
  | .ok false => .ok ()

def defaultMaxChunks : ℕ := 1000

/-- `max_chunks` of a chunked range. -/
def maxChunksOption : Option OptionValue → Except PyError ℕ
  | none => .ok defaultMaxChunks
  | some (.int n) =>
    if n < 1 then .error (.valueError "backfill.max_chunks must be >= 1") else .ok n.toNat
  | some _ => .error (.valueError "backfill.max_chunks must be an integer")

/-- An option that must be an integer of at least 1. -/
def positiveOption (text : String) : OptionValue → Except PyError ℕ
  | .int n => if 1 ≤ n then .ok n.toNat else .error (.valueError text)
  | _ => .error (.valueError text)

/-- `_uuid_chunk_spec`. -/
def uuidChunkSpec (entries : List (Str × OptionValue)) (maxChunks : Option OptionValue)
    (column : Str) : Except PyError BackfillChunkSpec := do
  let unsupported := ["from", "step", "to"].filter fun key => (entries.lookup key.toList).isSome
  raiseIf (unsupported ≠ []) (.valueError ("backfill.chunk.kind=uuid uses buckets and forbids: " ++
    ", ".intercalate unsupported))
  let buckets ← positiveOption "backfill.chunk.buckets must be an integer >= 1 for kind=uuid"
    ((entries.lookup "buckets".toList).getD .other)
  let limit ← (maxChunks.map (positiveOption "backfill.max_chunks must be an integer >= 1")).getD
    (.ok defaultMaxChunks)
  raiseIf (limit < buckets) (.valueError (s!"backfill would produce {buckets} chunks, " ++
    s!"above max_chunks={limit}; increase backfill.max_chunks or use fewer UUID buckets"))
  return {
    column := column
    start := "00000000-0000-0000-0000-000000000000".toList
    stop := "ffffffff-ffff-ffff-ffff-ffffffffffff".toList
    step := decimalText buckets
    kind := .uuid
    maxChunks := limit
    buckets := some buckets }

/-- The keys that are not there. -/
def missingKeys (column start stop step : Str) : List String :=
  [("column", column), ("from", start), ("to", stop), ("step", step)].filterMap fun p =>
    if p.2 = [] then some p.1 else none

/-- The rest of `chunk_spec_from_options`, for the kinds that have boundaries and a step. -/
def rangeChunkSpec (entries : List (Str × OptionValue)) (maxChunks : Option OptionValue)
    (column : Str) (given : Option ChunkKind) : Except PyError BackfillChunkSpec := do
  let start ← requiredChunkBoundary u entries "from"
  let stop ← requiredChunkBoundary u entries "to"
  let step ← requiredChunkBoundary u entries "step"
  let missing := missingKeys column start stop step
  raiseIf (missing ≠ []) (.valueError ("backfill.chunk requires keys: " ++
    ", ".intercalate missing))
  match given <|> inferKind u iso start with
  | none => .error (unsupportedKind [])
  | some kind =>
    let _ ← parseStep u step kind
    validateBoundaries u iso start stop kind
    let limit ← maxChunksOption maxChunks
    return {
      column := column, start := start, stop := stop, step := step, kind := kind
      maxChunks := limit, buckets := none }

/-- `chunk_spec_from_options`. -/
def chunkSpecFromOptions : BackfillOptions → Except PyError (Option BackfillChunkSpec)
  | .none => .ok none
  | .other => .error (.valueError "backfill must be an object")
  | .mapping none _ => .ok none
  | .mapping (some .other) _ =>
    .error (.valueError "backfill.chunk must be a mapping with column/from/to/step keys")
  | .mapping (some (.mapping [])) _ =>
    .error (.valueError "backfill.chunk must be a non-empty object")
  | .mapping (some (.mapping entries)) maxChunks => do
    let column ← requiredChunkColumn u entries
    let kind ← requiredOrInferredChunkKind u entries
    if kind = some .uuid then
      some <$> uuidChunkSpec entries maxChunks column
    else
      some <$> rangeChunkSpec u iso entries maxChunks column kind

end Dpone.Backfill
