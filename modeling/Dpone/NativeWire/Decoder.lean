import Dpone.NativeWire.Split
import Dpone.Schemes.PyValue
import Dpone.Schemes.Uuid

/-! The typed decoder of native BCP files.

    A field's payload, already checked against its domain, becomes a Python value of the column's
    storage type. Times keep SQL Server's seventh fractional digit beside the microseconds Python
    has room for. -/

namespace Dpone.NativeWire
open Dpone.Schemes

/-! ### Python values -/

/-- A `time`: microseconds of the day, whether it has a `tzinfo`, and its `submicrosecond_100ns`
    (zero where the attribute is missing, none where it is not a plain integer). -/
@[ext] structure PyTime where
  micros : ℕ
  aware : Bool
  submicrosecond : Option ℤ
  micros_lt : micros < dayMicros

instance : DecidableEq PyTime := fun _ _ => decidable_of_iff _ PyTime.ext_iff.symm

/-- A `datetime`; one without a `tzinfo` has no offset. -/
@[ext] structure PyDateTime where
  clock : DateTime
  aware : Bool
  submicrosecond : Option ℤ
  aware_of_offset : clock.offset.isSome → aware = true
  deriving DecidableEq

/-- The values a cell may be given or read as, by their Python type; `other` is of none of these. -/
inductive PyValue where
  | none
  | bool (b : Bool)
  | int (n : ℤ)
  | float (value : PyFloat)
  | decimal (d : PyDecimal)
  | text (s : List CodePoint)
  | bytes (b : Bytes)
  | uuid (x : Uuid)
  | date (d : Date)
  | time (t : PyTime)
  | datetime (t : PyDateTime)
  | other
  deriving DecidableEq

/-! ### Payloads -/

/-- `payload.decode(encoding)`. -/
def decodeText (encoding : Encoding) (payload : Bytes) : Except PyError PyValue :=
  match encoding with
  | .utf8 => match decodeUtf8 payload with
    | some s => .ok (.text (textOf s))
    | none => .error (.valueError "'utf-8' codec can't decode bytes")
  | .utf16le => match decodeUtf16le payload with
    | some s => .ok (.text (textOf s))
    | none => .error (.valueError "'utf-16-le' codec can't decode bytes")

/-- `_decode_decimal`. -/
def decodeDecimal (payload : Bytes) (scale : ℕ) : Except PyError PyValue := do
  let sign ← byteAt payload 2
  let magnitude := ofLE (payload.drop 3)
  return .decimal (.scaled (magnitude * (if sign ≠ 0 then 1 else -1)) scale)

/-- `_decode_money`: two words, the high one first. -/
def decodeMoney (payload : Bytes) : ℤ :=
  ofLESigned (payload.take 4) * 2 ^ 32 + ofLE (payload.drop 4)

/-- `_decode_time`: ticks of a scale on the clock of a day. -/
def decodeTime (payload : Bytes) (scale : ℕ) : Except PyError PyTime := do
  let ticks := ofLE payload
  let microseconds := if scale ≤ 6 then ticks * 10 ^ (6 - scale) else ticks / 10 ^ (scale - 6)
  -- the sum is taken from the first day of the calendar and may run past its last
  let _ ← Date.ofOrdinal (1 + microseconds / dayMicros)
  return {
    micros := microseconds % dayMicros, aware := false,
    submicrosecond := some (if scale = 7 then ticks % 10 else 0 : ℕ),
    micros_lt := Nat.mod_lt _ (by decide) }

/-- A date and a time of day without an offset. -/
def combine (date : Date) (time : PyTime) : DateTime :=
  { date := date, micros := time.micros, offset := none, micros_lt := time.micros_lt,
    offset_lt := none_offset_lt }

/-- `_decode_datetime2`, its date and time apart from its seventh digit. -/
def decodeDatetime2 (payload : Bytes) (scale : ℕ) : Except PyError (DateTime × ℕ) := do
  let timeLength ← timeLength scale
  let valueTime ← decodeTime (payload.take timeLength) scale
  let date ← Date.ofOrdinal (1 + ofLE (payload.drop timeLength))
  let remainder := if scale = 7 then ofLE (payload.take timeLength) % 10 else 0
  return (combine date valueTime, remainder)

/-- A date-time without an offset. -/
def naive (clock : DateTime) (submicrosecond : ℕ) : PyDateTime :=
  { clock := { clock with offset := none, offset_lt := by simp }, aware := false,
    submicrosecond := some submicrosecond, aware_of_offset := by simp }

/-- `_decode_datetimeoffset`. -/
def decodeDatetimeoffset (payload : Bytes) (scale : ℕ) : Except PyError PyDateTime := do
  let timeLength ← timeLength scale
  raiseIf (payload.length ≠ timeLength + 5)
    (.valueError s!"mssql_bcp_native_invalid_datetimeoffset_length:{payload.length}")
  let (encodedUtc, remainder) ← decodeDatetime2 (payload.take (timeLength + 3)) scale
  let offsetMinutes ← unpackSigned 2 (payload.drop (timeLength + 3))
  let aware ← encodedUtc.atOffset (offsetMinutes * 60000000)
  return { clock := aware, aware := true, submicrosecond := some remainder,
           aware_of_offset := fun _ => rfl }

/-- `_SQL_SERVER_EPOCH.toordinal()`, the first of January 1900. -/
def sqlServerEpoch : ℕ := 693596

/-- `datetime.combine(_SQL_SERVER_EPOCH + timedelta(days), time()) + timedelta(microseconds)`. -/
def sinceEpoch (days microseconds : ℤ) : Except PyError PyDateTime := do
  let date ← Date.ofOrdinal (sqlServerEpoch + days)
  let midnight : DateTime :=
    { date := date, micros := 0, offset := none, micros_lt := dayMicros_pos,
      offset_lt := none_offset_lt }
  let clock ← midnight.withLocal (midnight.localMicros + microseconds)
  return naive clock 0

/-- `_decode_datetime`: ticks of one three-hundredth of a second, rounded to milliseconds. -/
def decodeDatetime (payload : Bytes) : Except PyError PyDateTime := do
  raiseIf (payload.length ≠ 8) .structError
  let days := ofLESigned (payload.take 4)
  let ticks := ofLESigned (payload.drop 4)
  sinceEpoch days ((ticks * 1000 + 150) / 300 * 1000)

/-- The `smalldatetime` branch: days and minutes. -/
def decodeSmalldatetime (payload : Bytes) : Except PyError PyDateTime := do
  raiseIf (payload.length ≠ 4) .structError
  sinceEpoch (ofLE (payload.take 2)) (ofLE (payload.drop 2) * 60000000)

/-- `str(UUID(bytes_le=payload))`. -/
def decodeUniqueidentifier (payload : Bytes) : Except PyError PyValue :=
  match Uuid.ofBytesLe payload with
  | some x => .ok (.text (textOf x.text))
  | none => .error (.valueError "bytes_le is not a 16-char string")

/-- `_decode_payload`. -/
def decodePayload (payload : Bytes) (layout : NativeWireColumnLayout) : Except PyError PyValue :=
  match layout.storageType with
  | .bit => (byteAt payload 0).map fun b => .bool (b ≠ 0)
  | .tinyint => (unpackUnsigned 1 payload).map fun n : ℕ => .int n
  | .smallint => (unpackSigned 2 payload).map .int
  | .int => (unpackSigned 4 payload).map .int
  | .bigint => (unpackSigned 8 payload).map .int
  | .real => (unpackSingle payload).map .float
  | .float =>
    (if payload.length = 4 then unpackSingle payload else unpackDouble payload).map .float
  | .money => .ok (.decimal (.scaled (decodeMoney payload) 4))
  | .smallmoney => (unpackSigned 4 payload).map fun n => .decimal (.scaled n 4)
  | .decimal | .numeric => decodeDecimal payload (layout.scale.getD 0)
  | .varchar | .nvarchar | .char | .nchar => decodeText (layout.encoding.getD .utf8) payload
  | .varbinary | .binary => .ok (.bytes payload)
  | .date => (Date.ofOrdinal (1 + ofLE payload)).map .date
  | .time => (decodeTime payload (layout.scale.getD 7)).map .time
  | .datetime2 => (decodeDatetime2 payload (layout.scale.getD 7)).map fun t =>
    .datetime (naive t.1 t.2)
  | .datetimeoffset => (decodeDatetimeoffset payload (layout.scale.getD 7)).map .datetime
  | .datetime => (decodeDatetime payload).map .datetime
  | .smalldatetime => (decodeSmalldatetime payload).map .datetime
  | .uniqueidentifier => decodeUniqueidentifier payload
  | .unsupported =>
    let sourceType := String.ofList layout.sourceType
    .error (.valueError s!"mssql_bcp_native_unsupported_type:{sourceType}")

/-! ### Rows -/

variable (py : Runtime) (digest : Digest)

/-- `_read_column`. -/
def readColumn (column : NativeWireColumnLayout) (ordinal : ℕ) : Reader PyValue := fun handle => do
  let (payload, handle) ← readNativePayload py handle column ordinal
  match payload with
  | none => return (.none, handle)
  | some payload =>
    let value ← decodePayload payload column
    return (value, handle)

/-- `MssqlBcpNativeDecoder(contract)`: the checks before any file is opened. -/
def decoderChecks (contract : SourceNativeWireContract) : Except PyError Unit := do
  raiseIf (contract.sourceFormat ≠ "mssql-bcp-native".toList)
    (.valueError "MssqlBcpNativeDecoder requires mssql-bcp-native source format")
  raiseIf (contract.blockers ≠ [])
    (.valueError (String.intercalate "; " (contract.blockers.map String.ofList)))
  validateMssqlNativeContract py digest contract

/-- The rows of `iter_rows`: in each the values in the order of the columns. -/
def iterRows (columns : List NativeWireColumnLayout) (artifact : Bytes) :
    Option (Except PyError (List (List PyValue))) :=
  readRows (readRow (readColumn py) columns 0) artifact.length { data := artifact, position := 0 }

/-- `list(MssqlBcpNativeDecoder(contract).iter_rows(path))` for a file of these bytes; each row maps
    the column names to its values. -/
def decodeArtifact (contract : SourceNativeWireContract) (artifact : Bytes) :
    Option (Except PyError (List (List (Str × PyValue)))) :=
  match decoderChecks py digest contract with
  | .error e => some (.error e)
  | .ok () => (iterRows py contract.columns artifact).map fun rows =>
    rows.map fun rows => rows.map ((contract.columns.map (·.name)).zip ·)

end Dpone.NativeWire
