import Dpone.NativeWire.Decoder

/-! Lossless scalar conversion for native BCP.

    A value becomes the payload of its column's storage type or is refused; nothing is truncated,
    padded or turned into text. Framing and row bounds belong to the caller. -/

namespace Dpone.NativeWire
open Dpone.Schemes

/-! ### Diagnostics -/

def rowBytesExceeded : PyError := .valueError "mssql_native_row_bytes_exceeded"

def invalidValue : PyError := .valueError "mssql_native_invalid_value"

def fieldLengthExceeded : PyError := .valueError "mssql_native_field_length_exceeded"

/-- A bare `raise ValueError`. -/
def refused : PyError := .valueError ""

/-- The `except` clauses of `encode_native_value`: a diagnostic passes, anything else that a value
    can cause becomes one. -/
def diagnostic : PyError → PyError
  | .valueError text => if text.startsWith "mssql_native_" then .valueError text else invalidValue
  | .overflowError | .typeError | .structError => invalidValue
  | e => e

variable (py : Runtime)

/-! ### Sizes -/

/-- `_character_width`. -/
def characterWidth (code : ℕ) (wide : Bool) : ℕ :=
  if wide then if code ≤ 0xFFFF then 2 else 4
  else if code < 128 then 1
  else if code < 2048 then 2
  else if code ≤ 65535 then 3 else 4

/-- The loop over the characters of a text, from the size of those before. -/
def textSize (wide : Bool) (remaining : ℤ) : List CodePoint → ℕ → Except PyError ℕ
  | [], size => .ok size
  | c :: cs, size => do
    raiseIf c.surrogate invalidValue
    raiseIf (remaining < (size + characterWidth c.val wide : ℕ)) rowBytesExceeded
    textSize wide remaining cs (size + characterWidth c.val wide)

/-- `binary` and `varbinary`. -/
def octets : Storage → Bool
  | .binary | .varbinary => true
  | _ => false

/-- The bytes a value of variable length takes, before any bound of its column. -/
def variableSize (value : PyValue) (storage : Storage) (remaining : ℤ) : Except PyError ℕ :=
  if octets storage then
    match value with
    | .bytes b => .ok b.length
    | _ => .error invalidValue
  else
    match value with
    | .text s => textSize storage.national remaining s 0
    | _ => .error invalidValue

/-- Storage types that fill their declared length. -/
def padded : Storage → Bool
  | .binary | .nchar | .char => true
  | _ => false

/-- The bound of a declared length: bytes, or code units of a national type. -/
def checkDeclared (column : NativeWireColumnLayout) (size : ℕ) : Except PyError Unit :=
  match declaredNumber py column.sourceType with
  | none => .ok ()
  | some n =>
    let maximum := n * (if column.storageType.national then 2 else 1)
    raiseIf (maximum < size ∨ padded column.storageType ∧ size ≠ maximum) fieldLengthExceeded

/-- `native_value_size`. -/
def nativeValueSize (value : PyValue) (column : NativeWireColumnLayout) (remaining : ℤ) :
    Except PyError ℕ :=
  match column.fixedLength with
  | some n => do
    raiseIf (remaining < n) rowBytesExceeded
    return n
  | none => do
    let size ← variableSize value column.storageType remaining
    raiseIf (remaining < size) rowBytesExceeded
    checkDeclared py column size
    raiseIf (column.prefixWidth ≠ 0 ∧ 2 ^ (8 * column.prefixWidth - 1) ≤ size) fieldLengthExceeded
    return size

/-! ### Payloads -/

/-- `value.encode(encoding)`. -/
def encodeText (encoding : Encoding) (s : List CodePoint) : Except PyError Bytes :=
  match charsOf s, encoding with
  | some cs, .utf8 => .ok (encodeUtf8 cs)
  | some cs, .utf16le => .ok (encodeUtf16le cs)
  | none, _ => .error refused

/-- `_variable`. -/
def encodeVariable (value : PyValue) (column : NativeWireColumnLayout) (remaining : ℤ) :
    Except PyError Bytes := do
  let _ ← nativeValueSize py value column remaining
  if octets column.storageType then
    match value with
    | .bytes b => return b
    | _ => .error .typeError
  else
    match value with
    | .text s => encodeText (column.encoding.getD .utf8) s
    | _ => .error .typeError

/-- The integer branch: a `bit` is 0, 1, False or True, every other type takes plain integers. -/
def encodeInteger (value : PyValue) (column : NativeWireColumnLayout) : Except PyError Bytes :=
  let width := column.fixedLength.getD 1
  let width := if width = 0 then 1 else width
  match column.storageType, value with
  | .bit, .bool b => toBytes width false b.toNat
  | .bit, .int n => if n = 0 ∨ n = 1 then toBytes width false n else .error refused
  | .tinyint, .int n => toBytes width false n
  | _, .int n => toBytes width true n
  | _, _ => .error refused

/-- The float branch: finite, and unchanged by the width it is packed in. -/
def encodeFloat (value : PyValue) (column : NativeWireColumnLayout) : Except PyError Bytes :=
  match value with
  | .float value => do
    raiseIf (¬ double.finite value.val) refused
    if column.fixedLength = some 4 then
      let payload ← packSingle value
      let unpacked ← unpackSingle payload
      raiseIf (¬ floatEq unpacked.val value.val) refused
      return payload
    else
      let payload ← packDouble value
      let unpacked ← unpackDouble payload
      raiseIf (¬ floatEq unpacked.val value.val) refused
      return payload
  | _ => .error refused

/-- Whether any digit is not zero. -/
def anyDigit (digits : List (Fin 10)) : Bool := digits.any (· ≠ 0)

/-- The end of `_coefficient`: digits that need no rounding, shifted left. -/
def shifted (negative : Bool) (digits : List (Fin 10)) (shift precision : ℕ) : Except PyError ℤ :=
  if precision < digits.length + shift then .error refused
  else .ok ((if negative then -1 else 1) * spelled digits * 10 ^ shift)

/-- `_coefficient` of a decimal: the integer it is at a scale, if it is one within the precision. -/
def coefficientOf (precision scale : ℕ) : PyDecimal → Except PyError ℤ
  | .special => .error refused
  | .finite negative digits exponent =>
    let shift := exponent + scale
    if ¬ anyDigit digits then .ok 0
    else if shift < 0 then
      let cut := (-shift).toNat
      if digits.length ≤ cut ∨ anyDigit (digits.drop (digits.length - cut)) then .error refused
      else shifted negative (digits.take (digits.length - cut)) 0 precision
    else shifted negative digits shift.toNat precision

/-- `_coefficient`. -/
def coefficient (value : PyValue) (precision scale : ℕ) : Except PyError ℤ :=
  match value with
  | .int n => coefficientOf precision scale (.ofInt n)
  | .decimal d => coefficientOf precision scale d
  | _ => .error refused

/-- `option or default`: zero is as good as missing. -/
def orDefault (option : Option ℕ) (default : ℕ) : ℕ :=
  match option with
  | some (n + 1) => n + 1
  | _ => default

/-- `_decimal`. -/
def encodeDecimal (value : PyValue) (column : NativeWireColumnLayout) : Except PyError Bytes :=
  if column.storageType.exact then do
    let precision := orDefault column.precision 18
    let scale := orDefault column.scale 0
    raiseIf (¬ (1 ≤ precision ∧ precision ≤ 38) ∨ ¬ scale ≤ precision) refused
    let number ← coefficient value precision scale
    let magnitude ← toBytes 16 false number.natAbs
    return UInt8.ofNat precision :: UInt8.ofNat scale ::
      (if 0 ≤ number then 1 else 0) :: magnitude
  else do
    let number ← coefficient value 19 4
    if column.storageType = .smallmoney then toBytes 4 true number
    else
      let high ← toBytes 4 true (number / 2 ^ 32)
      let low ← toBytes 4 false (number % 2 ^ 32)
      return high ++ low

/-! ### Dates and times -/

/-- `_ticks`: hundreds of nanoseconds into the day, at the declared precision. -/
def ticksOf (micros : ℕ) (submicrosecond : Option ℤ) (column : NativeWireColumnLayout) :
    Except PyError ℕ :=
  match submicrosecond with
  | none => .error refused
  | some remainder => do
    raiseIf (¬ (0 ≤ remainder ∧ remainder ≤ 9)) refused
    let ticks := micros * 10 + remainder.toNat
    let declaredScale := (declaredNumber py column.sourceType).getD 7
    raiseIf (← py.remPow10 ticks (7 - declaredScale)) refused
    return ticks

/-- Ticks of a day. -/
def dayTicks : ℕ := 864000000000

/-- The `datetimeoffset` branch: ticks and day in UTC, and the offset in minutes. -/
def encodeDatetimeoffset (value : PyDateTime) (column : NativeWireColumnLayout) :
    Except PyError Bytes :=
  match value.clock.offset with
  | none => .error refused
  | some offset => do
    raiseIf (offset % 60000000 ≠ 0 ∨ 840 * 60000000 < offset.natAbs) refused
    let localTicks ← ticksOf py value.clock.micros value.submicrosecond column
    let utc ← value.clock.toUtc
    let offsetMinutes := offset / 60000000
    let ticks := (localTicks - offsetMinutes * 600000000) % dayTicks
    let time ← toBytes 5 false ticks
    let day ← toBytes 3 false (utc.date.toordinal - 1)
    let zone ← toBytes 2 true offsetMinutes
    return time ++ day ++ zone

/-- The types without an offset: `datetime2`, `smalldatetime` and `datetime`. -/
def encodeDatetime (value : PyDateTime) (column : NativeWireColumnLayout) : Except PyError Bytes := do
  raiseIf value.aware refused
  let ticks ← ticksOf py value.clock.micros value.submicrosecond column
  let days : ℤ := value.clock.date.toordinal - sqlServerEpoch
  match column.storageType with
  | .datetime2 =>
    let time ← toBytes 5 false ticks
    let day ← toBytes 3 false (value.clock.date.toordinal - 1)
    return time ++ day
  | .smalldatetime =>
    raiseIf (ticks % 600000000 ≠ 0) refused
    let day ← toBytes 2 false days
    let minutes ← toBytes 2 false (ticks / 600000000 : ℕ)
    return day ++ minutes
  | .datetime =>
    -- only whole three-hundredths of a second, from the first year the type has
    raiseIf (value.clock.date.year < 1753 ∨ ticks * 300 % 10000000 ≠ 0) refused
    let day ← toBytes 4 true days
    let time ← toBytes 4 false (ticks * 300 / 10000000 : ℕ)
    return day ++ time
  | _ => .error (.valueError "mssql_native_unsupported_type")

/-- `_temporal`. -/
def encodeTemporal (value : PyValue) (column : NativeWireColumnLayout) : Except PyError Bytes :=
  match column.storageType, value with
  | .date, .date d => toBytes 3 false (d.toordinal - 1)
  | .date, _ => .error refused
  | .time, .time t => do
    raiseIf t.aware refused
    toBytes 5 false (← ticksOf py t.micros t.submicrosecond column)
  | .time, _ => .error refused
  | .datetimeoffset, .datetime t => encodeDatetimeoffset py t column
  | _, .datetime t => encodeDatetime py t column
  | _, _ => .error refused

/-! ### One value -/

/-- The UUID a value is or spells. -/
def identifier : PyValue → Option Uuid
  | .uuid x => some x
  | .text s => (charsOf s).bind (Uuid.ofText py.toUnicode)
  | _ => none

/-- The branches of `encode_native_value` by storage type. -/
def encodePayload (value : PyValue) (column : NativeWireColumnLayout) (remaining : ℤ) :
    Except PyError Bytes :=
  match column.storageType with
  | .varchar | .nvarchar | .char | .nchar | .binary | .varbinary =>
    encodeVariable py value column remaining
  | .bit | .tinyint | .smallint | .int | .bigint => encodeInteger value column
  | .real | .float => encodeFloat value column
  | .decimal | .numeric | .money | .smallmoney => encodeDecimal value column
  | .uniqueidentifier =>
    match identifier py value with
    | some x => .ok x.bytesLe
    | none => .error refused
  | _ => encodeTemporal py value column

/-- `encode_native_value`. A UUID is returned at once: its fixed length was held against what
    remains at the start. -/
def encodeNativeValue (value : PyValue) (column : NativeWireColumnLayout) (remaining : ℤ) :
    Except PyError Bytes := do
  raiseIf (column.fixedLength.any fun n : ℕ => remaining < n) rowBytesExceeded
  let payload ← (encodePayload py value column remaining).mapError diagnostic
  raiseIf (column.storageType ≠ .uniqueidentifier ∧ remaining < payload.length) rowBytesExceeded
  return payload

end Dpone.NativeWire
