import Dpone.NativeWire.EncoderValues

/-! The bounded encoder of native BCP rows.

    A row is a sequence in the order of the columns or a mapping with exactly their names. Each
    field is its length prefix, where the column has one, and its payload; NULL is the prefix of
    minus one. A row is encoded whole or refused. -/

namespace Dpone.NativeWire
open Dpone.Schemes

variable (py : Runtime) (digest : Digest)

/-- `MssqlNativeEncoder`, once its constructor returned. -/
structure MssqlNativeEncoder where
  contract : SourceNativeWireContract
  maxRowBytes : ℤ
  valid : validateMssqlNativeContract py digest contract = .ok ()
  positive : 0 < maxRowBytes

/-- `MssqlNativeEncoder(contract, max_row_bytes=n)`. -/
def MssqlNativeEncoder.make (contract : SourceNativeWireContract) (maxRowBytes : ℤ) :
    Except PyError (MssqlNativeEncoder py digest) :=
  match h : validateMssqlNativeContract py digest contract with
  | .error e => .error e
  | .ok () =>
    if hpos : 0 < maxRowBytes then .ok ⟨contract, maxRowBytes, h, hpos⟩
    else .error (.valueError "mssql_native_invalid_max_row_bytes")

/-- What may be handed over as a row. -/
inductive Row where
  | sequence (values : List PyValue)
  | mapping (entries : List (Str × PyValue))
  | other
  deriving DecidableEq

def columnsMismatch : PyError := .valueError "mssql_native_columns_mismatch"

def unexpectedNull : PyError := .valueError "mssql_native_unexpected_null"

/-- `_values`: the values of a row in the order of the columns. -/
def rowValues (columns : List NativeWireColumnLayout) : Row → Except PyError (List PyValue)
  | .mapping entries => do
    let keys := entries.map (·.1)
    let names := columns.map (·.name)
    raiseIf (¬ (keys ⊆ names ∧ names ⊆ keys)) columnsMismatch
    columns.mapM fun c =>
      match entries.lookup c.name with
      | some v => .ok v
      | none => .error (.keyError (String.ofList c.name))
  | .sequence values => do
    raiseIf (values.length ≠ columns.length) columnsMismatch
    return values
  | .other => .error columnsMismatch

/-! ### Encoding -/

/-- One turn of the loop of `encode_row`, `written` bytes into the row. -/
def encodeField (maxRowBytes : ℤ) (written : ℕ) (column : NativeWireColumnLayout)
    (value : PyValue) : Except PyError Bytes := do
  let remaining := maxRowBytes - written - column.prefixWidth
  raiseIf (remaining < 0) rowBytesExceeded
  if value = .none then
    raiseIf (column.nullable = false ∨ column.prefixWidth = 0) unexpectedNull
    return List.replicate column.prefixWidth 0xFF
  else
    let payload ← encodeNativeValue py value column remaining
    if column.prefixWidth ≠ 0 then
      let length ← (toBytes column.prefixWidth true payload.length).mapError
        fun _ => fieldLengthExceeded
      return length ++ payload
    else return payload

/-- The loop of `encode_row` over the columns and their values. -/
def encodeFields (maxRowBytes : ℤ) :
    List NativeWireColumnLayout → List PyValue → Bytes → Except PyError Bytes
  | c :: cs, v :: vs, result => do
    let field ← encodeField py maxRowBytes result.length c v
    encodeFields maxRowBytes cs vs (result ++ field)
  | _, _, result => .ok result

/-- `encode_row`. -/
def MssqlNativeEncoder.encodeRow (encoder : MssqlNativeEncoder py digest) (row : Row) :
    Except PyError Bytes := do
  let values ← rowValues encoder.contract.columns row
  encodeFields py encoder.maxRowBytes encoder.contract.columns values []

/-! ### Sizes -/

/-- One turn of the loop of `encoded_row_size`. -/
def sizeField (maxRowBytes : ℤ) (total : ℕ) (column : NativeWireColumnLayout) (value : PyValue) :
    Except PyError ℕ := do
  let total := total + column.prefixWidth
  raiseIf (maxRowBytes < total) rowBytesExceeded
  if value = .none then
    raiseIf (column.nullable = false ∨ column.prefixWidth = 0) unexpectedNull
    return total
  else
    let size ← nativeValueSize py value column (maxRowBytes - total)
    return total + size

/-- The loop of `encoded_row_size`. -/
def sizeFields (maxRowBytes : ℤ) :
    List NativeWireColumnLayout → List PyValue → ℕ → Except PyError ℕ
  | c :: cs, v :: vs, total => do
    let total ← sizeField py maxRowBytes total c v
    sizeFields maxRowBytes cs vs total
  | _, _, total => .ok total

/-- `encoded_row_size`. -/
def MssqlNativeEncoder.encodedRowSize (encoder : MssqlNativeEncoder py digest) (row : Row) :
    Except PyError ℕ := do
  let values ← rowValues encoder.contract.columns row
  sizeFields py encoder.maxRowBytes encoder.contract.columns values 0

/-! ### What an encoded field is -/

/-- The bytes of a payload in its field. -/
def framed (column : NativeWireColumnLayout) (payload : Bytes) : Bytes :=
  if column.prefixWidth ≠ 0 then toLESigned column.prefixWidth payload.length ++ payload
  else payload

/-- A field is NULL, where the column has room to say so, or the framed payload of a value. -/
theorem encodeField_ok {maxRowBytes : ℤ} {written : ℕ} {column : NativeWireColumnLayout}
    {value : PyValue} {field : Bytes} (h : encodeField py maxRowBytes written column value = .ok field) :
    (value = .none ∧ column.nullable = true ∧ column.prefixWidth ≠ 0 ∧
      field = List.replicate column.prefixWidth 0xFF) ∨
    ∃ payload, value ≠ .none ∧
      encodeNativeValue py value column (maxRowBytes - written - column.prefixWidth) = .ok payload ∧
      (column.prefixWidth ≠ 0 → 2 * (payload.length : ℤ) < 256 ^ column.prefixWidth) ∧
      field = framed column payload := by
  unfold encodeField at h
  obtain ⟨⟨⟩, -, h⟩ := bind_ok.mp h
  split_ifs at h with hnull hframe
  · obtain ⟨⟨⟩, hroom, h⟩ := bind_ok.mp h
    obtain ⟨hnullable, hwidth⟩ := not_or.mp (raiseIf_ok.mp hroom)
    cases h
    exact .inl ⟨hnull, by simpa using hnullable, hwidth, rfl⟩
  · obtain ⟨payload, hpayload, h⟩ := bind_ok.mp h
    obtain ⟨length, hlength, h⟩ := bind_ok.mp h
    cases h
    unfold toBytes at hlength
    rw [if_pos rfl] at hlength
    split_ifs at hlength with hfits
    · cases hlength
      exact .inr ⟨payload, hnull, hpayload, fun _ => hfits.2, by rw [framed, if_pos hframe]⟩
    · cases hlength
  · obtain ⟨payload, hpayload, h⟩ := bind_ok.mp h
    cases h
    exact .inr ⟨_, hnull, hpayload, fun hne => absurd hne hframe, by rw [framed, if_neg hframe]⟩

end Dpone.NativeWire
