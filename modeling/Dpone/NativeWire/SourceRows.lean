import Dpone.NativeWire.RoundTrip

/-! Rows on their way from the driver to the frames.

    A driver may hand over buffers that it fills again, so that a row is detached before it is kept.
    A row that the source adapter sized carries its size as a reservation, bound to the contract
    object and to the row limit that it was sized under. -/

namespace Dpone.NativeWire
open Dpone.Schemes

variable (py : Runtime) (digest : Digest)

/-- What a driver puts into a row: a value, or a `bytearray` or `memoryview` over some bytes. -/
inductive SourceValue where
  | plain (value : PyValue)
  | buffer (content : Bytes)
  deriving DecidableEq

/-- `freeze`. -/
def freeze : SourceValue → PyValue
  | .plain value => value
  | .buffer content => .bytes content

/-- A value as it is sized without being frozen: a buffer has none of the types that are encoded. -/
def unfrozen : SourceValue → PyValue
  | .plain value => value
  | .buffer _ => .other

/-- What a driver hands over as a row. -/
inductive SourceRow where
  | mapping (entries : List (Str × SourceValue))
  | iterable (values : List SourceValue)
  | other
  deriving DecidableEq

/-- The copy of a row that is kept. -/
def SourceRow.detached : SourceRow → Except PyError Row
  | .mapping entries => .ok (.mapping (entries.map fun entry => (entry.1, freeze entry.2)))
  | .iterable values => .ok (.sequence (values.map freeze))
  | .other => .error .typeError

/-- Where a contract object is; two names of one object are the same reference. -/
abbrev ContractRef := ℕ

/-- `_SizedNativeRow`. -/
structure SizedNativeRow where
  values : List SourceValue
  contract : ContractRef
  maxRowBytes : ℕ
  encodedBytes : ℕ
  deriving DecidableEq

variable (contracts : ContractRef → SourceNativeWireContract)

/-- The size of a reservation is that of its values, under its contract and limit. -/
def SizedNativeRow.Exact (r : SizedNativeRow) : Prop :=
  ∃ encoder, MssqlNativeEncoder.make py digest (contracts r.contract) r.maxRowBytes = .ok encoder ∧
    encoder.encodedRowSize py digest (.sequence (r.values.map unfrozen)) = .ok r.encodedBytes

/-! ### The adapter -/

def sourceColumnsMismatch : PyError := .valueError "mssql_native.source_columns_mismatch"

/-- Storage types that hold text. -/
def textual : Storage → Bool
  | .nvarchar | .nchar | .varchar | .char => true
  | _ => false

/-- One turn of the loop over the values of a row: bytes of a text column are decoded, within what
    is left of the budget. -/
def adaptValue (maxRowBytes : ℕ) (decodeBudget : ℤ) (column : NativeWireColumnLayout) :
    SourceValue → Except PyError (SourceValue × ℤ)
  | .plain (.bytes value) =>
    if textual column.storageType then do
      let sourceBound : ℤ := if column.storageType.national then (maxRowBytes * 3 / 2 : ℕ)
        else maxRowBytes
      raiseIf (min sourceBound decodeBudget < value.length) rowBytesExceeded
      match decodeUtf8 value with
      | some text => return (.plain (.text (textOf text)), decodeBudget - value.length)
      | none => .error (.valueError "mssql_native.invalid_utf8_source_text")
    else .ok (.plain (.bytes value), decodeBudget)
  | value => .ok (value, decodeBudget)

/-- The loop over the values of a row. -/
def adaptValues (maxRowBytes : ℕ) :
    List NativeWireColumnLayout → List SourceValue → ℤ → Except PyError (List SourceValue)
  | c :: cs, v :: vs, decodeBudget => do
    let (adapted, left) ← adaptValue maxRowBytes decodeBudget c v
    let rest ← adaptValues maxRowBytes cs vs left
    return adapted :: rest
  | _, _, _ => .ok []

/-- The values of a source row in the order of the columns. -/
def sourceValues (columns : List NativeWireColumnLayout) :
    SourceRow → Except PyError (List SourceValue)
  | .mapping entries => do
    let keys := entries.map (·.1)
    let names := columns.map (·.name)
    raiseIf (¬ (keys ⊆ names ∧ names ⊆ keys)) sourceColumnsMismatch
    columns.mapM fun c =>
      match entries.lookup c.name with
      | some v => .ok v
      | none => .error (.keyError (String.ofList c.name))
  | .iterable values => .ok values
  | .other => .error .typeError

/-- One turn of `_sized_native_source_rows`. -/
def sizedSourceRow (contract : ContractRef) (maxRowBytes : ℕ) (row : SourceRow) :
    Except PyError SizedNativeRow := do
  let encoder ← MssqlNativeEncoder.make py digest (contracts contract) maxRowBytes
  let columns := (contracts contract).columns
  let values ← sourceValues columns row
  raiseIf (values.length ≠ columns.length) sourceColumnsMismatch
  let normalized ← adaptValues maxRowBytes columns values (maxRowBytes * 3 / 2 : ℕ)
  let size ← encoder.encodedRowSize py digest (.sequence (normalized.map unfrozen))
  return ⟨normalized, contract, maxRowBytes, size⟩

variable {py digest contracts}

/-- INVARIANT: the adapter reserves the exact size of a row. -/
theorem sizedSourceRow_exact {contract : ContractRef} {maxRowBytes : ℕ} {row : SourceRow}
    {r : SizedNativeRow} (h : sizedSourceRow py digest contracts contract maxRowBytes row = .ok r) :
    r.Exact py digest contracts ∧ r.contract = contract ∧ r.maxRowBytes = maxRowBytes := by
  obtain ⟨encoder, hmake, h⟩ := bind_ok.mp h
  obtain ⟨values, -, h⟩ := bind_ok.mp h
  obtain ⟨⟨⟩, -, h⟩ := bind_ok.mp h
  obtain ⟨normalized, -, h⟩ := bind_ok.mp h
  obtain ⟨size, hsize, h⟩ := bind_ok.mp h
  cases h
  exact ⟨⟨encoder, hmake, hsize⟩, rfl, rfl⟩

/-! ### Sizes of frozen rows -/

/-- A buffer is sized by its column alone, and so are the bytes that it freezes to. -/
theorem sizeField_freeze {maxRowBytes : ℤ} {total n : ℕ} {c : NativeWireColumnLayout}
    {value : SourceValue} (h : sizeField py maxRowBytes total c (unfrozen value) = .ok n) :
    sizeField py maxRowBytes total c (freeze value) = .ok n := by
  cases value with
  | plain value => exact h
  | buffer content =>
    obtain ⟨⟨⟩, hroom, h⟩ := bind_ok.mp h
    rw [if_neg nofun] at h
    obtain ⟨size, hsize, h⟩ := bind_ok.mp h
    rw [sizeField, hroom, ok_bind, freeze, if_neg nofun]
    unfold nativeValueSize at hsize ⊢
    cases hfixed : c.fixedLength with
    | some width =>
      rw [hfixed] at hsize
      rw [hsize]
      exact h
    | none =>
      -- neither bytes nor text, it has no size in a column without a fixed one
      rw [hfixed] at hsize
      obtain ⟨raw, hraw, -⟩ := bind_ok.mp hsize
      unfold variableSize at hraw
      split_ifs at hraw <;> cases hraw

theorem sizeFields_freeze {maxRowBytes : ℤ} : ∀ {cs : List NativeWireColumnLayout}
    {values : List SourceValue} {total n : ℕ},
    sizeFields py maxRowBytes cs (values.map unfrozen) total = .ok n →
      sizeFields py maxRowBytes cs (values.map freeze) total = .ok n
  | [], [], _, _, h | [], _ :: _, _, _, h | _ :: _, [], _, _, h => h
  | c :: cs, v :: vs, total, n, h => by
    obtain ⟨next, hfield, h⟩ := bind_ok.mp h
    rw [List.map_cons, sizeFields, sizeField_freeze hfield]
    exact sizeFields_freeze h

theorem encodedRowSize_freeze {encoder : MssqlNativeEncoder py digest} {values : List SourceValue}
    {n : ℕ} (h : encoder.encodedRowSize py digest (.sequence (values.map unfrozen)) = .ok n) :
    encoder.encodedRowSize py digest (.sequence (values.map freeze)) = .ok n := by
  obtain ⟨vs, hvalues, h⟩ := bind_ok.mp h
  obtain ⟨⟨⟩, hlength, hvs⟩ := bind_ok.mp hvalues
  cases hvs
  rw [List.length_map] at hlength
  rw [MssqlNativeEncoder.encodedRowSize, rowValues, List.length_map, hlength]
  exact sizeFields_freeze h

/-- A reservation of a row is what sizing its frozen values again comes to. -/
theorem SizedNativeRow.Exact.resized {r : SizedNativeRow} (h : r.Exact py digest contracts)
    {encoder : MssqlNativeEncoder py digest}
    (hmake : MssqlNativeEncoder.make py digest (contracts r.contract) r.maxRowBytes = .ok encoder) :
    encoder.encodedRowSize py digest (.sequence (r.values.map freeze)) = .ok r.encodedBytes := by
  obtain ⟨encoder', hmake', hsize⟩ := h
  rw [hmake] at hmake'
  cases hmake'
  exact encodedRowSize_freeze hsize

/-! ### A row is no longer than its limit -/

theorem nativeValueSize_le {value : PyValue} {c : NativeWireColumnLayout} {remaining : ℤ} {n : ℕ}
    (h : nativeValueSize py value c remaining = .ok n) : (n : ℤ) ≤ remaining := by
  unfold nativeValueSize at h
  cases hfixed : c.fixedLength with
  | some width =>
    rw [hfixed] at h
    obtain ⟨⟨⟩, hroom, h⟩ := bind_ok.mp h
    cases h
    exact not_lt.mp (raiseIf_ok.mp hroom)
  | none =>
    rw [hfixed] at h
    obtain ⟨size, -, h⟩ := bind_ok.mp h
    obtain ⟨⟨⟩, hroom, h⟩ := bind_ok.mp h
    obtain ⟨⟨⟩, -, h⟩ := bind_ok.mp h
    obtain ⟨⟨⟩, -, h⟩ := bind_ok.mp h
    cases h
    exact not_lt.mp (raiseIf_ok.mp hroom)

theorem sizeField_le {maxRowBytes : ℤ} {total n : ℕ} {c : NativeWireColumnLayout} {value : PyValue}
    (h : sizeField py maxRowBytes total c value = .ok n) : (n : ℤ) ≤ maxRowBytes := by
  obtain ⟨⟨⟩, hroom, h⟩ := bind_ok.mp h
  have hprefix := not_lt.mp (raiseIf_ok.mp hroom)
  split_ifs at h
  · obtain ⟨⟨⟩, -, h⟩ := bind_ok.mp h
    cases h
    exact hprefix
  · obtain ⟨size, hsize, h⟩ := bind_ok.mp h
    have hle := nativeValueSize_le hsize
    cases h
    push_cast at hle ⊢
    omega

theorem sizeFields_le {maxRowBytes : ℤ} : ∀ {cs : List NativeWireColumnLayout} {vs : List PyValue}
    {total n : ℕ}, (total : ℤ) ≤ maxRowBytes → sizeFields py maxRowBytes cs vs total = .ok n →
      (n : ℤ) ≤ maxRowBytes
  | [], _, _, _, htotal, h => by cases h; exact htotal
  | _ :: _, [], _, _, htotal, h => by cases h; exact htotal
  | c :: cs, v :: vs, _, _, _, h => by
    obtain ⟨next, hfield, h⟩ := bind_ok.mp h
    exact sizeFields_le (sizeField_le hfield) h

theorem encodedRowSize_le {encoder : MssqlNativeEncoder py digest} {row : Row} {n : ℕ}
    (h : encoder.encodedRowSize py digest row = .ok n) : (n : ℤ) ≤ encoder.maxRowBytes := by
  obtain ⟨vs, -, h⟩ := bind_ok.mp h
  exact sizeFields_le encoder.positive.le h

end Dpone.NativeWire
