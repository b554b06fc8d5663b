import Dpone.Schemes.Python

/-! Native BCP column layouts and the two validators that admit them.

    `_layout` is the producer's authority: it derives the physical framing of a column from its
    declared source type. The core validator compares a stored layout with what it would derive
    again; the accelerator, a separate package, recomputes each fact on its own. -/

namespace Dpone.NativeWire
open Dpone.Schemes

/-- Storage types a layout may name. -/
inductive Storage where
  | bit | tinyint | smallint | int | bigint | real | float | money | smallmoney
  | date | datetime | smalldatetime | uniqueidentifier | decimal | numeric
  | time | datetime2 | datetimeoffset
  | char | varchar | nchar | nvarchar | binary | varbinary
  | unsupported
  deriving DecidableEq, Repr

namespace Storage

def name : Storage → String
  | bit => "bit" | tinyint => "tinyint" | smallint => "smallint" | int => "int"
  | bigint => "bigint" | real => "real" | float => "float" | money => "money"
  | smallmoney => "smallmoney" | date => "date" | datetime => "datetime"
  | smalldatetime => "smalldatetime" | uniqueidentifier => "uniqueidentifier"
  | decimal => "decimal" | numeric => "numeric" | time => "time" | datetime2 => "datetime2"
  | datetimeoffset => "datetimeoffset" | char => "char" | varchar => "varchar" | nchar => "nchar"
  | nvarchar => "nvarchar" | binary => "binary" | varbinary => "varbinary"
  | unsupported => "unsupported"

/-- The admitted roots, in the order of the width tables. -/
def admitted : List Storage :=
  [bit, tinyint, smallint, int, bigint, real, float, money, smallmoney, date, datetime,
    smalldatetime, uniqueidentifier, decimal, numeric, time, datetime2, datetimeoffset, char,
    varchar, nchar, nvarchar, binary, varbinary]

/-- The storage type a root spells, `unsupported` for every other text. -/
def ofName (s : Str) : Storage := (admitted.find? fun t => t.name.toList = s).getD unsupported

theorem ofName_name : ∀ t ∈ admitted, ofName t.name.toList = t := by decide

theorem name_of_ofName {s : Str} {t : Storage} (h : ofName s = t) (ht : t ≠ unsupported) :
    s = t.name.toList := by
  unfold ofName at h
  cases hf : admitted.find? fun t => decide (t.name.toList = s) with
  | none => rw [hf] at h; exact absurd h.symm ht
  | some x =>
    rw [hf] at h
    have := List.find?_some hf
    simp only [decide_eq_true_eq] at this
    rw [← this, show x = t from h]

/-- `time`, `datetime2`, `datetimeoffset`. -/
def temporal : Storage → Bool
  | time | datetime2 | datetimeoffset => true
  | _ => false

/-- `_VARIABLE`: types framed by a length prefix. -/
def variableLength : Storage → Bool
  | char | varchar | nchar | nvarchar | binary | varbinary => true
  | _ => false

/-- `decimal` and `numeric`. -/
def exact : Storage → Bool
  | decimal | numeric => true
  | _ => false

/-- Types read as UTF-16. -/
def national : Storage → Bool
  | nchar | nvarchar => true
  | _ => false

/-- `_FIXED_WIDTHS`. -/
def fixedWidth : Storage → Option ℕ
  | bit => some 1 | tinyint => some 1 | smallint => some 2 | int => some 4 | bigint => some 8
  | real => some 4 | float => some 8 | money => some 8 | smallmoney => some 4 | date => some 3
  | datetime => some 8 | smalldatetime => some 4 | uniqueidentifier => some 16
  | decimal => some 19 | numeric => some 19
  | _ => none

/-- `_ALWAYS_PREFIXED`. -/
def alwaysPrefixed : Storage → Bool
  | bit | uniqueidentifier | decimal | numeric => true
  | _ => false

end Storage

inductive Encoding where
  | utf8 | utf16le
  deriving DecidableEq, Repr

/-- Physical layout for one source-native column. Sizes are naturals: both validators compare them
    to counts parsed from digits, so a negative one is never accepted. -/
structure NativeWireColumnLayout where
  name : Str
  sourceType : Str
  targetType : Str
  nullable : Bool
  storageType : Storage
  prefixWidth : ℕ := 0
  fixedLength : Option ℕ := none
  precision : Option ℕ := none
  scale : Option ℕ := none
  encoding : Option Encoding := none
  deriving DecidableEq

variable (py : Runtime)

/-! ### Reading the declared type -/

/-- What follows a match of `\s+nullable\b` at the start of the text. -/
def nullableWord : Str → Option Str
  | [] => none
  | c :: cs =>
    let t := blanks py.toUnicode cs
    if py.isSpace c ∧ "nullable".toList.isPrefixOf t ∧ ¬ (t.drop 8).head?.any py.isWord then
      some (t.drop 8)
    else none

/-- Deleting every match from left to right; the counter runs over the text of a match. -/
def dropNullable : ℕ → Str → Str
  | _, [] => []
  | skip + 1, _ :: cs => dropNullable skip cs
  | 0, c :: cs =>
    match nullableWord py (c :: cs) with
    | some r => dropNullable (cs.length - r.length) cs
    | none => c :: dropNullable 0 cs

/-- `_normalize_type`. -/
def normalizeType (dtype : Str) : Str := dropNullable py 0 (py.lower (strip py.toUnicode dtype))

/-- `_root`. -/
def rootOf (dtype : Str) : Str := strip py.toUnicode (beforeParen dtype)

/-- `_is_nullable`. -/
def isNullable (dtype : Str) : Bool :=
  contains "nullable".toList (py.lower dtype) ||
    "null".toList.isPrefixOf (py.lower (strip py.toUnicode dtype))

/-- `_precision_scale`. -/
def precisionScale (dtype : Str) : Option ℕ × Option ℕ :=
  match search (parenPair py.toUnicode) dtype with
  | some (p, s) => (some p, some s)
  | none =>
    let single := search (parenNumber py.toUnicode) dtype
    let root := Storage.ofName (rootOf py dtype)
    if root.exact then (some (single.getD 18), some 0)
    else if root = .float ∧ single.isSome then (single, none)
    else if root.temporal ∧ single.isSome then (none, single)
    else (none, none)

/-! ### The producer's layout -/

/-- `time_length`. -/
def timeLength (scale : ℕ) : Except PyError ℕ :=
  if scale ≤ 7 then .ok (if scale ≤ 2 then 3 else if scale ≤ 4 then 4 else 5)
  else .error (.valueError "native_wire_invalid_layout:temporal_scale")

/-- Bytes a temporal type stores besides its time of day. -/
def temporalExtra : Storage → ℕ
  | .datetime2 => 3
  | .datetimeoffset => 5
  | _ => 0

/-- `fixed_length`. -/
def fixedLength (storage : Storage) (scale precision : Option ℕ) : Except PyError (Option ℕ) :=
  match storage, precision with
  | .float, some p =>
    if 1 ≤ p ∧ p ≤ 53 then .ok (some (if p ≤ 24 then 4 else 8))
    else .error (.valueError "native_wire_invalid_layout:float_precision")
  | storage, _ =>
    match storage.fixedWidth with
    | some w => .ok (some w)
    | none =>
      if storage.temporal then do
        let t ← timeLength (scale.getD 7)
        return some (t + temporalExtra storage)
      else .ok none

/-- `native_prefix_width`. -/
def nativePrefixWidth (storage : Storage) (nullable : Bool) : ℕ :=
  if nullable || storage.alwaysPrefixed then 1 else 0

/-- Native BCP stores 100ns units at every declared scale the time length admits. -/
def physicalScale (root : Storage) (scale : Option ℕ) : Except PyError (Option ℕ) := do
  if root.temporal then
    let _ ← timeLength (scale.getD 7)
    return some 7
  else return scale

/-- `_layout`. The target type is what the type mapper resolves; it plays no part in the framing. -/
def layoutOf (name dtype targetType : Str) : Except PyError NativeWireColumnLayout := do
  let normalized := normalizeType py dtype
  let root := Storage.ofName (rootOf py normalized)
  let nullable := isNullable py dtype
  let (precision, scale) := precisionScale py normalized
  let scale ← physicalScale root scale
  if root.variableLength ∧ ¬ (root = .char ∧ nullable = false) then
    return {
      name := name, sourceType := dtype, targetType := targetType, nullable := nullable,
      storageType := root,
      prefixWidth := if contains "max".toList normalized then 8 else 2,
      encoding := some (if root.national then .utf16le else .utf8) }
  match ← fixedLength root scale precision with
  | some fixed =>
    return {
      name := name, sourceType := dtype, targetType := targetType, nullable := nullable,
      storageType := root, prefixWidth := nativePrefixWidth root nullable,
      fixedLength := some fixed, precision := precision, scale := scale }
  | none =>
    return {
      name := name, sourceType := dtype, targetType := targetType, nullable := nullable,
      storageType := .unsupported }

/-! ### The core validator -/

/-- The framing facts `validate_mssql_native_contract` compares. -/
def sameFraming (column expected : NativeWireColumnLayout) : Bool :=
  column.nullable = expected.nullable ∧ column.storageType = expected.storageType ∧
  column.prefixWidth = expected.prefixWidth ∧ column.fixedLength = expected.fixedLength ∧
  column.precision = expected.precision ∧ column.scale = expected.scale ∧
  column.encoding = expected.encoding

/-- One turn of the column loop of `validate_mssql_native_contract`. -/
def validateLayout (ordinal : ℕ) (column : NativeWireColumnLayout) : Except PyError Unit := do
  let expected ← layoutOf py column.name column.sourceType column.targetType
  if expected.storageType = .unsupported ∨ ¬ sameFraming column expected then
    .error (.valueError s!"native_wire_invalid_layout:ordinal={ordinal}:re_export_required")
  else .ok ()

/-! ### The accelerator's validator -/

/-- Precision and scale as `validate_column` derives them, before the scale check. -/
def columnPrecisionScale (source : Str) (storage : Storage) : Option ℕ × Option ℕ :=
  let single := search (parenNumber py.toUnicode) source
  match search (parenPair py.toUnicode) source with
  | some (p, s) => (some p, some s)
  | none =>
    if storage.exact then (some (single.getD 18), some 0)
    else if storage = .float ∧ single.isSome then (single, none)
    else if storage.temporal ∧ single.isSome then (none, single)
    else (none, none)

/-- `validate_column`: primitives and the admitted native framing profile. -/
def validateColumn (raw : NativeWireColumnLayout) : Except PyError Unit := do
  raiseIf (raw.name = [] ∨ raw.sourceType = [] ∨ raw.targetType = [])
    (.valueError "native_wire_invalid_layout:column_identity")
  let source := normalizeType py raw.sourceType
  let storage := Storage.ofName (rootOf py source)
  let nullable := contains "nullable".toList (py.lower raw.sourceType)
  raiseIf (storage = .char ∧ nullable = false)
    (.valueError
      "native_wire_unsupported_unprefixed_char:use_row_stream_or_nullable_projection")
  raiseIf (raw.storageType ≠ storage ∨ raw.nullable ≠ nullable)
    (.valueError "native_wire_invalid_layout:source_type")
  let (precision, scale) := columnPrecisionScale py source storage
  raiseIf (storage.temporal ∧ 7 < scale.getD 7)
    (.valueError "native_wire_invalid_layout:scale")
  let scale := if storage.temporal then some 7 else scale
  let encoding := if storage.variableLength then
    some (if storage.national then Encoding.utf16le else .utf8) else none
  raiseIf (raw.precision ≠ precision ∨ raw.scale ≠ scale ∨ raw.encoding ≠ encoding)
    (.valueError "native_wire_invalid_layout:metadata")
  raiseIf (storage = .float ∧ ¬ (1 ≤ precision.getD 1 ∧ precision.getD 1 ≤ 53))
    (.valueError "native_wire_invalid_layout:float_precision")
  let width :=
    if storage = .float ∧ precision.isSome then some (if precision.getD 1 ≤ 24 then 4 else 8)
    else storage.fixedWidth
  let declared := raw.scale.getD 7
  raiseIf (storage.temporal ∧ 7 < declared)
    (.valueError "native_wire_invalid_layout:scale")
  let width := if storage.temporal then
    some ((if declared ≤ 2 then 3 else if declared ≤ 4 then 4 else 5) + temporalExtra storage)
    else width
  raiseIf (¬ storage.variableLength ∧ width = none)
    (.valueError "native_wire_invalid_layout:unsupported_type")
  let framing := if storage.variableLength then (if contains "max".toList source then 8 else 2)
    else if nullable || storage.alwaysPrefixed then 1 else 0
  raiseIf (raw.prefixWidth ≠ framing ∨ raw.fixedLength ≠ width)
    (.valueError "native_wire_invalid_layout:framing:re_export_required")

/-! ### Target mappings -/

/-- The target root as both validators read it: lower-cased first, cut at the first parenthesis,
    never stripped inside `Nullable(`. -/
def targetRoot (target : Str) : Str :=
  let value := py.lower (strip py.toUnicode target)
  let inner := if "nullable(".toList.isPrefixOf value ∧ [')'].isSuffixOf value then
    (value.drop 9).dropLast else value
  beforeParen inner

def integerTargets : List String :=
  ["int8", "uint8", "int16", "uint16", "int32", "uint32", "int64", "uint64"]

/-- The implemented target families of a storage type. -/
def allowedTargets (storage : Storage) (fixedLength : Option ℕ) : List String :=
  match storage with
  | .bit => "bool" :: integerTargets
  | .tinyint | .smallint | .int | .bigint => integerTargets
  | .real | .float => if fixedLength = some 4 then ["float64", "float32"] else ["float64"]
  | .money | .smallmoney | .decimal | .numeric => ["decimal"]
  | .uniqueidentifier => ["uuid"]
  | .date => ["date", "date32"]
  | .datetime | .smalldatetime | .datetime2 => ["datetime", "datetime64"]
  | .datetimeoffset => ["datetime64", "string"]
  | .time => ["string", "uint32"]
  | _ => ["string", "fixedstring"]

/-- `validate_target`, and one turn of the loop of `validate_target_schema`. -/
def validateTarget (raw : NativeWireColumnLayout) (target : Str) : Except PyError Unit :=
  if targetRoot py target ∈ (allowedTargets raw.storageType raw.fixedLength).map String.toList then
    .ok ()
  else .error (.valueError "native_wire_unsupported_target_mapping")

inductive BinaryEncoding where
  | none | hex | base64
  deriving DecidableEq, Repr

/-- The accelerator's column. -/
structure ColumnLayout where
  name : Str
  storageType : Storage
  clickhouseType : Str
  nullable : Bool
  prefixWidth : ℕ
  fixedLength : Option ℕ
  precision : Option ℕ
  scale : Option ℕ
  encoding : Encoding
  binaryEncoding : BinaryEncoding
  sourceType : Str
  deriving DecidableEq

/-- `ColumnLayout.from_contract`; an empty target type falls back on the layout's own. -/
def ColumnLayout.fromContract (raw : NativeWireColumnLayout) (targetType : Option Str)
    (binaryEncoding : BinaryEncoding) : Except PyError ColumnLayout := do
  let target := match targetType with
    | some (c :: cs) => c :: cs
    | _ => raw.targetType
  validateColumn py raw
  validateTarget py raw target
  return {
    sourceType := raw.sourceType, name := raw.name, storageType := raw.storageType,
    clickhouseType := target, nullable := raw.nullable, prefixWidth := raw.prefixWidth,
    fixedLength := raw.fixedLength, precision := raw.precision, scale := raw.scale,
    encoding := raw.encoding.getD .utf8, binaryEncoding := binaryEncoding }

/-! ### Whole contracts -/

/-- Contract required to decode a source-native bulk artifact. -/
structure SourceNativeWireContract where
  schemaVersion : Str
  sourceSystem : Str
  sourceFormat : Str
  targetFormat : Str
  columns : List NativeWireColumnLayout
  schemaHash : Str
  typeLayoutHash : Str
  blockers : List Str

/-- `stable_hash` of the column dictionaries and of the (name, source type) pairs: sha256 of a
    `repr`, computed alike in both packages. -/
structure Digest where
  layouts : List NativeWireColumnLayout → Str
  schema : List (Str × Str) → Str

variable (digest : Digest)

def nativeWireVersion : Str := "dpone.native_transfer.native_wire.v1".toList

/-- The column loop of `validate_mssql_native_contract`. -/
def validateLayouts : ℕ → List NativeWireColumnLayout → Except PyError Unit
  | _, [] => .ok ()
  | ordinal, c :: cs => do
    validateLayout py ordinal c
    validateLayouts (ordinal + 1) cs

/-- `validate_mssql_native_contract`. -/
def validateMssqlNativeContract (c : SourceNativeWireContract) : Except PyError Unit := do
  raiseIf (c.schemaVersion ≠ nativeWireVersion ∨ c.sourceSystem ≠ "mssql".toList ∨
      c.sourceFormat ≠ "mssql-bcp-native".toList ∨ c.blockers ≠ [] ∨ c.columns = [])
    (.valueError "native_wire_invalid_layout:profile_or_columns:re_export_required")
  let names := c.columns.map (·.name)
  raiseIf ([] ∈ names ∨ ¬ names.Nodup)
    (.valueError "native_wire_invalid_layout:column_identity")
  validateLayouts py 0 c.columns
  raiseIf (c.typeLayoutHash ≠ digest.layouts c.columns)
    (.valueError "native_wire_invalid_layout:hash:re_export_required")
  raiseIf (c.schemaHash ≠ digest.schema (c.columns.map fun col => (col.name, col.sourceType)))
    (.valueError "native_wire_invalid_layout:schema_hash:re_export_required")

/-- The column loop of the accelerator's `validate_contract`. -/
def validateColumns : List NativeWireColumnLayout → Except PyError Unit
  | [] => .ok ()
  | c :: cs => do
    validateColumn py c
    validateColumns cs

/-- `validate_contract`. -/
def validateContract (c : SourceNativeWireContract) : Except PyError Unit := do
  raiseIf (c.schemaVersion ≠ nativeWireVersion ∨ c.sourceFormat ≠ "mssql-bcp-native".toList ∨
      c.sourceSystem ≠ "mssql".toList ∨ c.targetFormat ≠ "Native".toList ∨ c.blockers ≠ [])
    (.valueError "native_wire_invalid_layout:profile:re_export_required")
  raiseIf (c.columns = []) (.valueError "native_wire_invalid_layout:columns")
  validateColumns py c.columns
  raiseIf (¬ (c.columns.map (·.name)).Nodup)
    (.valueError "native_wire_invalid_layout:duplicate_columns")
  raiseIf (digest.layouts c.columns ≠ c.typeLayoutHash ∨
      digest.schema (c.columns.map fun col => (col.name, col.sourceType)) ≠ c.schemaHash)
    (.valueError "native_wire_invalid_layout:hash:re_export_required")

/-- The columns of `from_request`, each with the target type at its position if there is one. -/
def columnsFromContract (enc : BinaryEncoding) :
    List NativeWireColumnLayout → List Str → Except PyError (List ColumnLayout)
  | [], _ => .ok []
  | raw :: raws, targets => do
    let column ← ColumnLayout.fromContract py raw targets.head? enc
    let columns ← columnsFromContract enc raws targets.tail
    return column :: columns

/-- `MssqlBcpClickHouseNativeBackend.from_request`, as far as the columns go. -/
def columnsFromRequest (contract : SourceNativeWireContract) (clickhouseSchema : List (Str × Str))
    (enc : BinaryEncoding) : Except PyError (List ColumnLayout) := do
  validateContract py digest contract
  raiseIf (clickhouseSchema ≠ [] ∧
      clickhouseSchema.map (·.1) ≠ contract.columns.map (·.name))
    (.valueError "native_wire_invalid_layout:target_columns")
  columnsFromContract py enc contract.columns (clickhouseSchema.map (·.2))

end Dpone.NativeWire
