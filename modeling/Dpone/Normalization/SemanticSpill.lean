import Dpone.Schemes.Delimited
import Dpone.Schemes.FloatHex
import Dpone.Schemes.IsoText
import Dpone.Schemes.JsonRoundTrip

/-! The row codec of nested spill files.

    A row is written as one line of JSON, with every value next to a tag of its Python type, so that
    reading the line gives the same types again. The reader takes any line of the schema whose
    values convert. -/

namespace Dpone.Normalization
open Dpone.Schemes

/-! ### Values -/

/-- A key of a mapping or the name of a column: a text, or not. -/
inductive SpillKey where
  | text (s : PyText)
  | other
  deriving DecidableEq

/-- A value as its first matching type in the order in which the encoder asks. -/
inductive SpillValue where
  | none
  | bool (b : Bool)
  | int (n : ℤ)
  | float (f : PyFloat)
  | timestamp (t : DateTime)
  | date (d : Date)
  | text (s : PyText)
  | bytes (b : Bytes)
  | list (items : List SpillValue)
  | mapping (entries : List (SpillKey × SpillValue))
  | other

abbrev SpillRow := List (SpillKey × SpillValue)

/-- Why a row is not written, or a line not read. -/
inductive SpillError where
  | columnName
  | objectKey
  | unsupported
  | unicodeEncode
  | json
  | schema
  | columns
  | column
  | duplicateColumn (name : PyText)
  | encodedPair
  | mappingEntry
  | duplicateKey (key : PyText)
  | invalidEncoded (kind : PyText)
  | conversion (e : PyError)
  deriving DecidableEq

/-- `_ROW_SCHEMA`. -/
def rowSchema : PyText := pyText "dpone.nested-semantic-row.v1"

/-! ### Writing -/

/-- `[kind, value]`. -/
def tagged (kind : String) (value : JsonValue) : JsonValue := .arr [.str (pyText kind), value]

mutual

/-- `_encode_value`. -/
def encodeValue : SpillValue → Except SpillError JsonValue
  | .none => .ok (tagged "null" .null)
  | .bool b => .ok (tagged "boolean" (.bool b))
  | .int n => .ok (tagged "integer" (.str (textOf (intText n))))
  | .float f => .ok (tagged "number" (.str (textOf (floatHex f))))
  | .timestamp t => .ok (tagged "timestamp" (.str (textOf (t.isoformat 'T'))))
  | .date d => .ok (tagged "date" (.str (textOf d.isoformat)))
  | .text s => .ok (tagged "string" (.str s))
  | .bytes b => .ok (tagged "bytes" (.str (textOf (hexText b))))
  | .list items => (encodeItems items).map fun encoded => tagged "list" (.arr encoded)
  | .mapping entries => (encodeEntries .objectKey entries).map fun encoded =>
      tagged "mapping" (.arr encoded)
  | .other => .error .unsupported

/-- The items of a list. -/
def encodeItems : List SpillValue → Except SpillError (List JsonValue)
  | [] => .ok []
  | item :: items => do
    let encoded ← encodeValue item
    let rest ← encodeItems items
    return encoded :: rest

/-- The entries of a mapping or the columns of a row, as pairs; `wrong` is raised for a key that is
    no text. -/
def encodeEntries (wrong : SpillError) :
    List (SpillKey × SpillValue) → Except SpillError (List JsonValue)
  | [] => .ok []
  | (.text key, value) :: entries => do
    let encoded ← encodeValue value
    let rest ← encodeEntries wrong entries
    return .arr [.str key, encoded] :: rest
  | (.other, _) :: _ => .error wrong

end

/-- What is dumped of a row. -/
def encodeRow (row : SpillRow) : Except SpillError JsonValue :=
  (encodeEntries .columnName row).map fun encodedColumns =>
    .obj [(pyText "schema", .str rowSchema), (pyText "columns", .arr encodedColumns)]

/-- `json.dumps(…)` of a document without floats, in UTF-8. -/
def writeJson (value : JsonValue) : Except SpillError Str :=
  match charsOf (value.dumps fun _ => []) with
  | some line => .ok line
  | none => .error .unicodeEncode

/-- One turn of the loop of `write_semantic_rows`. -/
def writeRow (row : SpillRow) : Except SpillError Str := do
  let line ← writeJson (← encodeRow row)
  return line ++ ['\n']

/-- `write_semantic_rows`: the text that is written. -/
def writeSemanticRows : List SpillRow → Except SpillError Str
  | [] => .ok []
  | row :: rows => do
    let line ← writeRow row
    let rest ← writeSemanticRows rows
    return line ++ rest

/-! ### Reading -/

/-- `date.fromisoformat` and `datetime.fromisoformat`, inverse to `isoformat` with any separator of
    date and time that it writes. -/
structure SpillReader extends IsoReader where
  unicode : Unicode
  datetime_isoformat_t : ∀ t : DateTime, datetime (t.isoformat 'T') = .ok t

/-- A reader of the extended format does. -/
def SpillReader.extended : SpillReader where
  toIsoReader := IsoReader.extended
  unicode := Unicode.ascii
  datetime_isoformat_t t := readIsoDateTime_isoformat 'T' t

variable (reader : SpillReader)

/-- A conversion of a text, where a lone surrogate is an error. -/
def convert {α : Type} (s : PyText) (f : Str → Except PyError α) : Except SpillError α :=
  match charsOf s with
  | some chars => (f chars).mapError .conversion
  | none => .error (.conversion (.valueError "surrogates not allowed"))

/-- The scalar branches of `_decode_value`. -/
def decodeScalar (kind : PyText) : JsonValue → Except SpillError SpillValue
  | .null => if kind = pyText "null" then .ok .none else .error (.invalidEncoded kind)
  | .bool b => if kind = pyText "boolean" then .ok (.bool b) else .error (.invalidEncoded kind)
  | .str s =>
    if kind = pyText "integer" then convert s fun chars =>
      match pyInt reader.unicode chars with
      | some n => .ok (.int n)
      | none => .error (.valueError "invalid literal for int() with base 10")
    else if kind = pyText "number" then convert s fun chars => (ofFloatHex chars).map .float
    else if kind = pyText "timestamp" then convert s fun chars =>
      (reader.datetime chars).map .timestamp
    else if kind = pyText "date" then convert s fun chars => (reader.date chars).map .date
    else if kind = pyText "string" then .ok (.text s)
    else if kind = pyText "bytes" then convert s fun chars =>
      match fromHex chars with
      | some b => .ok (.bytes b)
      | none => .error (.valueError "non-hexadecimal number found in fromhex() arg")
    else .error (.invalidEncoded kind)
  | _ => .error (.invalidEncoded kind)

mutual

/-- `_decode_value`. -/
def decodeValue : JsonValue → Except SpillError SpillValue
  | .arr [.str kind, value] => decodeKind kind value
  | _ => .error .encodedPair

/-- `_decode_value` after the shape of the pair was checked. -/
def decodeKind (kind : PyText) : JsonValue → Except SpillError SpillValue
  | .arr items =>
    if kind = pyText "list" then (decodeItems items).map .list
    else if kind = pyText "mapping" then (decodeEntries [] items).map .mapping
    else .error (.invalidEncoded kind)
  | value => decodeScalar reader kind value

def decodeItems : List JsonValue → Except SpillError (List SpillValue)
  | [] => .ok []
  | item :: items => do
    let value ← decodeValue item
    let rest ← decodeItems items
    return value :: rest

/-- The entries of a mapping, those of the keys `seen` before them. -/
def decodeEntries (seen : List PyText) :
    List JsonValue → Except SpillError (List (SpillKey × SpillValue))
  | [] => .ok []
  | .arr [.str key, encoded] :: items =>
    if key ∈ seen then .error (.duplicateKey key)
    else do
      let value ← decodeValue encoded
      let rest ← decodeEntries (seen ++ [key]) items
      return (.text key, value) :: rest
  | _ :: _ => .error .mappingEntry

end

/-- The loop over the columns of `_decode_row`. -/
def decodeColumns (seen : List PyText) : List JsonValue → Except SpillError SpillRow
  | [] => .ok []
  | .arr [.str name, encoded] :: items =>
    if name ∈ seen then .error (.duplicateColumn name)
    else do
      let value ← decodeValue reader encoded
      let rest ← decodeColumns (seen ++ [name]) items
      return (.text name, value) :: rest
  | _ :: _ => .error .column

/-- `_decode_row`. -/
def decodeRow : JsonValue → Except SpillError SpillRow
  | .obj payload =>
    match payload.lookup (pyText "schema") with
    | some (.str schema) =>
      if schema ≠ rowSchema then .error .schema
      else match payload.lookup (pyText "columns") with
        | some (.arr columns) => decodeColumns reader [] columns
        | _ => .error .columns
    | _ => .error .schema
  | _ => .error .schema

/-- One turn of the loop of `read_semantic_rows`. -/
def readLine (line : Str) : Except SpillError SpillRow :=
  match JsonValue.loads .python (textOf line) with
  | some payload => decodeRow reader payload
  | none => .error .json

/-- Universal newlines. -/
def translateNewlines : Str → Str
  | '\r' :: '\n' :: s => '\n' :: translateNewlines s
  | '\r' :: s => '\n' :: translateNewlines s
  | c :: s => c :: translateNewlines s
  | [] => []

/-- The lines that are not blank. -/
def fileLines (text : Str) : List Str :=
  (splitWord ['\n'] (translateNewlines text)).filter fun line => strip reader.unicode line ≠ []

/-- `read_semantic_rows`: all rows, unless a line is refused. -/
def readSemanticRows (text : Str) : Except SpillError (List SpillRow) :=
  (fileLines reader text).mapM (readLine reader)

end Dpone.Normalization
