import Dpone.BulkText.Codec
import Dpone.Schemes.Delimited

/-! Delimited bulk files: what the character-mode writer puts into one and what its reader takes
    out again. Cells are NULL, text or binary. The rendering of a text as a date-time is a parameter
    of the writer; no column of a text type gets that far. -/

namespace Dpone.BulkText
open Dpone.Schemes

inductive BcpCell where
  | null
  | text (value : Str)
  | binary (value : Bytes)
  deriving DecidableEq

/-- A mapping from column names. -/
abbrev Row := List (Str × BcpCell)

/-- `row.get(column)`. -/
def cellOf (row : Row) (column : Str) : BcpCell := (row.lookup column).getD .null

variable (u : Unicode)

/-! ### Types -/

def normalizedType (mssqlType : Option Str) : Str := u.lower (strip u (mssqlType.getD []))

def startsWithAny (prefixes : List String) (s : Str) : Bool :=
  prefixes.any fun p => p.toList.isPrefixOf s

def isTemporalType : Str → Bool := startsWithAny ["datetime2", "datetime", "smalldatetime"]

def isNumericType : Str → Bool :=
  startsWithAny ["decimal", "numeric", "int", "bigint", "smallint", "tinyint", "real", "float"]

def textTokens : List String := ["char", "text", "json", "xml", "string"]

def isTextType (mssqlType : Str) : Bool :=
  textTokens.any fun token => contains token.toList mssqlType

/-- `is_bulk_text_type`. -/
def isBulkTextType (dtype : Str) : Bool := isTextType (strip u (u.lower dtype))

/-! ### Writing -/

structure DelimitedBulkFile where
  fieldTerminator : Str
  rowTerminator : Str
  nullMarker : Str
  unsafeTextPolicy : String
  textCodec : Option (BulkTextCodec Char)
  maxBytes : Option ℕ

/-- The default file with a text codec: an empty NULL marker, tabs and line feeds, no budget. -/
def DelimitedBulkFile.encoded : DelimitedBulkFile where
  fieldTerminator := ['\t']
  rowTerminator := ['\n']
  nullMarker := []
  unsafeTextPolicy := "fail"
  textCodec := some .default
  maxBytes := none

/-- `text.split(c, 1)[0]`. -/
def beforeChar (c : Char) (s : Str) : Str := s.takeWhile (· ≠ c)

def formatBcpDate (value : Str) : Str := beforeChar ' ' (beforeChar 'T' (strip u value))

def formatBcpUuid (value : Str) : Str :=
  let brace c := c = '{' || c = '}'
  u.lower (((strip u value).dropWhile brace).rdropWhile brace)

def unsafeBulkValue : PyError := .valueError
  ("Value contains the configured bcp field or row terminator. " ++
    "Choose a safer terminator or set unsafe_text_policy='fallback'.")

variable (formatBcpDatetime : Str → Str → Except PyError Str)

/-- `format_mssql_bcp_scalar`. -/
def formatMssqlBcpScalar (file : DelimitedBulkFile) (mssqlType : Option Str) :
    BcpCell → Except PyError Str
  | .null => .ok file.nullMarker
  | .binary value => .ok (hexText value)
  | .text value =>
    let normalized := normalizedType u mssqlType
    if normalized = "bit".toList then .ok (if value = [] then ['0'] else ['1'])
    else if normalized = "date".toList then .ok (formatBcpDate u value)
    else if isTemporalType normalized then formatBcpDatetime normalized value
    else if normalized = "uniqueidentifier".toList then .ok (formatBcpUuid u value)
    else if isNumericType normalized then .ok value
    else
      let unencoded : Except PyError Str :=
        if file.fieldTerminator <:+: value ∨ '\r' ∈ value ∨ '\n' ∈ value then
          if file.unsafeTextPolicy = "fallback" then
            .ok (replaceAll ['\n'] [' '] (replaceAll ['\r'] [' ']
              (replaceAll file.fieldTerminator [' '] value)))
          else .error unsafeBulkValue
        else .ok value
      match file.textCodec with
      | none => unencoded
      | some codec =>
        if normalized = [] ∨ isBulkTextType u normalized ∨ isTextType normalized then do
          codec.assertFileSafe (codec.encode value)
          .ok (codec.encode value)
        else unencoded

def rowText (file : DelimitedBulkFile) (columns : List Str) (columnTypes : List (Str × Str))
    (row : Row) : Except PyError Str := do
  let values ← columns.mapM fun column =>
    formatMssqlBcpScalar u formatBcpDatetime file (columnTypes.lookup column) (cellOf row column)
  .ok (file.fieldTerminator.intercalate values ++ file.rowTerminator)

inductive BulkWriteError where
  | raised (e : PyError)
  | spoolCapacity (maxBytes attemptedBytes : ℕ)
  deriving DecidableEq

def withinBudget (file : DelimitedBulkFile) (attempted : ℕ) : Except BulkWriteError Unit :=
  match file.maxBytes with
  | some maxBytes => if maxBytes < attempted then .error (.spoolCapacity maxBytes attempted) else .ok ()
  | none => .ok ()

/-- The loop over the rows, with the bytes written and the rows counted so far. -/
def writeFrom (file : DelimitedBulkFile) (columns : List Str) (columnTypes : List (Str × Str)) :
    List Row → Bytes → ℕ → Except BulkWriteError (Bytes × ℕ)
  | [], written, count => .ok (written, count)
  | row :: rows, written, count => do
    let text ← (rowText u formatBcpDatetime file columns columnTypes row).mapError .raised
    let payload := encodeUtf8 text
    withinBudget file (written.length + payload.length)
    writeFrom file columns columnTypes rows (written ++ payload) (count + 1)

/-- `write_rows` with typed columns: the bytes of the file and the number of its rows. -/
def writeRows (file : DelimitedBulkFile) (rows : List Row) (columns : List Str)
    (columnTypes : List (Str × Str)) : Except BulkWriteError (Bytes × ℕ) :=
  writeFrom u formatBcpDatetime file columns columnTypes rows [] 0

/-! ### Reading -/

/-- `BulkTextFileReadError`, by its blocker. -/
abbrev ReadError := String

/-- `stream.readline(limit)`: the line and what is left of the stream. -/
def readline (limit : Option ℕ) (stream : Bytes) : Bytes × Bytes :=
  let line := firstLine (UInt8.ofNat 10) stream
  let line := match limit with
    | none => line
    | some n => line.take n
  (line, stream.drop line.length)

/-- `s.endswith(w)`. -/
def endsWith (w s : Bytes) : Bool := w.reverse.isPrefixOf s.reverse

/-- One pass of the loop over the records of a stream that is not at its end. -/
def wireRow (width : ℕ) (codec : BulkTextCodec Char) (maxRecordBytes : Option ℕ) (raw : Bytes) :
    Except ReadError (List Bytes) :=
  let terminator := encodeUtf8 codec.rowTerminator
  if maxRecordBytes.any (· < raw.length) then .error "record_limit"
  else if ! endsWith terminator raw then .error "row_terminator_mismatch"
  else
    let values := splitWord (encodeUtf8 codec.fieldTerminator)
      (raw.take (raw.length - terminator.length))
    if values.length ≠ width then .error "row_width_mismatch" else .ok values

/-- The records of a stream; every pass takes at least a byte, so its length is fuel enough. -/
def wireRowsFrom (width : ℕ) (codec : BulkTextCodec Char) (maxRecordBytes : Option ℕ) :
    ℕ → Bytes → Except ReadError (List (List Bytes))
  | 0, _ => .ok []
  | fuel + 1, stream =>
    let (raw, rest) := readline (maxRecordBytes.map (· + 1)) stream
    if raw = [] then .ok []
    else do
      let values ← wireRow width codec maxRecordBytes raw
      let later ← wireRowsFrom width codec maxRecordBytes fuel rest
      .ok (values :: later)

def iterWireRows (stream : Bytes) (width : ℕ) (codec : BulkTextCodec Char)
    (maxRecordBytes : Option ℕ) : Except ReadError (List (List Bytes)) :=
  wireRowsFrom width codec maxRecordBytes stream.length stream

/-- `str(dtype).strip().lower().split("(", 1)[0]`. -/
def rootType (dtype : Str) : Str := beforeParen (u.lower (strip u dtype))

def isBinaryType (dtype : Str) : Bool :=
  rootType u dtype = "binary".toList || rootType u dtype = "varbinary".toList ||
    rootType u dtype = "image".toList

def decodeWireValue (raw : Bytes) (dtype : Str) (codec : BulkTextCodec Char) :
    Except ReadError BcpCell :=
  if raw = [] then .ok .null
  else match decodeUtf8 raw with
  | none => .error "utf8_invalid"
  | some value =>
    if isBinaryType u dtype then
      match fromHex (codec.decode value) with
      | none => .error "binary_hex_invalid"
      | some payload => .ok (.binary payload)
    else if isBulkTextType u dtype then .ok (.text (codec.decode value))
    else .ok (.text value)

def decodeRow (schema : List (Str × Str)) (codec : BulkTextCodec Char) (cells : List Bytes) :
    Except ReadError (List BcpCell) :=
  (cells.zip schema).mapM fun p => decodeWireValue u p.1 p.2.2 codec

/-- All rows `iter_rows` yields. -/
def iterRows (stream : Bytes) (schema : List (Str × Str)) (codec : BulkTextCodec Char)
    (maxRecordBytes : Option ℕ) : Except ReadError (List (List BcpCell)) := do
  let records ← iterWireRows stream schema.length codec maxRecordBytes
  records.mapM (decodeRow u schema codec)

end Dpone.BulkText
