import Dpone.Schemes.ByteReader
import Dpone.Schemes.NumberText
import Dpone.Cdc.Change

/-! The decoder of PostgreSQL `pgoutput` messages.

    A relation message is remembered under its identifier; a row message is decoded by the relation
    last sent for it, if that is the relation of the parser's table. Values come as texts and are
    converted by the type of their column. -/

namespace Dpone.Cdc
open Dpone.Schemes

/-- A decoded column value other than `None`. -/
inductive PgValue where
  | bool (b : Bool)
  | int (n : ℤ)
  | float (f : PyFloat)
  | text (s : Str)
  deriving DecidableEq

structure PgOutputColumn where
  name : Str
  typeOid : ℕ
  typeModifier : ℤ
  flags : ℕ

structure PgOutputRelation where
  relationId : ℕ
  relationNamespace : Str
  name : Str
  replicaIdentity : Char
  columns : List PgOutputColumn

/-! ### `_BinaryReader` -/

def readUint8 : ByteReader ℕ
  | [] => .error .indexError
  | b :: bs => .ok (b.toNat, bs)

/-- A slice, shorter at the end of the payload. -/
def readBytes (length : ℕ) : ByteReader Bytes := fun bs => .ok (bs.take length, bs.drop length)

def readChar : ByteReader Char := do return Char.ofNat (← readUint8)

def readUint16 : ByteReader ℕ := do return ofBE (← readBytes 2)

def readUint32 : ByteReader ℕ := do return ofBE (← readBytes 4)

def readInt32 : ByteReader ℤ := do return ofBESigned (← readBytes 4)

/-- `value.decode("utf-8")`. -/
def decodeText (value : Bytes) : Except PyError Str :=
  match decodeUtf8 value with
  | some s => .ok s
  | none => .error (.valueError "invalid utf-8")

/-- The bytes up to the next zero, which is consumed with them. -/
def cutZero : ByteReader Bytes := fun bs =>
  match bs.dropWhile (· ≠ 0) with
  | [] => .error (.valueError "subsection not found")
  | _ :: rest => .ok (bs.takeWhile (· ≠ 0), rest)

def readCstring : ByteReader Str := do decodeText (← cutZero)

/-! ### Values -/

/-- `int(decimal) if decimal == decimal.to_integral_value() else float(decimal)`. -/
def convertDecimal (decimal : PyNumber) : Except PyError PgValue :=
  match decimal with
  | .infinite _ => .error .overflowError
  | _ =>
    match decimal.toInt with
    | some n => .ok (.int n)
    | none => .ok (.float decimal.toFloat)

def boolOids : List ℕ := [16]
def intOids : List ℕ := [20, 21, 23]
def floatOids : List ℕ := [700, 701]
def numericOids : List ℕ := [1700]

/-- `_convert_value`. No other character than an ASCII letter is lower-cased to a letter of the
    truth values. -/
def convertValue (u : Unicode) (raw : Str) (typeOid : ℕ) : Except PyError PgValue :=
  if typeOid ∈ boolOids then
    .ok (.bool (raw.map Char.toLower ∈ ["t".toList, "true".toList, "1".toList]))
  else if typeOid ∈ intOids then
    match pyInt u raw with
    | some n => .ok (.int n)
    | none => .error (.valueError "invalid literal for int()")
  else if typeOid ∈ floatOids then
    match pyFloat u raw with
    | some f => .ok (.float f)
    | none => .error (.valueError "could not convert string to float")
  else if typeOid ∈ numericOids then
    match pyDecimal u raw with
    | some decimal => convertDecimal decimal
    | none => .error (.valueError "decimal.ConversionSyntax")
  else .ok (.text raw)

/-- `values[name] = value`. -/
def setItem {V : Type} : RowData V → Str → Option V → RowData V
  | [], name, value => [(name, value)]
  | (key, old) :: values, name, value =>
    if key = name then (key, value) :: values else (key, old) :: setItem values name value

section Tuples
variable (u : Unicode)

def readValue (column : PgOutputColumn) : ByteReader (Option PgValue) := do
  let valueKind ← readChar
  if valueKind = 'n' then return none
  else if valueKind = 'u' then return none
  else if valueKind = 't' then
    let length ← readUint32
    let raw ← readBytes length
    let text ← decodeText raw
    return some (← convertValue u text column.typeOid)
  else throw (.valueError "Unsupported pgoutput tuple value kind")

/-- The loop of `_read_tuple`. -/
def readValues : ℕ → List PgOutputColumn → RowData PgValue → ByteReader (RowData PgValue)
  | 0, _, values => return values
  | _ + 1, [], _ => throw .indexError
  | n + 1, column :: columns, values => do
    let value ← readValue u column
    readValues n columns (setItem values column.name value)

def readTuple (relation : PgOutputRelation) : ByteReader (RowData PgValue) := do
  let valueCount ← readUint16
  readValues u valueCount relation.columns []

end Tuples

/-! ### Messages -/

structure PgOutputMessageParser where
  sourceSchema : Str
  sourceTable : Str
  relations : ℕ → Option PgOutputRelation := fun _ => none

def parseColumn : ByteReader PgOutputColumn := do
  let flags ← readUint8
  let name ← readCstring
  let typeOid ← readUint32
  let typeModifier ← readInt32
  return { name, typeOid, typeModifier, flags }

def parseRelation : ByteReader PgOutputRelation := do
  let relationId ← readUint32
  let relationNamespace ← readCstring
  let name ← readCstring
  let replicaIdentity ← readChar
  let columnCount ← readUint16
  let columns ← readMany parseColumn columnCount
  return { relationId, relationNamespace, name, replicaIdentity, columns }

/-- The relation of the parser's own table. -/
def PgOutputMessageParser.Own (p : PgOutputMessageParser) (relation : PgOutputRelation) : Prop :=
  relation.relationNamespace = p.sourceSchema ∧ relation.name = p.sourceTable

instance (p : PgOutputMessageParser) (relation : PgOutputRelation) : Decidable (p.Own relation) :=
  inferInstanceAs (Decidable (_ ∧ _))

/-- `_relation_for`. -/
def relationFor (p : PgOutputMessageParser) (relationId : ℕ) : Option PgOutputRelation :=
  (p.relations relationId).filter fun relation => p.Own relation

/-- A change of the plugin. -/
def pgChange (operation : CDCOperation) (relation : PgOutputRelation) (lsn : Str)
    (xid : Option Str) (data : RowData PgValue) (before : Option (RowData PgValue)) :
    CDCChange PgValue where
  operation := operation
  data := data
  position := lsn
  sourceSchema := relation.relationNamespace
  sourceTable := relation.name
  transactionId := xid
  before := before
  metadata := [("plugin".toList, "pgoutput".toList)]

section Parser
variable (u : Unicode) (p : PgOutputMessageParser) (lsn : Str) (xid : Option Str)

def parseInsert : ByteReader (Option (CDCChange PgValue)) := do
  let relationId ← readUint32
  let tupleKind ← readChar
  if tupleKind ≠ 'N' then return none
  else match relationFor p relationId with
    | none => return none
    | some relation => return some (pgChange .insert relation lsn xid (← readTuple u relation) none)

/-- The end of `_parse_update`. -/
def parseNewTuple (relation : PgOutputRelation) (before : Option (RowData PgValue))
    (tupleKind : Char) : ByteReader (Option (CDCChange PgValue)) := do
  if tupleKind ≠ 'N' then return none
  else return some (pgChange .update relation lsn xid (← readTuple u relation) before)

def parseUpdate : ByteReader (Option (CDCChange PgValue)) := do
  let relationId ← readUint32
  match relationFor p relationId with
  | none => return none
  | some relation =>
    let tupleKind ← readChar
    if tupleKind = 'K' ∨ tupleKind = 'O' then
      let before ← readTuple u relation
      let tupleKind ← readChar
      parseNewTuple u lsn xid relation (some before) tupleKind
    else parseNewTuple u lsn xid relation none tupleKind

def parseDelete : ByteReader (Option (CDCChange PgValue)) := do
  let relationId ← readUint32
  let tupleKind ← readChar
  if tupleKind ≠ 'K' ∧ tupleKind ≠ 'O' then return none
  else match relationFor p relationId with
    | none => return none
    | some relation => return some (pgChange .delete relation lsn xid (← readTuple u relation) none)

/-- `parse`: the parser afterwards, with its answer. -/
def parseMessage : ByteReader (PgOutputMessageParser × Option (CDCChange PgValue)) := do
  let tag ← readChar
  if tag = 'R' then
    let relation ← parseRelation
    return ({ p with
      relations := Function.update p.relations relation.relationId (some relation) }, none)
  else if tag = 'I' then return (p, ← parseInsert u p lsn xid)
  else if tag = 'U' then return (p, ← parseUpdate u p lsn xid)
  else if tag = 'D' then return (p, ← parseDelete u p lsn xid)
  else return (p, none)

def parse (payload : Bytes) :
    Except PyError (PgOutputMessageParser × Option (CDCChange PgValue)) :=
  ((parseMessage u p lsn xid).run payload).map Prod.fst

end Parser

/-- The changes of a stream of rows, as the reader collects them. -/
def parseStream (u : Unicode) : PgOutputMessageParser → List (Str × Option Str × Bytes) →
    Except PyError (List (CDCChange PgValue))
  | _, [] => .ok []
  | p, (lsn, xid, payload) :: rows => do
    let (p', change) ← parse u p lsn xid payload
    return change.toList ++ (← parseStream u p' rows)

end Dpone.Cdc
