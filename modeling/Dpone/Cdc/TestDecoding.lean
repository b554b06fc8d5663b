import Dpone.Schemes.Literals
import Dpone.Cdc.PgOutputStream

/-! The parser of PostgreSQL `test_decoding` messages.

    A message names its table and operation and then lists columns as `name[type]:value`. The parser
    recognises the header by a pattern, reads a name up to the next opening bracket, a type up to
    the next closing one, and converts a value by its look alone. -/

namespace Dpone.Cdc.TestDecoding
open Dpone.Schemes

structure TestDecodingMessageParser where
  sourceSchema : Str
  sourceTable : Str

variable (u : Unicode)

/-- `_unquote_identifier`. -/
def unquoteIdentifier (value : Str) : Str :=
  let value := strip u value
  if 2 ≤ value.length ∧ value.head? = some '"' ∧ value.getLast? = some '"' then
    replaceAll ['"', '"'] ['"'] (value.drop 1).dropLast
  else value

/-- `_read_value`: the value, and what follows it. -/
def readValue : Str → Str × Str
  | '\'' :: body => readDoubled '\'' body
  | body => (body.takeWhile fun c => !u.isSpace c, body.dropWhile fun c => !u.isSpace c)

/-- `_convert_value`. No other character than an ASCII letter is lower-cased to a letter of these
    words. -/
def convertValue (raw : Str) : Except PyError (Option PgValue) :=
  let lowered := raw.map Char.toLower
  if lowered = "null".toList ∨ lowered = "<null>".toList then .ok none
  else if lowered = "true".toList then .ok (some (.bool true))
  else if lowered = "false".toList then .ok (some (.bool false))
  else if intPattern u raw then
    match pyInt u raw with
    | some n => .ok (some (.int n))
    | none => .error (.valueError "invalid literal for int()")
  else if decimalPattern u raw then
    match pyDecimal u raw with
    | some decimal => (convertDecimal decimal).map some
    | none => .error (.valueError "decimal.ConversionSyntax")
  else .ok (some (.text raw))

/-- The loop of `_parse_tuple`, on what is left of the body. -/
def parseColumns : ℕ → Str → RowData PgValue → Except PyError (RowData PgValue)
  | 0, _, values => .ok values
  | n + 1, body, values =>
    let start := body.dropWhile u.isSpace
    match start.dropWhile (· ≠ '[') with
    | [] => .ok values
    | _ :: typed =>
      match (typed.dropWhile (· ≠ ']')).drop 1 with
      | ':' :: literal => do
        let value ← convertValue u (readValue u literal).1
        parseColumns n (readValue u literal).2
          (setItem values (unquoteIdentifier u (start.takeWhile (· ≠ '['))) value)
      | _ => .ok values

/-- `_parse_tuple`. Each turn of its loop takes a character at least. -/
def parseTuple (body : Str) : Except PyError (RowData PgValue) := parseColumns u body.length body []

/-- The groups of `_message_re`. -/
structure MessageMatch where
  schema : Str
  table : Str
  operation : CDCOperation
  body : Str

def insertWord : Str := "INSERT:".toList

def updateWord : Str := "UPDATE:".toList

def deleteWord : Str := "DELETE:".toList

/-- `(?P<operation>INSERT|UPDATE|DELETE):`. -/
def matchOperation (s : Str) : Option (CDCOperation × Str) :=
  ((cutPrefix insertWord s).map fun rest => (.insert, rest)) <|>
  ((cutPrefix updateWord s).map fun rest => (.update, rest)) <|>
  ((cutPrefix deleteWord s).map fun rest => (.delete, rest))

/-- ` ?(?P<body>.*)$`: the body is a line, which may be ended. -/
def matchBody (s : Str) : Option Str :=
  let line := (cutPrefix [' '] s).getD s
  if line.dropWhile (· ≠ '\n') ∈ [[], ['\n']] then some (line.takeWhile (· ≠ '\n')) else none

/-- `_message_re`. -/
def matchMessage (data : Str) : Option MessageMatch := do
  let named ← cutPrefix "table ".toList data
  let schema := named.takeWhile (· ≠ '.')
  let named ← cutPrefix ['.'] (named.dropWhile (· ≠ '.'))
  let table := named.takeWhile (· ≠ ':')
  let rest ← cutPrefix ": ".toList (named.dropWhile (· ≠ ':'))
  let (operation, rest) ← matchOperation rest
  let body ← matchBody rest
  if schema = [] ∨ table = [] then none
  else some { schema, table, operation, body }

/-- `value.removeprefix(prefix)`. -/
def removePrefix (word value : Str) : Str := (cutPrefix word value).getD value

def oldKeyWord : Str := "old-key:".toList

def newTupleWord : Str := " new-tuple:".toList

/-- The change of a message of the parser's table. -/
def parseBody (m : MessageMatch) (schema table lsn : Str) (xid : Option Str) :
    Except PyError (CDCChange PgValue) := do
  let change (data : RowData PgValue) (before : Option (RowData PgValue)) : CDCChange PgValue :=
    { operation := m.operation, data := data, before := before, position := lsn,
      transactionId := xid, sourceSchema := schema, sourceTable := table,
      metadata := [("plugin".toList, "test_decoding".toList)] }
  if m.operation = .update ∧ oldKeyWord <+: m.body then
    let cut := partitionAt newTupleWord m.body
    let before ← parseTuple u (strip u (removePrefix oldKeyWord cut.1))
    let data ← parseTuple u (strip u cut.2)
    return change data (some before)
  else
    let data ← parseTuple u m.body
    return change data none

/-- `parse`. -/
def parse (p : TestDecodingMessageParser) (lsn : Str) (xid : Option Str) (data : Str) :
    Except PyError (Option (CDCChange PgValue)) :=
  match matchMessage (strip u data) with
  | none => .ok none
  | some m =>
    let schema := unquoteIdentifier u m.schema
    let table := unquoteIdentifier u m.table
    if schema ≠ p.sourceSchema ∨ table ≠ p.sourceTable then .ok none
    else (parseBody u m schema table lsn xid).map some

/-! ### The output plugin -/

/-- The branches of `print_literal`. -/
inductive LiteralKind where
  | integer | numeric | float | bit | boolean | quoted
  deriving DecidableEq, Repr

structure Column where
  name : Str
  typeName : Str
  literal : LiteralKind

/-- Columns and their data, as texts of the types' output functions. -/
abbrev Tuple := List (Column × TupleDatum)

/-- What an output plugin is given of a row; a tuple may be missing. -/
inductive RowImages where
  | insert (new : Option Tuple)
  | update (old new : Option Tuple)
  | delete (old : Option Tuple)

structure RowMessage where
  schema : Str
  table : Str
  images : RowImages

def safeChar (c : Char) : Bool := c.isLower || c.isDigit || c = '_'

/-- A name that needs no quotes, unless it is reserved. -/
def safeIdentifier (name : Str) : Bool :=
  name.head?.any (fun c => !c.isDigit) && name.all safeChar

/-- `quote_identifier`. -/
def quoteIdentifier (reserved : Str → Bool) (name : Str) : Str :=
  if safeIdentifier name && !reserved name then name else '"' :: (doubled '"' name ++ ['"'])

/-- `print_literal`. -/
def printLiteral : LiteralKind → Str → Str
  | .bit, t => 'B' :: '\'' :: (t ++ ['\''])
  | .boolean, t => if t = ['t'] then "true".toList else "false".toList
  | .quoted, t => '\'' :: (doubled '\'' t ++ ['\''])
  | _, t => t

/-- What stands for a TOAST value that an update left unchanged. -/
def unchangedWord : Str := "unchanged-toast-datum".toList

def printDatum (literal : LiteralKind) : TupleDatum → Str
  | .null => "null".toList
  | .unchanged => unchangedWord
  | .text t => printLiteral literal t

section Printing
variable (reserved : Str → Bool)

def printColumn (entry : Column × TupleDatum) : Str :=
  ' ' :: (quoteIdentifier reserved entry.1.name ++
    '[' :: (entry.1.typeName ++ ']' :: ':' :: printDatum entry.1.literal entry.2))

/-- `tuple_to_stringinfo`. -/
def printTuple (tuple : Tuple) : Str := tuple.flatMap (printColumn reserved)

/-- What is printed of an old tuple: the plugin skips its NULLs. -/
def withoutNulls (tuple : Tuple) : Tuple := tuple.filter fun entry => entry.2 ≠ .null

def noTupleWord : Str := " (no-tuple-data)".toList

def printNew : Option Tuple → Str
  | none => noTupleWord
  | some tuple => printTuple reserved tuple

def RowImages.text : RowImages → Str
  | .insert new => insertWord ++ printNew reserved new
  | .update none new => updateWord ++ printNew reserved new
  | .update (some old) new =>
    updateWord ++ (' ' :: oldKeyWord ++ (printTuple reserved (withoutNulls old) ++
      (newTupleWord ++ printNew reserved new)))
  | .delete old => deleteWord ++ printNew reserved (old.map withoutNulls)

/-- The message of `pg_decode_change`. -/
def RowMessage.text (row : RowMessage) : Str :=
  "table ".toList ++ (quoteIdentifier reserved row.schema ++ '.' ::
    (quoteIdentifier reserved row.table ++ (": ".toList ++ row.images.text reserved)))

end Printing

end Dpone.Cdc.TestDecoding
