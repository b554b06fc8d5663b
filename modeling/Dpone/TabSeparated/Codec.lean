import Dpone.Schemes.Replace
import Dpone.Schemes.Text

/-! The TabSeparated wire codec: the SQL expression that encodes a text column, the decoder of the
    wire, and the expression that decodes a staged column in ClickHouse.

    The expressions are trees with the texts they are rendered to; evaluating one replaces exactly,
    left to right. Columns of a text type are modelled: the conversions of binary and temporal
    columns, which put other texts under the same replacements, are not. -/

namespace Dpone.TabSeparated
open Dpone.Schemes

def markerPrefix : Str := "__dpone__tsv__".toList

def emptyStringMarker : Str := "__dpone__tsv__empty".toList

def escapedPrefixMarker : Str := "__dpone__tsv__prefix".toList

/-! ### Literals -/

/-- A part of a SQL Server literal: quoted text, or one control character. -/
inductive LiteralPart where
  | quoted (body : Str)
  | nchar (code : ℕ)
  deriving DecidableEq

abbrev SqlLiteral := List LiteralPart

def flushed (textBuffer : Str) : SqlLiteral :=
  if textBuffer = [] then [] else [.quoted (replaceAll ['\''] ['\'', '\''] textBuffer)]

/-- The loop of `_mssql_literal`, with the text collected so far. -/
def literalParts (textBuffer : Str) : Str → SqlLiteral
  | [] => flushed textBuffer
  | c :: value =>
    if c.toNat < 32 then flushed textBuffer ++ .nchar c.toNat :: literalParts [] value
    else literalParts (textBuffer ++ [c]) value

def mssqlLiteral (value : Str) : SqlLiteral := literalParts [] value

def LiteralPart.render : LiteralPart → String
  | .quoted body => "N'" ++ String.ofList body ++ "'"
  | .nchar code => "NCHAR(" ++ toString code ++ ")"

def renderLiteral (literal : SqlLiteral) : String :=
  if literal = [] then "N''" else " + ".intercalate (literal.map (·.render))

/-- What a part stands for: a doubled quote is a quote. -/
def LiteralPart.value : LiteralPart → Str
  | .quoted body => replaceAll ['\'', '\''] ['\''] body
  | .nchar code => [Char.ofNat code]

def literalValue (literal : SqlLiteral) : Str := literal.flatMap LiteralPart.value

/-- `_clickhouse_literal`: the two replacements escape the backslash, then the quote. -/
def clickhouseEscapes : List (Char × Char) := [('\\', '\\'), ('\'', '\'')]

def clickhouseLiteral (value : Str) : Str := escapeAll '\\' clickhouseEscapes value

/-! ### The encoding expression -/

/-- A text expression of SQL Server over a converted column. -/
inductive SqlText where
  | converted
  | replace (expression : SqlText) (old new : SqlLiteral)

def SqlText.render (valueSql : String) : SqlText → String
  | .converted => "CONVERT(VARCHAR(MAX), CONVERT(NVARCHAR(MAX), " ++ valueSql ++
      ") COLLATE Latin1_General_100_BIN2_UTF8)"
  | .replace e old new => "REPLACE(" ++ e.render valueSql ++ ", " ++ renderLiteral old ++ ", " ++
      renderLiteral new ++ ")"

/-- Every REPLACE an exact binary replacement. -/
def SqlText.eval (text : Str) : SqlText → Str
  | .converted => text
  | .replace e old new => replaceAll (literalValue old) (literalValue new) (e.eval text)

/-- `CASE WHEN value IS NULL .. WHEN DATALENGTH(text) = 0 .. ELSE .. END`. -/
structure SelectExpression where
  textValue : SqlText
  empty : SqlLiteral
  otherwise : SqlText

def SelectExpression.render (valueSql : String) (e : SelectExpression) : String :=
  "CASE WHEN " ++ valueSql ++ " IS NULL THEN N'\\N' WHEN DATALENGTH(" ++
    e.textValue.render valueSql ++ ") = 0 THEN " ++ renderLiteral e.empty ++ " ELSE " ++
    e.otherwise.render valueSql ++ " END"

def nullWire : Str := ['\\', 'N']

/-- The field the expression gives for a column value, NULL being `none`. -/
def SelectExpression.eval (e : SelectExpression) : Option Str → Str
  | none => nullWire
  | some text => if e.textValue.eval text = [] then literalValue e.empty else e.otherwise.eval text

/-- The escapes the encoder nests around the marked text. -/
def wireEscapes : List (Char × Char) := [('\\', '\\'), ('\t', 't'), ('\n', 'n'), ('\r', 'r')]

/-- `mssql_select_expression` of a text column. -/
def mssqlSelectExpression : SelectExpression :=
  let marked := SqlText.replace .converted (mssqlLiteral markerPrefix)
    (mssqlLiteral escapedPrefixMarker)
  { textValue := .converted
    empty := mssqlLiteral emptyStringMarker
    otherwise := wireEscapes.foldl (fun expression e =>
      .replace expression (mssqlLiteral [e.1]) (mssqlLiteral ['\\', e.2])) marked }

/-! ### The decoders -/

/-- `escapes.get(following, following)`. -/
def unescapedChar (following : Char) : Char :=
  if following = 't' then '\t' else if following = 'n' then '\n'
  else if following = 'r' then '\r' else following

def unescapeTabseparated : Str → Str
  | [] => []
  | [c] => [c]
  | c :: following :: s =>
    if c = '\\' then unescapedChar following :: unescapeTabseparated s
    else c :: unescapeTabseparated (following :: s)

/-- `decode_wire_value` of a source type that is not sent as an epoch. -/
def decodeWireValue (value : Str) : Option Str :=
  if value = nullWire then none
  else
    let decoded := unescapeTabseparated value
    if decoded = emptyStringMarker then some []
    else some (replaceAll escapedPrefixMarker markerPrefix decoded)

/-- A text expression of ClickHouse over a staged column; its literals are the texts between the
    quotes. -/
inductive ClickHouseText where
  | staged
  | ifEquals (literal : Str) (expression : ClickHouseText)
  | replace (expression : ClickHouseText) (old new : Str)

def ClickHouseText.render (valueSql : String) : ClickHouseText → String
  | .staged => valueSql
  | .ifEquals literal e => "if(" ++ valueSql ++ " = '" ++ String.ofList literal ++ "', '', " ++
      e.render valueSql ++ ")"
  | .replace e old new => "replace(" ++ e.render valueSql ++ ", '" ++ String.ofList old ++ "', '" ++
      String.ofList new ++ "')"

/-- `clickhouse_decode_expression`. -/
def clickhouseDecodeExpression : ClickHouseText :=
  .replace (.ifEquals (clickhouseLiteral emptyStringMarker) .staged)
    (clickhouseLiteral escapedPrefixMarker) (clickhouseLiteral markerPrefix)

/-- What ClickHouse does with text: a TabSeparated field is unescaped, and so is a literal. -/
structure ClickHouse where
  field : Unescaper '\\' wireEscapes
  literal : Unescaper '\\' clickhouseEscapes

/-- A staged field: NULL, or the unescaped text. -/
def ClickHouse.stage (server : ClickHouse) (field : Str) : Option Str :=
  if field = nullWire then none else some (server.field.read field)

/-- NULL compares as unknown, which takes the other branch, and is replaced by NULL. -/
def ClickHouse.eval (server : ClickHouse) (value : Option Str) : ClickHouseText → Option Str
  | .staged => value
  | .ifEquals literal e =>
    if value = some (server.literal.read literal) then some [] else server.eval value e
  | .replace e old new =>
    (server.eval value e).map (replaceAll (server.literal.read old) (server.literal.read new))

end Dpone.TabSeparated
