import Dpone.Schemes.NumberText
import Dpone.Schemes.PyValue

/-! JSON documents as Python holds them, the compact texts that `json.dumps` writes of them and the
    reader of `json.loads`.

    Texts are lists of code points, so that a surrogate may stand alone in them. The writer leaves
    everything as it is but quotes, backslashes and control characters. The reader takes blanks
    between tokens, every escape and the names of the special floats; what it makes of objects and
    of floats is up to its hooks. -/

namespace Dpone.Schemes

/-- A Python text. -/
abbrev PyText := List CodePoint

/-- A character of a text. -/
abbrev cp (c : Char) : CodePoint := CodePoint.ofChar c

/-- A literal text. -/
def pyText (s : String) : PyText := textOf s.toList

/-- `str.strip()`, for the blanks of a Unicode database. -/
def stripped (isSpace : CodePoint → Bool) (s : PyText) : PyText :=
  (s.dropWhile isSpace).rdropWhile isSpace

inductive JsonValue where
  | null
  | bool (b : Bool)
  | int (n : ℤ)
  | float (f : PyFloat)
  | str (s : PyText)
  | arr (items : List JsonValue)
  | obj (fields : List (PyText × JsonValue))

namespace JsonValue

/-! ### Writing -/

/-- The characters with an escape of two characters. -/
def shortEscape (c : CodePoint) : Option CodePoint :=
  if c = cp '"' then some (cp '"')
  else if c = cp '\\' then some (cp '\\')
  else if c = cp '\n' then some (cp 'n')
  else if c = cp '\r' then some (cp 'r')
  else if c = cp '\t' then some (cp 't')
  else if c.val = 12 then some (cp 'f')
  else if c.val = 8 then some (cp 'b')
  else none

def escape (c : CodePoint) : PyText :=
  match shortEscape c with
  | some k => [cp '\\', k]
  | none => if c.val < 32 then cp '\\' :: cp 'u' :: textOf (numeral 16 4 c.val) else [c]

def quoted (s : PyText) : PyText := cp '"' :: (s.flatMap escape ++ [cp '"'])

section Writer
variable (floatText : PyFloat → PyText)

mutual

/-- `json.dumps(value, ensure_ascii=False, separators=(",", ":"))`. -/
def dumps : JsonValue → PyText
  | .null => pyText "null"
  | .bool b => if b then pyText "true" else pyText "false"
  | .int n => textOf (intText n)
  | .float f => floatText f
  | .str s => quoted s
  | .arr items => cp '[' :: dumpItems items
  | .obj fields => cp '{' :: dumpFields fields

/-- Items one after the other, each closed by a comma; the last one by the bracket. -/
def dumpItems : List JsonValue → PyText
  | [] => [cp ']']
  | [item] => dumps item ++ [cp ']']
  | item :: items => dumps item ++ cp ',' :: dumpItems items

def dumpFields : List (PyText × JsonValue) → PyText
  | [] => [cp '}']
  | [(key, value)] => quoted key ++ cp ':' :: (dumps value ++ [cp '}'])
  | (key, value) :: fields => quoted key ++ cp ':' :: (dumps value ++ cp ',' :: dumpFields fields)

end

end Writer

/-! ### Reading strings -/

/-- A blank between tokens. -/
def space (c : CodePoint) : Bool := c = cp ' ' || c = cp '\t' || c = cp '\n' || c = cp '\r'

def skip (s : PyText) : PyText := s.dropWhile space

/-- What a character after a backslash stands for. -/
def longEscape (k : CodePoint) : Option CodePoint :=
  if k = cp '"' ∨ k = cp '\\' ∨ k = cp '/' then some k
  else if k = cp 'n' then some (cp '\n')
  else if k = cp 'r' then some (cp '\r')
  else if k = cp 't' then some (cp '\t')
  else if k = cp 'f' then some ⟨12, by decide⟩
  else if k = cp 'b' then some ⟨8, by decide⟩
  else none

/-- The code unit that four hexadecimal digits spell. -/
def unitOf (digits : PyText) : Option CodePoint :=
  ((charsOf digits).bind (numeralValue 16)).bind fun n =>
    if h : n < 0x110000 then some ⟨n, h⟩ else none

/-- An escaped high surrogate takes an escaped low one that follows it. -/
def combine (unit : CodePoint) (source : PyText) : PyText × PyText → PyText × PyText
  | (low :: s, rest) =>
    if h : 0xD800 ≤ unit.val ∧ unit.val < 0xDC00 ∧ 0xDC00 ≤ low.val ∧ low.val < 0xE000 ∧
        source.take 2 = [cp '\\', cp 'u'] then
      (⟨0x10000 + (unit.val - 0xD800) * 1024 + (low.val - 0xDC00), by omega⟩ :: s, rest)
    else (unit :: low :: s, rest)
  | ([], rest) => ([unit], rest)

/-- The rest of a string, up to its closing quote. -/
def readString : PyText → Option (PyText × PyText)
  | [] => none
  | [c] => if c = cp '"' then some ([], []) else none
  | c :: k :: rest =>
    if c = cp '"' then some ([], k :: rest)
    else if c = cp '\\' then
      if k = cp 'u' then
        match rest with
        | a :: b :: d :: e :: rest =>
          (unitOf [a, b, d, e]).bind fun unit => (readString rest).map (combine unit rest)
        | _ => none
      else (longEscape k).bind fun c => (readString rest).map fun p => (c :: p.1, p.2)
    else if c.val < 32 then none
    else (readString (k :: rest)).map fun p => (c :: p.1, p.2)

/-! ### Reading numbers -/

def isDigit (c : CodePoint) : Bool := 48 ≤ c.val && c.val ≤ 57

/-- A token, and the text after it. -/
abbrev Cut := PyText × PyText

def signPart : PyText → Cut
  | c :: s => if c = cp '-' then ([c], s) else ([], c :: s)
  | [] => ([], [])

/-- Digits without a leading zero. -/
def integerPart : PyText → Option Cut
  | c :: s =>
    if c = cp '0' then some ([c], s)
    else if isDigit c then some (c :: s.takeWhile isDigit, s.dropWhile isDigit)
    else none
  | [] => none

/-- A point with digits after it. -/
def fractionPart (s : PyText) : Cut :=
  if s.head? = some (cp '.') ∧ s.tail.head?.any isDigit then
    (cp '.' :: s.tail.takeWhile isDigit, s.tail.dropWhile isDigit)
  else ([], s)

/-- The sign of an exponent. -/
def exponentSign (s : PyText) : Cut :=
  if s.head? = some (cp '+') ∨ s.head? = some (cp '-') then (s.take 1, s.tail) else ([], s)

/-- An exponent with its letter. -/
def exponentPart (s : PyText) : Cut :=
  let (sign, digits) := exponentSign s.tail
  if (s.head? = some (cp 'e') ∨ s.head? = some (cp 'E')) ∧ digits.head?.any isDigit then
    (s.take 1 ++ (sign ++ digits.takeWhile isDigit), digits.dropWhile isDigit)
  else ([], s)

/-- What the reader does with the pairs of an object, with the special floats and with the other
    floats. -/
structure Hooks where
  object : List (PyText × JsonValue) → Option JsonValue
  constant : PyFloat → Option JsonValue
  float : PyFloat → Option JsonValue

variable (hooks : Hooks)

def readNumber (s : PyText) : Option (JsonValue × PyText) := do
  let (sign, s) := signPart s
  let (whole, s) ← integerPart s
  let (fraction, s) := fractionPart s
  let (exponent, s) := exponentPart s
  if fraction = [] ∧ exponent = [] then
    let n ← (charsOf (sign ++ whole)).bind (pyInt Unicode.ascii)
    return (.int n, s)
  else
    let f ← (charsOf (sign ++ whole ++ fraction ++ exponent)).bind (pyFloat Unicode.ascii)
    let value ← hooks.float f
    return (value, s)

/-! ### Reading values -/

/-- The words of the format, and those that only Python takes. -/
def words : List (PyText × Option JsonValue) :=
  [(pyText "null", some .null), (pyText "true", some (.bool true)),
   (pyText "false", some (.bool false)),
   (pyText "NaN", hooks.constant (PyNumber.toFloat .nan)),
   (pyText "Infinity", hooks.constant (PyNumber.toFloat (.infinite false))),
   (pyText "-Infinity", hooks.constant (PyNumber.toFloat (.infinite true)))]

/-- A word or a number. -/
def readAtom (s : PyText) : Option (JsonValue × PyText) :=
  match (words hooks).find? fun word => word.1.isPrefixOf s with
  | some (word, value) => value.map fun value => (value, s.drop word.length)
  | none => readNumber hooks s

mutual

/-- One value; each level of nesting takes two units of fuel. -/
def readValue : ℕ → PyText → Option (JsonValue × PyText)
  | 0, _ => none
  | fuel + 1, s =>
    if s.head? = some (cp '"') then (readString s.tail).map fun p => (.str p.1, p.2)
    else if s.head? = some (cp '[') then
      if (skip s.tail).head? = some (cp ']') then some (.arr [], (skip s.tail).tail)
      else (readItems fuel (skip s.tail)).map fun p => (.arr p.1, p.2)
    else if s.head? = some (cp '{') then
      if (skip s.tail).head? = some (cp '}') then
        (hooks.object []).map fun value => (value, (skip s.tail).tail)
      else (readFields fuel (skip s.tail)).bind fun p =>
        (hooks.object p.1).map fun value => (value, p.2)
    else readAtom hooks s

/-- The items of an array that is not empty. -/
def readItems : ℕ → PyText → Option (List JsonValue × PyText)
  | 0, _ => none
  | fuel + 1, s => (readValue fuel s).bind fun item =>
    if (skip item.2).head? = some (cp ']') then some ([item.1], (skip item.2).tail)
    else if (skip item.2).head? = some (cp ',') then
      (readItems fuel (skip (skip item.2).tail)).map fun p => (item.1 :: p.1, p.2)
    else none

/-- The fields of an object that is not empty. -/
def readFields : ℕ → PyText → Option (List (PyText × JsonValue) × PyText)
  | 0, _ => none
  | fuel + 1, s =>
    if s.head? ≠ some (cp '"') then none
    else (readString s.tail).bind fun key =>
      if (skip key.2).head? ≠ some (cp ':') then none
      else (readValue fuel (skip (skip key.2).tail)).bind fun value =>
        if (skip value.2).head? = some (cp '}') then
          some ([(key.1, value.1)], (skip value.2).tail)
        else if (skip value.2).head? = some (cp ',') then
          (readFields fuel (skip (skip value.2).tail)).map fun p =>
            ((key.1, value.1) :: p.1, p.2)
        else none

end

/-- `json.loads(s)`. A byte order mark is refused. -/
def loads (s : PyText) : Option JsonValue :=
  if s.head?.any (·.val = 0xFEFF) then none
  else match readValue hooks (2 * s.length + 2) (skip s) with
    | some (value, rest) => if skip rest = [] then some value else none
    | none => none

end JsonValue
end Dpone.Schemes
