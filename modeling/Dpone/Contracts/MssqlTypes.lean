import Dpone.Schemes.Numeral
import Dpone.Schemes.Replace

/-! The physical types of SQL Server: `normalize_mssql_physical_type`.

    The normalizer takes any spelling and returns a canonical text. A `PhysicalType` is a type that
    SQL Server can create, its bounds being fields, and `text` its canonical spelling. SOUND: what
    the normalizer returns is the text of a physical type, and it leaves such a text as it is. -/

namespace Dpone.Contracts.Mssql
open Dpone.Schemes

/-! ### Names -/

/-- `_PARAMETERLESS_PHYSICAL_TYPES`. -/
inductive Parameterless where
  | bigint | bit | date | datetime | float | int | money | real | smalldatetime | smallint
  | smallmoney | tinyint | uniqueidentifier
  deriving DecidableEq

def Parameterless.name : Parameterless → Str
  | .bigint => "bigint".toList
  | .bit => "bit".toList
  | .date => "date".toList
  | .datetime => "datetime".toList
  | .float => "float".toList
  | .int => "int".toList
  | .money => "money".toList
  | .real => "real".toList
  | .smalldatetime => "smalldatetime".toList
  | .smallint => "smallint".toList
  | .smallmoney => "smallmoney".toList
  | .tinyint => "tinyint".toList
  | .uniqueidentifier => "uniqueidentifier".toList

def Parameterless.all : List Parameterless :=
  [.bigint, .bit, .date, .datetime, .float, .int, .money, .real, .smalldatetime, .smallint,
   .smallmoney, .tinyint, .uniqueidentifier]

inductive DecimalFamily where
  | decimal | numeric
  deriving DecidableEq

def DecimalFamily.name : DecimalFamily → Str
  | .decimal => "decimal".toList
  | .numeric => "numeric".toList

inductive TemporalFamily where
  | datetime2 | datetimeoffset | time
  deriving DecidableEq

def TemporalFamily.name : TemporalFamily → Str
  | .datetime2 => "datetime2".toList
  | .datetimeoffset => "datetimeoffset".toList
  | .time => "time".toList

inductive SizedFamily where
  | nvarchar | varchar | nchar | char | varbinary | binary
  deriving DecidableEq

def SizedFamily.name : SizedFamily → Str
  | .nvarchar => "nvarchar".toList
  | .varchar => "varchar".toList
  | .nchar => "nchar".toList
  | .char => "char".toList
  | .varbinary => "varbinary".toList
  | .binary => "binary".toList

/-- `_CHARACTER_LIMITS | _BINARY_LIMITS`. -/
def SizedFamily.limit : SizedFamily → ℕ
  | .nvarchar | .nchar => 4000
  | _ => 8000

/-- The families with `max`. -/
def SizedFamily.unbounded : SizedFamily → Bool
  | .nvarchar | .varchar | .varbinary => true
  | _ => false

def DecimalFamily.all : List DecimalFamily := [.decimal, .numeric]

def TemporalFamily.all : List TemporalFamily := [.datetime2, .datetimeoffset, .time]

def SizedFamily.all : List SizedFamily := [.nvarchar, .varchar, .nchar, .char, .varbinary, .binary]

/-- The item of a list that has a name. -/
def named {α : Type} (name : α → Str) (all : List α) (s : Str) : Option α :=
  all.find? fun a => name a = s

/-! ### The normalizer -/

/-- `ValueError` with its text, or `MssqlLosslessProjectionError`. -/
inductive TypeError where
  | value (text : Str)
  | lossy (column source target : Str)
  deriving DecidableEq

/-- A name and what stands between the parentheses after it. -/
def call (s : Str) : Option (Str × Str) :=
  match s.dropWhile (· ≠ '(') with
  | _ :: rest =>
    if rest.getLast? = some ')' then some (s.takeWhile (· ≠ '('), rest.dropLast) else none
  | [] => none

def callText (name arguments : Str) : Str := name ++ '(' :: (arguments ++ [')'])

section Normalizer
variable (u : Unicode)

/-- `\d+`, as an integer. -/
def numberOf (s : Str) : Option ℕ :=
  if s ≠ [] ∧ s.all (fun c => (u.digit c).isSome) then some (digitsValue u s) else none

/-- `(\d+),(\d+)`. -/
def numbersOf (s : Str) : Option (ℕ × ℕ) :=
  match s.dropWhile (· ≠ ',') with
  | _ :: second => (numberOf u (s.takeWhile (· ≠ ','))).bind fun precision =>
      (numberOf u second).map fun scale => (precision, scale)
  | [] => none

/-- `(decimal|numeric)\((\d+),(\d+)\)`. -/
def decimalMatch (s : Str) : Option (DecimalFamily × ℕ × ℕ) :=
  (call s).bind fun parts => (named DecimalFamily.name DecimalFamily.all parts.1).bind fun family =>
    (numbersOf u parts.2).map fun numbers => (family, numbers)

/-- `float\((\d+)\)`. -/
def floatMatch (s : Str) : Option ℕ :=
  (call s).bind fun parts => if parts.1 = "float".toList then numberOf u parts.2 else none

/-- `(datetime2|datetimeoffset|time)\((\d+)\)`. -/
def temporalMatch (s : Str) : Option (TemporalFamily × ℕ) :=
  (call s).bind fun parts =>
    (named TemporalFamily.name TemporalFamily.all parts.1).bind fun family =>
      (numberOf u parts.2).map fun scale => (family, scale)

/-- The same, the scale being optional. -/
def temporalDeclaration (s : Str) : Option (TemporalFamily × ℕ) :=
  match named TemporalFamily.name TemporalFamily.all s with
  | some family => some (family, 7)
  | none => temporalMatch u s

/-- `(nvarchar|varchar|nchar|char|varbinary|binary)\((max|\d+)\)`; `none` is `max`. -/
def sizedMatch (s : Str) : Option (SizedFamily × Option ℕ) :=
  (call s).bind fun parts => (named SizedFamily.name SizedFamily.all parts.1).bind fun family =>
    if parts.2 = "max".toList then some (family, none)
    else (numberOf u parts.2).map fun length => (family, some length)

/-- A text in lower case and without blanks. -/
def compact (value : Str) : Str := (u.lower (strip u value)).filter fun c => !u.isSpace c

/-- A decimal type with its parameters. -/
def decimalTypeText (family : DecimalFamily) (precision scale : ℕ) : Str :=
  callText family.name (decimalText precision ++ ',' :: decimalText scale)

/-- The types with parameters. -/
def normalizeDeclaration (value s : Str) : Except TypeError Str :=
  match decimalMatch u s, floatMatch u s, temporalDeclaration u s, sizedMatch u s with
  | some (family, precision, scale), _, _, _ =>
    if 1 ≤ precision ∧ precision ≤ 38 ∧ scale ≤ precision then
      .ok (decimalTypeText family precision scale)
    else .error (.value "MSSQL decimal precision or scale is invalid".toList)
  | none, some precision, _, _ =>
    if 1 ≤ precision ∧ precision ≤ 53 then .ok (callText "float".toList (decimalText precision))
    else .error (.value "MSSQL float precision must be between 1 and 53".toList)
  | none, none, some (family, scale), _ =>
    if scale ≤ 7 then .ok (callText family.name (decimalText scale))
    else .error (.value "MSSQL temporal scale must be between 0 and 7".toList)
  | none, none, none, some (family, none) =>
    if family.unbounded then .ok (callText family.name "max".toList)
    else .error (.value ("MSSQL ".toList ++ family.name ++ " does not support MAX".toList))
  | none, none, none, some (family, some length) =>
    if 1 ≤ length ∧ length ≤ family.limit then .ok (callText family.name (decimalText length))
    else .error (.value ("MSSQL ".toList ++ family.name ++
      " length must be between 1 and ".toList ++ decimalText family.limit))
  | none, none, none, none =>
    .error (.value ("unsupported MSSQL physical type: ".toList ++ value))

/-- `normalize_mssql_physical_type`. -/
def normalizePhysicalType (value : Str) : Except TypeError Str :=
  match named Parameterless.name Parameterless.all (compact u value) with
  | some plain => .ok plain.name
  | none => normalizeDeclaration u value (compact u value)

/-- `re.sub(r"\(.*\)$", "", s)` of a text without line breaks. -/
def withoutArguments (s : Str) : Str := ((call s).map Prod.fst).getD s

/-- `normalized_mssql_base_type`. -/
def normalizedBaseType (sourceType : Str) : Str :=
  let normalized := strip u (replaceAll " nullable".toList [] (u.lower (strip u sourceType)))
  let inner :=
    if "nullable(".toList.isPrefixOf normalized && [')'].isSuffixOf normalized then
      strip u (normalized.drop 9).dropLast
    else normalized
  strip u (withoutArguments inner)

end Normalizer

/-! ### Physical types -/

/-- A type that SQL Server can create. -/
inductive PhysicalType where
  | plain (p : Parameterless)
  | decimal (family : DecimalFamily) (precision scale : ℕ)
      (valid : 1 ≤ precision ∧ precision ≤ 38 ∧ scale ≤ precision)
  | float (precision : ℕ) (valid : 1 ≤ precision ∧ precision ≤ 53)
  | temporal (family : TemporalFamily) (scale : ℕ) (valid : scale ≤ 7)
  | bounded (family : SizedFamily) (length : ℕ) (valid : 1 ≤ length ∧ length ≤ family.limit)
  | unbounded (family : SizedFamily) (valid : family.unbounded = true)

namespace PhysicalType

/-- The name of the type. -/
def base : PhysicalType → Str
  | .plain p => p.name
  | .decimal family _ _ _ => family.name
  | .float _ _ => "float".toList
  | .temporal family _ _ => family.name
  | .bounded family _ _ | .unbounded family _ => family.name

/-- Its parameters. -/
def arguments : PhysicalType → Option Str
  | .plain _ => none
  | .decimal _ precision scale _ => some (decimalText precision ++ ',' :: decimalText scale)
  | .float precision _ => some (decimalText precision)
  | .temporal _ scale _ => some (decimalText scale)
  | .bounded _ length _ => some (decimalText length)
  | .unbounded _ _ => some "max".toList

/-- The canonical spelling. -/
def text (p : PhysicalType) : Str :=
  match p.arguments with
  | none => p.base
  | some arguments => callText p.base arguments

end PhysicalType

/-! ### Canonical spellings -/

/-- A database in which the characters of canonical spellings are in lower case. -/
structure Casing extends Unicode where
  lower_canonical : ∀ s : Str,
    (∀ c ∈ s, c.isLower = true ∨ c.isDigit = true ∨ bracket c = true) → lower s = s

section Canonical

theorem call_callText {name : Str} (h : '(' ∉ name) (arguments : Str) :
    call (callText name arguments) = some (name, arguments) := by
  have hname : ∀ c ∈ name, (decide (c ≠ '(')) = true := by
    intro c hc
    have hne : c ≠ '(' := fun heq => h (heq ▸ hc)
    simpa using hne
  unfold call callText
  rw [List.dropWhile_append_of_pos hname, List.takeWhile_append_of_pos hname,
    List.dropWhile_cons_of_neg (by simp), List.takeWhile_cons_of_neg (by simp)]
  simp

theorem call_none {s : Str} (h : '(' ∉ s) : call s = none := by
  have hs : s.dropWhile (· ≠ '(') = [] := by
    rw [List.dropWhile_eq_nil_iff]
    intro c hc
    have hne : c ≠ '(' := fun heq => h (heq ▸ hc)
    simpa using hne
  rw [call, hs]

/-- No name has a parenthesis, and all its characters are letters in lower case and digits. -/
theorem base_plain (p : PhysicalType) :
    (p.base.all fun c => (c.isLower || c.isDigit) && c ≠ '(') = true := by
  cases p with
  | plain p => cases p <;> rfl
  | decimal family => cases family <;> rfl
  | float => rfl
  | temporal family => cases family <;> rfl
  | bounded family => cases family <;> rfl
  | unbounded family => cases family <;> rfl

theorem paren_notMem_base (p : PhysicalType) : '(' ∉ p.base := by
  intro h
  have := List.all_eq_true.mp (base_plain p) _ h
  simp at this

/-- The parts of a canonical spelling. -/
theorem call_text (p : PhysicalType) : call p.text = p.arguments.map fun a => (p.base, a) := by
  unfold PhysicalType.text
  cases p.arguments with
  | none => exact call_none (paren_notMem_base p)
  | some a => exact call_callText (paren_notMem_base p) a

theorem digit_decimalText {n : ℕ} {c : Char} (h : c ∈ decimalText n) : c.isDigit = true := by
  obtain ⟨d, hd, rfl⟩ := mem_numeral _ _ h
  exact (digitChar_isDigit d hd).1

/-- The characters of a canonical spelling. -/
theorem text_canonical (p : PhysicalType) :
    ∀ c ∈ p.text, c.isLower = true ∨ c.isDigit = true ∨ bracket c = true := by
  have hbase : ∀ c ∈ p.base, c.isLower = true ∨ c.isDigit = true ∨ bracket c = true := by
    intro c hc
    have := List.all_eq_true.mp (base_plain p) _ hc
    simp only [Bool.and_eq_true, Bool.or_eq_true] at this
    rcases this.1 with h | h
    · exact .inl h
    · exact .inr (.inl h)
  have hnumber : ∀ n, ∀ c ∈ decimalText n,
      c.isLower = true ∨ c.isDigit = true ∨ bracket c = true :=
    fun n c hc => .inr (.inl (digit_decimalText hc))
  have harguments : ∀ a, p.arguments = some a →
      ∀ c ∈ a, c.isLower = true ∨ c.isDigit = true ∨ bracket c = true := by
    intro a ha
    cases p with
    | plain => cases ha
    | decimal family precision scale =>
      cases ha
      intro c hc
      rcases List.mem_append.mp hc with hc | hc
      · exact hnumber _ c hc
      · rcases List.mem_cons.mp hc with rfl | hc
        · exact .inr (.inr rfl)
        · exact hnumber _ c hc
    | float precision =>
      cases ha
      exact hnumber _
    | temporal family scale =>
      cases ha
      exact hnumber _
    | bounded family length =>
      cases ha
      exact hnumber _
    | unbounded family =>
      cases ha
      intro c hc
      have hlower : ("max".toList.all fun c => c.isLower) = true := by rfl
      exact .inl (List.all_eq_true.mp hlower c hc)
  unfold PhysicalType.text
  cases ha : p.arguments with
  | none => exact hbase
  | some a =>
    intro c hc
    rcases List.mem_append.mp hc with hc | hc
    · exact hbase c hc
    · rcases List.mem_cons.mp hc with rfl | hc
      · exact .inr (.inr rfl)
      · rcases List.mem_append.mp hc with hc | hc
        · exact harguments a ha c hc
        · rw [List.mem_singleton.mp hc]
          exact .inr (.inr rfl)

theorem text_not_space (u : Unicode) (p : PhysicalType) : ∀ c ∈ p.text, ¬ u.isSpace c := by
  intro c hc hspace
  have hword : ∀ c : Char, c.isLower = true ∨ c.isDigit = true → c.isAlphanum = true := by
    intro c hc
    unfold Char.isAlphanum Char.isAlpha
    rw [Bool.or_eq_true, Bool.or_eq_true]
    rcases hc with h | h
    · exact .inl (.inr h)
    · exact .inr h
  rcases text_canonical p c hc with h | h | h
  · exact u.space_not_word c hspace (u.word_ascii c (hword c (.inl h)))
  · exact u.space_not_word c hspace (u.word_ascii c (hword c (.inr h)))
  · exact u.space_not_bracket c hspace h

theorem compact_text (u : Casing) (p : PhysicalType) : compact u.toUnicode p.text = p.text := by
  unfold compact
  rw [strip_eq_self (text_not_space u.toUnicode p), u.lower_canonical _ (text_canonical p),
    List.filter_eq_self]
  intro c hc
  simpa using text_not_space u.toUnicode p c hc

/-- A number is read back from its text. -/
theorem numberOf_decimalText (u : Unicode) (n : ℕ) : numberOf u (decimalText n) = some n := by
  have hdigits : (decimalText n).all (fun c => (u.digit c).isSome) = true := by
    rw [List.all_eq_true]
    intro c hc
    rw [u.digit_ascii c (digit_decimalText hc)]
    rfl
  have hvalue : ∀ (s : Str) (m : ℕ), (∀ c ∈ s, c.isDigit = true) →
      intDigits u true m s = some (s.foldl (fun n c => 10 * n + (u.digit c).getD 0) m) := by
    intro s
    induction s with
    | nil => exact fun m _ => rfl
    | cons c s ih =>
      intro m hs
      obtain ⟨hc, hs⟩ := List.forall_mem_cons.mp hs
      have hne : c ≠ '_' := by
        rintro rfl
        cases hc
      rw [intDigits, if_neg hne, u.digit_ascii c hc, Option.bind_some, ih _ hs, List.foldl_cons,
        u.digit_ascii c hc, Option.getD_some]
  have hread := intDigits_decimalText u n
  obtain ⟨c, s, hs⟩ := List.exists_cons_of_ne_nil (decimalText_ne_nil n)
  have hall : ∀ d ∈ decimalText n, d.isDigit = true := fun d hd => digit_decimalText hd
  rw [numberOf, if_pos ⟨decimalText_ne_nil n, hdigits⟩, digitsValue]
  rw [hs] at hread hall ⊢
  obtain ⟨hc, hrest⟩ := List.forall_mem_cons.mp hall
  have hne : c ≠ '_' := by
    rintro rfl
    cases hc
  rw [intDigits, if_neg hne, u.digit_ascii c hc, Option.bind_some, hvalue s _ hrest] at hread
  rw [List.foldl_cons, u.digit_ascii c hc, Option.getD_some]
  exact hread

theorem numbersOf_decimalText (u : Unicode) (m n : ℕ) :
    numbersOf u (decimalText m ++ ',' :: decimalText n) = some (m, n) := by
  have hcomma : ∀ c ∈ decimalText m, (decide (c ≠ ',')) = true := by
    intro c hc
    have hne : c ≠ ',' := by
      rintro rfl
      have := digit_decimalText hc
      cases this
    simpa using hne
  unfold numbersOf
  rw [List.dropWhile_append_of_pos hcomma, List.takeWhile_append_of_pos hcomma,
    List.dropWhile_cons_of_neg (by simp), List.takeWhile_cons_of_neg (by simp), List.append_nil,
    numberOf_decimalText]
  simp [numberOf_decimalText]

/-! ### Matches of canonical spellings -/

section Matches
variable (u : Unicode) (p : PhysicalType)

/-- The family of a decimal type, its precision and its scale. -/
def PhysicalType.decimalParts : PhysicalType → Option (DecimalFamily × ℕ × ℕ)
  | .decimal family precision scale _ => some (family, precision, scale)
  | _ => none

def PhysicalType.floatParts : PhysicalType → Option ℕ
  | .float precision _ => some precision
  | _ => none

def PhysicalType.temporalParts : PhysicalType → Option (TemporalFamily × ℕ)
  | .temporal family scale _ => some (family, scale)
  | _ => none

def PhysicalType.sizedParts : PhysicalType → Option (SizedFamily × Option ℕ)
  | .bounded family length _ => some (family, some length)
  | .unbounded family _ => some (family, none)
  | _ => none

theorem named_decimal (family : DecimalFamily) :
    named DecimalFamily.name DecimalFamily.all family.name = some family := by
  cases family <;> decide

theorem named_temporal (family : TemporalFamily) :
    named TemporalFamily.name TemporalFamily.all family.name = some family := by
  cases family <;> decide

theorem named_sized (family : SizedFamily) :
    named SizedFamily.name SizedFamily.all family.name = some family := by
  cases family <;> decide

theorem decimalMatch_text : decimalMatch u p.text = p.decimalParts := by
  unfold decimalMatch
  rw [call_text]
  cases p with
  | plain => rfl
  | decimal family precision scale =>
    simp [PhysicalType.arguments, PhysicalType.base, named_decimal, numbersOf_decimalText,
      PhysicalType.decimalParts]
  | float => rfl
  | temporal family => cases family <;> rfl
  | bounded family => cases family <;> rfl
  | unbounded family => cases family <;> rfl

theorem floatMatch_text : floatMatch u p.text = p.floatParts := by
  unfold floatMatch
  rw [call_text]
  cases p with
  | plain => rfl
  | decimal family => cases family <;> rfl
  | float precision =>
    simp [PhysicalType.arguments, PhysicalType.base, numberOf_decimalText, PhysicalType.floatParts]
  | temporal family => cases family <;> rfl
  | bounded family => cases family <;> rfl
  | unbounded family => cases family <;> rfl

theorem temporalMatch_text : temporalMatch u p.text = p.temporalParts := by
  unfold temporalMatch
  rw [call_text]
  cases p with
  | plain => rfl
  | decimal family => cases family <;> rfl
  | float => rfl
  | temporal family scale =>
    simp [PhysicalType.arguments, PhysicalType.base, named_temporal, numberOf_decimalText,
      PhysicalType.temporalParts]
  | bounded family => cases family <;> rfl
  | unbounded family => cases family <;> rfl

theorem decimalText_ne_max (n : ℕ) : decimalText n ≠ "max".toList := by
  intro h
  have : 'm' ∈ decimalText n := by
    rw [h]
    decide
  exact Bool.false_ne_true (digit_decimalText this)

theorem sizedMatch_text : sizedMatch u p.text = p.sizedParts := by
  unfold sizedMatch
  rw [call_text]
  cases p with
  | plain => rfl
  | decimal family => cases family <;> rfl
  | float => rfl
  | temporal family => cases family <;> rfl
  | bounded family length =>
    simp only [PhysicalType.arguments, PhysicalType.base, Option.map_some, Option.bind_some,
      named_sized, if_neg (decimalText_ne_max length), numberOf_decimalText]
    rfl
  | unbounded family =>
    simp [PhysicalType.arguments, PhysicalType.base, named_sized, PhysicalType.sizedParts]

theorem named_text {α : Type} {name : α → Str} {all : List α} (hname : ∀ a ∈ all, '(' ∉ name a) :
    named name all p.text = p.arguments.elim (named name all p.base) fun _ => none := by
  unfold named PhysicalType.text
  cases p.arguments with
  | none => rfl
  | some a =>
    refine List.find?_eq_none.mpr fun x hx heq => hname x hx ?_
    rw [of_decide_eq_true heq]
    exact List.mem_append_right _ (List.mem_cons_self ..)

theorem temporalDeclaration_text : temporalDeclaration u p.text = p.temporalParts := by
  have hname : ∀ a ∈ TemporalFamily.all, '(' ∉ a.name := by
    intro a _
    cases a <;> decide
  unfold temporalDeclaration
  rw [named_text p hname, temporalMatch_text]
  cases p with
  | plain q => cases q <;> rfl
  | _ => rfl

end Matches

/-! ### The normalizer and its results -/

theorem normalizeDeclaration_ok {u : Unicode} {value s t : Str}
    (h : normalizeDeclaration u value s = .ok t) : ∃ p : PhysicalType, p.text = t := by
  unfold normalizeDeclaration at h
  split at h
  · split_ifs at h with hvalid
    cases h
    exact ⟨.decimal _ _ _ hvalid, rfl⟩
  · split_ifs at h with hvalid
    cases h
    exact ⟨.float _ hvalid, rfl⟩
  · split_ifs at h with hvalid
    cases h
    exact ⟨.temporal _ _ hvalid, rfl⟩
  · split_ifs at h with hvalid
    cases h
    exact ⟨.unbounded _ hvalid, rfl⟩
  · split_ifs at h with hvalid
    cases h
    exact ⟨.bounded _ _ hvalid, rfl⟩
  · cases h

/-- SOUND: what the normalizer returns is the text of a type that can be created. -/
theorem normalize_ok {u : Unicode} {value s : Str} (h : normalizePhysicalType u value = .ok s) :
    ∃ p : PhysicalType, p.text = s := by
  unfold normalizePhysicalType at h
  split at h
  · cases h
    exact ⟨.plain _, rfl⟩
  · exact normalizeDeclaration_ok h

theorem named_plain (q : Parameterless) :
    named Parameterless.name Parameterless.all q.name = some q := by
  cases q <;> decide

/-- LOSSLESS: the normalizer leaves a canonical spelling as it is. -/
theorem normalize_text (u : Casing) (p : PhysicalType) :
    normalizePhysicalType u.toUnicode p.text = .ok p.text := by
  have hname : ∀ a ∈ Parameterless.all, '(' ∉ a.name := by
    intro a _
    cases a <;> decide
  unfold normalizePhysicalType normalizeDeclaration
  rw [compact_text, named_text p hname, decimalMatch_text, floatMatch_text,
    temporalDeclaration_text, sizedMatch_text]
  cases p with
  | plain q =>
    rw [PhysicalType.arguments, Option.elim_none, PhysicalType.base, named_plain]
    rfl
  | decimal family precision scale valid => exact if_pos valid
  | float precision valid => exact if_pos valid
  | temporal family scale valid => exact if_pos valid
  | bounded family length valid => exact if_pos valid
  | unbounded family valid => exact if_pos valid

theorem takeWhile_text (p : PhysicalType) : p.text.takeWhile (· ≠ '(') = p.base := by
  have hbase : ∀ c ∈ p.base, (decide (c ≠ '(')) = true := by
    intro c hc
    have hne : c ≠ '(' := fun heq => paren_notMem_base p (heq ▸ hc)
    simpa using hne
  unfold PhysicalType.text
  cases p.arguments with
  | none => exact List.takeWhile_eq_self_iff.mpr hbase
  | some a =>
    dsimp only [callText]
    rw [List.takeWhile_append_of_pos hbase, List.takeWhile_cons_of_neg (by simp), List.append_nil]

theorem not_nullable (p : PhysicalType) : "nullable(".toList.isPrefixOf p.text = false := by
  rw [Bool.eq_false_iff]
  intro h
  obtain ⟨rest, hrest⟩ := List.isPrefixOf_iff_prefix.mp h
  have hbase : p.base = "nullable".toList := by
    rw [← takeWhile_text, ← hrest]
    rfl
  have hplain : ∀ q : Parameterless, q.name ≠ "nullable".toList := fun q => by cases q <;> decide
  have hdecimal : ∀ f : DecimalFamily, f.name ≠ "nullable".toList := fun f => by
    cases f <;> decide
  have htemporal : ∀ f : TemporalFamily, f.name ≠ "nullable".toList := fun f => by
    cases f <;> decide
  have hsized : ∀ f : SizedFamily, f.name ≠ "nullable".toList := fun f => by cases f <;> decide
  have hfloat : "float".toList ≠ "nullable".toList := by decide
  cases p with
  | plain q => exact hplain q hbase
  | decimal family => exact hdecimal family hbase
  | float => exact hfloat hbase
  | temporal family => exact htemporal family hbase
  | bounded family => exact hsized family hbase
  | unbounded family => exact hsized family hbase

/-- The base type of a canonical spelling is its name. -/
theorem base_text (u : Casing) (p : PhysicalType) :
    normalizedBaseType u.toUnicode p.text = p.base := by
  have hspace := text_not_space u.toUnicode p
  have hblank : ' ' ∉ p.text := by
    intro h
    rcases text_canonical p ' ' h with h | h | h <;> cases h
  have hbase : ∀ c ∈ p.base, ¬ u.toUnicode.isSpace c := by
    intro c hc
    rw [← takeWhile_text] at hc
    exact hspace c ((List.takeWhile_prefix _).subset hc)
  have hwithout : withoutArguments p.text = p.base := by
    unfold withoutArguments
    rw [call_text]
    cases ha : p.arguments with
    | none =>
      rw [PhysicalType.text, ha]
      rfl
    | some a => rfl
  have hreplaced : replaceAll " nullable".toList [] p.text = p.text := replaceAll_of_not_mem hblank
  unfold normalizedBaseType
  rw [strip_eq_self hspace, u.lower_canonical _ (text_canonical p), hreplaced,
    strip_eq_self hspace]
  dsimp only
  rw [not_nullable, Bool.false_and, if_neg Bool.false_ne_true, hwithout, strip_eq_self hbase]

end Canonical

end Dpone.Contracts.Mssql
