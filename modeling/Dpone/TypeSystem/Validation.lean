import Mathlib.Tactic.Linarith
import Mathlib.Tactic.Ring
import Dpone.Schemes.Dict
import Dpone.Schemes.DecimalText
import Dpone.Schemes.Python

/-! Validating values against the columns of a schema contract: `_validate_value` of
    `enforcement.py`.

    What Python does with values other than texts and numbers, and which texts are timestamps,
    dates, times and JSON, are parameters. -/

namespace Dpone.TypeSystem
open Dpone.Schemes

variable {α : Type}

/-- Types of values that are no texts and no numbers. -/
inductive Kind where
  | datetime | date | time | bytes | bytearray | memoryview | list | tuple | dict | mapping
  | named (typeName : Str)
  deriving DecidableEq

/-- A value of a row. A signalling NaN is an object. -/
inductive Value (α : Type) where
  | null
  | bool (b : Bool)
  | int (n : ℤ)
  | float (x : PyFloat)
  | text (s : Str)
  | decimal (d : PyNumber)
  | object (kind : Kind) (x : α)
  deriving DecidableEq

def Value.isNull : Value α → Bool
  | .null => true
  | _ => false

/-- The parts of Python that the checks call. -/
structure Builtins (α : Type) extends Unicode where
  /-- `str.isdigit` of one character. -/
  isDigit : Char → Bool
  /-- `str` of a float and of an object. -/
  floatStr : PyFloat → Str
  objectStr : Kind → α → Str
  /-- `repr`. -/
  repr : Value α → Str
  /-- `float(x)` and `x in {0, 1}` of an object. -/
  objectFloat : Kind → α → Except PyError Unit
  objectBit : Kind → α → Except PyError Bool
  /-- What `fromisoformat` reads. -/
  isDatetime : Str → Bool
  isDate : Str → Bool
  isTime : Str → Bool
  /-- `json.loads`, apart from a `JSONDecodeError`. -/
  isJson : Str → Except PyError Bool

/-- `ColumnContract`. -/
structure Column where
  name : Str
  logicalType : Str
  precision : Option ℕ := none
  scale : Option ℕ := none
  nullable : Bool := true
  deriving DecidableEq

section Checks
variable (py : Builtins α)

/-- `str(value)`. -/
def str : Value α → Str
  | .null => "None".toList
  | .bool b => if b then "True".toList else "False".toList
  | .int n => intText n
  | .float x => py.floatStr x
  | .text s => s
  | .decimal (.finite negative c e) => decimalStr negative c e
  | .decimal (.infinite negative) => (NumberText.infinity negative).text
  | .decimal .nan => NumberText.nan.text
  | .object kind x => py.objectStr kind x

def isInt : Value α → Bool
  | .int _ => true
  | .text s =>
    let digits := (strip py.toUnicode s).dropWhile (· = '-')
    digits ≠ [] && digits.all py.isDigit
  | _ => false

/-- `len(Decimal(...).as_tuple().digits)`. -/
def digitCount (coefficient : ℕ) : ℕ := (digitsOf coefficient).length

def isDecimal (value : Value α) (column : Column) : Bool :=
  match pyDecimal py.toUnicode (str py value) with
  | some (.finite _ coefficient exponent) =>
    if column.scale.any fun scale => scale < exponent.natAbs then false
    else
      match column.precision with
      | some precision => digitCount coefficient ≤ precision
      | none => true
  | _ => false

/-- `float(value)`. -/
def toFloat : Value α → Except PyError Unit
  | .int n => if (double.nearest (n.natAbs * unitsPerOne) 1).isSome then .ok ()
    else .error .overflowError
  | .text s => if (pyFloat py.toUnicode s).isSome then .ok () else .error (.valueError "")
  | .object kind x => py.objectFloat kind x
  | .null => .error .typeError
  | _ => .ok ()

/-- `except (TypeError, ValueError): return False`. -/
def caught : Except PyError Unit → Except PyError Bool
  | .ok () => .ok true
  | .error .typeError => .ok false
  | .error (.valueError _) => .ok false
  | .error e => .error e

def isFloat : Value α → Except PyError Bool
  | .bool _ => .ok false
  | value => caught (toFloat py value)

def isBool : Value α → Except PyError Bool
  | .bool _ => .ok true
  | .text s => .ok (["true", "false", "1", "0", "yes", "no"].any fun word =>
      py.lower (strip py.toUnicode s) = word.toList)
  | .int n => .ok (n = 0 || n = 1)
  | .float x => .ok (floatValue x = some 0 || floatValue x = some 1)
  | .decimal d => .ok (d.value = some 0 || d.value = some 1)
  | .null => .ok false
  | .object kind x => py.objectBit kind x

/-- `value.replace("Z", "+00:00")`. -/
def replaceZulu (s : Str) : Str := s.flatMap fun c => if c = 'Z' then "+00:00".toList else [c]

def ofKind (kinds : List Kind) : Value α → Bool
  | .object kind _ => kinds.contains kind
  | _ => false

def isTimestamp : Value α → Bool
  | .text s => py.isDatetime (replaceZulu s)
  | value => ofKind [.datetime] value

def isDay : Value α → Bool
  | .text s => py.isDate s
  | value => ofKind [.date] value

def isClock : Value α → Bool
  | .text s => py.isTime s
  | value => ofKind [.time] value

def isJsonValue : Value α → Except PyError Bool
  | .text s => py.isJson s
  | value => .ok (ofKind [.dict, .list] value)

def isText : Value α → Bool
  | .text _ => true
  | _ => false

def must (column : Column) (what : String) : Str := column.name ++ (" must be " ++ what).toList

/-- `_validate_value`. -/
def validateValue (value : Value α) (column : Column) : Except PyError (Bool × Str) :=
  if value.isNull then
    .ok (column.nullable, column.name ++ " is required but value is NULL".toList)
  else
    let logical := py.lower column.logicalType
    if logical = "string".toList then .ok (isText value, must column "string")
    else if logical = "integer".toList ∨ logical = "bigint".toList then
      .ok (isInt py value, must column "integer")
    else if logical = "decimal".toList then .ok (isDecimal py value column, must column "decimal")
    else if logical = "float".toList then do return (← isFloat py value, must column "float")
    else if logical = "boolean".toList then do return (← isBool py value, must column "boolean")
    else if logical = "timestamp".toList then .ok (isTimestamp py value, must column "timestamp")
    else if logical = "date".toList then .ok (isDay py value, must column "date")
    else if logical = "time".toList then .ok (isClock py value, must column "time")
    else if logical = "json".toList then do return (← isJsonValue py value, must column "json")
    else if logical = "array".toList then .ok (ofKind [.list, .tuple] value, must column "array")
    else if logical = "binary".toList then
      .ok (ofKind [.bytes, .bytearray, .memoryview] value, must column "binary")
    else .ok (true, [])

/-- Checking a value raises nothing: it is no integer too large for a float column, nothing that a
    float column cannot convert for other reasons than its type and its text, nothing that a boolean
    column cannot look up, and no text that a JSON column cannot read. -/
def Checkable (value : Value α) (column : Column) : Prop :=
  (py.lower column.logicalType = "float".toList → ∀ e, toFloat py value = .error e →
    e = .typeError ∨ ∃ text, e = .valueError text) ∧
  (py.lower column.logicalType = "boolean".toList → ∀ kind x, value = .object kind x →
    ∃ b, py.objectBit kind x = .ok b) ∧
  (py.lower column.logicalType = "json".toList → ∀ s, value = .text s → ∃ b, py.isJson s = .ok b)

end Checks

section Checkable
variable {py : Builtins α}

theorem caught_ok {x : Except PyError Unit} : (∃ b, caught x = .ok b) ↔
    ∀ e, x = .error e → e = .typeError ∨ ∃ text, e = .valueError text := by
  rcases x with e | u
  · cases e <;> simp [caught]
  · simp [caught]

theorem isFloat_eq {value : Value α} (h : ∀ b, value ≠ .bool b) :
    isFloat py value = caught (toFloat py value) := by
  cases value with
  | bool b => exact absurd rfl (h b)
  | _ => rfl

theorem isFloat_ok {value : Value α} : (∃ b, isFloat py value = .ok b) ↔
    ∀ e, toFloat py value = .error e → e = .typeError ∨ ∃ text, e = .valueError text := by
  by_cases hbool : ∃ b, value = .bool b
  · obtain ⟨b, rfl⟩ := hbool
    simp [isFloat, toFloat]
  · rw [isFloat_eq fun b h => hbool ⟨b, h⟩]
    exact caught_ok

theorem isBool_ok {value : Value α} : (∃ b, isBool py value = .ok b) ↔
    ∀ kind x, value = .object kind x → ∃ b, py.objectBit kind x = .ok b := by
  cases value <;> simp [isBool]

theorem isJsonValue_ok {value : Value α} : (∃ b, isJsonValue py value = .ok b) ↔
    ∀ s, value = .text s → ∃ b, py.isJson s = .ok b := by
  cases value <;> simp [isJsonValue]

theorem map_must {x : Except PyError Bool} {message : Str} :
    (∃ r, (do return (← x, message) : Except PyError (Bool × Str)) = .ok r) ↔
      ∃ b, x = .ok b := by
  cases x with
  | error e => exact iff_of_false nofun nofun
  | ok b => exact iff_of_true ⟨_, rfl⟩ ⟨b, rfl⟩

/-- CORRECT: a check raises for the values that cannot be checked. -/
theorem validateValue_ok {value : Value α} {column : Column} :
    (∃ r, validateValue py value column = .ok r) ↔ Checkable py value column := by
  unfold validateValue Checkable
  by_cases hnull : value.isNull = true
  · rw [if_pos hnull]
    cases value with
    | null => exact iff_of_true ⟨_, rfl⟩ ⟨fun _ e h => by cases h; exact .inl rfl, nofun, nofun⟩
    | _ => cases hnull
  rw [if_neg hnull]
  simp only
  generalize py.lower column.logicalType = logical
  have plain : ∀ r : Bool × Str, logical ≠ "float".toList → logical ≠ "boolean".toList →
      logical ≠ "json".toList → ((∃ r', (.ok r : Except PyError (Bool × Str)) = .ok r') ↔
        (logical = "float".toList → ∀ e, toFloat py value = .error e →
          e = .typeError ∨ ∃ text, e = .valueError text) ∧
        (logical = "boolean".toList → ∀ kind x, value = .object kind x →
          ∃ b, py.objectBit kind x = .ok b) ∧
        (logical = "json".toList → ∀ s, value = .text s → ∃ b, py.isJson s = .ok b)) :=
    fun r hf hb hj => iff_of_true ⟨r, rfl⟩
      ⟨fun h => absurd h hf, fun h => absurd h hb, fun h => absurd h hj⟩
  by_cases hstring : logical = "string".toList
  · subst hstring
    exact plain _ (by decide) (by decide) (by decide)
  rw [if_neg hstring]
  by_cases hint : logical = "integer".toList ∨ logical = "bigint".toList
  · rw [if_pos hint]
    rcases hint with rfl | rfl <;>
      exact plain _ (by decide) (by decide) (by decide)
  rw [if_neg hint]
  by_cases hdecimal : logical = "decimal".toList
  · subst hdecimal
    exact plain _ (by decide) (by decide) (by decide)
  rw [if_neg hdecimal]
  by_cases hfloat : logical = "float".toList
  · subst hfloat
    rw [if_pos rfl, map_must, isFloat_ok]
    refine ⟨fun h => ⟨fun _ => h, fun hb => absurd hb ?_, fun hj => absurd hj ?_⟩, fun h => h.1 rfl⟩
    · decide
    · decide
  rw [if_neg hfloat]
  by_cases hboolean : logical = "boolean".toList
  · subst hboolean
    rw [if_pos rfl, map_must, isBool_ok]
    refine ⟨fun h => ⟨fun hf => absurd hf hfloat, fun _ => h, fun hj => absurd hj ?_⟩,
      fun h => h.2.1 rfl⟩
    decide
  rw [if_neg hboolean]
  by_cases htimestamp : logical = "timestamp".toList
  · rw [if_pos htimestamp]
    exact plain _ hfloat hboolean (htimestamp ▸ by decide)
  rw [if_neg htimestamp]
  by_cases hdate : logical = "date".toList
  · rw [if_pos hdate]
    exact plain _ hfloat hboolean (hdate ▸ by decide)
  rw [if_neg hdate]
  by_cases htime : logical = "time".toList
  · rw [if_pos htime]
    exact plain _ hfloat hboolean (htime ▸ by decide)
  rw [if_neg htime]
  by_cases hjson : logical = "json".toList
  · rw [if_pos hjson, map_must, isJsonValue_ok]
    exact ⟨fun h => ⟨fun hf => absurd hf hfloat, fun hb => absurd hb hboolean, fun _ => h⟩,
      fun h => h.2.2 hjson⟩
  rw [if_neg hjson]
  split_ifs with harray hbinary
  · exact plain _ hfloat hboolean hjson
  · exact plain _ hfloat hboolean hjson
  · exact plain _ hfloat hboolean hjson

end Checkable

/-! ### Decimals -/

/-- A value fits `decimal(p, s)`: at most `s` fractional digits, and less than `10 ** (p - s)`. -/
def Fits (p s : ℕ) (v : ℚ) : Prop := (∃ k : ℤ, v * 10 ^ s = k) ∧ |v| < 10 ^ (p - s)

/-- The number that a value spells, if it is an integer, a decimal or a decimal text. -/
def numeral (u : Unicode) : Value α → Option PyNumber
  | .int n => some (.finite (n < 0) n.natAbs 0)
  | .decimal d => some d
  | .text s => pyDecimal u s
  | _ => none

/-- Where `_is_decimal` judges `±c * 10 ** e` right. An exponent of at most `s` either way is taken
    as a number of fractional digits, so the number of digits must be more than `p`, or leave room
    for the `s` of them; any other exponent is refused. -/
def DigitsFine (p s c : ℕ) (e : ℤ) : Prop :=
  if e.natAbs ≤ s then c = 0 ∨ p < digitCount c ∨ digitCount c + e ≤ (p : ℤ) - s
  else ¬ (10 ^ (-(e + s)).toNat ∣ c ∧ (c = 0 ∨ digitCount c + e ≤ (p : ℤ) - s))

section Decimals
variable {py : Builtins α}

theorem str_numeral {value : Value α} {negative : Bool} {c : ℕ} {e : ℤ}
    (h : numeral py.toUnicode value = some (.finite negative c e)) :
    pyDecimal py.toUnicode (str py value) = some (.finite negative c e) := by
  cases value with
  | int n =>
    have htext : (NumberText.finite (n < 0) (digitsOf n.natAbs) [] none).WellFormed :=
      ⟨digitsOf_ne_nil _, nofun⟩
    rw [str, intText_eq, pyDecimal_text htext, ← h, numeral]
    simp [NumberText.number, NumberText.exponentValue, spelled_digitsOf]
  | decimal d =>
    obtain rfl := Option.some.inj h
    exact pyDecimal_decimalStr negative c e
  | text s => exact h
  | _ => cases h

theorem isDecimal_numeral {value : Value α} {column : Column} {p s : ℕ} {negative : Bool} {c : ℕ}
    {e : ℤ} (h : numeral py.toUnicode value = some (.finite negative c e))
    (hp : column.precision = some p) (hs : column.scale = some s) :
    isDecimal py value column = true ↔ e.natAbs ≤ s ∧ digitCount c ≤ p := by
  rw [isDecimal, str_numeral h, hp, hs]
  by_cases he : e.natAbs ≤ s
  · simp [he, Nat.not_lt_of_le he]
  · simp [he, Nat.lt_of_not_le he]

theorem digitCount_le_iff {c : ℕ} (hc : c ≠ 0) (w : ℕ) : digitCount c ≤ w ↔ c < 10 ^ w := by
  rw [digitCount, length_digitsOf, Nat.add_one_le_iff]
  exact ⟨DecimalContext.lt_pow_of_log hc, DecimalContext.log_of_lt_pow hc⟩

theorem value_eq_signed {negative : Bool} {c : ℕ} {e : ℤ} {v : ℚ}
    (hv : (PyNumber.finite negative c e).value = some v) :
    v = signed negative (c * 10 ^ e) := by
  have hquotient : (scaledFraction c e).1 / ((scaledFraction c e).2 : ℚ) = c * 10 ^ e := by
    rcases Int.le_total 0 e with he | he
    · have hzero : (-e).toNat = 0 := by omega
      obtain ⟨n, rfl⟩ := Int.eq_ofNat_of_zero_le he
      simp [scaledFraction, hzero]
    · obtain ⟨n, hn⟩ := Int.eq_ofNat_of_zero_le (Int.neg_nonneg_of_nonpos he)
      have hzero : e.toNat = 0 := by omega
      have he' : e = -(n : ℤ) := by omega
      simp [scaledFraction, he', div_eq_mul_inv]
  rw [PyNumber.value, hquotient] at hv
  exact (Option.some.inj hv).symm

/-- A coefficient with an exponent is integral if the exponent takes away only zeros. -/
theorem integral_iff {c : ℕ} {e : ℤ} :
    (∃ k : ℤ, (c : ℚ) * 10 ^ e = k) ↔ 10 ^ (-e).toNat ∣ c := by
  rcases Int.le_total 0 e with he | he
  · obtain ⟨n, rfl⟩ := Int.eq_ofNat_of_zero_le he
    have hzero : (-(n : ℤ)).toNat = 0 := by omega
    rw [hzero, pow_zero]
    exact iff_of_true ⟨c * 10 ^ n, by push_cast; rw [zpow_natCast]⟩ (one_dvd c)
  · obtain ⟨n, hn⟩ := Int.eq_ofNat_of_zero_le (Int.neg_nonneg_of_nonpos he)
    have he' : e = -(n : ℤ) := by omega
    have hten : (10 : ℚ) ^ n ≠ 0 := pow_ne_zero n (by norm_num)
    have hmul : ∀ k : ℤ, (c : ℚ) * 10 ^ e = k ↔ (c : ℤ) = k * 10 ^ n := by
      intro k
      rw [he', zpow_neg, zpow_natCast, ← div_eq_mul_inv, div_eq_iff hten]
      exact_mod_cast Iff.rfl
    rw [show (-e).toNat = n by omega]
    simp only [hmul]
    constructor
    · rintro ⟨k, hk⟩
      exact Int.natCast_dvd_natCast.mp ⟨k, by rw [hk]; push_cast; ring⟩
    · rintro ⟨k, hk⟩
      exact ⟨k, by rw [hk]; push_cast; ring⟩

theorem scaled_lt_iff {c : ℕ} {e w : ℤ} :
    (c : ℚ) * 10 ^ e < 10 ^ w ↔ c = 0 ∨ digitCount c + e ≤ w := by
  have hten : (0 : ℚ) < 10 := by norm_num
  by_cases hc : c = 0
  · simp [hc, zpow_pos hten w]
  have hsplit : (10 : ℚ) ^ w = 10 ^ (w - e) * 10 ^ e := by
    rw [← zpow_add₀ hten.ne', sub_add_cancel]
  rw [hsplit, mul_lt_mul_iff_left₀ (zpow_pos hten e), or_iff_right hc]
  have hpos : 1 ≤ digitCount c := by rw [digitCount, length_digitsOf]; omega
  rcases Int.lt_or_le (w - e) 0 with hneg | hle
  · refine iff_of_false (not_lt_of_ge ?_) (by omega)
    calc (10 : ℚ) ^ (w - e) ≤ 10 ^ (0 : ℤ) := zpow_le_zpow_right₀ (by norm_num) (by omega)
      _ = 1 := zpow_zero 10
      _ ≤ c := by exact_mod_cast Nat.one_le_iff_ne_zero.mpr hc
  · obtain ⟨n, hn⟩ := Int.eq_ofNat_of_zero_le hle
    rw [hn, zpow_natCast]
    have hcast : (c : ℚ) < 10 ^ n ↔ c < 10 ^ n := by exact_mod_cast Iff.rfl
    rw [hcast, ← digitCount_le_iff hc]
    omega

/-- What fits, by digits. -/
theorem fits_iff {p s c : ℕ} {e : ℤ} {negative : Bool} {v : ℚ} (hps : s ≤ p)
    (hv : (PyNumber.finite negative c e).value = some v) :
    Fits p s v ↔ 10 ^ (-(e + s)).toNat ∣ c ∧ (c = 0 ∨ digitCount c + e ≤ (p : ℤ) - s) := by
  have hten : (10 : ℚ) ≠ 0 := by norm_num
  have hpow : (10 : ℚ) ^ (p - s) = 10 ^ ((p : ℤ) - s) := by
    rw [← Nat.cast_sub hps, zpow_natCast]
  have hscaled : v * 10 ^ s = signed negative (c * 10 ^ (e + s)) := by
    rw [value_eq_signed hv, zpow_add₀ hten, zpow_natCast]
    cases negative <;> simp [signed, mul_assoc]
  have habs : |v| = c * 10 ^ e := by
    rw [value_eq_signed hv, abs_signed]
    exact mul_nonneg (Nat.cast_nonneg c) (zpow_nonneg (by norm_num) e)
  have hsign : (∃ k : ℤ, signed negative ((c : ℚ) * 10 ^ (e + s)) = k) ↔
      ∃ k : ℤ, (c : ℚ) * 10 ^ (e + s) = k := by
    cases negative
    · exact Iff.rfl
    · constructor
      · rintro ⟨k, hk⟩
        refine ⟨-k, ?_⟩
        rw [signed, if_pos rfl] at hk
        push_cast
        linarith
      · rintro ⟨k, hk⟩
        refine ⟨-k, ?_⟩
        rw [signed, if_pos rfl, hk]
        push_cast
        rfl
  rw [Fits, hscaled, habs, hpow, hsign, integral_iff, scaled_lt_iff]

theorem isDecimal_iff {value : Value α} {column : Column} {p s : ℕ} {negative : Bool} {c : ℕ}
    {e : ℤ} {v : ℚ} (h : numeral py.toUnicode value = some (.finite negative c e))
    (hv : (PyNumber.finite negative c e).value = some v)
    (hp : column.precision = some p) (hs : column.scale = some s) (hone : 1 ≤ s) (hps : s ≤ p) :
    (isDecimal py value column = true ↔ Fits p s v) ↔ DigitsFine p s c e := by
  rw [isDecimal_numeral h hp hs, fits_iff hps hv, DigitsFine]
  by_cases he : e.natAbs ≤ s
  · have hzero : (-(e + s)).toNat = 0 := by omega
    rw [if_pos he, hzero, pow_zero]
    by_cases hc : c = 0
    · have hdigits : digitCount 0 = 1 := rfl
      simp only [he, hc, hdigits, one_dvd, true_and, true_or, iff_true]
      omega
    · simp [he, hc]
      omega
  · rw [if_neg he]
    simp [he]

theorem validateValue_decimal {value : Value α} {column : Column}
    (hlogical : py.lower column.logicalType = "decimal".toList) (hnull : value.isNull = false) :
    validateValue py value column =
      .ok (isDecimal py value column, must column "decimal") := by
  have hstring : ("decimal".toList = "string".toList) = False := by decide
  have hinteger : ("decimal".toList = "integer".toList) = False := by decide
  have hbigint : ("decimal".toList = "bigint".toList) = False := by decide
  simp only [validateValue, hnull, hlogical, hstring, hinteger, hbigint, Bool.false_eq_true,
    if_false, or_self, if_true]

theorem numeral_not_null {value : Value α} {number : PyNumber}
    (h : numeral py.toUnicode value = some number) : value.isNull = false := by
  cases value with
  | null => cases h
  | _ => rfl

end Decimals

end Dpone.TypeSystem
