import Mathlib.Algebra.Order.Field.Rat
import Dpone.Schemes.BinaryFloat
import Dpone.Schemes.Calendar
import Dpone.Schemes.Utf

/-! Python values that are neither integers nor byte strings.

    A text is a list of code points, where a surrogate may stand alone; a codec takes only texts
    without one. A decimal is a sign, its digits and an exponent. A float is the pattern of a
    double. A UUID is a number of 128 bits, written in hexadecimal and read back leniently. -/

namespace Dpone.Schemes

/-! ### Integers as bytes -/

/-- `int.to_bytes(width, "little", signed=signed)`. -/
def toBytes (width : ℕ) (signed : Bool) (n : ℤ) : Except PyError Bytes :=
  if signed then
    if -(256 ^ width : ℤ) ≤ 2 * n ∧ 2 * n < 256 ^ width then .ok (toLESigned width n)
    else .error .overflowError
  else if 0 ≤ n ∧ n < 256 ^ width then .ok (toLE width n.toNat)
  else .error .overflowError

theorem toBytes_length {width : ℕ} {signed : Bool} {n : ℤ} {b : Bytes}
    (h : toBytes width signed n = .ok b) : b.length = width := by
  unfold toBytes at h
  split_ifs at h
  · cases h; exact toLESigned_length ..
  · cases h; exact toLE_length ..

/-- LOSSLESS: a signed integer is read back. -/
theorem ofLESigned_of_toBytes {width : ℕ} {n : ℤ} {b : Bytes} (h : toBytes width true n = .ok b) :
    ofLESigned b = n := by
  unfold toBytes at h
  rw [if_pos rfl] at h
  split_ifs at h with hn
  cases h
  exact ofLESigned_toLESigned hn.1 hn.2

/-- LOSSLESS: an unsigned integer is read back. -/
theorem ofLE_of_toBytes {width : ℕ} {n : ℤ} {b : Bytes} (h : toBytes width false n = .ok b) :
    (ofLE b : ℤ) = n := by
  unfold toBytes at h
  rw [if_neg (by simp)] at h
  split_ifs at h with hn
  cases h
  have hlt : n.toNat < 256 ^ width := by
    have : (n.toNat : ℤ) < ((256 ^ width : ℕ) : ℤ) := by
      rw [Int.toNat_of_nonneg hn.1]; push_cast; exact hn.2
    exact_mod_cast this
  rw [ofLE_toLE width _ hlt, Int.toNat_of_nonneg hn.1]

/-- `struct.unpack` of one signed integer. -/
def unpackSigned (width : ℕ) (payload : Bytes) : Except PyError ℤ :=
  if payload.length = width then .ok (ofLESigned payload) else .error .structError

/-- `struct.unpack` of one unsigned integer. -/
def unpackUnsigned (width : ℕ) (payload : Bytes) : Except PyError ℕ :=
  if payload.length = width then .ok (ofLE payload) else .error .structError

/-! ### Texts -/

/-- A code point. -/
abbrev CodePoint := {n : ℕ // n < 0x110000}

instance : LawfulBEq (List CodePoint) := inferInstance

namespace CodePoint

def surrogate (c : CodePoint) : Bool := 0xD800 ≤ c.val && c.val ≤ 0xDFFF

def ofChar (c : Char) : CodePoint :=
  ⟨c.toNat, toNat_lt c⟩

/-- The character of a code point, if it is one. -/
def toChar (c : CodePoint) : Option Char :=
  if c.surrogate then none else some (Char.ofNat c.val)

end CodePoint

/-- The characters of a text, if no surrogate stands in it. -/
def charsOf : List CodePoint → Option Str
  | [] => some []
  | c :: cs => do
    let ch ← c.toChar
    let chs ← charsOf cs
    return ch :: chs

/-- A text as Python holds it. -/
def textOf (s : Str) : List CodePoint := s.map CodePoint.ofChar

theorem toChar_ofChar (c : Char) : (CodePoint.ofChar c).toChar = some c := by
  have hs := scalar_toNat c
  have hno : (CodePoint.ofChar c).surrogate = false := by
    have hno : ¬ (0xD800 ≤ c.toNat ∧ c.toNat ≤ 0xDFFF) := by omega
    rw [CodePoint.surrogate, ← Bool.not_eq_true, Bool.and_eq_true, decide_eq_true_eq,
      decide_eq_true_eq]
    exact hno
  rw [CodePoint.toChar, hno]
  exact congrArg some (Char.ofNat_toNat c)

theorem charsOf_textOf : ∀ s : Str, charsOf (textOf s) = some s
  | [] => rfl
  | c :: cs => by
      rw [textOf, List.map_cons, charsOf, toChar_ofChar, ← textOf, charsOf_textOf cs]
      rfl

theorem ofChar_of_toChar {c : CodePoint} {ch : Char} (h : c.toChar = some ch) :
    CodePoint.ofChar ch = c := by
  unfold CodePoint.toChar at h
  split at h
  · cases h
  · next hno =>
    cases h
    have hlt := c.property
    refine Subtype.ext (toNat_ofNat_scalar ?_)
    simp only [CodePoint.surrogate, Bool.and_eq_true, decide_eq_true_eq] at hno
    simp only [scalar, Bool.or_eq_true, Bool.and_eq_true, decide_eq_true_eq]
    omega

theorem textOf_of_charsOf : ∀ {s : List CodePoint} {cs : Str}, charsOf s = some cs → textOf cs = s
  | [], _, h => by cases h; rfl
  | c :: s, cs, h => by
      rw [charsOf] at h
      cases hc : c.toChar with
      | none => rw [hc] at h; cases h
      | some ch =>
        cases hs : charsOf s with
        | none => rw [hc, hs] at h; cases h
        | some chs =>
          rw [hc, hs] at h
          cases h
          rw [textOf, List.map_cons, ofChar_of_toChar hc, ← textOf, textOf_of_charsOf hs]

/-! ### Decimals -/

/-- `decimal.Decimal`: a finite number as `as_tuple` gives it, or an infinity or NaN. -/
inductive PyDecimal where
  | finite (negative : Bool) (digits : List (Fin 10)) (exponent : ℤ)
  | special
  deriving DecidableEq

instance instNeZeroTen : NeZero (10 : ℕ) := ⟨by decide⟩

/-- The number a run of digits spells. -/
def spelled (digits : List (Fin 10)) : ℕ := digits.foldl (fun n d => n * 10 + d.val) 0

/-- The last `w` digits of a number. -/
def lastDigits : ℕ → ℕ → List (Fin 10)
  | 0, _ => []
  | w + 1, n => lastDigits w (n / 10) ++ [⟨n % 10, Nat.mod_lt _ (by decide)⟩]

/-- `tuple(map(int, str(n)))`. -/
def digitsOf (n : ℕ) : List (Fin 10) := lastDigits (Nat.log 10 n + 1) n

namespace PyDecimal

/-- `Decimal((int(value < 0), digits, -scale))`. -/
def scaled (value : ℤ) (scale : ℕ) : PyDecimal :=
  .finite (value < 0) (digitsOf value.natAbs) (-scale)

/-- `Decimal(n)`. -/
def ofInt (n : ℤ) : PyDecimal := scaled n 0

/-- The number a finite decimal is. -/
def value : PyDecimal → Option ℚ
  | .finite negative digits exponent =>
    some ((if negative then -1 else 1) * spelled digits * (10 : ℚ) ^ exponent)
  | .special => none

end PyDecimal

theorem spelled_append_singleton (digits : List (Fin 10)) (d : Fin 10) :
    spelled (digits ++ [d]) = spelled digits * 10 + d.val := by
  rw [spelled, List.foldl_append]
  rfl

theorem spelled_append (ds es : List (Fin 10)) :
    spelled (ds ++ es) = spelled ds * 10 ^ es.length + spelled es := by
  induction es using List.reverseRecOn with
  | nil => simp [spelled]
  | append_singleton es e ih =>
    rw [← List.append_assoc, spelled_append_singleton, ih, spelled_append_singleton,
      List.length_append, List.length_singleton, pow_succ]
    ring

theorem spelled_lt (digits : List (Fin 10)) : spelled digits < 10 ^ digits.length := by
  induction digits using List.reverseRecOn with
  | nil => simp [spelled]
  | append_singleton ds d ih =>
    have hd := d.isLt
    rw [spelled_append_singleton, List.length_append, List.length_singleton, pow_succ]
    omega

theorem spelled_eq_zero {digits : List (Fin 10)} (h : ∀ d ∈ digits, d = 0) : spelled digits = 0 := by
  induction digits using List.reverseRecOn with
  | nil => rfl
  | append_singleton ds d ih =>
    rw [spelled_append_singleton, ih fun x hx => h x (List.mem_append_left _ hx),
      h d (List.mem_append_right _ (List.mem_singleton_self d))]
    rfl

theorem spelled_lastDigits : ∀ {w n : ℕ}, n < 10 ^ w → spelled (lastDigits w n) = n
  | 0, n, h => by
      obtain rfl : n = 0 := by simpa using h
      rfl
  | w + 1, n, h => by
      have hdiv : n / 10 < 10 ^ w := by
        rw [pow_succ] at h
        omega
      rw [lastDigits, spelled_append_singleton, spelled_lastDigits hdiv]
      show n / 10 * 10 + n % 10 = n
      omega

theorem spelled_digitsOf (n : ℕ) : spelled (digitsOf n) = n :=
  spelled_lastDigits (Nat.lt_pow_succ_log_self (by decide) n)

/-- A decimal built from an integer and a scale is that integer, scaled down. -/
theorem value_scaled (value : ℤ) (scale : ℕ) :
    (PyDecimal.scaled value scale).value = some ((value : ℚ) / 10 ^ scale) := by
  have hcast : (value.natAbs : ℚ) = ((value.natAbs : ℤ) : ℚ) := (Int.cast_natCast _).symm
  have hsign : (if decide (value < 0) = true then (-1 : ℚ) else 1) * value.natAbs = value := by
    by_cases h : value < 0
    · rw [if_pos (decide_eq_true h), hcast, show (value.natAbs : ℤ) = -value by omega]
      simp
    · rw [if_neg (by simpa using h), hcast, show (value.natAbs : ℤ) = value by omega, one_mul]
  rw [PyDecimal.scaled, PyDecimal.value, spelled_digitsOf, hsign, zpow_neg, zpow_natCast,
    div_eq_mul_inv]

/-! ### Floats -/

/-- A Python float: the pattern of a double. -/
abbrev PyFloat := {n : ℕ // n < 2 ^ 64}

theorem pack_lt {fmt : Binary} {n k r : ℕ} (h : fmt.pack n k = some r) :
    r < (2 ^ fmt.exponent - 1) * 2 ^ fmt.fraction := by
  unfold Binary.pack at h
  dsimp only at h
  split_ifs at h with hlt
  cases h
  exact hlt

theorem withSign_lt {fmt : Binary} {negative : Bool} {bits : ℕ}
    (h : bits < 2 ^ (fmt.fraction + fmt.exponent)) :
    withSign fmt negative bits < 2 ^ (fmt.fraction + fmt.exponent + 1) := by
  rw [withSign, pow_succ]
  split_ifs <;> omega

theorem widen_lt (bits : ℕ) : widen bits < 2 ^ 64 := by
  have hsign : ∀ {negative : Bool} {bits : ℕ}, bits < 2 ^ 63 →
      withSign double negative bits < 2 ^ 64 := fun hlt => withSign_lt hlt
  refine hsign ?_
  split_ifs
  · cases hp : double.pack (single.magnitude bits * 2 ^ unitShift) 0 with
    | none => exact Nat.two_pow_pos 63
    | some r => exact (pack_lt hp).trans (by decide)
  · have hfield : single.fractionField bits < 2 ^ 23 := Nat.mod_lt _ (Nat.two_pow_pos 23)
    change (2 ^ 11 - 1) * 2 ^ 52 + single.fractionField bits * 2 ^ 29 < 2 ^ 63
    omega

/-- `struct.unpack("<f", payload)`. -/
def unpackSingle (payload : Bytes) : Except PyError PyFloat :=
  if payload.length = 4 then .ok ⟨widen (ofLE payload), widen_lt _⟩ else .error .structError

/-- `struct.unpack("<d", payload)`. -/
def unpackDouble (payload : Bytes) : Except PyError PyFloat :=
  if h : payload.length = 8 then
    .ok ⟨ofLE payload, by have := ofLE_lt payload; rw [h] at this; exact this⟩
  else .error .structError

/-- `struct.pack("<f", value)`. -/
def packSingle (value : PyFloat) : Except PyError Bytes := do
  return toLE 4 (← narrow value.val)

/-- `struct.pack("<d", value)`. -/
def packDouble (value : PyFloat) : Except PyError Bytes := .ok (toLE 8 value.val)

theorem narrow_lt {bits r : ℕ} (hfinite : double.finite bits) (h : narrow bits = .ok r) :
    r < 2 ^ 32 ∧ single.exponentField r ≠ 255 := by
  rw [narrow, if_pos hfinite] at h
  cases hp : single.pack (double.magnitude bits) unitShift with
  | none => rw [hp] at h; cases h
  | some m =>
    rw [hp] at h
    obtain rfl : withSign single (double.negative bits) m = r := Except.ok.inj h
    have hm : m < 255 * 2 ^ 23 := pack_lt hp
    have hsign : withSign single (double.negative bits) m =
        (if double.negative bits then 2 ^ 31 else 0) + m := rfl
    have hfield : single.exponentField (withSign single (double.negative bits) m) =
        withSign single (double.negative bits) m / 2 ^ 23 % 2 ^ 8 := rfl
    rw [hfield, hsign]
    split_ifs <;> omega

/-- LOSSLESS: the bytes of a finite single are read as the float they were packed for. -/
theorem unpackSingle_packSingle {value : PyFloat} {b : Bytes} (hfinite : double.finite value.val)
    (h : packSingle value = .ok b) :
    ∃ r, narrow value.val = .ok r ∧ b.length = 4 ∧ ofLE b = r ∧ single.exponentField r ≠ 255 := by
  unfold packSingle at h
  cases hr : narrow value.val with
  | error e => rw [hr] at h; cases h
  | ok r =>
    rw [hr] at h
    cases h
    obtain ⟨hlt, hexponent⟩ := narrow_lt hfinite hr
    exact ⟨r, rfl, toLE_length .., ofLE_toLE 4 r hlt, hexponent⟩

/-- `==` of two Python floats. -/
def floatEq (a b : ℕ) : Bool :=
  if double.finite a && double.finite b then
    double.magnitude a = double.magnitude b &&
      (double.magnitude a = 0 || double.negative a = double.negative b)
  else
    a = b && double.fractionField a = 0

theorem floatEq_comm (a b : ℕ) : floatEq a b = floatEq b a := by
  have hlift : ∀ {a b : ℕ}, floatEq a b = true → floatEq b a = true := by
    intro a b h
    unfold floatEq at h ⊢
    rw [Bool.and_comm (double.finite b)]
    by_cases hfinite : (double.finite a && double.finite b) = true
    · rw [if_pos hfinite] at h ⊢
      simp only [Bool.and_eq_true, Bool.or_eq_true, decide_eq_true_eq] at h ⊢
      exact ⟨h.1.symm, h.2.imp (h.1 ▸ ·) Eq.symm⟩
    · rw [if_neg hfinite] at h ⊢
      simp only [Bool.and_eq_true, decide_eq_true_eq] at h ⊢
      exact ⟨h.1.symm, h.1 ▸ h.2⟩
  exact Bool.eq_iff_iff.mpr ⟨hlift, hlift⟩

end Dpone.Schemes
