import Mathlib.Algebra.Order.Ring.Abs
import Mathlib.Tactic.FieldSimp
import Mathlib.Tactic.Positivity
import Mathlib.Tactic.Ring
import Dpone.Schemes.PyValue

/-! Decimal numerals and the floats nearest to them.

    A numeral is a sign, digits and an exponent, so its magnitude is a fraction of two naturals and
    rounding it to a format needs no arithmetic but theirs. A fraction that the format has is
    rounded to itself, and nothing else is: `toFloat_exact_iff`. -/

namespace Dpone.Schemes

/-! ### Rounding a fraction -/

/-- The nearest integer to `n / d`, the even one of two. -/
def roundDiv (n d : ℕ) : ℕ :=
  let q := n / d
  let r := n % d
  if d < 2 * r ∨ 2 * r = d ∧ q % 2 = 1 then q + 1 else q

theorem roundDiv_exact (q : ℕ) {d : ℕ} (hd : 0 < d) : roundDiv (q * d) d = q := by
  simp only [roundDiv, Nat.mul_div_cancel _ hd, Nat.mul_mod_left]
  exact if_neg (by omega)

namespace Binary
variable (fmt : Binary)

/-- The pattern nearest to `n / d` units, without its sign; `none` past the largest one. -/
def nearest (n d : ℕ) : Option ℕ :=
  let t := Nat.log 2 (n / d) - fmt.fraction
  let bits := t * 2 ^ fmt.fraction + roundDiv n (d * 2 ^ t)
  if bits < (2 ^ fmt.exponent - 1) * 2 ^ fmt.fraction then some bits else none

theorem nearest_lt {n d bits : ℕ} (h : fmt.nearest n d = some bits) :
    bits < (2 ^ fmt.exponent - 1) * 2 ^ fmt.fraction := by
  unfold nearest at h
  dsimp only at h
  split_ifs at h with hlt
  cases h
  exact hlt

/-- CORRECT: a number of units with a significand of the format is packed exactly. -/
theorem nearest_exact {q t d : ℕ} (hd : 0 < d) (hq : q < 2 ^ (fmt.fraction + 1))
    (hlt : t * 2 ^ fmt.fraction + 2 ^ (fmt.fraction + 1) ≤
      (2 ^ fmt.exponent - 1) * 2 ^ fmt.fraction) :
    ∃ q' t', q' < 2 ^ (fmt.fraction + 1) ∧ (t' = 0 ∨ 2 ^ fmt.fraction ≤ q') ∧
      q' * 2 ^ t' = q * 2 ^ t ∧
      t' * 2 ^ fmt.fraction + q' < (2 ^ fmt.exponent - 1) * 2 ^ fmt.fraction ∧
      fmt.nearest (q * 2 ^ t * d) d = some (t' * 2 ^ fmt.fraction + q') := by
  set N := q * 2 ^ t with hN
  set t' := Nat.log 2 N - fmt.fraction with ht'
  have htt : t' ≤ t := by
    by_cases hzero : q = 0
    · simp [ht', hN, hzero]
    · have hlog : Nat.log 2 N = Nat.log 2 q + t := log_mul_pow (by simp) hzero t
      have hle : Nat.log 2 q < fmt.fraction + 1 := Nat.log_lt_of_lt_pow hzero hq
      omega
  -- the exponent that is picked divides the number
  have hpos : 0 < 2 ^ t' := Nat.two_pow_pos t'
  obtain ⟨s, hs⟩ : ∃ s, t = t' + s := ⟨t - t', by omega⟩
  have hN' : N = q * 2 ^ s * 2 ^ t' := by rw [hN, hs, pow_add]; ring
  have hbound : q * 2 ^ s < 2 ^ (fmt.fraction + 1) := by
    have hlt' : N < 2 ^ (Nat.log 2 N + 1) := Nat.lt_pow_succ_log_self (by simp) N
    have hle : 2 ^ (Nat.log 2 N + 1) ≤ 2 ^ (fmt.fraction + 1) * 2 ^ t' := by
      rw [← pow_add]
      exact Nat.pow_le_pow_right (by simp) (by omega)
    refine Nat.lt_of_mul_lt_mul_right (a := 2 ^ t') ?_
    omega
  have hnormal : t' = 0 ∨ 2 ^ fmt.fraction ≤ q * 2 ^ s := by
    by_cases hzero : t' = 0
    · exact .inl hzero
    · right
      have hNpos : N ≠ 0 := by
        rintro h
        simp [ht', h] at hzero
      have hge : 2 ^ Nat.log 2 N ≤ N := Nat.pow_log_le_self 2 hNpos
      have heq : 2 ^ Nat.log 2 N = 2 ^ fmt.fraction * 2 ^ t' := by
        rw [← pow_add]
        congr 1
        omega
      rw [heq, hN'] at hge
      exact Nat.le_of_mul_le_mul_right hge hpos
  have hle : t' * 2 ^ fmt.fraction ≤ t * 2 ^ fmt.fraction := Nat.mul_le_mul_right _ htt
  have hin : t' * 2 ^ fmt.fraction + q * 2 ^ s < (2 ^ fmt.exponent - 1) * 2 ^ fmt.fraction := by
    omega
  refine ⟨q * 2 ^ s, t', hbound, hnormal, hN'.symm, hin, ?_⟩
  have hround : roundDiv (N * d) (d * 2 ^ t') = q * 2 ^ s := by
    rw [hN', show q * 2 ^ s * 2 ^ t' * d = q * 2 ^ s * (d * 2 ^ t') by ring]
    exact roundDiv_exact _ (Nat.mul_pos hd hpos)
  unfold nearest
  simp only [Nat.mul_div_cancel _ hd, ← ht', hround]
  exact if_pos hin

end Binary

/-! ### Numbers -/

/-- What a numeral says: a finite decimal, an infinity or no number. -/
inductive PyNumber where
  | finite (negative : Bool) (coefficient : ℕ) (exponent : ℤ)
  | infinite (negative : Bool)
  | nan
  deriving DecidableEq, Repr

/-- Numerator and denominator of `coefficient * 10 ** exponent`. -/
def scaledFraction (coefficient : ℕ) (exponent : ℤ) : ℕ × ℕ :=
  (coefficient * 10 ^ exponent.toNat, 10 ^ (-exponent).toNat)

def signed (negative : Bool) (x : ℚ) : ℚ := if negative then -x else x

theorem abs_signed (negative : Bool) {x : ℚ} (hx : 0 ≤ x) : |signed negative x| = x := by
  cases negative
  · exact abs_of_nonneg hx
  · rw [signed, if_pos rfl, abs_neg, abs_of_nonneg hx]

def PyNumber.value : PyNumber → Option ℚ
  | .finite negative coefficient exponent =>
    let f := scaledFraction coefficient exponent
    some (signed negative (f.1 / f.2))
  | _ => none

/-- The quotient of a division that comes out even, with a sign. -/
def signedQuotient (negative : Bool) (n d : ℕ) : Option ℤ :=
  if n % d = 0 then some (if negative then -((n / d : ℕ) : ℤ) else (n / d : ℕ)) else none

theorem signedQuotient_eq_some {negative : Bool} {n d : ℕ} (hd : 0 < d) {k : ℤ} :
    signedQuotient negative n d = some k ↔ signed negative (n / d) = k := by
  have hd' : (d : ℚ) ≠ 0 := by exact_mod_cast hd.ne'
  by_cases hdvd : d ∣ n
  · obtain ⟨q, rfl⟩ := hdvd
    have hvalue : ((d * q : ℕ) : ℚ) / d = q := by
      push_cast
      field_simp
    rw [signedQuotient, if_pos (Nat.mul_mod_right d q), Nat.mul_div_cancel_left q hd, hvalue,
      Option.some.injEq, signed]
    cases negative
    · simp only [Bool.false_eq_true, if_false]
      exact_mod_cast Iff.rfl
    · simp only [if_true]
      exact_mod_cast Iff.rfl
  · rw [signedQuotient, if_neg fun h => hdvd (Nat.dvd_of_mod_eq_zero h)]
    refine ⟨nofun, fun h => absurd ?_ hdvd⟩
    have habs := congrArg abs h
    rw [abs_signed negative (div_nonneg (Nat.cast_nonneg _) (Nat.cast_nonneg _)), ← Int.cast_abs,
      Int.abs_eq_natAbs, Int.cast_natCast, div_eq_iff hd'] at habs
    exact ⟨k.natAbs, by rw [Nat.mul_comm]; exact_mod_cast habs⟩

/-- `int(x)` of an integral decimal. -/
def PyNumber.toInt : PyNumber → Option ℤ
  | .finite negative coefficient exponent =>
    let f := scaledFraction coefficient exponent
    signedQuotient negative f.1 f.2
  | _ => none

theorem scaledFraction_pos (coefficient : ℕ) (exponent : ℤ) :
    0 < (scaledFraction coefficient exponent).2 := Nat.pow_pos (by decide)

/-- CORRECT: a decimal is converted to an integer exactly when it is that integer. -/
theorem toInt_eq_some {x : PyNumber} {v : ℚ} (hx : x.value = some v) {n : ℤ} :
    x.toInt = some n ↔ v = n := by
  cases x with
  | infinite negative => cases hx
  | nan => cases hx
  | finite negative coefficient exponent =>
    obtain rfl : signed negative _ = v := Option.some.inj hx
    exact signedQuotient_eq_some (scaledFraction_pos coefficient exponent)

/-- The pattern of an infinity. -/
def infinityBits : ℕ := (2 ^ double.exponent - 1) * 2 ^ double.fraction

/-- Units of the smallest subnormal in one. -/
def unitsPerOne : ℕ := 2 ^ 1074

theorem coprime_unitsPerOne {n : ℕ} (h : n.Coprime 2) : n.Coprime unitsPerOne := by
  unfold unitsPerOne
  generalize 1074 = k
  exact Nat.Coprime.pow_right k h

theorem unitsPerOne_pos : 0 < unitsPerOne := by unfold unitsPerOne; positivity

/-- The pattern of the double nearest to `n / d`, an infinity past the largest one. -/
def nearestBits (n d : ℕ) : ℕ := (double.nearest (n * unitsPerOne) d).getD infinityBits

theorem nearestBits_lt (n d : ℕ) : nearestBits n d < 2 ^ (double.fraction + double.exponent) := by
  unfold nearestBits
  cases h : double.nearest (n * unitsPerOne) d with
  | none => decide
  | some bits => exact (double.nearest_lt h).trans (by decide)

/-- `float(x)`. -/
def PyNumber.toFloat : PyNumber → PyFloat
  | .finite negative coefficient exponent =>
    let f := scaledFraction coefficient exponent
    ⟨withSign double negative (nearestBits f.1 f.2), withSign_lt (nearestBits_lt _ _)⟩
  | .infinite negative => ⟨withSign double negative infinityBits, withSign_lt (by decide)⟩
  | .nan => ⟨infinityBits + 2 ^ 51, by decide⟩

/-- The number a finite float is. -/
def floatValue (f : PyFloat) : Option ℚ :=
  if double.finite f.val then
    some (signed (double.negative f.val) (double.magnitude f.val / unitsPerOne))
  else none

/-- A number with a significand of 53 bits between the smallest and the largest double. -/
def DoubleExact (x : ℚ) : Prop :=
  ∃ (k : ℤ) (t : ℕ), |k| < 2 ^ 53 ∧ t ≤ 2045 ∧ x * unitsPerOne = k * 2 ^ t

theorem floatValue_doubleExact {f : PyFloat} {x : ℚ} (h : floatValue f = some x) :
    DoubleExact x := by
  unfold floatValue at h
  split_ifs at h with hfinite
  cases h
  obtain ⟨hq, -, hsum, hlt⟩ := double.significand_bounds hfinite
  have hunits : (unitsPerOne : ℚ) ≠ 0 := by exact_mod_cast unitsPerOne_pos.ne'
  have ht : (double.significand f.val).2 ≤ 2045 := by
    have hfield : double.exponentField f.val < 2 ^ 11 := Nat.mod_lt _ (Nat.two_pow_pos 11)
    have hne : double.exponentField f.val ≠ 2 ^ 11 - 1 := of_decide_eq_true hfinite
    unfold Binary.significand
    split_ifs
    · exact Nat.zero_le _
    · dsimp only
      omega
  refine ⟨(if double.negative f.val then -1 else 1) * (double.significand f.val).1,
    (double.significand f.val).2, ?_, ht, ?_⟩
  · have habs : |(if double.negative f.val then (-1 : ℤ) else 1) * (double.significand f.val).1| =
        (double.significand f.val).1 := by
      split_ifs <;> simp
    rw [habs]
    exact_mod_cast hq
  · have hmagnitude : (double.magnitude f.val : ℚ) =
        (double.significand f.val).1 * 2 ^ (double.significand f.val).2 := by
      simp [Binary.magnitude]
    have hcancel : (double.magnitude f.val : ℚ) / unitsPerOne * unitsPerOne =
        (double.significand f.val).1 * 2 ^ (double.significand f.val).2 := by
      rw [div_mul_cancel₀ _ hunits, hmagnitude]
    cases double.negative f.val
    · simp only [signed, Bool.false_eq_true, if_false, hcancel, one_mul, Int.cast_natCast]
    · simp only [signed, if_true, neg_mul, hcancel, one_mul, Int.cast_neg, Int.cast_natCast]

/-- CORRECT: a decimal is converted to a float exactly when a double is that number. -/
theorem toFloat_exact_iff {x : PyNumber} {v : ℚ} (hx : x.value = some v) :
    floatValue x.toFloat = some v ↔ DoubleExact v := by
  refine ⟨floatValue_doubleExact, ?_⟩
  rintro ⟨k, t, hk, ht, hv⟩
  cases x with
  | infinite negative => cases hx
  | nan => cases hx
  | finite negative coefficient exponent =>
    obtain rfl : signed negative _ = v := Option.some.inj hx
    have hpos := scaledFraction_pos coefficient exponent
    set n := (scaledFraction coefficient exponent).1
    set d := (scaledFraction coefficient exponent).2
    have hd : (d : ℚ) ≠ 0 := by exact_mod_cast hpos.ne'
    have hunitsPos : (unitsPerOne : ℚ) ≠ 0 := by exact_mod_cast unitsPerOne_pos.ne'
    -- the same equation in natural numbers, without the signs
    have hunits : n * unitsPerOne = k.natAbs * 2 ^ t * d := by
      have habs := congrArg abs hv
      have htwo : |(2 : ℚ) ^ t| = 2 ^ t := abs_of_nonneg (by positivity)
      have hk' : |(k : ℚ)| = k.natAbs := by rw [← Int.cast_abs, Int.abs_eq_natAbs, Int.cast_natCast]
      rw [abs_mul, abs_mul, htwo, hk', Nat.abs_cast,
        abs_signed negative (div_nonneg (Nat.cast_nonneg _) (Nat.cast_nonneg _)),
        div_mul_eq_mul_div, div_eq_iff hd] at habs
      exact_mod_cast habs
    have hk' : k.natAbs < 2 ^ 53 := by
      rw [Int.abs_eq_natAbs] at hk
      exact_mod_cast hk
    have hroom : t * 2 ^ double.fraction + 2 ^ (double.fraction + 1) ≤
        (2 ^ double.exponent - 1) * 2 ^ double.fraction := by
      show t * 2 ^ 52 + 2 ^ 53 ≤ 2047 * 2 ^ 52
      omega
    obtain ⟨q, t', hq, hnormal, hqt, hin, hnearest⟩ :=
      double.nearest_exact (d := d) hpos (show k.natAbs < 2 ^ (double.fraction + 1) from hk') hroom
    obtain ⟨hmagnitude, hfinite, hsign⟩ :
        double.magnitude (withSign double negative (t' * 2 ^ 52 + q)) = q * 2 ^ t' ∧
          double.finite (withSign double negative (t' * 2 ^ 52 + q)) ∧
          double.negative (withSign double negative (t' * 2 ^ 52 + q)) = negative :=
      double_fields hq hnormal hin
    have hbits : ((PyNumber.finite negative coefficient exponent).toFloat).val =
        withSign double negative (t' * 2 ^ 52 + q) := by
      show withSign double negative (nearestBits n d) = _
      rw [nearestBits, hunits, hnearest]
      rfl
    rw [floatValue, hbits, if_pos hfinite, hsign, hmagnitude, hqt]
    have hquotient : ((k.natAbs * 2 ^ t : ℕ) : ℚ) / unitsPerOne = (n : ℚ) / d := by
      rw [div_eq_div_iff hunitsPos hd]
      exact_mod_cast hunits.symm
    rw [hquotient]

end Dpone.Schemes
