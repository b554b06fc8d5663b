import Mathlib.Algebra.Order.Floor.Semiring
import Mathlib.Tactic.Linarith
import Dpone.Schemes.DecimalFloat

/-! Decimals in a context of limited precision: the position of the leading digit, and a decimal
    quantized to a number of fractional digits. Both are stated by the number that a decimal is:
    which powers of ten it reaches, and whether it is a whole number of the quantum. -/

namespace Dpone.Schemes
namespace PyDecimal

/-- `Decimal.adjusted()` of a nonzero decimal: the exponent of its leading digit. -/
def adjusted (digits : List (Fin 10)) (exponent : ℤ) : ℤ := exponent + Nat.log 10 (spelled digits)

/-- The units that a coefficient is rounded to when its exponent is raised or lowered by a shift. -/
def rescaled (coefficient : ℕ) (shift : ℤ) : ℕ :=
  if 0 ≤ shift then coefficient * 10 ^ shift.toNat
  else roundDiv coefficient (10 ^ (-shift).toNat)

/-- `d.quantize(Decimal(1).scaleb(-scale))`: more digits than the precision are refused. -/
def quantize (precision scale : ℕ) : PyDecimal → Option PyDecimal
  | .special => none
  | .finite negative digits exponent =>
    let units := rescaled (spelled digits) (exponent + scale)
    if units < 10 ^ precision then some (.finite negative (digitsOf units) (-scale)) else none

/-- `d.scaleb(scale)` of a decimal that the context has room for. -/
def scaleb (scale : ℕ) : PyDecimal → PyDecimal
  | .special => .special
  | .finite negative digits exponent => .finite negative digits (exponent + scale)

/-- `int(d)`, which cuts a fraction off. -/
def toInt : PyDecimal → Option ℤ
  | .special => none
  | .finite negative digits exponent =>
    let magnitude := if 0 ≤ exponent then spelled digits * 10 ^ exponent.toNat
      else spelled digits / 10 ^ (-exponent).toNat
    some (if negative then -(magnitude : ℤ) else magnitude)

end PyDecimal

/-! ### The number that a decimal is -/

/-- The magnitude of a decimal. -/
def magnitudeOf (digits : List (Fin 10)) (exponent : ℤ) : ℚ := spelled digits * (10 : ℚ) ^ exponent

theorem value_finite (negative : Bool) (digits : List (Fin 10)) (exponent : ℤ) :
    (PyDecimal.finite negative digits exponent).value =
      some (signed negative (magnitudeOf digits exponent)) := by
  cases negative <;> simp [PyDecimal.value, signed, magnitudeOf]

theorem magnitudeOf_nonneg (digits : List (Fin 10)) (exponent : ℤ) :
    0 ≤ magnitudeOf digits exponent :=
  mul_nonneg (Nat.cast_nonneg _) (zpow_nonneg (by norm_num) _)

/-- CORRECT: the leading digit tells which powers of ten a decimal reaches. -/
theorem le_adjusted {digits : List (Fin 10)} (h : spelled digits ≠ 0) (exponent k : ℤ) :
    k ≤ PyDecimal.adjusted digits exponent ↔ (10 : ℚ) ^ k ≤ magnitudeOf digits exponent := by
  have hten : (0 : ℚ) < 10 := by norm_num
  have hlow : ((10 ^ Nat.log 10 (spelled digits) : ℕ) : ℚ) ≤ spelled digits :=
    Nat.cast_le.mpr (Nat.pow_log_le_self 10 h)
  have hhigh : ((spelled digits : ℕ) : ℚ) < ((10 ^ (Nat.log 10 (spelled digits) + 1) : ℕ) : ℚ) :=
    Nat.cast_lt.mpr (Nat.lt_pow_succ_log_self (by decide) _)
  push_cast at hlow hhigh
  have hpow : (0 : ℚ) < 10 ^ exponent := zpow_pos hten _
  unfold PyDecimal.adjusted magnitudeOf
  constructor
  · intro hk
    calc (10 : ℚ) ^ k ≤ 10 ^ (exponent + Nat.log 10 (spelled digits)) :=
          zpow_le_zpow_right₀ (by norm_num) hk
      _ = 10 ^ Nat.log 10 (spelled digits) * 10 ^ exponent := by
          rw [zpow_add₀ hten.ne', zpow_natCast, mul_comm]
      _ ≤ spelled digits * 10 ^ exponent := by gcongr
  · intro hk
    by_contra hlt
    have hle : exponent + (Nat.log 10 (spelled digits) + 1 : ℕ) ≤ k := by push_cast; omega
    have : (spelled digits : ℚ) * 10 ^ exponent < 10 ^ k :=
      calc (spelled digits : ℚ) * 10 ^ exponent
          < 10 ^ (Nat.log 10 (spelled digits) + 1) * 10 ^ exponent := by gcongr
        _ = 10 ^ (exponent + (Nat.log 10 (spelled digits) + 1 : ℕ)) := by
          rw [zpow_add₀ hten.ne', zpow_natCast, mul_comm]
        _ ≤ 10 ^ k := zpow_le_zpow_right₀ (by norm_num) hle
    linarith

/-- The units of a decimal, when it is a whole number of them. -/
theorem rescaled_exact {digits : List (Fin 10)} {exponent : ℤ} {scale n : ℕ}
    (h : magnitudeOf digits exponent * 10 ^ scale = n) :
    PyDecimal.rescaled (spelled digits) (exponent + scale) = n := by
  have hten : (10 : ℚ) ≠ 0 := by norm_num
  have hshift : (spelled digits : ℚ) * 10 ^ (exponent + scale) = n := by
    rw [← h, magnitudeOf, zpow_add₀ hten, zpow_natCast, mul_assoc]
  unfold PyDecimal.rescaled
  split_ifs with hpos
  · obtain ⟨k, hk⟩ := Int.eq_ofNat_of_zero_le hpos
    rw [hk] at hshift ⊢
    rw [zpow_natCast] at hshift
    simp only [Int.toNat_natCast]
    exact_mod_cast hshift
  · obtain ⟨k, hk⟩ := Int.eq_ofNat_of_zero_le (by omega : 0 ≤ -(exponent + scale))
    have hneg : exponent + scale = -(k : ℤ) := by omega
    rw [hneg, zpow_neg, zpow_natCast, ← div_eq_mul_inv, div_eq_iff (by positivity)] at hshift
    have hwhole : spelled digits = n * 10 ^ k := by exact_mod_cast hshift
    rw [hk, Int.toNat_natCast, hwhole]
    exact roundDiv_exact n (Nat.pow_pos (by decide))

theorem roundDiv_le {n d q : ℕ} (h : n < q * d) : roundDiv n d ≤ q := by
  have hdiv : n / d < q := Nat.div_lt_of_lt_mul (by rwa [Nat.mul_comm])
  simp only [roundDiv]
  split_ifs <;> omega

/-- A decimal below a whole number of units is rounded to no more than that number. -/
theorem rescaled_le {digits : List (Fin 10)} {exponent : ℤ} {scale n : ℕ}
    (h : magnitudeOf digits exponent * 10 ^ scale < n) :
    PyDecimal.rescaled (spelled digits) (exponent + scale) ≤ n := by
  have hten : (10 : ℚ) ≠ 0 := by norm_num
  have hshift : (spelled digits : ℚ) * 10 ^ (exponent + scale) < n := by
    rwa [zpow_add₀ hten, zpow_natCast, ← mul_assoc, ← magnitudeOf]
  unfold PyDecimal.rescaled
  split_ifs with hpos
  · obtain ⟨k, hk⟩ := Int.eq_ofNat_of_zero_le hpos
    rw [hk] at hshift ⊢
    rw [zpow_natCast] at hshift
    simp only [Int.toNat_natCast]
    have : spelled digits * 10 ^ k < n := by exact_mod_cast hshift
    omega
  · obtain ⟨k, hk⟩ := Int.eq_ofNat_of_zero_le (by omega : 0 ≤ -(exponent + scale))
    have hneg : exponent + scale = -(k : ℤ) := by omega
    rw [hneg, zpow_neg, zpow_natCast, ← div_eq_mul_inv, div_lt_iff₀ (by positivity)] at hshift
    rw [hk, Int.toNat_natCast]
    exact roundDiv_le (by exact_mod_cast hshift)

end Dpone.Schemes
