import Dpone.Schemes.Numeral
import Dpone.Schemes.Python

/-! Binary floating point as bit patterns.

    A finite pattern is a sign and a magnitude, a natural number of units of the smallest subnormal.
    Packing rounds a magnitude to a format, ties to even; a magnitude the format has is packed as it
    is, so widening a single to a double and packing it again gives the single back. -/

namespace Dpone.Schemes

/-- Fraction and exponent widths of an interchange format. -/
structure Binary where
  fraction : ℕ
  exponent : ℕ

def single : Binary := ⟨23, 8⟩

def double : Binary := ⟨52, 11⟩

/-- How much finer the unit of a double is than the unit of a single, as a power of two. -/
def unitShift : ℕ := 925

namespace Binary
variable (fmt : Binary)

def exponentField (bits : ℕ) : ℕ := bits / 2 ^ fmt.fraction % 2 ^ fmt.exponent

def fractionField (bits : ℕ) : ℕ := bits % 2 ^ fmt.fraction

def negative (bits : ℕ) : Bool := bits / 2 ^ (fmt.fraction + fmt.exponent) % 2 = 1

def finite (bits : ℕ) : Bool := fmt.exponentField bits ≠ 2 ^ fmt.exponent - 1

/-- The significand and the power of two it is scaled by. -/
def significand (bits : ℕ) : ℕ × ℕ :=
  if fmt.exponentField bits = 0 then (fmt.fractionField bits, 0)
  else (2 ^ fmt.fraction + fmt.fractionField bits, fmt.exponentField bits - 1)

/-- The magnitude in units of the smallest subnormal. -/
def magnitude (bits : ℕ) : ℕ := (fmt.significand bits).1 * 2 ^ (fmt.significand bits).2

end Binary

/-- The nearest integer to `n / 2 ^ t`, the even one of two. -/
def roundShift (n t : ℕ) : ℕ :=
  let q := n / 2 ^ t
  let r := n % 2 ^ t
  if 2 ^ t < 2 * r ∨ 2 * r = 2 ^ t ∧ q % 2 = 1 then q + 1 else q

theorem roundShift_exact (q t : ℕ) : roundShift (q * 2 ^ t) t = q := by
  have hpos : 0 < 2 ^ t := Nat.two_pow_pos t
  simp only [roundShift, Nat.mul_div_cancel _ hpos, Nat.mul_mod_left]
  exact if_neg (by omega)

namespace Binary
variable (fmt : Binary)

/-- The pattern nearest to `n / 2 ^ k` units, without its sign; `none` past the largest one. -/
def pack (n k : ℕ) : Option ℕ :=
  let t := max k (Nat.log 2 n - fmt.fraction)
  let bits := (t - k) * 2 ^ fmt.fraction + roundShift n t
  if bits < (2 ^ fmt.exponent - 1) * 2 ^ fmt.fraction then some bits else none

/-- CORRECT: a magnitude with a significand of the format is packed exactly. -/
theorem pack_exact {q k t : ℕ} (hkt : k ≤ t) (hq : q < 2 ^ (fmt.fraction + 1))
    (hnormal : t = k ∨ 2 ^ fmt.fraction ≤ q)
    (hlt : (t - k) * 2 ^ fmt.fraction + q < (2 ^ fmt.exponent - 1) * 2 ^ fmt.fraction) :
    fmt.pack (q * 2 ^ t) k = some ((t - k) * 2 ^ fmt.fraction + q) := by
  have ht : max k (Nat.log 2 (q * 2 ^ t) - fmt.fraction) = t := by
    by_cases hzero : q = 0
    · have htk : t = k := hnormal.resolve_right (by rw [hzero]; simp)
      simp [hzero, htk]
    have hlog : Nat.log 2 (q * 2 ^ t) = Nat.log 2 q + t := log_mul_pow (by simp) hzero t
    have hle : Nat.log 2 q < fmt.fraction + 1 := Nat.log_lt_of_lt_pow hzero hq
    rcases hnormal with htk | hlead
    · omega
    · have hge : fmt.fraction ≤ Nat.log 2 q := Nat.le_log_of_pow_le (by simp) hlead
      omega
  unfold pack
  simp only [ht, roundShift_exact]
  exact if_pos hlt

theorem significand_bounds {bits : ℕ} (h : fmt.finite bits) :
    (fmt.significand bits).1 < 2 ^ (fmt.fraction + 1) ∧
      ((fmt.significand bits).2 = 0 ∨ 2 ^ fmt.fraction ≤ (fmt.significand bits).1) ∧
      (fmt.significand bits).2 * 2 ^ fmt.fraction + (fmt.significand bits).1 =
        bits % 2 ^ (fmt.fraction + fmt.exponent) ∧
      bits % 2 ^ (fmt.fraction + fmt.exponent) < (2 ^ fmt.exponent - 1) * 2 ^ fmt.fraction := by
  have hpos : 0 < 2 ^ fmt.fraction := Nat.two_pow_pos _
  have hf : fmt.fractionField bits < 2 ^ fmt.fraction := Nat.mod_lt _ hpos
  have he : fmt.exponentField bits < 2 ^ fmt.exponent := Nat.mod_lt _ (Nat.two_pow_pos _)
  have hfin : fmt.exponentField bits ≠ 2 ^ fmt.exponent - 1 := by simpa [finite] using h
  have hfields : bits % 2 ^ (fmt.fraction + fmt.exponent) =
      fmt.exponentField bits * 2 ^ fmt.fraction + fmt.fractionField bits := by
    rw [pow_add, Nat.mod_mul, exponentField, fractionField, Nat.mul_comm, Nat.add_comm]
  have hle : (fmt.exponentField bits + 1) * 2 ^ fmt.fraction ≤
      (2 ^ fmt.exponent - 1) * 2 ^ fmt.fraction := Nat.mul_le_mul_right _ (by omega)
  rw [Nat.succ_mul] at hle
  rw [hfields, pow_succ]
  unfold significand
  split_ifs with hzero
  · rw [hzero] at hle ⊢
    exact ⟨by omega, .inl rfl, by omega, by omega⟩
  · have hsub : (fmt.exponentField bits - 1) * 2 ^ fmt.fraction + 2 ^ fmt.fraction =
        fmt.exponentField bits * 2 ^ fmt.fraction := by
      rw [← Nat.succ_mul]
      congr 1
      omega
    dsimp only
    exact ⟨by omega, .inr (Nat.le_add_right _ _), by omega, by omega⟩

/-- LOSSLESS: packing the magnitude of a finite pattern gives its bits without the sign. -/
theorem pack_magnitude {bits : ℕ} (k : ℕ) (h : fmt.finite bits) :
    fmt.pack (fmt.magnitude bits * 2 ^ k) k = some (bits % 2 ^ (fmt.fraction + fmt.exponent)) := by
  obtain ⟨hq, hnormal, hsum, hlt⟩ := fmt.significand_bounds h
  have hscale : fmt.magnitude bits * 2 ^ k =
      (fmt.significand bits).1 * 2 ^ ((fmt.significand bits).2 + k) := by
    rw [magnitude, Nat.mul_assoc, ← pow_add]
  rw [hscale, fmt.pack_exact (Nat.le_add_left _ _) hq (by omega)
    (by rw [Nat.add_sub_cancel, hsum]; exact hlt), Nat.add_sub_cancel, hsum]

end Binary

/-! ### Python floats -/

/-- A sign bit above a pattern. -/
def withSign (fmt : Binary) (negative : Bool) (bits : ℕ) : ℕ :=
  (if negative then 2 ^ (fmt.fraction + fmt.exponent) else 0) + bits

/-- `struct.unpack("<f", payload)`: a Python float is the pattern of a double. -/
def widen (bits : ℕ) : ℕ :=
  withSign double (single.negative bits) <|
    if single.finite bits then (double.pack (single.magnitude bits * 2 ^ unitShift) 0).getD 0
    else (2 ^ double.exponent - 1) * 2 ^ double.fraction + single.fractionField bits * 2 ^ 29

/-- `struct.pack("<f", value)`. -/
def narrow (bits : ℕ) : Except PyError ℕ :=
  withSign single (double.negative bits) <$>
    if double.finite bits then
      match single.pack (double.magnitude bits) unitShift with
      | some r => .ok r
      | none => .error .overflowError
    else .ok ((2 ^ single.exponent - 1) * 2 ^ single.fraction + double.fractionField bits / 2 ^ 29)

/-- A double with a significand and a power of two, read back. -/
theorem double_fields {negative : Bool} {q t : ℕ} (hq : q < 2 ^ 53) (hnormal : t = 0 ∨ 2 ^ 52 ≤ q)
    (hlt : t * 2 ^ 52 + q < 2047 * 2 ^ 52) :
    double.magnitude (withSign double negative (t * 2 ^ 52 + q)) = q * 2 ^ t ∧
      double.finite (withSign double negative (t * 2 ^ 52 + q)) ∧
      double.negative (withSign double negative (t * 2 ^ 52 + q)) = negative := by
  have hsign : double.negative (withSign double negative (t * 2 ^ 52 + q)) = negative := by
    cases negative
    · simp [Binary.negative, withSign, double]; omega
    · simp [Binary.negative, withSign, double]; omega
  have hfraction : double.fractionField (withSign double negative (t * 2 ^ 52 + q)) =
      q % 2 ^ 52 := by
    cases negative
    · simp [Binary.fractionField, withSign, double]
    · simp [Binary.fractionField, withSign, double]; omega
  have hexponent : double.exponentField (withSign double negative (t * 2 ^ 52 + q)) =
      t + q / 2 ^ 52 := by
    cases negative
    · simp [Binary.exponentField, withSign, double]; omega
    · simp [Binary.exponentField, withSign, double]; omega
  refine ⟨?_, ?_, hsign⟩
  · rw [Binary.magnitude, Binary.significand, hexponent, hfraction]
    by_cases hlead : 2 ^ 52 ≤ q
    · have hone : q / 2 ^ 52 = 1 := by omega
      have hmod : 2 ^ double.fraction + q % 2 ^ 52 = q := by
        change 2 ^ 52 + q % 2 ^ 52 = q
        omega
      rw [hone, if_neg (by omega)]
      simp only [hmod, Nat.add_sub_cancel]
    · have hzero : t = 0 := hnormal.resolve_right hlead
      have hdiv : q / 2 ^ 52 = 0 := by omega
      rw [hzero, hdiv, if_pos rfl, Nat.mod_eq_of_lt (by omega)]
  · have hne : t + q / 2 ^ 52 ≠ 2047 := by omega
    rw [Binary.finite, hexponent]
    exact decide_eq_true hne

/-- CORRECT: widening keeps sign and magnitude. -/
theorem widen_spec {bits : ℕ} (h : single.finite bits) :
    double.magnitude (widen bits) = single.magnitude bits * 2 ^ unitShift ∧
      double.finite (widen bits) ∧ double.negative (widen bits) = single.negative bits := by
  obtain ⟨hq, hnormal, hsum, hlt⟩ := single.significand_bounds h
  have hscale : single.magnitude bits * 2 ^ unitShift =
      (single.significand bits).1 * 2 ^ ((single.significand bits).2 + unitShift) := by
    rw [Binary.magnitude, Nat.mul_assoc, ← pow_add]
  have hexp : (single.significand bits).2 * 2 ^ 23 + (single.significand bits).1 < 255 * 2 ^ 23 :=
    hsum ▸ hlt
  rw [widen, if_pos h, hscale]
  generalize (single.significand bits).1 = m at *
  generalize (single.significand bits).2 = j at *
  by_cases hzero : m = 0
  · have hpack : double.pack (m * 2 ^ (j + unitShift)) 0 = some 0 := by
      rw [hzero, Nat.zero_mul]
      exact double.pack_exact (q := 0) (t := 0) le_rfl (by simp) (.inl rfl) (by decide)
    rw [hpack, hzero]
    simpa using double_fields (q := 0) (t := 0) (by simp) (.inl rfl) (by simp)
  · -- the leading bit of the significand moves up to the fraction width of a double
    have hm : m < 2 ^ 24 := hq
    have hlog : Nat.log 2 m < 24 := Nat.log_lt_of_lt_pow hzero hm
    obtain ⟨d, hd⟩ := Nat.exists_eq_add_of_le (show Nat.log 2 m ≤ 52 by omega)
    have hlead : 2 ^ 52 ≤ m * 2 ^ d := by
      rw [hd, pow_add]
      exact Nat.mul_le_mul_right _ (Nat.pow_log_le_self 2 hzero)
    have htop : m * 2 ^ d < 2 ^ 53 := by
      have hlt := Nat.lt_pow_succ_log_self (b := 2) (by simp) m
      rw [show 53 = Nat.log 2 m + 1 + d by omega, pow_add]
      exact Nat.mul_lt_mul_of_pos_right hlt (Nat.two_pow_pos d)
    have hunit : d ≤ unitShift ∧ j + unitShift - d < 1200 := by
      have hd' : d ≤ 52 := by omega
      have hj : j < 255 := by omega
      constructor
      · exact hd'.trans (by decide)
      · have hsum : j + unitShift < 255 + unitShift := Nat.add_lt_add_right hj _
        exact (Nat.sub_le _ _).trans_lt (hsum.trans (by decide))
    have hfits : (j + unitShift - d) * 2 ^ 52 + m * 2 ^ d < 2047 * 2 ^ 52 :=
      (Nat.add_lt_add_left htop _).trans_le <|
        (Nat.add_le_add_right (Nat.mul_le_mul_right (2 ^ 52) hunit.2.le) (2 ^ 53)).trans (by decide)
    have hshift : m * 2 ^ (j + unitShift) = m * 2 ^ d * 2 ^ (j + unitShift - d) := by
      rw [Nat.mul_assoc, ← pow_add, Nat.add_sub_of_le (by omega)]
    have hpack := double.pack_exact (q := m * 2 ^ d) (k := 0) (t := j + unitShift - d)
      (Nat.zero_le _) htop (.inr hlead) hfits
    rw [hshift, hpack]
    exact double_fields htop (.inr hlead) hfits

/-- LOSSLESS: a finite single, widened and packed again. -/
theorem narrow_widen {bits : ℕ} (h : single.finite bits) (hlt : bits < 2 ^ 32) :
    narrow (widen bits) = .ok bits := by
  obtain ⟨hmagnitude, hfinite, hsign⟩ := widen_spec h
  have hbits : withSign single (single.negative bits) (bits % 2 ^ 31) = bits := by
    change (if decide (bits / 2 ^ 31 % 2 = 1) = true then 2 ^ 31 else 0) + bits % 2 ^ 31 = bits
    split_ifs with hneg
    · have := of_decide_eq_true hneg
      omega
    · have : ¬ bits / 2 ^ 31 % 2 = 1 := by simpa using hneg
      omega
  rw [narrow, if_pos hfinite, hmagnitude, single.pack_magnitude unitShift h, hsign]
  exact congrArg Except.ok hbits

end Dpone.Schemes
