import Mathlib.Data.Int.Log
import Mathlib.Data.Rat.Floor
import Mathlib.Tactic.FieldSimp
import Mathlib.Tactic.Linarith

/-! Rounding to a fixed number of significant digits, ties to even.

    One function serves decimal contexts (base 10) and binary floating point (base 2). Two facts
    about it carry arithmetic that is rounded after every step: the result is representable, and
    rounding never crosses a representable number. -/

namespace Dpone.Schemes

/-- The nearest integer, the even one of two. -/
def roundHalfEven (x : ℚ) : ℤ :=
  let f := ⌊x⌋
  if x - f < 1 / 2 then f
  else if 1 / 2 < x - f then f + 1
  else if f % 2 = 0 then f
  else f + 1

theorem floor_le_roundHalfEven (x : ℚ) : ⌊x⌋ ≤ roundHalfEven x := by
  unfold roundHalfEven
  dsimp only
  split_ifs <;> omega

theorem roundHalfEven_le_ceil (x : ℚ) : roundHalfEven x ≤ ⌈x⌉ := by
  have hfloor := Int.floor_le_ceil x
  unfold roundHalfEven
  dsimp only
  by_cases hint : x = ⌊x⌋
  · rw [if_pos (by rw [← hint]; norm_num)]
    exact hfloor
  · have hlt : (⌊x⌋ : ℚ) < x := lt_of_le_of_ne (Int.floor_le x) (Ne.symm hint)
    have hceil : ⌊x⌋ + 1 ≤ ⌈x⌉ := Int.lt_ceil.mpr hlt
    split_ifs <;> omega

/-- `x` in `p` significant digits of base `b`. -/
def roundSig (b p : ℕ) (x : ℚ) : ℚ :=
  if x = 0 then 0
  else
    let ulp : ℚ := (b : ℚ) ^ (Int.log b |x| + 1 - p)
    roundHalfEven (x / ulp) * ulp

/-- What `p` digits of base `b` can write, at any exponent. -/
def Representable (b p : ℕ) (x : ℚ) : Prop :=
  ∃ k j : ℤ, |k| < b ^ p ∧ x = k * (b : ℚ) ^ j

variable {b p : ℕ} {x : ℚ}

theorem representable_intCast {n : ℤ} (h : |n| < b ^ p) : Representable b p n :=
  ⟨n, 0, h, by simp⟩

/-- The leading digit of `x` stands at `b ^ log`, so `x / ulp` has `p` digits before the point. -/
theorem log_bounds (hb : 1 < b) (hx : x ≠ 0) :
    (b : ℚ) ^ Int.log b |x| ≤ |x| ∧ |x| < (b : ℚ) ^ (Int.log b |x| + 1) :=
  ⟨Int.zpow_log_le_self hb (abs_pos.mpr hx), Int.lt_zpow_succ_log_self hb _⟩

theorem roundSig_representable (hb : 1 < b) (hp : 0 < p) (x : ℚ) :
    Representable b p (roundSig b p x) := by
  have hpow : (1 : ℤ) < b ^ p := by exact_mod_cast Nat.one_lt_pow hp.ne' hb
  by_cases hx : x = 0
  · exact ⟨0, 0, by simpa using by omega, by simp [roundSig, hx]⟩
  have hb0 : (0 : ℚ) < b := by exact_mod_cast (by omega : 0 < b)
  obtain ⟨-, hlt⟩ := log_bounds hb hx
  rw [roundSig, if_neg hx]
  dsimp only
  set j := Int.log b |x| + 1 - (p : ℤ) with hj
  set ulp : ℚ := (b : ℚ) ^ j with hulp
  have hulp0 : 0 < ulp := zpow_pos hb0 _
  have hquot : |x / ulp| < ((b ^ p : ℤ) : ℚ) := by
    rw [abs_div, abs_of_pos hulp0, div_lt_iff₀ hulp0, hulp]
    push_cast
    have hdigits : (p : ℤ) + j = Int.log b |x| + 1 := by omega
    rw [← zpow_natCast, ← zpow_add₀ hb0.ne', hdigits]
    exact hlt
  obtain ⟨hlow, hhigh⟩ := abs_lt.mp hquot
  have hle : roundHalfEven (x / ulp) ≤ b ^ p :=
    (roundHalfEven_le_ceil _).trans (Int.ceil_le.mpr hhigh.le)
  have hge : -(b ^ p : ℤ) ≤ roundHalfEven (x / ulp) := by
    refine le_trans (Int.le_floor.mpr ?_) (floor_le_roundHalfEven _)
    push_cast at hlow ⊢
    exact hlow.le
  -- a carry out of the leading digit is one digit further up
  rcases eq_or_lt_of_le hle with heq | hlt'
  · refine ⟨1, p + j, by simpa using hpow, ?_⟩
    rw [heq, zpow_add₀ hb0.ne', zpow_natCast]
    push_cast; ring
  rcases eq_or_lt_of_le hge with heq | hgt'
  · refine ⟨-1, p + j, by simpa using hpow, ?_⟩
    rw [← heq, zpow_add₀ hb0.ne', zpow_natCast]
    push_cast; ring
  · exact ⟨_, j, abs_lt.mpr ⟨hgt', hlt'⟩, rfl⟩

/-- A multiple of the unit in the last place is not crossed. -/
theorem le_round_of_multiple {ulp : ℚ} (hulp : 0 < ulp) {k : ℤ} (h : k * ulp ≤ x) :
    k * ulp ≤ roundHalfEven (x / ulp) * ulp := by
  have hk : k ≤ ⌊x / ulp⌋ := Int.le_floor.mpr ((le_div_iff₀ hulp).mpr h)
  have hk' : (k : ℚ) ≤ roundHalfEven (x / ulp) := by
    exact_mod_cast hk.trans (floor_le_roundHalfEven _)
  exact mul_le_mul_of_nonneg_right hk' hulp.le

/-- MONOTONE: rounding does not fall below a representable number. -/
theorem le_roundSig (hb : 1 < b) (hp : 0 < p) {l : ℚ} (hl : Representable b p l) (hle : l ≤ x) :
    l ≤ roundSig b p x := by
  have hb0 : (0 : ℚ) < b := by exact_mod_cast (by omega : 0 < b)
  have hb1 : (1 : ℚ) ≤ b := by exact_mod_cast hb.le
  by_cases hx : x = 0
  · rw [roundSig, if_pos hx, ← hx]; exact hle
  obtain ⟨hlead, -⟩ := log_bounds hb hx
  rw [roundSig, if_neg hx]
  dsimp only
  set e := Int.log b |x| with he
  have hulp0 : 0 < (b : ℚ) ^ (e + 1 - p) := zpow_pos hb0 _
  obtain ⟨k, j, hk, rfl⟩ := hl
  by_cases hj : e + 1 - p ≤ j
  · -- fine enough digits: `l` is a multiple of the unit
    obtain ⟨n, hn⟩ := Int.le.dest hj
    have hmul : (k : ℚ) * (b : ℚ) ^ j = ((k * b ^ n : ℤ) : ℚ) * (b : ℚ) ^ (e + 1 - p) := by
      rw [← hn, zpow_add₀ hb0.ne', zpow_natCast]
      push_cast; ring
    rw [hmul] at hle ⊢
    exact le_round_of_multiple hulp0 hle
  · -- otherwise `l` is smaller than the leading digit of `x`
    have hsmall : |(k : ℚ) * (b : ℚ) ^ j| < (b : ℚ) ^ e := by
      have hkq : |(k : ℚ)| < (b : ℚ) ^ (p : ℤ) := by
        rw [zpow_natCast]; exact_mod_cast hk
      rw [abs_mul, abs_of_pos (zpow_pos hb0 j)]
      calc |(k : ℚ)| * (b : ℚ) ^ j < (b : ℚ) ^ (p : ℤ) * (b : ℚ) ^ j :=
            mul_lt_mul_of_pos_right hkq (zpow_pos hb0 j)
        _ = (b : ℚ) ^ (p + j) := (zpow_add₀ hb0.ne' _ _).symm
        _ ≤ (b : ℚ) ^ e := zpow_le_zpow_right₀ hb1 (by omega)
    rcases lt_or_gt_of_ne hx with hneg | hpos
    · rw [abs_of_neg hneg] at hlead
      rw [abs_of_nonpos (hle.trans hneg.le)] at hsmall
      linarith
    · rw [abs_of_pos hpos] at hlead
      have hdigit : (b : ℚ) ^ e = ((b ^ (p - 1) : ℤ) : ℚ) * (b : ℚ) ^ (e + 1 - p) := by
        push_cast
        rw [← zpow_natCast, ← zpow_add₀ hb0.ne']
        congr 1
        omega
      have hround := le_round_of_multiple (x := x) hulp0 (hdigit ▸ hlead)
      rw [← hdigit] at hround
      exact ((le_abs_self _).trans hsmall.le).trans hround

end Dpone.Schemes
