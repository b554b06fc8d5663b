import Dpone.Schemes.DecimalContext
import Dpone.Schemes.NumberText

/-! Decimals normalised in a context, and written in fixed point.

    `normalize` rounds to the precision of the context before it strips trailing zeros, so it keeps
    the number only where the context has room for it (`Holds`): digits, and exponents on both ends.
    A decimal is a coefficient and an exponent here; its sign plays no part. -/

namespace Dpone.Schemes

structure DecimalContext where
  precision : ℕ
  emin : ℤ
  emax : ℤ
  precision_pos : 0 < precision
  emin_nonpos : emin ≤ 0
  emax_nonneg : 0 ≤ emax

namespace DecimalContext

/-- `decimal.DefaultContext`. -/
def default : DecimalContext := ⟨28, -999999, 999999, by decide, by decide, by decide⟩

variable (ctx : DecimalContext)

/-- `Etiny()`: the least exponent. -/
def etiny : ℤ := ctx.emin - ctx.precision + 1

/-- `Etop()`: the greatest exponent of a coefficient of full precision. -/
def etop : ℤ := ctx.emax - ctx.precision + 1

/-- The least exponent that a decimal keeps. -/
def leastExponent (c : ℕ) (e : ℤ) : ℤ := max (e + Nat.log 10 c - ctx.precision + 1) ctx.etiny

/-- A decimal other than zero, rounded to the context; nothing where it overflows. A coefficient
    that is rounded up to a power of ten gives up its last zero. -/
def round (c : ℕ) (e : ℤ) : Option (ℕ × ℤ) :=
  let least := ctx.leastExponent c e
  if ctx.emax < e + Nat.log 10 c then none
  else if least ≤ e then some (c, e)
  else
    let coefficient := roundDiv c (10 ^ (least - e).toNat)
    if coefficient < 10 ^ ctx.precision then some (coefficient, least)
    else if ctx.etop < least + 1 then none
    else some (coefficient / 10, least + 1)

/-- Trailing zeros of a coefficient, taken into the exponent. -/
def stripZeros : ℕ → ℕ → ℤ → ℕ × ℤ
  | 0, c, e => (c, e)
  | fuel + 1, c, e =>
    if c % 10 = 0 ∧ e < ctx.emax then stripZeros fuel (c / 10) (e + 1) else (c, e)

/-- `normalize`; a coefficient has fewer zeros than digits. -/
def normalize (c : ℕ) (e : ℤ) : Option (ℕ × ℤ) :=
  if c = 0 then some (0, 0)
  else (ctx.round c e).map fun rounded =>
    if rounded.1 = 0 then (0, 0)
    else ctx.stripZeros (Nat.log 10 rounded.1 + 1) rounded.1 rounded.2

/-- The context has room for a number: not past its greatest exponent, and with digits enough from
    the least exponent on. -/
def Holds (c : ℕ) (e : ℤ) : Prop :=
  c = 0 ∨ e + Nat.log 10 c ≤ ctx.emax ∧
    ∃ m k : ℕ, c = m * 10 ^ k ∧ m < 10 ^ ctx.precision ∧ ctx.etiny ≤ e + k

variable {ctx} {c : ℕ} {e : ℤ}

theorem stripZeros_spec : ∀ {fuel c : ℕ} {e : ℤ}, c ≠ 0 → Nat.log 10 c < fuel →
    ∃ m k : ℕ, ctx.stripZeros fuel c e = (m, e + k) ∧ c = m * 10 ^ k ∧
      (m % 10 ≠ 0 ∨ ctx.emax ≤ e + k)
  | 0, _, _, _, hfuel => absurd hfuel (Nat.not_lt_zero _)
  | fuel + 1, c, e, hc, hfuel => by
    rw [stripZeros]
    by_cases hstrip : c % 10 = 0 ∧ e < ctx.emax
    · rw [if_pos hstrip]
      obtain ⟨q, rfl⟩ := Nat.dvd_of_mod_eq_zero hstrip.1
      have hq : q ≠ 0 := by
        rintro rfl
        exact hc rfl
      have hlog : Nat.log 10 (10 * q) = Nat.log 10 q + 1 := by
        rw [Nat.mul_comm, Nat.log_mul_base (by decide) hq]
      rw [Nat.mul_div_cancel_left q (by decide)]
      obtain ⟨m, k, hstripped, hvalue, hend⟩ :=
        stripZeros_spec (e := e + 1) hq (by omega : Nat.log 10 q < fuel)
      refine ⟨m, k + 1, ?_, ?_, ?_⟩
      · rw [hstripped]
        push_cast
        rw [add_assoc, add_comm (1 : ℤ)]
      · rw [hvalue, pow_succ]
        ring
      · push_cast
        rwa [add_comm (k : ℤ), ← add_assoc]
    · rw [if_neg hstrip]
      refine ⟨c, 0, by simp, by simp, ?_⟩
      rcases not_and_or.mp hstrip with hzero | hmax
      · exact .inl hzero
      · exact .inr (by simpa using hmax)

theorem lt_pow_of_log {c w : ℕ} (hc : c ≠ 0) (h : Nat.log 10 c < w) : c < 10 ^ w :=
  (Nat.log_lt_iff_lt_pow (by decide) hc).mp h

theorem log_of_lt_pow {c w : ℕ} (hc : c ≠ 0) (h : c < 10 ^ w) : Nat.log 10 c < w :=
  (Nat.log_lt_iff_lt_pow (by decide) hc).mpr h

/-- A decimal that the context holds is rounded to itself. -/
theorem round_of_holds (hc : c ≠ 0) (h : ctx.Holds c e) :
    ∃ m k : ℕ, ctx.round c e = some (m, e + k) ∧ c = m * 10 ^ k := by
  obtain ⟨htop, m, k, hcm, hm, htiny⟩ := h.resolve_left hc
  have hm0 : m ≠ 0 := by
    rintro rfl
    exact hc (by simpa using hcm)
  have hlog : Nat.log 10 c = Nat.log 10 m + k := by
    rw [hcm]
    exact log_mul_pow (by decide) hm0 k
  have hmlog : Nat.log 10 m < ctx.precision := log_of_lt_pow hm0 hm
  have hleast : ctx.leastExponent c e ≤ e + k := by
    unfold leastExponent
    omega
  unfold round
  simp only
  rw [if_neg (by omega)]
  by_cases hle : ctx.leastExponent c e ≤ e
  · rw [if_pos hle]
    exact ⟨c, 0, by simp, by simp⟩
  · -- the digits that are dropped are zeros
    obtain ⟨j, hj⟩ : ∃ j : ℕ, ctx.leastExponent c e = e + j :=
      ⟨(ctx.leastExponent c e - e).toNat, by omega⟩
    obtain ⟨i, rfl⟩ : ∃ i, k = i + j := ⟨k - j, by omega⟩
    have hround : roundDiv c (10 ^ (ctx.leastExponent c e - e).toNat) = m * 10 ^ i := by
      rw [hj, show (e + j - e).toNat = j by omega, hcm, pow_add, ← Nat.mul_assoc]
      exact roundDiv_exact _ (Nat.pow_pos (by decide))
    have hfits : m * 10 ^ i < 10 ^ ctx.precision := by
      refine lt_pow_of_log (Nat.mul_ne_zero hm0 (Nat.pow_pos (by decide)).ne') ?_
      rw [log_mul_pow (by decide) hm0]
      have : e + Nat.log 10 c - ctx.precision + 1 ≤ ctx.leastExponent c e := le_max_left _ _
      omega
    rw [if_neg hle, hround, if_pos hfits, hj]
    exact ⟨m * 10 ^ i, j, rfl, by rw [hcm, pow_add, Nat.mul_assoc]⟩

/-- What the rounding returns has no more digits than the precision, and no exponent below the
    least one. -/
theorem round_some (hc : c ≠ 0) {m : ℕ} {f : ℤ} (h : ctx.round c e = some (m, f)) :
    e + Nat.log 10 c ≤ ctx.emax ∧ m < 10 ^ ctx.precision ∧ ctx.etiny ≤ f ∧ e ≤ f := by
  have hleft : e + Nat.log 10 c - ctx.precision + 1 ≤ ctx.leastExponent c e := le_max_left _ _
  have hright : ctx.etiny ≤ ctx.leastExponent c e := le_max_right _ _
  unfold round at h
  simp only at h
  by_cases hover : ctx.emax < e + Nat.log 10 c
  · rw [if_pos hover] at h
    cases h
  rw [if_neg hover] at h
  refine ⟨by omega, ?_⟩
  by_cases hle : ctx.leastExponent c e ≤ e
  · rw [if_pos hle] at h
    cases h
    exact ⟨lt_pow_of_log hc (by omega), by omega, le_rfl⟩
  rw [if_neg hle] at h
  by_cases hfits : roundDiv c (10 ^ (ctx.leastExponent c e - e).toNat) < 10 ^ ctx.precision
  · rw [if_pos hfits] at h
    cases h
    exact ⟨hfits, hright, by omega⟩
  · rw [if_neg hfits] at h
    split_ifs at h with hlast
    cases h
    refine ⟨?_, by omega, by omega⟩
    -- one more than the digits that are kept, so at most the power of ten past them
    have hle' : roundDiv c (10 ^ (ctx.leastExponent c e - e).toNat) ≤ 10 ^ ctx.precision := by
      refine roundDiv_le ?_
      rw [← pow_add]
      exact lt_pow_of_log hc (by omega)
    have hten : 1 < 10 ^ ctx.precision := Nat.one_lt_pow ctx.precision_pos.ne' (by decide)
    omega

/-- CORRECT: a number that the context holds is normalised to itself, down to its last digit other
    than zero. -/
theorem normalize_of_holds (hc : c ≠ 0) (h : ctx.Holds c e) :
    ∃ m k : ℕ, ctx.normalize c e = some (m, e + k) ∧ c = m * 10 ^ k ∧
      (m % 10 ≠ 0 ∨ ctx.emax ≤ e + k) := by
  obtain ⟨m, k, hround, hcm⟩ := round_of_holds hc h
  have hm0 : m ≠ 0 := by
    rintro rfl
    exact hc (by simpa using hcm)
  obtain ⟨m', k', hstrip, hm, hend⟩ :=
    @stripZeros_spec ctx (Nat.log 10 m + 1) m (e + k) hm0 (Nat.lt_succ_self _)
  refine ⟨m', k + k', ?_, ?_, ?_⟩
  · rw [normalize, if_neg hc, hround, Option.map_some, if_neg hm0, hstrip]
    push_cast
    rw [add_assoc]
  · rw [hcm, hm, pow_add]
    ring
  · push_cast
    rwa [← add_assoc]

/-- CORRECT: whatever is normalised to a number of the same value is held by the context. -/
theorem holds_of_normalize (hc : c ≠ 0) {m : ℕ} {f : ℤ} (h : ctx.normalize c e = some (m, f))
    (hm : m ≠ 0) : e ≤ f ∧ (c = m * 10 ^ (f - e).toNat → ctx.Holds c e) ∧
      (m % 10 ≠ 0 ∨ ctx.emax ≤ f) := by
  rw [normalize, if_neg hc, Option.map_eq_some_iff] at h
  obtain ⟨⟨m₀, f₀⟩, hround, hstripped⟩ := h
  obtain ⟨htop, hm₀, htiny, hle⟩ := round_some hc hround
  by_cases hzero : m₀ = 0
  · rw [if_pos hzero] at hstripped
    cases hstripped
    exact absurd rfl hm
  rw [if_neg hzero] at hstripped
  obtain ⟨m', k', hstrip, hm', hend⟩ :=
    @stripZeros_spec ctx (Nat.log 10 m₀ + 1) m₀ f₀ hzero (Nat.lt_succ_self _)
  rw [hstrip] at hstripped
  cases hstripped
  refine ⟨by omega, fun hvalue => .inr ⟨htop, m, _, hvalue, ?_, by omega⟩, hend⟩
  calc m ≤ m * 10 ^ k' := Nat.le_mul_of_pos_right _ (Nat.pow_pos (by decide))
    _ = m₀ := hm'.symm
    _ < 10 ^ ctx.precision := hm₀

end DecimalContext

end Dpone.Schemes
