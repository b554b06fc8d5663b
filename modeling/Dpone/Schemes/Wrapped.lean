import Mathlib.Algebra.Order.Ring.Int
import Mathlib.Data.Int.Notation
import Mathlib.Tactic.Linarith
import Mathlib.Tactic.Ring

/-! Windows of a counter of which only the remainder by a cycle is seen. A window that stays in one
    cycle is an interval of remainders, one that enters the next cycle is the complement of an
    interval, and a window shows every remainder exactly when it is as long as a cycle. -/

namespace Dpone.Schemes

/-- The remainder `r` is seen between `lo` and `hi`. -/
def SeenIn (cycle lo hi r : ℤ) : Prop := ∃ x, lo ≤ x ∧ x < hi ∧ x % cycle = r

variable {cycle lo hi r : ℤ}

theorem at_remainder (hr : 0 ≤ r ∧ r < cycle) (k : ℤ) : (cycle * k + r) % cycle = r := by
  rw [Int.add_comm, Int.add_mul_emod_self_left]
  exact Int.emod_eq_of_lt hr.1 hr.2

/-- CORRECT: the remainders seen within one cycle. -/
theorem seenIn_same (hcycle : 0 < cycle) (hr : 0 ≤ r ∧ r < cycle) (h : hi / cycle = lo / cycle) :
    SeenIn cycle lo hi r ↔ lo % cycle ≤ r ∧ r < hi % cycle := by
  have hlo := Int.mul_ediv_add_emod lo cycle
  have hhi := Int.mul_ediv_add_emod hi cycle
  rw [h] at hhi
  constructor
  · rintro ⟨x, hx, hlt, rfl⟩
    have hq : x / cycle = lo / cycle := by
      have h₁ := Int.ediv_le_ediv hcycle hx
      have h₂ := Int.ediv_le_ediv hcycle hlt.le
      omega
    have hxr := Int.mul_ediv_add_emod x cycle
    rw [hq] at hxr
    constructor <;> linarith
  · rintro ⟨hle, hlt⟩
    exact ⟨cycle * (lo / cycle) + r, by linarith, by linarith, at_remainder hr _⟩

/-- CORRECT: the remainders seen up to a place in the next cycle. -/
theorem seenIn_next (hcycle : 0 < cycle) (hr : 0 ≤ r ∧ r < cycle)
    (h : hi / cycle = lo / cycle + 1) :
    SeenIn cycle lo hi r ↔ lo % cycle ≤ r ∨ r < hi % cycle := by
  have hlo := Int.mul_ediv_add_emod lo cycle
  have hhi := Int.mul_ediv_add_emod hi cycle
  have hlop := Int.emod_lt_of_pos lo hcycle
  have hhip := Int.emod_nonneg hi hcycle.ne'
  rw [h, mul_add, mul_one] at hhi
  constructor
  · rintro ⟨x, hx, hlt, rfl⟩
    have hxr := Int.mul_ediv_add_emod x cycle
    have h₁ := Int.ediv_le_ediv hcycle hx
    have h₂ := Int.ediv_le_ediv hcycle hlt.le
    rcases (by omega : x / cycle = lo / cycle ∨ x / cycle = lo / cycle + 1) with hq | hq
    · rw [hq] at hxr
      exact .inl (by linarith)
    · rw [hq, mul_add, mul_one] at hxr
      exact .inr (by linarith)
  · rintro (hle | hlt)
    · exact ⟨cycle * (lo / cycle) + r, by linarith, by linarith, at_remainder hr _⟩
    · refine ⟨cycle * (lo / cycle + 1) + r, ?_, ?_, at_remainder hr _⟩
      · rw [mul_add, mul_one]
        linarith
      · rw [mul_add, mul_one]
        linarith

/-- CORRECT: a window shows every remainder exactly when it is as long as a cycle. -/
theorem seenIn_all (hcycle : 0 < cycle) (lo hi : ℤ) :
    (∀ r, 0 ≤ r → r < cycle → SeenIn cycle lo hi r) ↔ cycle ≤ hi - lo := by
  constructor
  · intro h
    by_contra hshort
    obtain ⟨x, hx, hlt, hxr⟩ := h (hi % cycle) (Int.emod_nonneg hi hcycle.ne')
      (Int.emod_lt_of_pos hi hcycle)
    -- the next number with that remainder is a cycle away
    have hdvd : cycle ∣ hi - x :=
      Int.dvd_of_emod_eq_zero (Int.emod_eq_emod_iff_emod_sub_eq_zero.mp hxr.symm)
    have hle := Int.le_of_dvd (by linarith) hdvd
    linarith
  · intro h r hr hlt
    have hnonneg := Int.emod_nonneg (r - lo) hcycle.ne'
    have hbelow := Int.emod_lt_of_pos (r - lo) hcycle
    refine ⟨lo + (r - lo) % cycle, by linarith, by linarith, ?_⟩
    rw [Int.add_emod_emod, add_sub_cancel]
    exact Int.emod_eq_of_lt hr hlt

end Dpone.Schemes
