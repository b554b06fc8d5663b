import Mathlib.Algebra.Order.Floor.Div
import Mathlib.Data.Int.Order.Basic
import Mathlib.Data.List.Chain

/-! A window cut at a fixed step.

    The cuts of a window are its start, every further step before its end, and its end. Between
    neighbours there is one step, but for the last two, between which there may be less. -/

namespace Dpone.Schemes

/-- How many steps a length takes, a started one included. -/
def stepCount (length step : ℕ) : ℕ := length / step + if length % step = 0 then 0 else 1

variable {length step : ℕ}

/-- All steps but the last end before the window does, and the last one does not. -/
theorem stepCount_spec (hstep : 0 < step) (hlength : 0 < length) :
    0 < stepCount length step ∧ (stepCount length step - 1) * step < length ∧
      length ≤ stepCount length step * step := by
  have hmod := Nat.mod_lt length hstep
  have hdiv := Nat.div_add_mod' length step
  have hsucc : ∀ n : ℕ, (n + 1) * step = n * step + step := fun n => Nat.succ_mul n step
  unfold stepCount
  by_cases hexact : length % step = 0
  · -- the last step ends with the window
    rw [if_pos hexact, Nat.add_zero]
    obtain ⟨n, hn⟩ : ∃ n, length / step = n + 1 := by
      refine Nat.exists_eq_add_one.mpr (Nat.pos_of_ne_zero fun hzero => ?_)
      rw [hzero, Nat.zero_mul] at hdiv
      omega
    rw [hn, hsucc] at hdiv
    rw [hn, hsucc, Nat.add_sub_cancel]
    exact ⟨Nat.succ_pos n, by omega, by omega⟩
  · rw [if_neg hexact, Nat.add_sub_cancel, hsucc]
    exact ⟨Nat.succ_pos _, by omega, by omega⟩

theorem stepCount_pos (hstep : 0 < step) (hlength : 0 < length) : 0 < stepCount length step :=
  (stepCount_spec hstep hlength).1

/-- CORRECT: the steps are as many as the quotient rounded up. -/
theorem stepCount_eq (hstep : 0 < step) (hlength : 0 < length) :
    stepCount length step = length ⌈/⌉ step := by
  obtain ⟨hpos, hlo, hhi⟩ := stepCount_spec hstep hlength
  refine le_antisymm (Nat.le_of_pred_lt (lt_of_not_ge fun hle => ?_)) ?_
  · have hmul := (ceilDiv_le_iff_le_mul hstep).mp hle
    rw [Nat.mul_comm] at hmul
    exact absurd hmul (Nat.not_le.mpr hlo)
  · rw [ceilDiv_le_iff_le_mul hstep, Nat.mul_comm]
    exact hhi

/-- The cuts of a window at a fixed step. -/
def gridCuts (start : ℤ) (length step : ℕ) : List ℤ :=
  (List.range (stepCount length step)).map (fun i : ℕ => start + (i * step : ℕ)) ++
    [start + length]

variable {start : ℤ}

theorem gridCuts_length : (gridCuts start length step).length = stepCount length step + 1 := by
  simp [gridCuts]

theorem gridCuts_step {i : ℕ} (h : i < stepCount length step) :
    (gridCuts start length step)[i]? = some (start + (i * step : ℕ)) := by
  rw [gridCuts, List.getElem?_append_left (by simpa using h)]
  simp [h]

theorem gridCuts_last :
    (gridCuts start length step)[stepCount length step]? = some (start + length) := by
  rw [gridCuts, List.getElem?_append_right (by simp)]
  simp

theorem gridCuts_head (hstep : 0 < step) (hlength : 0 < length) :
    (gridCuts start length step).head? = some start := by
  rw [List.head?_eq_getElem?, gridCuts_step (stepCount_pos hstep hlength)]
  simp

theorem gridCuts_getLast : (gridCuts start length step).getLast? = some (start + length) := by
  rw [gridCuts, List.getLast?_concat]

/-- Neighbouring cuts are one step apart, or less behind the last full step. -/
theorem gridCuts_gap (hstep : 0 < step) (hlength : 0 < length) {i : ℕ} {a b : ℤ}
    (ha : (gridCuts start length step)[i]? = some a)
    (hb : (gridCuts start length step)[i + 1]? = some b) :
    a < b ∧ b - a ≤ step ∧ (i + 1 < stepCount length step → b - a = step) := by
  obtain ⟨hpos, hlo, hhi⟩ := stepCount_spec hstep hlength
  have hbound : i + 1 < stepCount length step + 1 := by
    have hlength : (gridCuts start length step).length = stepCount length step + 1 :=
      gridCuts_length
    rw [← hlength]
    exact (List.getElem?_eq_some_iff.mp hb).1
  have hi : i < stepCount length step := by omega
  rw [gridCuts_step hi] at ha
  obtain rfl := Option.some.inj ha
  rcases Nat.lt_or_ge (i + 1) (stepCount length step) with hnext | hlast
  · rw [gridCuts_step hnext] at hb
    obtain rfl := Option.some.inj hb
    have hmul : (i + 1) * step = i * step + step := Nat.succ_mul i step
    rw [hmul]
    omega
  · have hcount : i + 1 = stepCount length step := by omega
    rw [hcount, gridCuts_last] at hb
    obtain rfl := Option.some.inj hb
    have hpred : stepCount length step - 1 = i := by omega
    have hmul : stepCount length step * step = i * step + step := by
      rw [← hcount, Nat.succ_mul]
    rw [hpred] at hlo
    rw [hmul] at hhi
    omega

end Dpone.Schemes
