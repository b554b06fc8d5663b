import Mathlib.Algebra.Order.Group.Nat
import Mathlib.Data.List.Basic
import Mathlib.Tactic.Ring

/-! Numbers cut into consecutive ranges, and a total shared out evenly.

    `Consecutive lo pieces hi` says that the pieces follow one another without a gap from `lo` to
    `hi`, the upper end excluded; then every number between them lies in exactly one piece
    (`existsUnique`). A total of `n` shared over `k` pieces gives the first `n % k` of them one more
    than the others, and the shares add up again. -/

namespace Dpone.Schemes

section Ranges
variable {P : Type} (first last : P → ℕ)

inductive Consecutive : ℕ → List P → ℕ → Prop
  | nil (n : ℕ) : Consecutive n [] n
  | cons {lo hi : ℕ} {piece : P} {pieces : List P} (hfirst : first piece = lo)
      (hlast : first piece ≤ last piece) (hrest : Consecutive (last piece + 1) pieces hi) :
      Consecutive lo (piece :: pieces) hi

variable {first last}

theorem Consecutive.le {lo hi : ℕ} {pieces : List P} (h : Consecutive first last lo pieces hi) :
    lo ≤ hi := by
  induction h with
  | nil => exact le_rfl
  | cons hfirst hlast _ ih => omega

theorem Consecutive.within {lo hi : ℕ} {pieces : List P}
    (h : Consecutive first last lo pieces hi) : ∀ piece ∈ pieces,
      lo ≤ first piece ∧ first piece ≤ last piece ∧ last piece < hi := by
  induction h with
  | nil => exact nofun
  | cons hfirst hlast hrest ih =>
    intro piece hpiece
    rcases List.mem_cons.mp hpiece with rfl | hpiece
    · exact ⟨hfirst.ge, hlast, hrest.le⟩
    · have hwithin := ih piece hpiece
      omega

/-- COVER: every number between the ends lies in exactly one piece. -/
theorem Consecutive.existsUnique {lo hi : ℕ} {pieces : List P}
    (h : Consecutive first last lo pieces hi) {n : ℕ} (hlo : lo ≤ n) (hhi : n < hi) :
    ∃! piece, piece ∈ pieces ∧ first piece ≤ n ∧ n ≤ last piece := by
  induction h with
  | nil => omega
  | @cons lo hi piece pieces hfirst hlast hrest ih =>
    by_cases hn : n ≤ last piece
    · refine ⟨piece, ⟨List.mem_cons_self .., by omega, hn⟩, ?_⟩
      rintro other ⟨hother, hlower, -⟩
      rcases List.mem_cons.mp hother with rfl | hother
      · rfl
      · have hwithin := hrest.within other hother
        omega
    · obtain ⟨found, ⟨hmem, hfound⟩, hunique⟩ := ih (by omega) hhi
      refine ⟨found, ⟨List.mem_cons_of_mem _ hmem, hfound⟩, ?_⟩
      rintro other ⟨hother, hrange⟩
      rcases List.mem_cons.mp hother with rfl | hother
      · exact absurd hrange.2 hn
      · exact hunique other ⟨hother, hrange⟩

end Ranges

/-- The share of piece `i` when `total` is shared over `parts`. -/
def share (total parts i : ℕ) : ℕ := total / parts + if i < total % parts then 1 else 0

/-- EVEN: two shares differ by one at most. -/
theorem share_le_succ (total parts i j : ℕ) : share total parts i ≤ share total parts j + 1 := by
  rw [share, share]
  split <;> split <;> omega

theorem one_le_share {total parts i : ℕ} (hparts : 0 < parts) (hle : parts ≤ total) :
    1 ≤ share total parts i := by
  have hdiv : 1 ≤ total / parts := (Nat.one_le_div_iff hparts).mpr hle
  rw [share]
  omega

/-- What the pieces from `i` on still have to share. -/
def remaining (total parts i : ℕ) : ℕ := (parts - i) * (total / parts) + (total % parts - i)

theorem remaining_zero (total parts : ℕ) : remaining total parts 0 = total := by
  rw [remaining, Nat.sub_zero, Nat.sub_zero, Nat.div_add_mod]

theorem remaining_all {total parts : ℕ} (hparts : 0 < parts) :
    remaining total parts parts = 0 := by
  have hmod := Nat.mod_lt total hparts
  rw [remaining, Nat.sub_self, Nat.zero_mul]
  omega

/-- STEP: piece `i` takes its share of what remains. -/
theorem remaining_step {total parts i : ℕ} (hi : i < parts) :
    remaining total parts i = share total parts i + remaining total parts (i + 1) := by
  obtain ⟨k, hk⟩ : ∃ k, parts - i = k + 1 := ⟨parts - i - 1, by omega⟩
  have hk' : parts - (i + 1) = k := by omega
  rw [remaining, remaining, share, hk, hk', Nat.succ_mul]
  split <;> omega

end Dpone.Schemes
