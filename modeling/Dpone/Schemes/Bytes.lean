import Mathlib.Data.Nat.Log
import Mathlib.Tactic.Ring
import Mathlib.Tactic.NormNum

/-! Byte strings and their little-endian integers.

    A byte string is a `List UInt8`. `ofLE` reads it as an unsigned integer and `ofLESigned` as a
    two's-complement one; `toLE` and `toLESigned` write an integer back at a fixed width. The two
    directions are inverse to each other on the integers the width can hold. -/

namespace Dpone.Schemes

abbrev Bytes := List UInt8

/-- Unsigned little-endian value. -/
def ofLE : Bytes → ℕ
  | [] => 0
  | b :: bs => b.toNat + 256 * ofLE bs

/-- Two's-complement little-endian value. -/
def ofLESigned (bs : Bytes) : ℤ :=
  if 2 * ofLE bs < 256 ^ bs.length then ofLE bs else (ofLE bs : ℤ) - 256 ^ bs.length

/-- The `w` low bytes of `n`, least significant first. -/
def toLE : ℕ → ℕ → Bytes
  | 0, _ => []
  | w + 1, n => UInt8.ofNat (n % 256) :: toLE w (n / 256)

/-- The two's-complement form of `v` in `w` bytes. -/
def toLESigned (w : ℕ) (v : ℤ) : Bytes := toLE w (v % 256 ^ w).toNat

@[simp] theorem toLE_length : ∀ w n, (toLE w n).length = w
  | 0, _ => rfl
  | w + 1, n => by rw [toLE, List.length_cons, toLE_length w]

@[simp] theorem toLESigned_length (w : ℕ) (v : ℤ) : (toLESigned w v).length = w := toLE_length ..

theorem ofLE_lt : ∀ bs : Bytes, ofLE bs < 256 ^ bs.length
  | [] => by simp [ofLE]
  | b :: bs => by
      have hb : b.toNat < 256 := b.toNat_lt
      have ih := ofLE_lt bs
      rw [ofLE, List.length_cons, pow_succ]
      omega

theorem ofLE_toLE : ∀ (w n : ℕ), n < 256 ^ w → ofLE (toLE w n) = n
  | 0, n, h => by simp [toLE, ofLE] at h ⊢; omega
  | w + 1, n, h => by
      have hq : n / 256 < 256 ^ w := by rw [pow_succ] at h; omega
      have hb : (UInt8.ofNat (n % 256)).toNat = n % 256 := by
        rw [UInt8.toNat_ofNat']; omega
      rw [toLE, ofLE, ofLE_toLE w _ hq, hb]; omega

/-- Zero takes the all-zero pattern at every width. -/
theorem toLE_zero : ∀ w, toLE w 0 = List.replicate w 0
  | 0 => rfl
  | w + 1 => by rw [toLE, List.replicate_succ]; simp [toLE_zero w]

theorem toLESigned_zero (w : ℕ) : toLESigned w 0 = List.replicate w 0 := by
  rw [toLESigned, Int.zero_emod, Int.toNat_zero, toLE_zero]

theorem toLESigned_natCast {w n : ℕ} (h : n < 256 ^ w) : toLESigned w n = toLE w n := by
  have hm : ((n : ℤ) % 256 ^ w).toNat = n := by
    have : ((n : ℤ) % ((256 ^ w : ℕ) : ℤ)).toNat = n := by
      rw [← Int.natCast_emod, Int.toNat_natCast, Nat.mod_eq_of_lt h]
    simpa using this
  rw [toLESigned, hm]

/-- Writing the bytes of an integer read from bytes gives the bytes back. -/
theorem toLE_ofLE : ∀ bs : Bytes, toLE bs.length (ofLE bs) = bs
  | [] => rfl
  | b :: bs => by
      have hb : b.toNat < 256 := b.toNat_lt
      have hm : (b.toNat + 256 * ofLE bs) % 256 = b.toNat := by omega
      have hd : (b.toNat + 256 * ofLE bs) / 256 = ofLE bs := by omega
      rw [List.length_cons, toLE, ofLE, hm, hd, toLE_ofLE bs, UInt8.ofNat_toNat]

theorem toLESigned_ofLESigned (bs : Bytes) : toLESigned bs.length (ofLESigned bs) = bs := by
  have hlt := ofLE_lt bs
  have hlt' : (ofLE bs : ℤ) < 256 ^ bs.length := by exact_mod_cast hlt
  have hm : (ofLESigned bs % 256 ^ bs.length).toNat = ofLE bs := by
    unfold ofLESigned
    split
    · rw [Int.emod_eq_of_lt (by omega) hlt', Int.toNat_natCast]
    · rw [Int.sub_emod, Int.emod_self, sub_zero, Int.emod_emod,
        Int.emod_eq_of_lt (by omega) hlt', Int.toNat_natCast]
  rw [toLESigned, hm, toLE_ofLE]

/-- LOSSLESS: an integer of the width is read back. -/
theorem ofLESigned_toLESigned {w : ℕ} {v : ℤ} (hlo : -(256 ^ w : ℤ) ≤ 2 * v)
    (hhi : 2 * v < 256 ^ w) : ofLESigned (toLESigned w v) = v := by
  have hpos : (0 : ℤ) < 256 ^ w := pow_pos (by norm_num) w
  have hmod := Int.emod_nonneg v hpos.ne'
  have hlt := Int.emod_lt_of_pos v hpos
  have hcast : ((v % 256 ^ w).toNat : ℤ) = v % 256 ^ w := Int.toNat_of_nonneg hmod
  have hof : ofLE (toLESigned w v) = (v % 256 ^ w).toNat := by
    refine ofLE_toLE w _ ?_
    have : ((v % 256 ^ w).toNat : ℤ) < ((256 ^ w : ℕ) : ℤ) := by rw [hcast]; push_cast; exact hlt
    exact_mod_cast this
  rw [ofLESigned, hof, toLESigned_length, hcast]
  by_cases hv : 0 ≤ v
  · have hsame : v % 256 ^ w = v := Int.emod_eq_of_lt hv (by omega)
    rw [if_pos, hsame]
    have : (2 * (v % 256 ^ w).toNat : ℤ) < ((256 ^ w : ℕ) : ℤ) := by
      rw [hcast, hsame]; push_cast; exact hhi
    exact_mod_cast this
  · have hshift : v % 256 ^ w = v + 256 ^ w := by
      rw [← Int.add_emod_right, Int.emod_eq_of_lt (by omega) (by omega)]
    rw [if_neg, hshift]
    · omega
    · have : ((256 ^ w : ℕ) : ℤ) ≤ (2 * (v % 256 ^ w).toNat : ℤ) := by
        rw [hcast, hshift]; push_cast; omega
      exact Nat.not_lt.mpr (by exact_mod_cast this)

end Dpone.Schemes
