import Mathlib.Algebra.BigOperators.Group.List.Basic
import Mathlib.Algebra.Group.Basic

/-! Amounts that are lent out and given back.

    Amounts are of any commutative group. What is out is the sum of what has not been given back;
    lending adds to it and giving back takes from it, once. -/

namespace Dpone.Schemes

section Sums
variable {β M : Type} [AddCommMonoid M]

/-- Replacing an element of a list exchanges its term of a sum. -/
theorem sum_map_set (f : β → M) {a b : β} : ∀ {l : List β} {i : ℕ}, l[i]? = some a →
    ((l.set i b).map f).sum + f a = (l.map f).sum + f b
  | [], _, h => by cases h
  | c :: l, 0, h => by
    cases h
    simp only [List.set_cons_zero, List.map_cons, List.sum_cons]
    rw [add_comm (f b), add_right_comm, add_comm _ (f a)]
  | c :: l, i + 1, h => by
    have ih := sum_map_set f (b := b) (l := l) (i := i) (by simpa using h)
    simp only [List.set_cons_succ, List.map_cons, List.sum_cons]
    rw [add_assoc, ih, add_assoc]

end Sums

variable {M : Type}

/-- An amount that was lent, and whether it has been given back. -/
structure Lent (M : Type) where
  amounts : M
  released : Bool
  deriving DecidableEq

variable [AddCommGroup M]

/-- What is still out of an amount that was lent. -/
def Lent.held (l : Lent M) : M := if l.released then 0 else l.amounts

/-- What is out. -/
def lentOut (leases : List (Lent M)) : M := (leases.map Lent.held).sum

@[simp] theorem lentOut_nil : lentOut ([] : List (Lent M)) = 0 := rfl

/-- CALL RULE: lending adds to what is out. -/
theorem lentOut_lend (leases : List (Lent M)) (amounts : M) :
    lentOut (leases ++ [⟨amounts, false⟩]) = lentOut leases + amounts := by
  rw [lentOut, List.map_append, List.sum_append]
  simp [lentOut, Lent.held]

/-- CALL RULE: giving back takes from what is out. -/
theorem lentOut_giveBack {leases : List (Lent M)} {i : ℕ} {amounts : M}
    (h : leases[i]? = some ⟨amounts, false⟩) :
    lentOut (leases.set i ⟨amounts, true⟩) = lentOut leases - amounts := by
  have hsum := sum_map_set Lent.held (b := ⟨amounts, true⟩) h
  simp only [Lent.held, if_true, add_zero] at hsum
  exact eq_sub_of_add_eq hsum

end Dpone.Schemes
