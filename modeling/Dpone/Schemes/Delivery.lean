import Mathlib.Data.List.Infix
import Mathlib.Data.List.Pairwise
import Mathlib.Order.Lattice

/-! Several logs read through one channel. The messages of one log come in the order of their
    positions and none is left out, but the logs may come in any interleaving. So a message that
    was received brings every earlier one of its log with it (`Delivered.earlier`), however the
    channel is cut. -/

namespace Dpone.Schemes
variable {M C P : Type} [DecidableEq C]

/-- What was received of the log `c` is a beginning of it. -/
def Delivered (channel : M → C) (c : C) (log received : List M) : Prop :=
  received.filter (channel · = c) <+: log

namespace Delivered
variable {channel : M → C} {c : C} {log received : List M}

/-- CUT: what was received up to some moment was delivered as well. -/
theorem cut {before : List M} (h : Delivered channel c log received) (hcut : before <+: received) :
    Delivered channel c log before := (hcut.filter _).trans h

theorem mem_log (h : Delivered channel c log received) {m : M} (hm : m ∈ received)
    (hc : channel m = c) : m ∈ log :=
  h.subset (List.mem_filter.mpr ⟨hm, by simpa using hc⟩)

variable [LinearOrder P] {position : M → P}

/-- A member of a list in strict order, with a beginning that reaches as far. -/
theorem mem_of_initial {before : List M} (hcut : before <+: log)
    (hsorted : log.Pairwise (position · < position ·)) {m x : M} (hm : m ∈ before) (hx : x ∈ log)
    (hle : position x ≤ position m) : x ∈ before := by
  obtain ⟨after, rfl⟩ := hcut
  rcases List.mem_append.mp hx with hx | hx
  · exact hx
  · exact absurd ((List.pairwise_append.mp hsorted).2.2 m hm x hx) (not_lt.mpr hle)

/-- EARLIER: with a message every earlier one of its log was received. -/
theorem earlier (h : Delivered channel c log received)
    (hsorted : log.Pairwise (position · < position ·)) {m x : M} (hm : m ∈ received)
    (hc : channel m = c) (hx : x ∈ log) (hle : position x ≤ position m) : x ∈ received :=
  (List.mem_filter.mp (mem_of_initial h hsorted
    (List.mem_filter.mpr ⟨hm, by simpa using hc⟩) hx hle)).1

end Delivered

/-- In a list in strict order a position belongs to one member. -/
theorem eq_of_position [LinearOrder P] {position : M → P} {log : List M}
    (hsorted : log.Pairwise (position · < position ·)) {m x : M} (hm : m ∈ log) (hx : x ∈ log)
    (heq : position m = position x) : m = x := by
  by_contra hne
  have hpair : log.Pairwise (position · ≠ position ·) := hsorted.imp fun h => h.ne
  have : Std.Symm fun a b : M => position a ≠ position b := ⟨fun _ _ h => h.symm⟩
  exact hpair.forall hm hx hne heq

end Dpone.Schemes
