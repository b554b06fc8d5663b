import Mathlib.Data.List.Dedup
import Mathlib.Data.List.Sort

/-! Sorting by a key, and sorted sets: their order says nothing of how they were listed. -/

namespace Dpone.Schemes
variable {α K : Type} [LinearOrder K]

/-- `sorted(xs, key=key)`. -/
def sortedBy (key : α → K) (xs : List α) : List α := xs.insertionSort fun a b => key a ≤ key b

theorem sortedBy_perm (key : α → K) (xs : List α) : (sortedBy key xs).Perm xs :=
  List.perm_insertionSort _ xs

@[simp] theorem mem_sortedBy {key : α → K} {xs : List α} {a : α} : a ∈ sortedBy key xs ↔ a ∈ xs :=
  (sortedBy_perm key xs).mem_iff

theorem sortedBy_pairwise (key : α → K) (xs : List α) :
    (sortedBy key xs).Pairwise fun a b => key a ≤ key b := by
  have : Std.Total fun a b : α => key a ≤ key b := ⟨fun a b => le_total (key a) (key b)⟩
  have : IsTrans α fun a b => key a ≤ key b := ⟨fun _ _ _ => le_trans⟩
  exact List.pairwise_insertionSort _ xs

/-- Where no two items have one key, the order in which they are listed is lost. -/
theorem sortedBy_congr {key : α → K} {xs ys : List α} (hperm : xs.Perm ys)
    (hkey : ∀ a ∈ xs, ∀ b ∈ xs, key a = key b → a = b) : sortedBy key xs = sortedBy key ys := by
  have hsorted := ((sortedBy_perm key xs).trans hperm).trans (sortedBy_perm key ys).symm
  refine hsorted.eq_of_pairwise ?_ (sortedBy_pairwise key xs) (sortedBy_pairwise key ys)
  intro a b ha hb hle hge
  exact hkey a (mem_sortedBy.mp ha) b (hperm.mem_iff.mpr (mem_sortedBy.mp hb)) (le_antisymm hle hge)

theorem sortedBy_sortedBy (key : α → K) (xs : List α) :
    sortedBy key (sortedBy key xs) = sortedBy key xs :=
  (sortedBy_pairwise key xs).insertionSort_eq

/-- A map that keeps keys may be applied before sorting or after it. -/
theorem sortedBy_map {β : Type} (key : α → K) (key' : β → K) (f : α → β)
    (h : ∀ a, key' (f a) = key a) (xs : List α) :
    (sortedBy key xs).map f = sortedBy key' (xs.map f) := by
  refine List.map_insertionSort _ _ f xs ?_
  intro a _ b _
  rw [h, h]

variable [DecidableEq α]

/-- `sorted(set(xs), key=key)`. -/
def sortedSet (key : α → K) (xs : List α) : List α := sortedBy key xs.dedup

@[simp] theorem mem_sortedSet {key : α → K} {xs : List α} {a : α} :
    a ∈ sortedSet key xs ↔ a ∈ xs := by
  rw [sortedSet, mem_sortedBy, List.mem_dedup]

theorem nodup_sortedSet (key : α → K) (xs : List α) : (sortedSet key xs).Nodup :=
  (sortedBy_perm key _).nodup_iff.mpr (List.nodup_dedup xs)

/-- Lists with the same items are one sorted set. -/
theorem sortedSet_congr {key : α → K} (hkey : Function.Injective key) {xs ys : List α}
    (h : ∀ a, a ∈ xs ↔ a ∈ ys) : sortedSet key xs = sortedSet key ys := by
  refine sortedBy_congr ?_ fun _ _ _ _ hab => hkey hab
  refine (List.perm_ext_iff_of_nodup (List.nodup_dedup xs) (List.nodup_dedup ys)).mpr ?_
  intro a
  rw [List.mem_dedup, List.mem_dedup]
  exact h a

end Dpone.Schemes
