import Mathlib.Data.List.Basic
import Mathlib.Logic.Basic
import Mathlib.Order.Basic
import Mathlib.Order.Lattice
import Mathlib.Data.List.Pairwise
import Mathlib.Data.List.Chain

/-! Cutting a set of values into pieces.

    A cut is the set of values below it; a piece holds the values above its lower and below its
    upper cut. Pieces that meet end to end (`Tiles`) hold every value between the outer cuts exactly
    once, whatever the cuts are: closed or half-open, unbounded or empty. -/

namespace Dpone.Schemes

variable {P β : Type}

/-- Pieces from cut `a` to cut `b`: each starts at the cut where the piece before it ends, and cuts
    only move up. -/
inductive Tiles (lo hi : P → β → Prop) : (β → Prop) → (β → Prop) → List P → Prop
  | one {a b : β → Prop} {p : P} : (∀ v, lo p v ↔ a v) → (∀ v, hi p v ↔ b v) →
      (∀ v, a v → b v) → Tiles lo hi a b [p]
  | cons {a b c : β → Prop} {p : P} {ps : List P} : (∀ v, lo p v ↔ a v) → (∀ v, hi p v ↔ c v) →
      (∀ v, a v → c v) → Tiles lo hi c b ps → Tiles lo hi a b (p :: ps)

namespace Tiles
variable {lo hi : P → β → Prop} {a b : β → Prop} {ps : List P}

theorem ne_nil (h : Tiles lo hi a b ps) : ps ≠ [] := by
  cases h <;> simp

/-- The outer cuts are in order. -/
theorem ordered (h : Tiles lo hi a b ps) (v : β) : a v → b v := by
  induction h with
  | one _ _ hab => exact hab v
  | cons _ _ hac _ ih => exact fun ha => ih (hac v ha)

/-- CORRECT: a value between the outer cuts is in exactly one piece, any other value in none. -/
theorem count (h : Tiles lo hi a b ps) (v : β) (holds : P → Bool)
    (hholds : ∀ p ∈ ps, holds p = true ↔ ¬ lo p v ∧ hi p v) :
    (¬ a v ∧ b v → ps.countP holds = 1) ∧ (¬ (¬ a v ∧ b v) → ps.countP holds = 0) := by
  induction h with
  | @one a b p hlo hhi _ =>
    have hp : holds p = true ↔ ¬ a v ∧ b v := by
      rw [hholds p (by simp), hlo, hhi]
    refine ⟨fun hv => by simp [hp.mpr hv], fun hv => ?_⟩
    have hfalse : ¬ holds p = true := fun h => hv (hp.mp h)
    simp [hfalse]
  | @cons a b c p ps hlo hhi hac hrest ih =>
    have hp : holds p = true ↔ ¬ a v ∧ c v := by
      rw [hholds p (by simp), hlo, hhi]
    obtain ⟨hone, hzero⟩ := ih fun q hq => hholds q (by simp [hq])
    rw [List.countP_cons]
    constructor
    · rintro ⟨hav, hbv⟩
      by_cases hcv : c v
      · rw [hzero (fun h => h.1 hcv), if_pos (hp.mpr ⟨hav, hcv⟩)]
      · rw [hone ⟨hcv, hbv⟩, if_neg fun h => hcv (hp.mp h).2]
    · intro hout
      have hbelow : ¬ (¬ a v ∧ c v) := fun hv => hout ⟨hv.1, hrest.ordered v hv.2⟩
      have habove : ¬ (¬ c v ∧ b v) := fun hv => hout ⟨fun hav => hv.1 (hac v hav), hv.2⟩
      rw [hzero habove, if_neg fun h => hbelow (hp.mp h)]

/-- Pieces after pieces. -/
theorem append {c : β → Prop} {qs : List P} (h : Tiles lo hi a c ps) (h' : Tiles lo hi c b qs) :
    Tiles lo hi a b (ps ++ qs) := by
  induction h with
  | one hlo hhi hac => exact .cons hlo hhi hac h'
  | cons hlo hhi hac _ ih => exact .cons hlo hhi hac (ih h')

/-- CORRECT: a piece replaced by pieces that tile it. -/
theorem replace : ∀ {before : List P} {a : β → Prop} {p : P} {after pieces : List P},
    Tiles lo hi a b (before ++ p :: after) → Tiles lo hi (lo p) (hi p) pieces →
      Tiles lo hi a b (before ++ pieces ++ after)
  | [], a, p, [], pieces, h, hpieces => by
    cases h with
    | one hlo hhi _ =>
      rw [← show lo p = a from funext fun v => propext (hlo v),
        ← show hi p = b from funext fun v => propext (hhi v)]
      simpa using hpieces
    | cons _ _ _ hrest => exact absurd rfl hrest.ne_nil
  | [], a, p, q :: after, pieces, h, hpieces => by
    cases h with
    | cons hlo hhi _ hrest =>
      rw [← show lo p = a from funext fun v => propext (hlo v)]
      rw [← show hi p = _ from funext fun v => propext (hhi v)] at hrest
      exact hpieces.append hrest
  | r :: before, a, p, after, pieces, h, hpieces => by
    rw [List.cons_append] at h
    generalize hrest : before ++ p :: after = rest at h
    cases h with
    | one => simp at hrest
    | cons hlo hhi hac h => exact .cons hlo hhi hac (replace (hrest ▸ h) hpieces)

end Tiles

end Dpone.Schemes

/-! Ranges of a linear order whose ends are open or closed. Ranges that each hold something and of
    which each one ends before the next begins are disjoint in pairs (`pairwise_before`), and two of
    them that meet at an end leave no value between them out (`Meets.covers`). -/

namespace Dpone.Schemes

structure Range (α : Type) where
  lower : α
  upper : α
  includeLower : Bool
  includeUpper : Bool

namespace Range
variable {α : Type} [LinearOrder α]

def Mem (v : α) (r : Range α) : Prop :=
  (r.lower < v ∨ r.lower = v ∧ r.includeLower) ∧ (v < r.upper ∨ v = r.upper ∧ r.includeUpper)

/-- The ends are in order, and where they are one value that value is held. -/
def Ordered (r : Range α) : Prop :=
  r.lower < r.upper ∨ r.lower = r.upper ∧ r.includeLower ∧ r.includeUpper

/-- One range ends before another begins. -/
def Before (r s : Range α) : Prop :=
  r.upper < s.lower ∨ r.upper = s.lower ∧ ¬ (r.includeUpper ∧ s.includeLower)

/-- One range begins where another ends, and the end belongs to one of them. -/
def Meets (r s : Range α) : Prop := r.upper = s.lower ∧ (r.includeUpper ∨ s.includeLower)

theorem Ordered.le {r : Range α} (h : r.Ordered) : r.lower ≤ r.upper :=
  h.elim le_of_lt fun h => h.1.le

theorem Before.le {r s : Range α} (h : r.Before s) : r.upper ≤ s.lower :=
  h.elim le_of_lt fun h => h.1.le

theorem Before.disjoint {r s : Range α} (h : r.Before s) {v : α} (hr : r.Mem v) :
    ¬ s.Mem v := by
  rintro ⟨hlo, -⟩
  obtain ⟨-, hhi⟩ := hr
  rcases h with h | ⟨heq, hends⟩
  · have hle : v ≤ r.upper := hhi.elim le_of_lt fun h => h.1.le
    have hge : s.lower ≤ v := hlo.elim le_of_lt fun h => h.1.le
    exact absurd (h.trans_le (hge.trans hle)) (lt_irrefl _)
  · rcases hhi with hhi | ⟨rfl, hupper⟩
    · have hge : s.lower ≤ v := hlo.elim le_of_lt fun h => h.1.le
      exact absurd ((heq ▸ hhi).trans_le hge) (lt_irrefl _)
    · rcases hlo with hlo | ⟨-, hlower⟩
      · exact absurd (heq ▸ hlo) (lt_irrefl _)
      · exact hends ⟨hupper, hlower⟩

theorem Before.trans {r s t : Range α} (hs : s.Ordered) (hrs : r.Before s) (hst : s.Before t) :
    r.Before t := by
  have hle : r.upper ≤ t.lower := hrs.le.trans (hs.le.trans hst.le)
  rcases lt_or_eq_of_le hle with h | h
  · exact .inl h
  · -- both ends of the range between are one value, which it holds
    have hends : s.lower = s.upper :=
      le_antisymm hs.le (hst.le.trans (h ▸ hrs.le))
    have hheld : s.includeLower ∧ s.includeUpper := by
      rcases hs with hlt | hheld
      · exact absurd hends hlt.ne
      · exact hheld.2
    have hnot : ¬ (r.includeUpper ∧ s.includeLower) := by
      rcases hrs with hlt | ⟨-, hnot⟩
      · have hge : s.lower ≤ r.upper := (hs.le.trans hst.le).trans h.ge
        exact absurd hlt hge.not_gt
      · exact hnot
    exact .inr ⟨h, fun hboth => hnot ⟨hboth.1, hheld.1⟩⟩

/-- CORRECT: it is enough to look at neighbours. -/
theorem pairwise_before : ∀ {rs : List (Range α)}, (∀ r ∈ rs, r.Ordered) →
    rs.IsChain Before → rs.Pairwise Before
  | [], _, _ => .nil
  | [_], _, _ => List.pairwise_singleton ..
  | r :: s :: rs, hordered, hchain => by
    obtain ⟨hfirst, hchain⟩ := List.isChain_cons_cons.mp hchain
    obtain ⟨-, hordered⟩ := List.forall_mem_cons.mp hordered
    have hrest := pairwise_before hordered hchain
    refine .cons (fun t ht => ?_) hrest
    rcases List.mem_cons.mp ht with rfl | ht
    · exact hfirst
    · exact hfirst.trans (hordered s (List.mem_cons_self ..)) (List.rel_of_pairwise_cons hrest ht)

/-- Nothing between two ranges is left out. -/
def Gapless (r s : Range α) : Prop := ∀ v, r.lower < v → v < s.upper → r.Mem v ∨ s.Mem v

theorem Meets.covers {r s : Range α} (h : r.Meets s) : Gapless r s := by
  intro v hlo hhi
  obtain ⟨heq, hend⟩ := h
  rcases lt_trichotomy v r.upper with hv | rfl | hv
  · exact .inl ⟨.inl hlo, .inl hv⟩
  · rcases hend with hend | hend
    · exact .inl ⟨.inl hlo, .inr ⟨rfl, hend⟩⟩
    · exact .inr ⟨.inr ⟨heq.symm, hend⟩, .inl hhi⟩
  · exact .inr ⟨.inl (heq ▸ hv), .inl hhi⟩

end Range

end Dpone.Schemes
