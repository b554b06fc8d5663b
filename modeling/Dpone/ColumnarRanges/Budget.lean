import Mathlib.Algebra.Order.Group.Int
import Mathlib.Algebra.Order.Pi
import Mathlib.Data.Int.Order.Basic
import Dpone.Schemes.Lent
import Dpone.Schemes.Records

/-! The aggregate budget that the readers of columnar ranges share.

    Every call runs under the condition of the budget, so a call is one turn: it leases, raises, or
    finds no room and waits for its next turn. A lease is released once, however often it is asked
    to be. -/

namespace Dpone.ColumnarRanges
open Dpone.Schemes

variable {ε : Type}

/-- Exceptions: those raised here, and those of sessions and workers. -/
inductive Fault (ε : Type) where
  | runtime (text : String)
  | value (text : String)
  | key (index : ℕ)
  | raised (e : ε)
  deriving DecidableEq

inductive Dimension where
  | ranges | rows | bytes
  deriving DecidableEq, Repr

structure AggregateRangeBudget where
  max : Dimension → ℤ
  current : Dimension → ℤ := 0
  highWater : Dimension → ℤ := 0
  positive : ∀ d, 0 < max d

/-- `_positive`. -/
def positiveInt (name : String) (value : ℤ) : Except (Fault ε) {n : ℤ // 0 < n} :=
  if value < 0 then .error (.value s!"{name} must not be negative.")
  else if hpos : 0 < value then .ok ⟨value, hpos⟩
  else .error (.value s!"{name} must be greater than zero.")

/-- The budget and the leases that it handed out, oldest first. -/
structure BudgetWorld where
  budget : AggregateRangeBudget
  leases : List (Lent (Dimension → ℤ)) := []

inductive BudgetAnswer (ε : Type) where
  | leased (lease : ℕ)
  | released
  | waiting
  | raised (e : Fault ε)
  deriving DecidableEq

/-- Amounts in the three dimensions. -/
def amounts (ranges rows retainedBytes : ℤ) : Dimension → ℤ
  | .ranges => ranges
  | .rows => rows
  | .bytes => retainedBytes

/-- `AggregateRangeBudget(...)`. -/
def AggregateRangeBudget.make (maxRanges maxRows maxBytes : ℤ) :
    Except (Fault ε) AggregateRangeBudget := do
  let ranges ← positiveInt "max_ranges" maxRanges
  let rows ← positiveInt "max_rows" maxRows
  let retainedBytes ← positiveInt "max_bytes" maxBytes
  return {
    max := amounts ranges rows retainedBytes
    positive := by
      intro d
      cases d
      · exact ranges.property
      · exact rows.property
      · exact retainedBytes.property }

def AggregateRangeBudget.Fits (budget : AggregateRangeBudget) (a : Dimension → ℤ) : Prop :=
  ¬ (budget.max .ranges < budget.current .ranges + a .ranges ∨
    budget.max .rows < budget.current .rows + a .rows ∨
    budget.max .bytes < budget.current .bytes + a .bytes)

instance (budget : AggregateRangeBudget) (a : Dimension → ℤ) : Decidable (budget.Fits a) :=
  inferInstanceAs (Decidable (¬ _))

namespace BudgetWorld

/-- The amounts are added in every dimension, and a lease is handed out for them. -/
def lend (w : BudgetWorld) (a : Dimension → ℤ) : BudgetWorld where
  budget := { w.budget with
    current := w.budget.current + a
    highWater := fun d => Max.max (w.budget.highWater d) (w.budget.current d + a d) }
  leases := w.leases ++ [⟨a, false⟩]

/-- One turn of `_acquire`. -/
def take (w : BudgetWorld) (a : Dimension → ℤ) (cancelled : Bool) : BudgetAnswer ε × BudgetWorld :=
  if w.budget.Fits a then
    if cancelled then
      (.raised (.runtime "Range execution cancelled before aggregate budget acquisition."), w)
    else (.leased w.leases.length, w.lend a)
  else if cancelled then
    (.raised (.runtime "Range execution cancelled while waiting for aggregate budget."), w)
  else (.waiting, w)

/-- `open_range`. -/
def openRange (w : BudgetWorld) (cancelled : Bool) : BudgetAnswer ε × BudgetWorld :=
  w.take (amounts 1 0 0) cancelled

/-- `acquire`. -/
def acquire (w : BudgetWorld) (rows retainedBytes : ℤ) (cancelled : Bool) :
    BudgetAnswer ε × BudgetWorld :=
  if w.budget.max .rows < rows then
    (.raised (.value "One item exceeds the aggregate row budget."), w)
  else if w.budget.max .bytes < retainedBytes then
    (.raised (.value "One item exceeds the aggregate byte budget."), w)
  else if rows < 0 then (.raised (.value "rows must not be negative."), w)
  else if retainedBytes < 0 then (.raised (.value "retained_bytes must not be negative."), w)
  else w.take (amounts 0 rows retainedBytes) cancelled

/-- `lease.release()`. -/
def release (w : BudgetWorld) (lease : ℕ) : BudgetAnswer ε × BudgetWorld :=
  match w.leases[lease]? with
  | some ⟨a, false⟩ =>
    (.released, {
      budget := { w.budget with current := w.budget.current - a }
      leases := w.leases.set lease ⟨a, true⟩ })
  | _ => (.released, w)

end BudgetWorld

inductive BudgetCall where
  | openRange (cancelled : Bool)
  | acquire (rows retainedBytes : ℤ) (cancelled : Bool)
  | release (lease : ℕ)
  deriving DecidableEq

namespace BudgetWorld

def call (w : BudgetWorld) : BudgetCall → BudgetAnswer ε × BudgetWorld
  | .openRange cancelled => w.openRange cancelled
  | .acquire rows retainedBytes cancelled => w.acquire rows retainedBytes cancelled
  | .release lease => w.release lease

/-- The world after a sequence of calls. -/
def after (ε : Type) (w : BudgetWorld) (calls : List BudgetCall) : BudgetWorld :=
  calls.foldl (fun w c => (w.call (ε := ε) c).2) w

/-- The usage that is tracked is what is out, and no more than the maximum. -/
structure Accounted (w : BudgetWorld) : Prop where
  usage : w.budget.current = lentOut w.leases
  bounded : ∀ d, w.budget.current d ≤ w.budget.max d
  amounts : ∀ l ∈ w.leases, ∀ d, 0 ≤ l.amounts d
  water : ∀ d, w.budget.current d ≤ w.budget.highWater d ∧ w.budget.highWater d ≤ w.budget.max d

variable {w : BudgetWorld}

theorem fits_iff {budget : AggregateRangeBudget} {a : Dimension → ℤ} :
    budget.Fits a ↔ ∀ d, budget.current d + a d ≤ budget.max d := by
  unfold AggregateRangeBudget.Fits
  constructor
  · intro h d
    cases d <;> omega
  · intro h
    have hranges := h .ranges
    have hrows := h .rows
    have hbytes := h .bytes
    omega

/-- What a turn of `_acquire` does. -/
theorem take_cases (w : BudgetWorld) (a : Dimension → ℤ) (cancelled : Bool) :
    (w.budget.Fits a ∧ cancelled = false ∧
        w.take (ε := ε) a cancelled = (.leased w.leases.length, w.lend a)) ∨
      (cancelled = true ∧ ∃ e, w.take (ε := ε) a cancelled = (.raised e, w)) ∨
      (¬ w.budget.Fits a ∧ cancelled = false ∧ w.take (ε := ε) a cancelled = (.waiting, w)) := by
  unfold take
  by_cases hfits : w.budget.Fits a
  · rw [if_pos hfits]
    cases cancelled
    · exact .inl ⟨hfits, rfl, rfl⟩
    · exact .inr (.inl ⟨rfl, _, rfl⟩)
  · rw [if_neg hfits]
    cases cancelled
    · exact .inr (.inr ⟨hfits, rfl, rfl⟩)
    · exact .inr (.inl ⟨rfl, _, rfl⟩)

theorem lend_accounted (h : w.Accounted) {a : Dimension → ℤ} (ha : ∀ d, 0 ≤ a d)
    (hfits : w.budget.Fits a) : (w.lend a).Accounted where
  usage := by
    show w.budget.current + a = lentOut (w.leases ++ [⟨a, false⟩])
    rw [lentOut_lend, h.usage]
  bounded := fits_iff.mp hfits
  amounts l hl := by
    rcases List.mem_append.mp hl with hl | hl
    · exact h.amounts l hl
    · rw [List.mem_singleton.mp hl]
      exact ha
  water d := ⟨le_max_right _ _, max_le (h.water d).2 (fits_iff.mp hfits d)⟩

/-- STEP: a turn of `_acquire` keeps the accounts. -/
theorem take_accounted (h : w.Accounted) {a : Dimension → ℤ} (ha : ∀ d, 0 ≤ a d)
    (cancelled : Bool) : (w.take (ε := ε) a cancelled).2.Accounted := by
  rcases take_cases (ε := ε) w a cancelled with ⟨hfits, -, htake⟩ | ⟨-, e, htake⟩ | ⟨-, -, htake⟩
  · rw [htake]
    exact lend_accounted h ha hfits
  · rw [htake]
    exact h
  · rw [htake]
    exact h

/-- STEP: a release keeps the accounts. -/
theorem release_accounted (h : w.Accounted) (lease : ℕ) :
    (w.release (ε := ε) lease).2.Accounted := by
  unfold release
  split
  · next a hlease =>
    have ha : ∀ d, 0 ≤ a d := h.amounts _ (List.mem_of_getElem? hlease)
    have hless : ∀ d, (w.budget.current - a) d ≤ w.budget.current d := fun d =>
      Int.sub_le_self _ (ha d)
    refine ⟨?_, fun d => (hless d).trans (h.bounded d), ?_,
      fun d => ⟨(hless d).trans (h.water d).1, (h.water d).2⟩⟩
    · show w.budget.current - a = _
      rw [lentOut_giveBack hlease, h.usage]
    · intro l hl
      rcases List.mem_or_eq_of_mem_set hl with hl | rfl
      · exact h.amounts l hl
      · exact ha
  · exact h

theorem amounts_nonneg {ranges rows retainedBytes : ℤ} (hranges : 0 ≤ ranges) (hrows : 0 ≤ rows)
    (hbytes : 0 ≤ retainedBytes) (d : Dimension) :
    0 ≤ ColumnarRanges.amounts ranges rows retainedBytes d := by
  cases d
  · exact hranges
  · exact hrows
  · exact hbytes

theorem acquire_cases (w : BudgetWorld) (rows retainedBytes : ℤ) (cancelled : Bool) :
    (∃ e, w.acquire (ε := ε) rows retainedBytes cancelled = (.raised e, w)) ∨
      0 ≤ rows ∧ 0 ≤ retainedBytes ∧ w.acquire (ε := ε) rows retainedBytes cancelled =
        w.take (ColumnarRanges.amounts 0 rows retainedBytes) cancelled := by
  unfold acquire
  split_ifs with _ _ hrows hbytes
  · exact .inl ⟨_, rfl⟩
  · exact .inl ⟨_, rfl⟩
  · exact .inl ⟨_, rfl⟩
  · exact .inl ⟨_, rfl⟩
  · exact .inr ⟨not_lt.mp hrows, not_lt.mp hbytes, rfl⟩

/-- STEP: every call keeps the accounts. -/
theorem call_accounted (h : w.Accounted) (c : BudgetCall) :
    (w.call (ε := ε) c).2.Accounted := by
  cases c with
  | openRange cancelled => exact take_accounted h (amounts_nonneg (by decide) le_rfl le_rfl) _
  | acquire rows retainedBytes cancelled =>
    rcases acquire_cases (ε := ε) w rows retainedBytes cancelled with ⟨e, hcall⟩ |
      ⟨hrows, hbytes, hcall⟩
    · rw [call, hcall]
      exact h
    · rw [call, hcall]
      exact take_accounted h (amounts_nonneg le_rfl hrows hbytes) _
  | release lease => exact release_accounted h lease

/-- A budget that has just been made has lent nothing. -/
theorem make_accounted {maxRanges maxRows maxBytes : ℤ} {budget : AggregateRangeBudget}
    (h : AggregateRangeBudget.make (ε := ε) maxRanges maxRows maxBytes = .ok budget) :
    (BudgetWorld.mk budget []).Accounted := by
  unfold AggregateRangeBudget.make at h
  obtain ⟨ranges, -, h⟩ := bind_ok.mp h
  obtain ⟨rows, -, h⟩ := bind_ok.mp h
  obtain ⟨retainedBytes, -, h⟩ := bind_ok.mp h
  cases h
  refine ⟨rfl, ?_, List.forall_mem_nil _, ?_⟩
  · intro d
    cases d
    · exact ranges.property.le
    · exact rows.property.le
    · exact retainedBytes.property.le
  · intro d
    cases d
    · exact ⟨le_rfl, ranges.property.le⟩
    · exact ⟨le_rfl, rows.property.le⟩
    · exact ⟨le_rfl, retainedBytes.property.le⟩

/-- INVARIANT: the accounts hold after every sequence of calls. -/
theorem after_accounted (calls : List BudgetCall) (h : w.Accounted) :
    (w.after ε calls).Accounted := by
  induction calls generalizing w with
  | nil => exact h
  | cons c calls ih => exact ih (call_accounted h c)

end BudgetWorld

end Dpone.ColumnarRanges
