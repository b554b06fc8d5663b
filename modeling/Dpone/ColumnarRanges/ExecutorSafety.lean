import Dpone.ColumnarRanges.Executor
import Dpone.Schemes.Run

/-! What holds in every state of the bounded executor.

    The budget is accounted for, a range that is being read holds one range of it (`Budgeted`); a
    session is closed when its batch is left and not before (`Sessions`); the results are those of
    the earlier batches and of the futures that were taken (`Collected`). -/

namespace Dpone.ColumnarRanges
open Dpone.Schemes ExecutorState

variable {ε : Type} {plan : ColumnarRangePlan} {handling : Bool}

/-! ### Sessions -/

/-- Every session of an earlier batch was closed once, and those of the batch were not closed. -/
def Sessions (s : ExecutorState ε) : Prop :=
  (∀ x ∈ s.earlier, x.closeCalls = 1) ∧ ∀ x ∈ s.sessions, x.closeCalls = 0

/-- STEP: leaving a batch closes its sessions. -/
theorem Sessions.closeBatch {s : ExecutorState ε} (h : Sessions s) (pc : MainPc ε) :
    Sessions (s.closeBatch pc) := by
  refine ⟨fun x hx => ?_, List.forall_mem_nil _⟩
  rcases List.mem_append.mp hx with hx | hx
  · exact h.1 x hx
  · obtain ⟨y, hy, rfl⟩ := List.mem_map.mp hx
    exact congrArg (· + 1) (h.2 y hy)

theorem Sessions.nextBatch {s : ExecutorState ε} (h : Sessions s) :
    Sessions (nextBatch plan s) := by
  have hbatch : Sessions { s with offset := s.offset + (batchItems plan s).length } := h
  unfold ColumnarRanges.nextBatch
  simp only
  split_ifs
  · exact hbatch.closeBatch .opening
  · exact hbatch.closeBatch (.done _)

/-- STEP: no step closes a session twice, or leaves one of an earlier batch open. -/
theorem Sessions.step {s s' : ExecutorState ε} {a : Actor} (h : Sessions s)
    (hstep : Step plan handling s a s') : Sessions s' := by
  cases hstep with
  | openSession hpc =>
    refine ⟨h.1, fun x hx => ?_⟩
    rcases List.mem_append.mp hx with hx | hx
    · exact h.2 x hx
    · rw [List.mem_singleton.mp hx]
  | openFails hpc e => exact h.closeBatch _
  | submit hpc => exact h
  | submitFails hpc e queued => exact h
  | collect hpc htask hitem => exact h
  | collectFails hpc htask => exact h
  | collected hpc hall => exact h
  | cancelSessions hpc =>
    refine ⟨h.1, fun x hx => ?_⟩
    obtain ⟨y, hy, rfl⟩ := List.mem_map.mp hx
    exact h.2 y hy
  | cancelFutures hpc => exact h
  | shutdown hpc => exact h
  | closeFailed hpc hsettled => exact h.closeBatch _
  | closeRaises hpc hsettled hhandling hclose => exact h.closeBatch _
  | close hpc hsettled hclose => exact h.nextBatch
  | task htask hitem hmoves => exact h
  | worker htask hcall => exact h

/-! ### The budget -/

/-- The lease of a range that is being read. -/
def Task.lease : Task ε → Option ℕ
  | .entered lease | .reading lease | .leaving lease _ => some lease
  | _ => none

/-- The ranges of the budget that a task holds. -/
def Task.holds (t : Task ε) : ℤ := if t.lease.isSome then 1 else 0

/-- The lease of one range. -/
def rangeLease : Lent (Dimension → ℤ) := ⟨amounts 1 0 0, false⟩

/-- The accounts of the budget hold; a task that reads has a lease of its own, and nobody else has
    leased a range. -/
structure Budgeted (tasks : List (Task ε)) (w : BudgetWorld) : Prop where
  accounted : w.Accounted
  leased : ∀ {i : ℕ} {t : Task ε} {lease : ℕ}, tasks[i]? = some t → t.lease = some lease →
    w.leases[lease]? = some rangeLease
  distinct : ∀ {i j : ℕ} {t t' : Task ε} {lease : ℕ}, tasks[i]? = some t → tasks[j]? = some t' →
    t.lease = some lease → t'.lease = some lease → i = j
  ranges : lentOut w.leases .ranges = (tasks.map Task.holds).sum

namespace Budgeted
variable {tasks : List (Task ε)} {w : BudgetWorld}

/-- Tasks that hold no lease but those that were held at the same places. -/
theorem of_held {tasks' : List (Task ε)} (h : Budgeted tasks w)
    (hheld : ∀ {i : ℕ} {t : Task ε} {lease : ℕ}, tasks'[i]? = some t → t.lease = some lease →
      ∃ t₀, tasks[i]? = some t₀ ∧ t₀.lease = some lease)
    (hsum : (tasks'.map Task.holds).sum = (tasks.map Task.holds).sum) : Budgeted tasks' w where
  accounted := h.accounted
  leased ht hl := by
    obtain ⟨t₀, ht₀, hl₀⟩ := hheld ht hl
    exact h.leased ht₀ hl₀
  distinct ht ht' hl hl' := by
    obtain ⟨t₀, ht₀, hl₀⟩ := hheld ht hl
    obtain ⟨t₁, ht₁, hl₁⟩ := hheld ht' hl'
    exact h.distinct ht₀ ht₁ hl₀ hl₁
  ranges := h.ranges.trans hsum.symm

/-- Tasks that hold the same leases at the same places. -/
theorem of_leases {tasks' : List (Task ε)} (h : Budgeted tasks w)
    (hlease : tasks'.map Task.lease = tasks.map Task.lease) : Budgeted tasks' w := by
  refine h.of_held (fun {i t lease} ht hl => ?_) ?_
  · have hmap := congrArg (·[i]?) hlease
    simp only [List.getElem?_map, ht, Option.map_some] at hmap
    obtain ⟨t₀, ht₀, hsame⟩ := Option.map_eq_some_iff.mp hmap.symm
    exact ⟨t₀, ht₀, hsame.trans hl⟩
  · have hholds : ∀ l : List (Task ε), l.map Task.holds =
        (l.map Task.lease).map fun lease => if lease.isSome then (1 : ℤ) else 0 := fun l => by
      rw [List.map_map]
      rfl
    rw [hholds, hholds, hlease]

/-- STEP: a range is submitted. -/
theorem queued (h : Budgeted tasks w) : Budgeted (tasks ++ [.queued]) w := by
  refine h.of_held (fun {i t lease} ht hl => ?_) ?_
  · rw [List.getElem?_append] at ht
    split_ifs at ht
    · exact ⟨t, ht, hl⟩
    · rw [List.getElem?_singleton] at ht
      split_ifs at ht
      cases ht
      cases hl
  · rw [List.map_append, List.sum_append]
    exact add_zero _

theorem lease_set {i : ℕ} {t t' : Task ε} (ht : tasks[i]? = some t) (hlease : t'.lease = t.lease) :
    (tasks.set i t').map Task.lease = tasks.map Task.lease := by
  refine List.ext_getElem? fun j => ?_
  rw [List.getElem?_map, List.getElem?_map, List.getElem?_set]
  by_cases hij : i = j
  · subst hij
    obtain ⟨hi, -⟩ := List.getElem?_eq_some_iff.mp ht
    rw [if_pos rfl, if_pos hi, ht, Option.map_some, Option.map_some, hlease]
  · rw [if_neg hij]

/-- STEP: a task that keeps its lease. -/
theorem keep (h : Budgeted tasks w) {i : ℕ} {t t' : Task ε} (ht : tasks[i]? = some t)
    (hlease : t'.lease = t.lease) : Budgeted (tasks.set i t') w :=
  h.of_leases (lease_set ht hlease)

theorem getElem?_lend {l : ℕ} {x : Lent (Dimension → ℤ)} (a : Dimension → ℤ)
    (h : w.leases[l]? = some x) : (w.lend a).leases[l]? = some x := by
  obtain ⟨hl, hx⟩ := List.getElem?_eq_some_iff.mp h
  show (w.leases ++ [_])[l]? = some x
  rw [List.getElem?_append_left hl, h]

/-- STEP: a task opens its range. -/
theorem opened (h : Budgeted tasks w) {i : ℕ} {t : Task ε} (ht : tasks[i]? = some t)
    (hnone : t.lease = none) (hfits : w.budget.Fits (amounts 1 0 0)) :
    Budgeted (tasks.set i (.entered w.leases.length)) (w.lend (amounts 1 0 0)) := by
  have hold : ∀ {j : ℕ} {t' : Task ε} {lease : ℕ}, tasks[j]? = some t' → t'.lease = some lease →
      lease < w.leases.length := fun ht' hl =>
    (List.getElem?_eq_some_iff.mp (h.leased ht' hl)).1
  -- the new task holds the new lease, the others hold older ones
  have hcases : ∀ {j : ℕ} {t' : Task ε} {lease : ℕ},
      (tasks.set i (.entered w.leases.length))[j]? = some t' → t'.lease = some lease →
      i = j ∧ lease = w.leases.length ∨ i ≠ j ∧ tasks[j]? = some t' := by
    intro j t' lease ht' hl
    rw [List.getElem?_set] at ht'
    by_cases hij : i = j
    · rw [if_pos hij] at ht'
      split_ifs at ht'
      cases ht'
      exact .inl ⟨hij, (Option.some.inj hl).symm⟩
    · rw [if_neg hij] at ht'
      exact .inr ⟨hij, ht'⟩
  refine ⟨BudgetWorld.lend_accounted h.accounted
    (BudgetWorld.amounts_nonneg (by decide) le_rfl le_rfl) hfits, ?_, ?_, ?_⟩
  · intro j t' lease ht' hl
    rcases hcases ht' hl with ⟨-, rfl⟩ | ⟨-, ht'⟩
    · show (w.leases ++ [_])[w.leases.length]? = _
      rw [List.getElem?_concat_length]
      rfl
    · exact getElem?_lend _ (h.leased ht' hl)
  · intro j k t₁ t₂ lease ht₁ ht₂ hl₁ hl₂
    rcases hcases ht₁ hl₁ with ⟨rfl, rfl⟩ | ⟨-, ht₁⟩
    · rcases hcases ht₂ hl₂ with ⟨rfl, -⟩ | ⟨-, ht₂⟩
      · rfl
      · exact absurd (hold ht₂ hl₂) (lt_irrefl _)
    · rcases hcases ht₂ hl₂ with ⟨rfl, rfl⟩ | ⟨-, ht₂⟩
      · exact absurd (hold ht₁ hl₁) (lt_irrefl _)
      · exact h.distinct ht₁ ht₂ hl₁ hl₂
  · have hsum := sum_map_set Task.holds (b := .entered w.leases.length) ht
    have hzero : t.holds = 0 := by rw [Task.holds, hnone]; rfl
    have hone : (Task.entered w.leases.length : Task ε).holds = 1 := rfl
    rw [hzero, hone, add_zero] at hsum
    show lentOut (M := Dimension → ℤ) (w.leases ++ [⟨amounts 1 0 0, false⟩]) .ranges = _
    rw [lentOut_lend, hsum, ← h.ranges]
    rfl

/-- STEP: a task leaves its range. -/
theorem left (h : Budgeted tasks w) {i lease : ℕ} {t t' : Task ε} (ht : tasks[i]? = some t)
    (hl : t.lease = some lease) (hnone : t'.lease = none) :
    Budgeted (tasks.set i t') (w.release (ε := ε) lease).2 := by
  have hlease := h.leased ht hl
  have hrelease : (w.release (ε := ε) lease).2 =
      { budget := { w.budget with current := w.budget.current - amounts 1 0 0 }
        leases := w.leases.set lease ⟨amounts 1 0 0, true⟩ } := by
    unfold BudgetWorld.release
    rw [hlease]
    rfl
  have hcases : ∀ {j : ℕ} {t₁ : Task ε} {l : ℕ}, (tasks.set i t')[j]? = some t₁ →
      t₁.lease = some l → i ≠ j ∧ tasks[j]? = some t₁ := by
    intro j t₁ l ht₁ hl₁
    rw [List.getElem?_set] at ht₁
    by_cases hij : i = j
    · rw [if_pos hij] at ht₁
      split_ifs at ht₁
      cases ht₁
      rw [hnone] at hl₁
      cases hl₁
    · rw [if_neg hij] at ht₁
      exact ⟨hij, ht₁⟩
  refine ⟨BudgetWorld.release_accounted h.accounted lease, ?_, ?_, ?_⟩
  · intro j t₁ l ht₁ hl₁
    obtain ⟨hij, ht₁⟩ := hcases ht₁ hl₁
    have hne : lease ≠ l := by
      rintro rfl
      exact hij (h.distinct ht ht₁ hl hl₁)
    rw [hrelease]
    show (w.leases.set lease _)[l]? = _
    rw [List.getElem?_set, if_neg hne]
    exact h.leased ht₁ hl₁
  · intro j k t₁ t₂ l ht₁ ht₂ hl₁ hl₂
    exact h.distinct (hcases ht₁ hl₁).2 (hcases ht₂ hl₂).2 hl₁ hl₂
  · have hsum := sum_map_set Task.holds (b := t') ht
    have hone : t.holds = 1 := by rw [Task.holds, hl]; rfl
    have hzero : t'.holds = 0 := by rw [Task.holds, hnone]; rfl
    rw [hone, hzero, add_zero, ← h.ranges] at hsum
    rw [hrelease]
    show lentOut (w.leases.set lease ⟨amounts 1 0 0, true⟩) .ranges = _
    have hgive := lentOut_giveBack hlease
    rw [show lentOut (w.leases.set lease ⟨amounts 1 0 0, true⟩) = _ from hgive]
    exact (eq_sub_of_add_eq hsum).symm

/-- STEP: a worker leases rows and bytes. -/
theorem acquired (h : Budgeted tasks w) {rows retainedBytes : ℤ} (hrows : 0 ≤ rows)
    (hbytes : 0 ≤ retainedBytes) (hfits : w.budget.Fits (amounts 0 rows retainedBytes)) :
    Budgeted tasks (w.lend (amounts 0 rows retainedBytes)) where
  accounted := BudgetWorld.lend_accounted h.accounted
    (BudgetWorld.amounts_nonneg le_rfl hrows hbytes) hfits
  leased ht hl := getElem?_lend _ (h.leased ht hl)
  distinct := h.distinct
  ranges := by
    show lentOut (M := Dimension → ℤ) (w.leases ++ [⟨amounts 0 rows retainedBytes, false⟩])
      .ranges = _
    rw [lentOut_lend, ← h.ranges]
    exact add_zero _

/-- STEP: a worker releases rows and bytes. -/
theorem released (h : Budgeted tasks w) {lease : ℕ}
    (hlease : ∀ l, w.leases[lease]? = some l → l.amounts .ranges = 0) :
    Budgeted tasks (w.release (ε := ε) lease).2 := by
  have haccounted := BudgetWorld.release_accounted (ε := ε) h.accounted lease
  unfold BudgetWorld.release at haccounted ⊢
  split
  · next a ha =>
    rw [ha] at haccounted
    have hzero : a .ranges = 0 := hlease _ ha
    refine ⟨haccounted, ?_, h.distinct, ?_⟩
    · intro i t l ht hl
      have hl' := h.leased ht hl
      have hne : lease ≠ l := by
        rintro rfl
        rw [ha] at hl'
        have hone : a .ranges = 1 := by
          rw [(Lent.mk.inj (Option.some.inj hl')).1]
          rfl
        omega
      show (w.leases.set lease _)[l]? = _
      rw [List.getElem?_set, if_neg hne]
      exact hl'
    · show lentOut (w.leases.set lease ⟨a, true⟩) .ranges = _
      rw [lentOut_giveBack ha, ← h.ranges]
      show lentOut w.leases .ranges - a .ranges = _
      rw [hzero, sub_zero]
  · exact h

/-- STEP: a worker uses the budget. -/
theorem call (h : Budgeted tasks w) {cancelled : Bool} {c : BudgetCall}
    (hcall : WorkerCall cancelled w c) : Budgeted tasks (w.call (ε := ε) c).2 := by
  cases c with
  | openRange flag => exact hcall.elim
  | acquire rows retainedBytes flag =>
    rw [BudgetWorld.call]
    rcases BudgetWorld.acquire_cases (ε := ε) w rows retainedBytes flag with ⟨e, hacquire⟩ |
      ⟨hrows, hbytes, hacquire⟩
    · rw [hacquire]
      exact h
    · rw [hacquire]
      rcases BudgetWorld.take_cases (ε := ε) w (amounts 0 rows retainedBytes) flag with
        ⟨hfits, -, htake⟩ | ⟨-, e, htake⟩ | ⟨-, -, htake⟩
      · rw [htake]
        exact h.acquired hrows hbytes hfits
      · rw [htake]
        exact h
      · rw [htake]
        exact h
  | release lease => exact h.released hcall

/-- STEP: a thread of the pool moves. -/
theorem moves (h : Budgeted tasks w) {item : ColumnarRangeDescriptor} {cancelled : Bool} {i : ℕ}
    {t t' : Task ε} {w' : BudgetWorld} {δ : ℤ} (ht : tasks[i]? = some t)
    (hmoves : Moves item cancelled w t t' w' δ) : Budgeted (tasks.set i t') w' := by
  cases hmoves with
  | start => exact h.keep ht rfl
  | refused _ => exact h.keep ht rfl
  | passed _ => exact h.keep ht rfl
  | opened hopen =>
    rcases BudgetWorld.take_cases (ε := ε) w (amounts 1 0 0) cancelled with
      ⟨hfits, -, htake⟩ | ⟨-, e, htake⟩ | ⟨-, -, htake⟩
    all_goals
      rw [BudgetWorld.openRange, htake] at hopen
      cases hopen
    exact h.opened ht rfl hfits
  | notOpened hopen =>
    rcases BudgetWorld.take_cases (ε := ε) w (amounts 1 0 0) cancelled with
      ⟨hfits, -, htake⟩ | ⟨-, e, htake⟩ | ⟨-, -, htake⟩
    all_goals
      rw [BudgetWorld.openRange, htake] at hopen
      cases hopen
    exact h.keep ht rfl
  | enter => exact h.keep ht rfl
  | finish outcome => exact h.keep ht rfl
  | leave => exact h.left ht rfl rfl

/-- Tasks that are settled hold nothing. -/
theorem settled (h : Budgeted tasks w) (hsettled : ∀ t ∈ tasks, t.Settled) :
    Budgeted ([] : List (Task ε)) w := by
  have hnone : ∀ t ∈ tasks, t.lease = none := by
    intro t ht
    have := hsettled t ht
    cases t <;> first | rfl | exact this.elim
  have hzero : (tasks.map Task.holds).sum = 0 := by
    refine List.sum_eq_zero fun x hx => ?_
    obtain ⟨t, ht, rfl⟩ := List.mem_map.mp hx
    rw [Task.holds, hnone t ht]
    rfl
  exact h.of_held nofun hzero.symm

end Budgeted

end Dpone.ColumnarRanges
