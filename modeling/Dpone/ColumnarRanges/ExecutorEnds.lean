import Dpone.ColumnarRanges.ExecutorRuns

/-! The bounded executor ends: it returns or raises.

    While it runs, the main thread or a thread of the pool can step: a task that waits for the
    budget waits for a task that reads. Every step but a worker's own use of the budget brings the
    end nearer (`remaining`). -/

namespace Dpone.ColumnarRanges
open Dpone.Schemes ExecutorState

variable {ε : Type} {plan : ColumnarRangePlan} {handling : Bool}

/-! ### Steps that remain -/

def Task.rank : Task ε → ℕ
  | .queued => 7
  | .started => 6
  | .opening => 5
  | .entered _ => 4
  | .reading _ => 3
  | .leaving _ _ => 2
  | .ended _ => 1
  | .yielded | .dropped => 0

def MainPc.rank : MainPc ε → ℕ
  | .opening => 7
  | .submitting => 6
  | .collecting => 5
  | .failing _ _ => 4
  | .cancelling _ _ => 3
  | .leaving _ => 2
  | .draining _ => 1
  | .done _ => 0

/-- What the tasks of the batch have left to do. -/
def taskWork (tasks : List (Task ε)) : ℕ := (tasks.map fun t => t.rank + 10).sum

/-- What a range that is not opened, not submitted or not settled has left, and the main thread. -/
def workLeft (plan : ColumnarRangePlan) (s : ExecutorState ε) : ℕ :=
  s.pc.rank + (20 * (plan.ranges.length - s.offset - s.sessions.length) +
    19 * (s.sessions.length - s.tasks.length) + taskWork s.tasks)

/-- A bound for the steps that remain. -/
def remaining (plan : ColumnarRangePlan) (s : ExecutorState ε) : ℕ :=
  match s.pc with
  | .done _ => 0
  | _ => workLeft plan s

theorem remaining_running {s : ExecutorState ε} (h : ∀ outcome, s.pc ≠ .done outcome) :
    remaining plan s = workLeft plan s := by
  unfold remaining
  split
  · next outcome hpc => exact absurd hpc (h outcome)
  · rfl

theorem remaining_le (s : ExecutorState ε) : remaining plan s ≤ workLeft plan s := by
  unfold remaining
  split
  · exact Nat.zero_le _
  · exact le_rfl

theorem remaining_done {s : ExecutorState ε} {outcome} (h : s.pc = .done outcome) :
    remaining plan s = 0 := by
  unfold remaining
  rw [h]

theorem taskWork_concat (tasks : List (Task ε)) (t : Task ε) :
    taskWork (tasks ++ [t]) = taskWork tasks + (t.rank + 10) := by
  simp [taskWork]

theorem taskWork_set {tasks : List (Task ε)} {i : ℕ} {t t' : Task ε} (ht : tasks[i]? = some t)
    (hrank : t'.rank < t.rank) : taskWork (tasks.set i t') < taskWork tasks := by
  have hsum := sum_map_set (fun t : Task ε => t.rank + 10) (b := t') ht
  unfold taskWork
  omega

theorem taskWork_dropQueued : ∀ tasks : List (Task ε),
    taskWork (tasks.map dropQueued) ≤ taskWork tasks
  | [] => le_rfl
  | t :: tasks => by
    have ih := taskWork_dropQueued tasks
    have hrank : (dropQueued t).rank ≤ t.rank := by
      cases t <;> first | exact Nat.zero_le _ | exact le_rfl
    simp only [taskWork, List.map_cons, List.sum_cons] at ih ⊢
    omega

theorem taskWork_yielded : ∀ {tasks : List (Task ε)}, (∀ t ∈ tasks, t = .yielded) →
    taskWork tasks = 10 * tasks.length
  | [], _ => rfl
  | t :: tasks, h => by
    have ih := taskWork_yielded fun t ht => h t (List.mem_cons_of_mem _ ht)
    have hrank : t.rank = 0 := by
      rw [h t (List.mem_cons_self ..)]
      rfl
    simp only [taskWork, List.map_cons, List.sum_cons, List.length_cons] at ih ⊢
    omega

theorem moves_rank {item : ColumnarRangeDescriptor} {cancelled : Bool} {w w' : BudgetWorld}
    {t t' : Task ε} {δ : ℤ} (h : Moves item cancelled w t t' w' δ) : t'.rank < t.rank := by
  cases h <;> simp [Task.rank]

def Actor.own : Actor → Bool
  | .worker _ => false
  | _ => true

/-- STEP: every step but a worker's use of the budget leaves less to do. -/
theorem remaining_step {s s' : ExecutorState ε} {a : Actor} (hlimit : 0 < workerLimit plan)
    (hshaped : Shaped plan s) (hstep : Step plan handling s a s') (hown : a.own = true) :
    remaining plan s' < remaining plan s := by
  have hrunning : ∀ outcome, s.pc ≠ .done outcome := fun outcome hpc =>
    no_step_of_done hshaped hpc hstep
  rw [remaining_running hrunning]
  have hright : remaining plan s' ≤ workLeft plan s' := remaining_le s'
  cases hstep with
  | @openSession hpc =>
    unfold Shaped at hshaped
    rw [hpc] at hshaped
    obtain ⟨hoffset, hlen, htasks⟩ := hshaped
    rw [length_batchItems] at hlen
    have hroom := hlen.trans_le (min_le_right _ _)
    have hrank : MainPc.rank (ε := ε) (if s.sessions.length + 1 = (batchItems plan s).length then
        .submitting else .opening) ≤ 7 := by
      split_ifs <;> simp [MainPc.rank]
    have hold : s.pc.rank = 7 := by rw [hpc]; rfl
    refine lt_of_le_of_lt hright ?_
    simp only [workLeft, htasks, List.length_append, List.length_singleton, List.length_nil]
    omega
  | openFails hpc e =>
    refine lt_of_eq_of_lt (@remaining_done ε plan _ (.error (.raised e)) rfl) ?_
    simp [workLeft, hpc, MainPc.rank]
  | submit hpc =>
    unfold Shaped at hshaped
    rw [hpc] at hshaped
    obtain ⟨-, hlen, -⟩ := hshaped
    have hrank : MainPc.rank (ε := ε) (if s.tasks.length + 1 = s.sessions.length then
        .collecting else .submitting) ≤ 6 := by
      split_ifs <;> simp [MainPc.rank]
    have hold : s.pc.rank = 6 := by rw [hpc]; rfl
    refine lt_of_le_of_lt hright ?_
    simp only [workLeft, List.length_append, List.length_singleton, taskWork_concat, Task.rank]
    omega
  | submitFails hpc e queued =>
    unfold Shaped at hshaped
    rw [hpc] at hshaped
    obtain ⟨-, hlen, -⟩ := hshaped
    refine lt_of_le_of_lt hright ?_
    cases queued
    · simp only [workLeft, hpc, MainPc.rank, Bool.false_eq_true, if_false]
      omega
    · simp only [workLeft, hpc, MainPc.rank, if_true, List.length_append, List.length_singleton,
        taskWork_concat, Task.rank]
      omega
  | collect hpc htask hitem =>
    have hwork := @taskWork_set ε s.tasks _ _ .yielded htask (by simp [Task.rank])
    refine lt_of_le_of_lt hright ?_
    simp only [workLeft, List.length_set]
    omega
  | collectFails hpc htask =>
    refine lt_of_le_of_lt hright ?_
    simp only [workLeft, hpc, MainPc.rank]
    omega
  | collected hpc hall =>
    refine lt_of_le_of_lt hright ?_
    simp only [workLeft, hpc, MainPc.rank]
    omega
  | cancelSessions hpc =>
    refine lt_of_le_of_lt hright ?_
    simp only [workLeft, hpc, MainPc.rank, List.length_map]
    omega
  | @cancelFutures e futures hpc =>
    have hwork := taskWork_dropQueued s.tasks
    refine lt_of_le_of_lt hright ?_
    cases futures
    · simp only [workLeft, hpc, MainPc.rank, Bool.false_eq_true, if_false]
      omega
    · simp only [workLeft, hpc, MainPc.rank, if_true, List.length_map]
      omega
  | shutdown hpc =>
    have hwork := taskWork_dropQueued s.tasks
    refine lt_of_le_of_lt hright ?_
    simp only [workLeft, hpc, MainPc.rank, List.length_map]
    omega
  | @closeFailed e hpc hsettled =>
    refine lt_of_eq_of_lt (@remaining_done ε plan _ (.error e) rfl) ?_
    simp [workLeft, hpc, MainPc.rank]
  | @closeRaises hpc hsettled faults e hhandling hclose =>
    refine lt_of_eq_of_lt (@remaining_done ε plan _ (.error e) rfl) ?_
    simp [workLeft, hpc, MainPc.rank]
  | close hpc hsettled hclose =>
    unfold Shaped at hshaped
    rw [hpc] at hshaped
    obtain ⟨⟨hoffset, hfull⟩, hlen, hall⟩ := hshaped
    have hwork := taskWork_yielded hall
    have hnonempty : 0 < (batchItems plan s).length := by
      rw [length_batchItems]
      exact Nat.lt_min.mpr ⟨by omega, Nat.sub_pos_of_lt hoffset⟩
    have hnext : workLeft plan (nextBatch plan s) ≤
        7 + 20 * (plan.ranges.length - (s.offset + (batchItems plan s).length)) := by
      unfold nextBatch
      simp only
      split_ifs <;> simp [workLeft, closeBatch, MainPc.rank, taskWork]
    refine lt_of_le_of_lt (hright.trans hnext) ?_
    simp only [workLeft, hpc, MainPc.rank]
    omega
  | task htask hitem hmoves =>
    have hwork := taskWork_set htask (moves_rank hmoves)
    refine lt_of_le_of_lt hright ?_
    simp only [workLeft, moved, List.length_set]
    omega
  | worker htask hcall => cases hown

/-- A worker's use of the budget leaves as much to do as before. -/
theorem remaining_worker {s s' : ExecutorState ε} {a : Actor} (hstep : Step plan handling s a s')
    (hown : a.own = false) : remaining plan s' = remaining plan s := by
  cases hstep with
  | worker htask hcall => rfl
  | _ => cases hown

/-- RUN RULE: a run has no more steps of its own than there is to do. -/
theorem own_steps_bounded {s₀ s : ExecutorState ε} {τ} (h₀ : beginning plan = .ok s₀)
    (hrun : Run (Step plan handling) s₀ τ s) :
    (τ.countP fun step => step.2.own) + remaining plan s ≤ remaining plan s₀ := by
  induction hrun with
  | nil => simp
  | @snoc τ s s' a hrun hstep ih =>
    have hshaped := (run_inv h₀ hrun).shaped
    rw [List.countP_append, List.countP_singleton]
    rcases hown : a.own with _ | _
    · rw [remaining_worker hstep hown]
      simpa [hown] using ih
    · have hless := remaining_step (beginning_inv h₀).1 hshaped hstep hown
      simp only [if_true]
      omega

/-! ### A step is possible -/

/-- STEP: a task that is not settled can step, or waits for one that reads. -/
theorem task_steps {s : ExecutorState ε} (hbudget : Budgeted s.tasks s.world)
    (hranges : ∀ {i : ℕ} {t : Task ε}, s.tasks[i]? = some t →
      ∃ item, plan.ranges[s.offset + i]? = some item)
    {i : ℕ} {t : Task ε} (ht : s.tasks[i]? = some t) (hsettled : ¬ t.Settled) :
    ∃ j s', Step plan handling s (.task j) s' := by
  have reads : ∀ {j : ℕ} {t : Task ε} {lease : ℕ}, s.tasks[j]? = some t → t.lease = some lease →
      ∃ s', Step plan handling s (.task j) s' := by
    intro j t lease ht hl
    obtain ⟨item, hitem⟩ := hranges ht
    cases t <;> cases hl
    · exact ⟨_, .task ht hitem .enter⟩
    · exact ⟨_, .task ht hitem (.finish (.ok ⟨[], 0, 0, true⟩))⟩
    · exact ⟨_, .task ht hitem .leave⟩
  obtain ⟨item, hitem⟩ := hranges ht
  cases t with
  | queued => exact ⟨i, _, .task ht hitem .start⟩
  | started =>
    rcases hcancelled : s.cancelled with _ | _
    · exact ⟨i, _, .task ht hitem (.passed hcancelled)⟩
    · exact ⟨i, _, .task ht hitem (.refused hcancelled)⟩
  | opening =>
    rcases BudgetWorld.take_cases (ε := ε) s.world (amounts 1 0 0) s.cancelled with
      ⟨-, -, htake⟩ | ⟨-, e, htake⟩ | ⟨hfull, -, -⟩
    · exact ⟨i, _, .task ht hitem (.opened htake)⟩
    · exact ⟨i, _, .task ht hitem (.notOpened htake)⟩
    · -- no range is left, so some task holds one
      have hrows := hbudget.accounted.bounded .rows
      have hbytes := hbudget.accounted.bounded .bytes
      have hpositive := s.world.budget.positive .ranges
      have hcurrent : 0 < s.world.budget.current .ranges := by
        rw [AggregateRangeBudget.Fits, not_not] at hfull
        simp only [amounts] at hfull
        omega
      rw [hbudget.accounted.usage, hbudget.ranges] at hcurrent
      obtain ⟨t', ht', hholds⟩ : ∃ t' ∈ s.tasks, t'.holds ≠ 0 := by
        by_contra hnone
        push Not at hnone
        refine hcurrent.ne' (List.sum_eq_zero fun x hx => ?_)
        obtain ⟨t', ht', rfl⟩ := List.mem_map.mp hx
        exact hnone t' ht'
      obtain ⟨j, hj⟩ := List.getElem?_of_mem ht'
      rcases hlease : t'.lease with _ | lease
      · rw [Task.holds, hlease] at hholds
        exact absurd rfl hholds
      · obtain ⟨s', hs'⟩ := reads hj hlease
        exact ⟨j, s', hs'⟩
  | entered lease => exact ⟨i, reads ht rfl⟩
  | reading lease => exact ⟨i, reads ht rfl⟩
  | leaving lease outcome => exact ⟨i, reads ht rfl⟩
  | ended outcome => exact absurd trivial hsettled
  | yielded => exact absurd trivial hsettled
  | dropped => exact absurd trivial hsettled

/-- The tasks of a batch are those of its ranges. -/
theorem ranges_of_tasks {s : ExecutorState ε} (hbatch : InBatch plan s)
    (hlen : s.tasks.length ≤ s.sessions.length) {i : ℕ} {t : Task ε} (ht : s.tasks[i]? = some t) :
    ∃ item, plan.ranges[s.offset + i]? = some item := by
  obtain ⟨hi, -⟩ := List.getElem?_eq_some_iff.mp ht
  have hle : (batchItems plan s).length ≤ plan.ranges.length - s.offset := by
    rw [length_batchItems]
    exact min_le_right _ _
  have hfull := hbatch.2
  exact ⟨_, List.getElem?_eq_getElem (by omega)⟩

/-- TOTAL: a run that is not over can go on, without a worker that uses the budget. -/
theorem progress {s : ExecutorState ε} (h : ExecutorInv plan s)
    (hrunning : ∀ outcome, s.pc ≠ .done outcome) :
    ∃ a s', a.own = true ∧ Step plan handling s a s' := by
  have hshaped := h.shaped
  have drain : ∀ {e}, s.pc = .draining e → InBatch plan s → s.tasks.length ≤ s.sessions.length →
      ∃ a s', a.own = true ∧ Step plan handling s a s' := by
    intro e hpc hbatch hlen
    by_cases hall : ∀ t ∈ s.tasks, t.Settled
    · rcases e with _ | e
      · have hclose : closeError (fun _ => (none : Option ε)) s.sessions.length = none := by
          simp [closeError]
        exact ⟨.main, _, rfl, .close hpc hall (.inr hclose)⟩
      · exact ⟨.main, _, rfl, .closeFailed hpc hall⟩
    · push Not at hall
      obtain ⟨t, ht, hsettled⟩ := hall
      obtain ⟨i, hi⟩ := List.getElem?_of_mem ht
      obtain ⟨j, s', hs'⟩ : ∃ j s', Step plan handling s (.task j) s' :=
        task_steps h.budgeted (ranges_of_tasks hbatch hlen) hi hsettled
      exact ⟨.task j, s', rfl, hs'⟩
  unfold Shaped at hshaped
  rcases hpc : s.pc with _ | _ | _ | ⟨e, f⟩ | ⟨e, f⟩ | e | e | outcome <;> rw [hpc] at hshaped
  · exact ⟨.main, _, rfl, .openSession hpc⟩
  · exact ⟨.main, _, rfl, .submit hpc⟩
  · obtain ⟨hbatch, hlen, hdropped⟩ := hshaped
    by_cases hall : ∀ t ∈ s.tasks, t = .yielded
    · exact ⟨.main, _, rfl, .collected hpc hall⟩
    · push Not at hall
      obtain ⟨t, ht, hyielded⟩ := hall
      obtain ⟨i, hi⟩ := List.getElem?_of_mem ht
      by_cases hsettled : t.Settled
      · cases t with
        | ended outcome =>
          obtain ⟨item, hitem⟩ := ranges_of_tasks hbatch hlen.le hi
          rcases outcome with e | r
          · exact ⟨.main, _, rfl, .collectFails hpc hi⟩
          · exact ⟨.main, _, rfl, .collect hpc hi hitem⟩
        | yielded => exact absurd rfl hyielded
        | dropped => exact absurd ht hdropped
        | _ => exact hsettled.elim
      · obtain ⟨j, s', hs'⟩ : ∃ j s', Step plan handling s (.task j) s' :=
          task_steps h.budgeted (ranges_of_tasks hbatch hlen.le) hi hsettled
        exact ⟨.task j, s', rfl, hs'⟩
  · exact ⟨.main, _, rfl, .cancelSessions hpc⟩
  · exact ⟨.main, _, rfl, .cancelFutures hpc⟩
  · exact ⟨.main, _, rfl, .shutdown hpc⟩
  · rcases e with _ | e
    · exact drain hpc hshaped.1 hshaped.2.1.le
    · exact drain hpc hshaped.1 hshaped.2
  · exact absurd hpc (hrunning outcome)

/-- CORRECT: after every sequence of calls the usage that the budget tracks is what is out, and in
    no dimension more than the maximum; so it is in every state of the executor. The executor ends:
    it steps no more often than there is to do, and can go on until it returns or raises. Either way
    every session that it opened was closed once, and what it returns is one result for each range,
    in their order. -/
theorem budget_and_executor {maxRanges maxRows maxBytes : ℤ} {budget : AggregateRangeBudget}
    (hbudget : AggregateRangeBudget.make (ε := ε) maxRanges maxRows maxBytes = .ok budget)
    (calls : List BudgetCall) {s₀ s : ExecutorState ε} {τ} (h₀ : beginning plan = .ok s₀)
    (hrun : Run (Step plan handling) s₀ τ s) :
    (BudgetWorld.after ε ⟨budget, []⟩ calls).Accounted ∧ s.world.Accounted ∧
      (τ.countP fun step => step.2.own) ≤ remaining plan s₀ ∧
      ((∀ outcome, s.pc ≠ .done outcome) →
        ∃ a s', a.own = true ∧ Step plan handling s a s') ∧
      ∀ outcome, s.pc = .done outcome →
        (∀ x ∈ s.earlier ++ s.sessions, x.closeCalls = 1) ∧
          ∀ summary, outcome = .ok summary → Complete plan summary := by
  have hinv := run_inv h₀ hrun
  refine ⟨BudgetWorld.after_accounted calls (BudgetWorld.make_accounted hbudget),
    hinv.budgeted.accounted, le_of_add_le_left (own_steps_bounded h₀ hrun), progress hinv, ?_⟩
  intro outcome hpc
  refine ⟨fun x hx => ?_, fun summary hsummary => hinv.complete summary (hsummary ▸ hpc)⟩
  have hshaped := hinv.shaped
  unfold Shaped at hshaped
  rw [hpc] at hshaped
  rw [hshaped.1, List.append_nil] at hx
  exact hinv.sessions.1 x hx

/-! ### A plan of one range -/

def onePlan : ColumnarRangePlan where
  policy := ⟨1, 1, 10, 10⟩
  ranges := [⟨"r".toList, 0⟩]
  nonempty := List.cons_ne_nil _ _
  contiguous := rfl
  distinct := List.nodup_singleton _

def oneBudget : AggregateRangeBudget where
  max := amounts 1 10 10
  positive d := by cases d <;> decide

def oneStart : ExecutorState Unit := { world := { budget := oneBudget } }

theorem one_range_executed : ∃ (s : ExecutorState Unit) (summary : RangeExecutionSummary),
    s.pc = .done (.ok summary) ∧ Complete onePlan summary ∧
      ∀ x ∈ s.earlier ++ s.sessions, x.closeCalls = 1 := by
  have h₀ : Run (Step onePlan false) oneStart [] oneStart := .nil
  have h₁ := h₀.snoc (.openSession rfl)
  have h₂ := h₁.snoc (.submit rfl)
  have h₃ := h₂.snoc (.task (i := 0) rfl rfl .start)
  have h₄ := h₃.snoc (.task (i := 0) rfl rfl (.passed rfl))
  have h₅ := h₄.snoc (.task (i := 0) rfl rfl (.opened rfl))
  have h₆ := h₅.snoc (.task (i := 0) rfl rfl .enter)
  have h₇ := h₆.snoc (.task (i := 0) rfl rfl (.finish (.ok ⟨"r".toList, 3, 8, true⟩)))
  have h₈ := h₇.snoc (.task (i := 0) rfl rfl .leave)
  have h₉ := h₈.snoc (.collect (i := 0) rfl rfl rfl)
  have h₁₀ := h₉.snoc (.collected rfl (List.forall_mem_singleton.mpr rfl))
  have h₁₁ := h₁₀.snoc (.shutdown rfl)
  have hclose : closeError (fun _ => (none : Option Unit)) 1 = none := rfl
  have h₁₂ := h₁₁.snoc (.close rfl (List.forall_mem_singleton.mpr trivial) (.inr hclose))
  have hmake : AggregateRangeBudget.make (ε := Unit) 1 10 10 = .ok oneBudget := rfl
  have hbeginning : beginning onePlan = .ok oneStart := rfl
  obtain ⟨-, -, -, -, hdone⟩ :=
    budget_and_executor hmake [.acquire 6 7 false, .release 0, .release 0] hbeginning h₁₂
  obtain ⟨hclosed, hcomplete⟩ := hdone _ rfl
  exact ⟨_, _, rfl, hcomplete _ rfl, hclosed⟩

end Dpone.ColumnarRanges
