import Dpone.ColumnarRanges.ExecutorResults

/-! Runs of the bounded executor: what holds in every state.

    `Shaped` says how many sessions are open and how many ranges are submitted where the main thread
    stands; with it a batch that is left takes all of its results along, and the last one leaves one
    result for every range. -/

namespace Dpone.ColumnarRanges
open Dpone.Schemes ExecutorState

variable {ε : Type} {plan : ColumnarRangePlan} {handling : Bool}

/-! ### Where the main thread stands -/

/-- A batch whose sessions are all open. -/
def InBatch (plan : ColumnarRangePlan) (s : ExecutorState ε) : Prop :=
  s.offset < plan.ranges.length ∧ s.sessions.length = (batchItems plan s).length

def Shaped (plan : ColumnarRangePlan) (s : ExecutorState ε) : Prop :=
  match s.pc with
  | .opening => s.offset < plan.ranges.length ∧ s.sessions.length < (batchItems plan s).length ∧
      s.tasks = []
  | .submitting => InBatch plan s ∧ s.tasks.length < s.sessions.length ∧ Task.dropped ∉ s.tasks
  | .collecting => InBatch plan s ∧ s.tasks.length = s.sessions.length ∧ Task.dropped ∉ s.tasks
  | .failing _ _ | .cancelling _ _ | .leaving (some _) | .draining (some _) =>
    InBatch plan s ∧ s.tasks.length ≤ s.sessions.length
  | .leaving none | .draining none =>
    InBatch plan s ∧ s.tasks.length = s.sessions.length ∧ ∀ t ∈ s.tasks, t = .yielded
  | .done _ => s.sessions = [] ∧ s.tasks = []

theorem length_batchItems (s : ExecutorState ε) : (batchItems plan s).length =
    min (workerLimit plan).toNat (plan.ranges.length - s.offset) := by
  rw [batchItems, List.length_take, List.length_drop]

theorem notMem_concat {t : Task ε} {tasks : List (Task ε)} (h : Task.dropped ∉ tasks)
    (ht : t ≠ .dropped) : Task.dropped ∉ tasks ++ [t] := by
  intro hmem
  rcases List.mem_append.mp hmem with hmem | hmem
  · exact h hmem
  · exact ht (List.mem_singleton.mp hmem).symm

theorem notMem_set {t : Task ε} {tasks : List (Task ε)} {i : ℕ} (h : Task.dropped ∉ tasks)
    (ht : t ≠ .dropped) : Task.dropped ∉ tasks.set i t := by
  intro hmem
  rcases List.mem_or_eq_of_mem_set hmem with hmem | hmem
  · exact h hmem
  · exact ht hmem.symm

theorem moves_kind {item : ColumnarRangeDescriptor} {cancelled : Bool} {w w' : BudgetWorld}
    {t t' : Task ε} {δ : ℤ} (h : Moves item cancelled w t t' w' δ) :
    t ≠ .yielded ∧ t ≠ .dropped ∧ t' ≠ .dropped := by
  cases h <;> exact ⟨nofun, nofun, nofun⟩

/-- STEP: the next batch is opened, if there is one. -/
theorem Shaped.nextBatch {s : ExecutorState ε} (hlimit : 0 < workerLimit plan) :
    Shaped plan (nextBatch plan s) := by
  unfold ColumnarRanges.nextBatch
  simp only
  split_ifs with hmore
  · have hlen : 0 < (batchItems plan
        { s with offset := s.offset + (batchItems plan s).length }).length := by
      rw [length_batchItems]
      exact Nat.lt_min.mpr ⟨by omega, Nat.sub_pos_of_lt hmore⟩
    exact ⟨hmore, hlen, rfl⟩
  · exact ⟨rfl, rfl⟩

/-- STEP: the main thread keeps its counts. -/
theorem Shaped.step {s s' : ExecutorState ε} {a : Actor} (hlimit : 0 < workerLimit plan)
    (h : Shaped plan s) (hstep : Step plan handling s a s') : Shaped plan s' := by
  cases hstep with
  | openSession hpc =>
    unfold Shaped at h
    rw [hpc] at h
    obtain ⟨hoffset, hlen, htasks⟩ := h
    have hlength : (s.sessions ++ [({} : RangeSession)]).length = s.sessions.length + 1 := by simp
    unfold Shaped
    by_cases hfull : s.sessions.length + 1 = (batchItems plan s).length
    · simp only [if_pos hfull]
      refine ⟨⟨hoffset, hlength.trans hfull⟩, ?_, ?_⟩
      · rw [htasks, hlength]
        exact Nat.succ_pos _
      · rw [htasks]
        exact List.not_mem_nil
    · simp only [if_neg hfull]
      refine ⟨hoffset, ?_, htasks⟩
      rw [hlength]
      show s.sessions.length + 1 < (batchItems plan s).length
      omega
  | openFails hpc e => exact ⟨rfl, rfl⟩
  | submit hpc =>
    unfold Shaped at h
    rw [hpc] at h
    obtain ⟨hbatch, hlen, hdropped⟩ := h
    have hlength : (s.tasks ++ [Task.queued]).length = s.tasks.length + 1 := by simp
    unfold Shaped
    by_cases hfull : s.tasks.length + 1 = s.sessions.length
    · simp only [if_pos hfull]
      exact ⟨hbatch, hlength.trans hfull, notMem_concat hdropped nofun⟩
    · simp only [if_neg hfull]
      refine ⟨hbatch, ?_, notMem_concat hdropped nofun⟩
      rw [hlength]
      omega
  | submitFails hpc e queued =>
    unfold Shaped at h
    rw [hpc] at h
    obtain ⟨hbatch, hlen, -⟩ := h
    refine ⟨hbatch, ?_⟩
    show (if queued = true then s.tasks ++ [.queued] else s.tasks).length ≤ s.sessions.length
    split_ifs
    · rw [List.length_append, List.length_singleton]
      omega
    · exact hlen.le
  | collect hpc htask hitem =>
    unfold Shaped at h ⊢
    simp only [hpc] at h ⊢
    obtain ⟨hbatch, hlen, hdropped⟩ := h
    exact ⟨hbatch, by rw [List.length_set, hlen], notMem_set hdropped nofun⟩
  | collectFails hpc htask =>
    unfold Shaped at h
    rw [hpc] at h
    exact ⟨h.1, h.2.1.le⟩
  | collected hpc hall =>
    unfold Shaped at h
    rw [hpc] at h
    exact ⟨h.1, h.2.1, hall⟩
  | cancelSessions hpc =>
    unfold Shaped at h
    rw [hpc] at h
    have hlength : (s.sessions.map cancelSession).length = s.sessions.length := List.length_map _
    exact ⟨⟨h.1.1, hlength.trans h.1.2⟩, h.2.trans hlength.ge⟩
  | @cancelFutures e futures hpc =>
    unfold Shaped at h
    rw [hpc] at h
    refine ⟨h.1, ?_⟩
    show (if futures = true then s.tasks.map dropQueued else s.tasks).length ≤ _
    split_ifs
    · rw [List.length_map]
      exact h.2
    · exact h.2
  | @shutdown e hpc =>
    unfold Shaped at h
    rw [hpc] at h
    have hlength : (s.tasks.map dropQueued).length = s.tasks.length := List.length_map _
    rcases e with _ | e
    · obtain ⟨hbatch, hlen, hall⟩ := h
      refine ⟨hbatch, hlength.trans hlen, fun t ht => ?_⟩
      obtain ⟨t₀, ht₀, rfl⟩ := List.mem_map.mp ht
      rw [hall t₀ ht₀]
      rfl
    · exact ⟨h.1, hlength.le.trans h.2⟩
  | closeFailed hpc hsettled => exact ⟨rfl, rfl⟩
  | closeRaises hpc hsettled hhandling hclose => exact ⟨rfl, rfl⟩
  | close hpc hsettled hclose => exact Shaped.nextBatch hlimit
  | @task i item t t' w δ htask hitem hmoves =>
    obtain ⟨hyielded, -, hdropped⟩ := moves_kind hmoves
    have hmem := List.mem_of_getElem? htask
    have hlength : (s.tasks.set i t').length = s.tasks.length := List.length_set
    unfold Shaped at h
    show Shaped plan (s.moved i t' w δ)
    unfold Shaped moved
    rcases hpc : s.pc with _ | _ | _ | _ | _ | (_ | _) | (_ | _) | _ <;> simp only [hpc] at h ⊢
    · rw [h.2.2] at hmem
      exact absurd hmem List.not_mem_nil
    · exact ⟨h.1, by rw [hlength]; exact h.2.1, notMem_set h.2.2 hdropped⟩
    · exact ⟨h.1, by rw [hlength]; exact h.2.1, notMem_set h.2.2 hdropped⟩
    · exact ⟨h.1, by rw [hlength]; exact h.2⟩
    · exact ⟨h.1, by rw [hlength]; exact h.2⟩
    · exact absurd (h.2.2 t hmem) hyielded
    · exact ⟨h.1, by rw [hlength]; exact h.2⟩
    · exact absurd (h.2.2 t hmem) hyielded
    · exact ⟨h.1, by rw [hlength]; exact h.2⟩
    · rw [h.2] at hmem
      exact absurd hmem List.not_mem_nil
  | worker htask hcall => exact h

/-! ### The results of a run -/

/-- One result for each range, in the order of the ranges. -/
def Complete (plan : ColumnarRangePlan) (summary : RangeExecutionSummary) : Prop :=
  List.Forall₂ RangeExecutionResult.IsOf summary.ranges plan.ranges

/-- A list of computations of which each returns what is asked for. -/
theorem mapM_returns {β γ : Type} {f : β → Except (Fault ε) γ} {P : β → γ → Prop} :
    ∀ {l : List β}, (∀ x ∈ l, ∃ y, f x = .ok y ∧ P x y) → ∃ ys, l.mapM f = .ok ys ∧
      List.Forall₂ P l ys
  | [], _ => ⟨[], rfl, .nil⟩
  | x :: l, h => by
    obtain ⟨y, hy, hP⟩ := h x (List.mem_cons_self ..)
    obtain ⟨ys, hys, hall⟩ := mapM_returns fun x hx => h x (List.mem_cons_of_mem _ hx)
    exact ⟨y :: ys, by rw [List.mapM_cons, hy, ok_bind, hys, ok_bind]; rfl, .cons hP hall⟩

/-- STEP: after the last batch there is a result for every range. -/
theorem conclude_complete {s : ExecutorState ε} (hnodup : (s.results.map Prod.fst).Nodup)
    (hkeys : ∀ k, k ∈ s.results.map Prod.fst ↔ k < plan.ranges.length)
    (hvalues : ∀ p ∈ s.results, ∃ item, plan.ranges[p.1]? = some item ∧ p.2.IsOf item) :
    ∃ summary, conclude plan s = .ok summary ∧ Complete plan summary := by
  have hlength : s.results.length = plan.ranges.length := by
    have hperm : (s.results.map Prod.fst).Perm (List.range plan.ranges.length) :=
      (List.perm_ext_iff_of_nodup hnodup List.nodup_range).mpr fun k => by
        rw [hkeys, List.mem_range]
    simpa using hperm.length_eq
  obtain ⟨rs, hrs, hall⟩ := mapM_returns (ε := ε)
    (f := fun index => (s.results.lookup index).elim (.error (.key index)) .ok)
    (P := fun k r => ∃ item, plan.ranges[k]? = some item ∧ r.IsOf item)
    (l := List.range s.results.length) fun k hk => by
      rw [List.mem_range, hlength] at hk
      rcases hlookup : s.results.lookup k with _ | r
      · obtain ⟨p, hp, rfl⟩ := List.mem_map.mp ((hkeys k).mpr hk)
        exact absurd (List.lookup_eq_none_iff.mp hlookup p hp) (by simp)
      · obtain ⟨front, back, heq, -⟩ := List.lookup_eq_some_iff.mp hlookup
        refine ⟨r, rfl, hvalues (k, r) ?_⟩
        rw [heq]
        simp
  refine ⟨⟨rs, s.observed, s.world.budget⟩, ?_, ?_⟩
  · have hordered : orderedResults (ε := ε) s.results = .ok rs := by
      rw [← hrs]
      refine congrArg (fun f => (List.range s.results.length).mapM f) (funext fun index => ?_)
      cases s.results.lookup index <;> rfl
    simp only [conclude, hlength, ne_eq, not_true, if_false, hordered]
    rfl
  · obtain ⟨hlen, hget⟩ := List.forall₂_iff_get.mp hall
    rw [List.length_range, hlength] at hlen
    refine List.forall₂_iff_get.mpr ⟨hlen.symm, fun i h₁ h₂ => ?_⟩
    obtain ⟨item, hitem, hof⟩ := hget i (by rw [List.length_range, hlength]; exact h₂) h₁
    have hi : (List.range s.results.length).get ⟨i, by rw [List.length_range, hlength]; exact h₂⟩ =
        i := by simp
    rw [hi] at hitem
    obtain ⟨_, hitem⟩ := List.getElem?_eq_some_iff.mp hitem
    show RangeExecutionResult.IsOf rs[i] plan.ranges[i]
    rw [hitem]
    exact hof

variable (plan) in
/-- What holds in every state of a run. -/
structure ExecutorInv (s : ExecutorState ε) : Prop where
  budgeted : Budgeted s.tasks s.world
  sessions : Sessions s
  shaped : Shaped plan s
  collected : (∀ outcome, s.pc ≠ .done outcome) → Collected plan s
  complete : ∀ summary, s.pc = .done (.ok summary) → Complete plan summary

theorem beginning_inv {s : ExecutorState ε} (h : beginning plan = .ok s) :
    0 < workerLimit plan ∧ ExecutorInv plan s := by
  unfold beginning at h
  obtain ⟨budget, hbudget, h⟩ := bind_ok.mp h
  by_cases hzero : workerLimit plan = 0
  · rw [if_pos hzero] at h
    cases h
  rw [if_neg hzero] at h
  by_cases hneg : workerLimit plan < 0
  · rw [if_pos hneg] at h
    cases h
  rw [if_neg hneg] at h
  cases h
  have hlimit : 0 < workerLimit plan := by omega
  have hranges : 0 < plan.ranges.length := List.length_pos_iff.mpr plan.nonempty
  refine ⟨hlimit, ⟨BudgetWorld.make_accounted hbudget, nofun, nofun, rfl⟩,
    ⟨List.forall_mem_nil _, List.forall_mem_nil _⟩, ⟨hranges, ?_, rfl⟩, fun _ => ?_, nofun⟩
  · show 0 < (batchItems plan _).length
    rw [length_batchItems]
    exact Nat.lt_min.mpr ⟨by omega, by simpa using hranges⟩
  · exact ⟨List.nodup_nil, fun k => by simp, List.forall_mem_nil _, nofun⟩

/-- What a batch leaves behind when all of its futures were taken. -/
theorem Collected.nextBatch {s : ExecutorState ε} (h : Collected plan s) (hbatch : InBatch plan s)
    (hlen : s.tasks.length = s.sessions.length) (hall : ∀ t ∈ s.tasks, t = .yielded) :
    ((∀ outcome, (nextBatch plan s).pc ≠ .done outcome) → Collected plan (nextBatch plan s)) ∧
      ∀ summary, (ColumnarRanges.nextBatch plan s).pc = .done (.ok summary) →
        Complete plan summary := by
  have hlength : s.tasks.length = (batchItems plan s).length := hlen.trans hbatch.2
  have hyielded : ∀ i, s.tasks[i]? = some .yielded ↔ i < (batchItems plan s).length := by
    intro i
    rw [← hlength]
    constructor
    · exact fun hi => (List.getElem?_eq_some_iff.mp hi).1
    · intro hi
      rw [List.getElem?_eq_getElem hi, hall _ (List.getElem_mem hi)]
  have hkeys : ∀ k, k ∈ s.results.map Prod.fst ↔ k < s.offset + (batchItems plan s).length := by
    intro k
    rw [h.keys]
    constructor
    · rintro (hlt | ⟨i, rfl, hi⟩)
      · omega
      · have := (hyielded i).mp hi
        omega
    · intro hk
      by_cases hlt : k < s.offset
      · exact .inl hlt
      · exact .inr ⟨k - s.offset, by omega, (hyielded _).mpr (by omega)⟩
  unfold ColumnarRanges.nextBatch
  simp only
  split_ifs with hmore
  · refine ⟨fun _ => ⟨h.nodup, fun k => ?_, h.values, nofun⟩, nofun⟩
    show k ∈ s.results.map Prod.fst ↔ k < s.offset + (batchItems plan s).length ∨ _
    rw [hkeys]
    exact ⟨.inl, fun hk => hk.elim id fun ⟨i, _, hi⟩ => nomatch hi⟩
  · refine ⟨fun hrunning => absurd rfl (hrunning _), fun summary hdone => ?_⟩
    have hend : s.offset + (batchItems plan s).length = plan.ranges.length := by
      have hle : (batchItems plan s).length ≤ plan.ranges.length - s.offset := by
        rw [length_batchItems]
        exact min_le_right _ _
      have hlt := hbatch.1
      omega
    rw [hend] at hkeys
    obtain ⟨summary', hconclude, hcomplete⟩ := conclude_complete (ε := ε)
      (s := { s with offset := s.offset + (batchItems plan s).length }) h.nodup hkeys h.values
    have hsame : conclude plan { s with offset := s.offset + (batchItems plan s).length } =
        (.ok summary : Except (Fault ε) _) := MainPc.done.inj hdone
    rw [hconclude] at hsame
    cases hsame
    exact hcomplete

/-- STEP: the main thread and the threads of the pool keep the results. -/
theorem collected_step {s s' : ExecutorState ε} {a : Actor} (hshaped : Shaped plan s)
    (h : Collected plan s) (hstep : Step plan handling s a s') :
    ((∀ outcome, s'.pc ≠ .done outcome) → Collected plan s') ∧
      ∀ summary, s'.pc = .done (.ok summary) → Complete plan summary := by
  cases hstep with
  | openSession hpc =>
    refine ⟨fun _ => ⟨h.nodup, h.keys, h.values, h.outcomes⟩, fun summary hdone => ?_⟩
    dsimp only at hdone
    split_ifs at hdone
  | openFails hpc e => exact ⟨fun hrunning => absurd rfl (hrunning _), nofun⟩
  | submit hpc =>
    refine ⟨fun _ => h.queued rfl rfl rfl, fun summary hdone => ?_⟩
    dsimp only at hdone
    split_ifs at hdone
  | submitFails hpc e queued =>
    refine ⟨fun _ => ?_, nofun⟩
    cases queued
    · exact ⟨h.nodup, h.keys, h.values, h.outcomes⟩
    · exact h.queued rfl rfl rfl
  | collect hpc htask hitem =>
    refine ⟨fun _ => h.taken htask hitem, fun summary hdone => ?_⟩
    rw [show s.pc = .done (.ok summary) from hdone] at hpc
    cases hpc
  | collectFails hpc htask => exact ⟨fun _ => ⟨h.nodup, h.keys, h.values, h.outcomes⟩, nofun⟩
  | collected hpc hall => exact ⟨fun _ => ⟨h.nodup, h.keys, h.values, h.outcomes⟩, nofun⟩
  | cancelSessions hpc => exact ⟨fun _ => ⟨h.nodup, h.keys, h.values, h.outcomes⟩, nofun⟩
  | @cancelFutures e futures hpc =>
    refine ⟨fun _ => ?_, nofun⟩
    cases futures
    · exact ⟨h.nodup, h.keys, h.values, h.outcomes⟩
    · exact h.dropped rfl rfl rfl
  | shutdown hpc => exact ⟨fun _ => h.dropped rfl rfl rfl, nofun⟩
  | closeFailed hpc hsettled => exact ⟨fun hrunning => absurd rfl (hrunning _), nofun⟩
  | closeRaises hpc hsettled hhandling hclose =>
    exact ⟨fun hrunning => absurd rfl (hrunning _), nofun⟩
  | close hpc hsettled hclose =>
    unfold Shaped at hshaped
    rw [hpc] at hshaped
    exact h.nextBatch hshaped.1 hshaped.2.1 hshaped.2.2
  | @task i item t t' w δ htask hitem hmoves =>
    refine ⟨fun _ => h.moved htask hitem hmoves, fun summary hdone => ?_⟩
    unfold Shaped at hshaped
    rw [show s.pc = .done (.ok summary) from hdone] at hshaped
    rw [hshaped.2] at htask
    cases htask
  | worker htask hcall =>
    refine ⟨fun _ => ⟨h.nodup, h.keys, h.values, h.outcomes⟩, fun summary hdone => ?_⟩
    unfold Shaped at hshaped
    rw [show s.pc = .done (.ok summary) from hdone] at hshaped
    rw [hshaped.2] at htask
    cases htask

/-- STEP: the budget stays accounted for. -/
theorem budgeted_step {s s' : ExecutorState ε} {a : Actor} (hshaped : Shaped plan s)
    (h : Budgeted s.tasks s.world) (hstep : Step plan handling s a s') :
    Budgeted s'.tasks s'.world := by
  have hdropped : Budgeted (s.tasks.map dropQueued) s.world := by
    refine h.of_leases ?_
    rw [List.map_map]
    refine List.map_congr_left fun t _ => ?_
    cases t <;> rfl
  cases hstep with
  | openSession hpc => exact h
  | openFails hpc e =>
    unfold Shaped at hshaped
    rw [hpc] at hshaped
    rw [hshaped.2.2] at h
    exact h
  | submit hpc => exact h.queued
  | submitFails hpc e queued =>
    cases queued
    · exact h
    · exact h.queued
  | collect hpc htask hitem => exact h.keep htask rfl
  | collectFails hpc htask => exact h
  | collected hpc hall => exact h
  | cancelSessions hpc => exact h
  | @cancelFutures e futures hpc =>
    cases futures
    · exact h
    · exact hdropped
  | shutdown hpc => exact hdropped
  | closeFailed hpc hsettled => exact h.settled hsettled
  | closeRaises hpc hsettled hhandling hclose => exact h.settled hsettled
  | close hpc hsettled hclose =>
    unfold nextBatch
    simp only
    split_ifs <;> exact h.settled hsettled
  | task htask hitem hmoves => exact h.moves htask hmoves
  | worker htask hcall => exact h.call hcall

/-- A run is over when its outcome is known. -/
theorem no_step_of_done {s s' : ExecutorState ε} {a : Actor} {outcome} (hshaped : Shaped plan s)
    (hpc : s.pc = .done outcome) : ¬ Step plan handling s a s' := by
  intro hstep
  have htasks : s.tasks = [] := by
    unfold Shaped at hshaped
    rw [hpc] at hshaped
    exact hshaped.2
  cases hstep <;> simp_all

/-- STEP: every step keeps what holds. -/
theorem ExecutorInv.step {s s' : ExecutorState ε} {a : Actor} (hlimit : 0 < workerLimit plan)
    (h : ExecutorInv plan s) (hstep : Step plan handling s a s') : ExecutorInv plan s' := by
  by_cases hrunning : ∀ outcome, s.pc ≠ .done outcome
  · obtain ⟨hcollected, hcomplete⟩ := collected_step h.shaped (h.collected hrunning) hstep
    exact ⟨budgeted_step h.shaped h.budgeted hstep, h.sessions.step hstep,
      h.shaped.step hlimit hstep, hcollected, hcomplete⟩
  · push Not at hrunning
    obtain ⟨outcome, hpc⟩ := hrunning
    exact absurd hstep (no_step_of_done h.shaped hpc)

/-- INVARIANT: it holds in every state of a run. -/
theorem run_inv {s₀ s : ExecutorState ε} {τ} (h₀ : beginning plan = .ok s₀)
    (hrun : Run (Step plan handling) s₀ τ s) : ExecutorInv plan s := by
  obtain ⟨hlimit, hinv⟩ := beginning_inv h₀
  exact hrun.invariant hinv fun h hstep => h.step hlimit hstep

end Dpone.ColumnarRanges
