import Mathlib.Data.List.Nodup
import Mathlib.Data.List.Range
import Dpone.ColumnarRanges.ExecutorSafety

/-! What the bounded executor returns.

    The results that it has taken are those of the ranges before the batch and of the futures of the
    batch that it has taken, one for each; a result that a task ended with is that of its range. -/

namespace Dpone.ColumnarRanges
open Dpone.Schemes ExecutorState

variable {ε : Type} {plan : ColumnarRangePlan} {handling : Bool}

theorem ordinal_eq {k : ℕ} {item : ColumnarRangeDescriptor} (h : plan.ranges[k]? = some item) :
    item.ordinal = k := by
  have hmap := congrArg (·[k]?) plan.contiguous
  simp only [List.getElem?_map, h, Option.map_some] at hmap
  obtain ⟨hk, -⟩ := List.getElem?_eq_some_iff.mp h
  rw [List.getElem?_range hk] at hmap
  exact Option.some.inj hmap

/-- The result that a task is going to end with, or has ended with. -/
def Task.result : Task ε → Option RangeExecutionResult
  | .leaving _ (.ok r) | .ended (.ok r) => some r
  | _ => none

variable (plan) in
/-- The results that were taken. -/
structure Collected (s : ExecutorState ε) : Prop where
  nodup : (s.results.map Prod.fst).Nodup
  keys : ∀ k, k ∈ s.results.map Prod.fst ↔
    k < s.offset ∨ ∃ i, k = s.offset + i ∧ s.tasks[i]? = some .yielded
  values : ∀ p ∈ s.results, ∃ item, plan.ranges[p.1]? = some item ∧ p.2.IsOf item
  outcomes : ∀ {i : ℕ} {t : Task ε} {r : RangeExecutionResult}, s.tasks[i]? = some t →
    t.result = some r → ∃ item, plan.ranges[s.offset + i]? = some item ∧ r.IsOf item

namespace Collected
variable {s : ExecutorState ε}

/-- Tasks of which the same futures were taken, and no result is new. -/
theorem of_tasks (h : Collected plan s) {s' : ExecutorState ε} (hresults : s'.results = s.results)
    (hoffset : s'.offset = s.offset)
    (hyielded : ∀ i : ℕ, s'.tasks[i]? = some Task.yielded ↔ s.tasks[i]? = some Task.yielded)
    (hresult : ∀ {i : ℕ} {t : Task ε} {r : RangeExecutionResult}, s'.tasks[i]? = some t →
      t.result = some r → ∃ item, plan.ranges[s.offset + i]? = some item ∧ r.IsOf item) :
    Collected plan s' where
  nodup := by rw [hresults]; exact h.nodup
  keys k := by rw [hresults, hoffset, h.keys]; simp only [hyielded]
  values := by rw [hresults]; exact h.values
  outcomes ht hr := by rw [hoffset]; exact hresult ht hr

/-- STEP: a range is submitted. -/
theorem queued (h : Collected plan s) {s' : ExecutorState ε} (hresults : s'.results = s.results)
    (hoffset : s'.offset = s.offset) (htasks : s'.tasks = s.tasks ++ [.queued]) :
    Collected plan s' := by
  have hget : ∀ {i : ℕ} {t : Task ε}, (s.tasks ++ [.queued])[i]? = some t →
      s.tasks[i]? = some t ∨ t = .queued := by
    intro i t ht
    rw [List.getElem?_append] at ht
    split_ifs at ht with hi
    · exact .inl ht
    · refine .inr ?_
      rw [List.getElem?_singleton] at ht
      split_ifs at ht
      exact (Option.some.inj ht).symm
  refine h.of_tasks hresults hoffset (fun i => ?_) fun ht hr => ?_
  · rw [htasks]
    constructor
    · intro ht
      exact (hget ht).resolve_right nofun
    · intro ht
      obtain ⟨hi, -⟩ := List.getElem?_eq_some_iff.mp ht
      rw [List.getElem?_append_left hi, ht]
  · rw [htasks] at ht
    rcases hget ht with ht | rfl
    · exact h.outcomes ht hr
    · cases hr

/-- STEP: queued futures are cancelled. -/
theorem dropped (h : Collected plan s) {s' : ExecutorState ε} (hresults : s'.results = s.results)
    (hoffset : s'.offset = s.offset) (htasks : s'.tasks = s.tasks.map dropQueued) :
    Collected plan s' := by
  have hdrop : ∀ t : Task ε, (dropQueued t = .yielded ↔ t = .yielded) ∧
      (∀ r, (dropQueued t).result = some r → t.result = some r) := by
    intro t
    cases t <;> exact ⟨by simp [dropQueued], fun r hr => hr⟩
  refine h.of_tasks hresults hoffset (fun i => ?_) fun ht hr => ?_
  · rw [htasks, List.getElem?_map, Option.map_eq_some_iff]
    constructor
    · rintro ⟨t, ht, hyielded⟩
      rw [ht, (hdrop t).1.mp hyielded]
    · exact fun ht => ⟨_, ht, rfl⟩
  · rw [htasks, List.getElem?_map, Option.map_eq_some_iff] at ht
    obtain ⟨t, ht, rfl⟩ := ht
    exact h.outcomes ht ((hdrop t).2 _ hr)

/-- STEP: the result of a future is taken. -/
theorem taken (h : Collected plan s) {i : ℕ} {r : RangeExecutionResult}
    {item : ColumnarRangeDescriptor} (htask : s.tasks[i]? = some (.ended (.ok r)))
    (hitem : plan.ranges[s.offset + i]? = some item) :
    Collected plan { s with
      tasks := s.tasks.set i .yielded
      results := Dict.set item.ordinal r s.results } := by
  obtain ⟨hi, -⟩ := List.getElem?_eq_some_iff.mp htask
  have hnew : s.offset + i ∉ s.results.map Prod.fst := by
    intro hmem
    rcases (h.keys _).mp hmem with hlt | ⟨j, hj, hyielded⟩
    · omega
    · obtain rfl : i = j := by omega
      rw [htask] at hyielded
      cases hyielded
  have hset : Dict.set item.ordinal r s.results = s.results ++ [(s.offset + i, r)] := by
    rw [ordinal_eq hitem]
    exact Dict.set_of_notMem r hnew
  have hget : ∀ j, (s.tasks.set i .yielded)[j]? =
      if i = j then some .yielded else s.tasks[j]? := by
    intro j
    rw [List.getElem?_set, if_pos hi]
  obtain ⟨item', hitem', hof⟩ := h.outcomes htask rfl
  refine ⟨?_, fun k => ?_, ?_, fun {j t r'} ht hr => ?_⟩
  · show (List.map Prod.fst (Dict.set item.ordinal r s.results)).Nodup
    rw [hset, List.map_append]
    refine List.nodup_append.mpr ⟨h.nodup, List.nodup_singleton _, fun a ha b hb => ?_⟩
    intro heq
    rw [heq, List.mem_singleton.mp hb] at ha
    exact hnew ha
  · show k ∈ List.map Prod.fst (Dict.set item.ordinal r s.results) ↔
      k < s.offset ∨ ∃ j, k = s.offset + j ∧ (s.tasks.set i .yielded)[j]? = some .yielded
    rw [hset, List.map_append, List.mem_append, h.keys]
    constructor
    · rintro ((hlt | ⟨j, rfl, hj⟩) | hk)
      · exact .inl hlt
      · refine .inr ⟨j, rfl, ?_⟩
        rw [hget]
        split_ifs
        · rfl
        · exact hj
      · refine .inr ⟨i, List.mem_singleton.mp hk, ?_⟩
        rw [hget, if_pos rfl]
    · rintro (hlt | ⟨j, rfl, hj⟩)
      · exact .inl (.inl hlt)
      · rw [hget] at hj
        by_cases hij : i = j
        · subst hij
          exact .inr (List.mem_singleton_self _)
        · rw [if_neg hij] at hj
          exact .inl (.inr ⟨j, rfl, hj⟩)
  · show ∀ p ∈ Dict.set item.ordinal r s.results, _
    rw [hset]
    intro p hp
    rcases List.mem_append.mp hp with hp | hp
    · exact h.values p hp
    · rw [List.mem_singleton.mp hp]
      exact ⟨item', hitem', hof⟩
  · rw [hget] at ht
    split_ifs at ht
    · cases ht
      cases hr
    · exact h.outcomes ht hr

/-- STEP: a thread of the pool moves. -/
theorem moved (h : Collected plan s) {i : ℕ} {item : ColumnarRangeDescriptor} {t t' : Task ε}
    {w : BudgetWorld} {δ : ℤ} (htask : s.tasks[i]? = some t)
    (hitem : plan.ranges[s.offset + i]? = some item)
    (hmoves : Moves item s.cancelled s.world t t' w δ) : Collected plan (s.moved i t' w δ) := by
  obtain ⟨hi, -⟩ := List.getElem?_eq_some_iff.mp htask
  have hget : ∀ j, (s.moved i t' w δ).tasks[j]? = if i = j then some t' else s.tasks[j]? := by
    intro j
    show (s.tasks.set i t')[j]? = _
    rw [List.getElem?_set, if_pos hi]
  have hyielded : t ≠ .yielded ∧ t' ≠ .yielded := by
    cases hmoves <;> exact ⟨nofun, nofun⟩
  have hresult : ∀ r, t'.result = some r → t.result = some r ∨ r.IsOf item := by
    intro r hr
    cases hmoves with
    | finish outcome =>
      refine .inr ?_
      rcases outcome with e | r'
      · cases hr
      · rw [checked] at hr
        split_ifs at hr with hof
        · cases hr
          exact hof
        · cases hr
    | leave => exact .inl (by cases ‹TaskOutcome ε› <;> exact hr)
    | _ => cases hr
  refine h.of_tasks rfl rfl (fun j => ?_) fun {j t₁ r} ht hr => ?_
  · rw [hget]
    by_cases hij : i = j
    · subst hij
      rw [if_pos rfl, htask, Option.some.injEq, Option.some.injEq]
      exact ⟨fun heq => absurd heq hyielded.2, fun heq => absurd heq hyielded.1⟩
    · rw [if_neg hij]
  · rw [hget] at ht
    by_cases hij : i = j
    · subst hij
      rw [if_pos rfl] at ht
      cases ht
      rcases hresult r hr with hr | hof
      · exact h.outcomes htask hr
      · exact ⟨item, hitem, hof⟩
    · rw [if_neg hij] at ht
      exact h.outcomes ht hr

end Collected

end Dpone.ColumnarRanges
