import Mathlib.Data.List.MinMax
import Mathlib.Data.List.Nodup
import Dpone.Partitioning.SnapshotPlanner
import Dpone.Schemes.Records

/-! What the partitions of a snapshot plan cover. A step holds the values above its lower key up to
    and with its upper key, but every planned range leaves its upper key out: the greatest upper key
    of a histogram is in no partition, so a plan is faithful only where no step holds a value. -/

namespace Dpone.Partitioning
open Dpone.Schemes

variable {α : Type} [LinearOrder α]

/-- The rows that a step counts: those between its keys and those at its upper key. -/
def HistogramStep.Holds (step : HistogramStep α) (v : ColumnValue α) : Prop :=
  (∀ key ∈ step.lowerKey, key.rank < v) ∧ v ≤ step.rangeHiKey.rank

/-- A row of a partition, by its value or NULL in the boundary column. -/
def SnapshotPartition.Holds (p : SnapshotPartition α) : Option (ColumnValue α) → Prop
  | none => p.kind = .null
  | some v => p.kind = .range ∧
      (∀ key ∈ p.lowerBound, if p.includeLower then key.rank ≤ v else key.rank < v) ∧
      (∀ key ∈ p.upperBound, if p.includeUpper then v ≤ key.rank else v < key.rank)

/-- What a plan owes to the histogram that it was made from. -/
structure PlanCovers (statistic : SourceStatistic α) (policy : PlannerPolicy)
    (partitions : List (SnapshotPartition α)) : Prop where
  ids : (partitions.map (·.partitionId)).Nodup
  count : partitions.length ≤ policy.maxPartitions
  values : ∀ step ∈ statistic.steps, ∀ v, step.Holds v → ∃ p ∈ partitions, p.Holds (some v)
  nulls : statistic.nullRows ≠ 0 → ∃ p ∈ partitions, p.Holds none
  disjoint : partitions.Pairwise fun p q => ∀ v, ¬ (p.Holds v ∧ q.Holds v)

/-- The histograms that are planned faithfully: no step holds a value, NULLs are absent or have
    their own bucket, and there is room for that bucket besides the empty ranges. -/
structure NothingToLose (statistic : SourceStatistic α) (policy : PlannerPolicy) : Prop where
  steps : ∀ step ∈ statistic.steps, ∀ v, ¬ step.Holds v
  nulls : statistic.nullRows = 0 ∨ policy.separateNulls = true
  room : statistic.confidence = .high → statistic.nullRows ≠ 0 → policy.separateNulls = true →
    statistic.steps ≠ [] → 2 ≤ policy.maxPartitions

/-- No inner cut point of a step that can be split is rounded past its upper key. -/
def CutsWithin (policy : PlannerPolicy) (step : HistogramStep α) : Prop :=
  ∀ lower upper, splitBounds step = some (lower, upper) →
    ∀ count ≤ policy.maxPartitions, ∀ index, index + 1 < count → ∀ span width cut,
      keySpan lower upper = .ok span → floatResult (span / count) = .ok width →
        cutPoint lower width (index + 1) = .ok cut → cut ≤ upper.1

/-! ### Keys -/

theorem rank_number_le {x y : ℚ} {i j : Bool} :
    (StepKey.number x i : StepKey α).rank ≤ (StepKey.number y j).rank ↔ x ≤ y := by
  simp [StepKey.rank]

theorem rank_number_lt {x y : ℚ} {i j : Bool} :
    (StepKey.number x i : StepKey α).rank < (StepKey.number y j).rank ↔ x < y := by
  simp [StepKey.rank]

omit [LinearOrder α] in
theorem splitBounds_eq {step : HistogramStep α} {lower upper : ℚ × Bool}
    (h : splitBounds step = some (lower, upper)) :
    step.lowerKey = some (.number lower.1 lower.2) ∧
      step.rangeHiKey = .number upper.1 upper.2 ∧ lower.1 < upper.1 := by
  obtain ⟨hi, equal, range, low⟩ := step
  unfold splitBounds at h
  dsimp only at h
  split at h
  · split_ifs at h with hlt
    obtain ⟨rfl, rfl⟩ := Prod.mk.inj (Option.some.inj h)
    exact ⟨rfl, rfl, hlt⟩
  · cases h

/-- A step whose lower key lies below its upper key holds that upper key. -/
theorem holds_upper {step : HistogramStep α}
    (h : ∀ key ∈ step.lowerKey, key.rank < step.rangeHiKey.rank) :
    step.Holds step.rangeHiKey.rank := ⟨h, le_refl _⟩

/-! ### The ranges of a step -/

/-- A range that reaches no value from the upper key of its step on. -/
def EndsBelow (step : HistogramStep α) (p : SnapshotPartition α) : Prop :=
  p.kind = .range ∧ ∀ v, p.Holds (some v) →
    v < step.rangeHiKey.rank ∧ step.Holds step.rangeHiKey.rank

theorem rangePartition_endsBelow (step : HistogramStep α) (column : String) (index : ℕ)
    (rows : ℤ) :
    EndsBelow step (rangePartition column index step.lowerKey step.rangeHiKey rows) := by
  refine ⟨rfl, ?_⟩
  rintro v ⟨-, hlow, hhigh⟩
  have hlt : v < step.rangeHiKey.rank := hhigh _ rfl
  exact ⟨hlt, holds_upper fun key hkey => (hlow key hkey).trans_lt hlt⟩

theorem splitPart_endsBelow {step : HistogramStep α} {policy : PlannerPolicy} {column : String}
    {lower upper : ℚ × Bool} {stepRows : ℤ} {count : ℕ} {span width : ℚ} {index : ℕ}
    {p : SnapshotPartition α} (hcuts : CutsWithin policy step)
    (hbounds : splitBounds step = some (lower, upper)) (hcount : count ≤ policy.maxPartitions)
    (hspan : keySpan lower upper = .ok span) (hwidth : floatResult (span / count) = .ok width)
    (hindex : index < count) (h : splitPart column lower upper stepRows count width index = .ok p) :
    EndsBelow step p := by
  obtain ⟨hlow, hhigh, hlt⟩ := splitBounds_eq hbounds
  have hholds : step.Holds step.rangeHiKey.rank := by
    refine holds_upper fun key hkey => ?_
    rw [hlow, Option.mem_some_iff] at hkey
    rw [← hkey, hhigh]
    exact rank_number_lt.mpr hlt
  obtain ⟨partLower, -, h⟩ := bind_ok.mp h
  obtain ⟨partUpper, hupper, h⟩ := bind_ok.mp h
  cases h
  have hle : partUpper.rank ≤ step.rangeHiKey.rank := by
    rw [hhigh]
    unfold Dpone.Partitioning.partUpper at hupper
    split_ifs at hupper with hlast
    · cases hupper
      exact rank_number_le.mpr le_rfl
    · cases hcut : cutPoint lower width (index + 1) with
      | error e =>
        rw [hcut] at hupper
        cases hupper
      | ok cut =>
        rw [hcut] at hupper
        cases hupper
        exact rank_number_le.mpr (hcuts lower upper hbounds count hcount index (by omega) span
          width cut hspan hwidth hcut)
  refine ⟨rfl, ?_⟩
  rintro v ⟨-, -, hv⟩
  have hvlt : v < partUpper.rank := hv _ rfl
  exact ⟨hvlt.trans_le hle, hholds⟩

theorem splitCount_pos {stepRows targetRows : ℤ} {remaining count : ℕ}
    (h : splitCount stepRows targetRows remaining = .ok count) :
    1 ≤ count ∧ count ≤ max 1 remaining := by
  obtain ⟨quotient, -, h⟩ := bind_ok.mp h
  cases h
  omega

/-- STEP: a step is planned into ranges, at least one, that end below its upper key. -/
theorem stepPartitions_endsBelow {column : String} {policy : PlannerPolicy} {targetRows : ℤ}
    {remaining made : ℕ} {step : HistogramStep α}
    {next : List (SnapshotPartition α) × List String} (hcuts : CutsWithin policy step)
    (hremaining : max 1 (remaining - made) ≤ policy.maxPartitions)
    (h : stepPartitions column policy targetRows remaining made step = .ok next) :
    next.1 ≠ [] ∧ ∀ p ∈ next.1, EndsBelow step p := by
  obtain ⟨estimated, -, h⟩ := bind_ok.mp h
  obtain ⟨hot, -, h⟩ := bind_ok.mp h
  split at h
  · next lower upper _ hbounds =>
    obtain ⟨parts, hparts, h⟩ := bind_ok.mp h
    cases h
    obtain ⟨count, hcount, hparts⟩ := bind_ok.mp hparts
    obtain ⟨span, hspan, hparts⟩ := bind_ok.mp hparts
    obtain ⟨width, hwidth, hparts⟩ := bind_ok.mp hparts
    obtain ⟨hpos, hle⟩ := splitCount_pos hcount
    constructor
    · rintro rfl
      have hlength := (mapM_ok.mp hparts).length_eq
      simp at hlength
      omega
    · intro p hp
      obtain ⟨index, hindex, hpart⟩ := mem_of_mapM hparts p hp
      exact splitPart_endsBelow hcuts hbounds (by omega) hspan hwidth (List.mem_range.mp hindex)
        hpart
  · cases h
    refine ⟨by simp, ?_⟩
    intro p hp
    rw [List.mem_singleton.mp hp]
    exact rangePartition_endsBelow step column made _

/-- RUN: every planned range ends below the upper key of one of the steps. -/
theorem rangeLoop_endsBelow {column : String} {policy : PlannerPolicy} {targetRows : ℤ}
    {remaining : ℕ} (hremaining : max 1 remaining ≤ policy.maxPartitions) :
    ∀ {steps : List (HistogramStep α)} {done ranges : List (SnapshotPartition α) × List String},
      (∀ step ∈ steps, CutsWithin policy step) →
      rangeLoop column policy targetRows remaining steps done = .ok ranges →
      ∃ more, ranges.1 = done.1 ++ more ∧ (∀ p ∈ more, ∃ step ∈ steps, EndsBelow step p) ∧
        (steps ≠ [] → done.1.length < remaining → more ≠ [])
  | [], done, ranges, _, h => by
    cases h
    exact ⟨[], by simp, by simp, fun hne => absurd rfl hne⟩
  | step :: steps, done, ranges, hcuts, h => by
    unfold rangeLoop at h
    split_ifs at h with hfull
    · cases h
      exact ⟨[], by simp, by simp, fun _ hlt => absurd hfull (Nat.not_le.mpr hlt)⟩
    · obtain ⟨next, hnext, h⟩ := bind_ok.mp h
      obtain ⟨hne, hbelow⟩ := stepPartitions_endsBelow (hcuts step (by simp))
        (by omega : max 1 (remaining - done.1.length) ≤ policy.maxPartitions) hnext
      obtain ⟨more, hranges, hmore, -⟩ := rangeLoop_endsBelow hremaining
        (fun s hs => hcuts s (List.mem_cons_of_mem _ hs)) h
      refine ⟨next.1 ++ more, by rw [hranges, List.append_assoc], ?_, by simp [hne]⟩
      intro p hp
      rcases List.mem_append.mp hp with hp | hp
      · exact ⟨step, by simp, hbelow p hp⟩
      · obtain ⟨s, hs, hends⟩ := hmore p hp
        exact ⟨s, List.mem_cons_of_mem _ hs, hends⟩

/-! ### The plan -/

omit [LinearOrder α] in
theorem mem_nullPartition {statistic : SourceStatistic α} {policy : PlannerPolicy}
    {p : SnapshotPartition α} (h : p ∈ nullPartition statistic policy) :
    p.kind = .null ∧ p.partitionId = "null".toList := by
  unfold nullPartition at h
  split_ifs at h
  · cases h
  · rw [List.mem_singleton.mp h]
    exact ⟨rfl, rfl⟩

omit [LinearOrder α] in
theorem nullPartition_length (statistic : SourceStatistic α) (policy : PlannerPolicy) :
    (nullPartition statistic policy).length ≤ 1 := by
  unfold nullPartition
  split_ifs <;> simp

omit [LinearOrder α] in
theorem nullPartition_ne_nil {statistic : SourceStatistic α} {policy : PlannerPolicy} :
    nullPartition statistic policy ≠ [] ↔ statistic.nullRows ≠ 0 ∧ policy.separateNulls = true := by
  unfold nullPartition
  split_ifs with h
  · simp only [ne_eq, not_true_eq_false, false_iff]
    tauto
  · simp only [ne_eq, List.cons_ne_self, not_false_eq_true, true_iff]
    tauto

/-- The room that is left for ranges besides the NULL partition. -/
abbrev rangeRoom (statistic : SourceStatistic α) (policy : PlannerPolicy) : ℕ :=
  max 1 (policy.maxPartitions - (nullPartition statistic policy).length)

omit [LinearOrder α] in
/-- The partitions of a plan: the NULL partition, and the ranges of confident statistics. -/
theorem snapshotPlan_partitions {statistic : SourceStatistic α} {policy : PlannerPolicy}
    {plan : SnapshotPartitionPlan α} (h : snapshotPlan statistic policy = .ok plan) :
    ((statistic.confidence ≠ .high ∨ statistic.steps = []) ∧
      plan.partitions = nullPartition statistic policy) ∨
    (statistic.confidence = .high ∧ statistic.steps ≠ [] ∧ ∃ targetRows ranges,
      rangeLoop statistic.column policy targetRows (rangeRoom statistic policy) statistic.steps
        ([], []) = .ok ranges ∧
      plan.partitions = nullPartition statistic policy ++ ranges.1) := by
  unfold snapshotPlan at h
  dsimp only at h
  split_ifs at h with hlow
  · cases h
    exact .inl ⟨by simpa using hlow, rfl⟩
  · obtain ⟨targetRows, -, h⟩ := bind_ok.mp h
    obtain ⟨ranges, hranges, h⟩ := bind_ok.mp h
    cases h
    simp only [not_or, not_not, List.isEmpty_iff] at hlow
    exact .inr ⟨hlow.1, hlow.2, targetRows, ranges, hranges, rfl⟩

/-- A plan loses the greatest upper key of the steps that hold a value. -/
theorem nothingToLose_of_covers {statistic : SourceStatistic α} {policy : PlannerPolicy}
    {plan : SnapshotPartitionPlan α} (hmax : 1 ≤ policy.maxPartitions)
    (hcuts : ∀ step ∈ statistic.steps, CutsWithin policy step)
    (h : snapshotPlan statistic policy = .ok plan)
    (hcovers : PlanCovers statistic policy plan.partitions) : NothingToLose statistic policy := by
  have hnull : ∀ p ∈ nullPartition statistic policy, ∀ v, ¬ p.Holds (some v) := by
    rintro p hp v ⟨hkind, -⟩
    rw [(mem_nullPartition hp).1] at hkind
    cases hkind
  -- every other partition is a range that ends below the upper key of its step
  obtain ⟨more, hmore, hends, hstarted⟩ : ∃ more,
      plan.partitions = nullPartition statistic policy ++ more ∧
      (∀ p ∈ more, ∃ step ∈ statistic.steps, EndsBelow step p) ∧
      (statistic.confidence = .high → statistic.steps ≠ [] → more ≠ []) := by
    rcases snapshotPlan_partitions h with ⟨hlow, hparts⟩ | ⟨hhigh, hsteps, _, ranges, hloop, hparts⟩
    · refine ⟨[], by rw [hparts, List.append_nil], by simp, fun hhigh hsteps => ?_⟩
      rcases hlow with hlow | hnil
      · exact absurd hhigh hlow
      · exact absurd hnil hsteps
    · have hroom : max 1 (rangeRoom statistic policy) ≤ policy.maxPartitions := by
        change max 1 (max 1 (policy.maxPartitions - _)) ≤ _
        omega
      obtain ⟨more, hranges, hends, hne⟩ := rangeLoop_endsBelow hroom hcuts hloop
      rw [List.nil_append] at hranges
      exact ⟨more, by rw [hparts, hranges], hends, fun _ hs => hne hs (by simp)⟩
  refine ⟨?_, ?_, ?_⟩
  · intro step hstep v hv
    classical
    -- the step with the greatest upper key among those that hold a value
    let holding := statistic.steps.filter fun s => decide (∃ v, s.Holds v)
    have hmem : ∀ s ∈ statistic.steps, (∃ v, s.Holds v) → s ∈ holding :=
      fun s hs hv => List.mem_filter.mpr ⟨hs, decide_eq_true hv⟩
    have hne : holding ≠ [] := List.ne_nil_of_mem (hmem step hstep ⟨v, hv⟩)
    obtain ⟨top, htop⟩ : ∃ top, holding.argmax (fun s : HistogramStep α => s.rangeHiKey.rank) =
        some top := Option.ne_none_iff_exists'.mp fun h => hne (List.argmax_eq_none.mp h)
    obtain ⟨htopmem, htopholds⟩ := List.mem_filter.mp (List.argmax_mem htop)
    obtain ⟨w, hw⟩ := of_decide_eq_true htopholds
    have hupper : top.Holds top.rangeHiKey.rank :=
      holds_upper fun key hkey => (hw.1 key hkey).trans_le hw.2
    obtain ⟨p, hp, hholds⟩ := hcovers.values top htopmem _ hupper
    rw [hmore] at hp
    rcases List.mem_append.mp hp with hp | hp
    · exact hnull p hp _ hholds
    · obtain ⟨other, hother, -, hbelow⟩ := hends p hp
      obtain ⟨hlt, hvalue⟩ := hbelow _ hholds
      have hle := List.le_of_mem_argmax (hmem other hother ⟨_, hvalue⟩) htop
      exact absurd hlt (not_lt.mpr hle)
  · by_contra hneither
    push Not at hneither
    obtain ⟨p, hp, hholds⟩ := hcovers.nulls hneither.1
    rw [hmore] at hp
    rcases List.mem_append.mp hp with hp | hp
    · exact hneither.2 (nullPartition_ne_nil.mp (List.ne_nil_of_mem hp)).2
    · obtain ⟨_, -, hkind, -⟩ := hends p hp
      exact absurd (hkind.symm.trans hholds) (by decide)
  · intro hhigh hrows hseparate hsteps
    have hone := List.length_pos_iff.mpr (nullPartition_ne_nil.mpr ⟨hrows, hseparate⟩)
    have hrange := List.length_pos_iff.mpr (hstarted hhigh hsteps)
    have hcount := hcovers.count
    rw [hmore, List.length_append] at hcount
    omega

/-! ### Steps that hold no value -/

theorem rangeId_inj {i j : ℕ} (h : rangeId i = rangeId j) : i = j := by
  have hdigits := List.append_cancel_left h
  have hwidth := congrArg List.length hdigits
  rw [numeral_length, numeral_length] at hwidth
  have hvalue : ∀ k, numeralValue 10 (numeral 10 (max 4 (Nat.log 10 k + 1)) k) = some k := by
    intro k
    refine numeralValue_numeral (by decide) (by decide) _ _ ?_
    calc k < 10 ^ (Nat.log 10 k + 1) := Nat.lt_pow_succ_log_self (by decide) k
      _ ≤ 10 ^ max 4 (Nat.log 10 k + 1) := Nat.pow_le_pow_right (by decide) (le_max_right ..)
  have hboth := hvalue i
  rw [hdigits, hvalue j] at hboth
  exact (Option.some.inj hboth).symm

/-- Ranges numbered from the first, none of which holds a row. -/
structure EmptyRanges (remaining : ℕ) (done : List (SnapshotPartition α)) : Prop where
  ids : done.map (·.partitionId) = (List.range done.length).map rangeId
  within : done.length ≤ remaining
  empty : ∀ p ∈ done, ∀ v, ¬ p.Holds v

/-- STEP: a step without values makes one empty range. -/
theorem stepPartitions_empty {column : String} {policy : PlannerPolicy} {targetRows : ℤ}
    {remaining made : ℕ} {step : HistogramStep α}
    {next : List (SnapshotPartition α) × List String} (hstep : ∀ v, ¬ step.Holds v)
    (h : stepPartitions column policy targetRows remaining made step = .ok next) :
    ∃ rows, next.1 = [rangePartition column made step.lowerKey step.rangeHiKey rows] := by
  obtain ⟨estimated, -, h⟩ := bind_ok.mp h
  obtain ⟨hot, -, h⟩ := bind_ok.mp h
  split at h
  · next lower upper _ hbounds =>
    obtain ⟨hlow, hhigh, hlt⟩ := splitBounds_eq hbounds
    refine absurd (holds_upper fun key hkey => ?_) (hstep step.rangeHiKey.rank)
    rw [hlow, Option.mem_some_iff] at hkey
    rw [← hkey, hhigh]
    exact rank_number_lt.mpr hlt
  · cases h
    exact ⟨_, rfl⟩

theorem emptyRanges_concat {remaining : ℕ} {done : List (SnapshotPartition α)} {column : String}
    {step : HistogramStep α} {rows : ℤ} (hdone : EmptyRanges remaining done)
    (hlt : done.length < remaining) (hstep : ∀ v, ¬ step.Holds v) :
    EmptyRanges remaining
      (done ++ [rangePartition column done.length step.lowerKey step.rangeHiKey rows]) where
  ids := by
    rw [List.map_append, hdone.ids, List.length_append, List.length_singleton, List.range_succ,
      List.map_append]
    rfl
  within := by
    rw [List.length_append, List.length_singleton]
    omega
  empty p hp v hholds := by
    rcases List.mem_append.mp hp with hp | hp
    · exact hdone.empty p hp v hholds
    · rw [List.mem_singleton.mp hp] at hholds
      obtain ⟨hkind, hbelow⟩ := rangePartition_endsBelow step column done.length rows
      cases v with
      | none => exact absurd (hkind.symm.trans hholds) (by decide)
      | some v => exact hstep _ (hbelow v hholds).2

/-- RUN: steps without values make empty ranges with numbers of their own. -/
theorem rangeLoop_empty {column : String} {policy : PlannerPolicy} {targetRows : ℤ}
    {remaining : ℕ} :
    ∀ {steps : List (HistogramStep α)} {done ranges : List (SnapshotPartition α) × List String},
      (∀ step ∈ steps, ∀ v, ¬ step.Holds v) → EmptyRanges remaining done.1 →
      rangeLoop column policy targetRows remaining steps done = .ok ranges →
      EmptyRanges remaining ranges.1
  | [], _, _, _, hdone, h => by
    cases h
    exact hdone
  | step :: steps, done, ranges, hsteps, hdone, h => by
    unfold rangeLoop at h
    split_ifs at h with hfull
    · cases h
      exact hdone
    · obtain ⟨next, hnext, h⟩ := bind_ok.mp h
      obtain ⟨rows, hrows⟩ := stepPartitions_empty (hsteps step (List.mem_cons_self ..)) hnext
      rw [hrows] at h
      exact rangeLoop_empty (fun s hs => hsteps s (List.mem_cons_of_mem _ hs))
        (emptyRanges_concat hdone (Nat.not_le.mp hfull) (hsteps step (List.mem_cons_self ..))) h

theorem covers_of_nothingToLose {statistic : SourceStatistic α} {policy : PlannerPolicy}
    {plan : SnapshotPartitionPlan α} (hmax : 1 ≤ policy.maxPartitions)
    (h : snapshotPlan statistic policy = .ok plan) (hsafe : NothingToLose statistic policy) :
    PlanCovers statistic policy plan.partitions := by
  have hnullLength := nullPartition_length statistic policy
  obtain ⟨ranges, hparts, hempty, hroom⟩ : ∃ ranges,
      plan.partitions = nullPartition statistic policy ++ ranges ∧
      EmptyRanges (rangeRoom statistic policy) ranges ∧
      (nullPartition statistic policy).length + ranges.length ≤ policy.maxPartitions := by
    rcases snapshotPlan_partitions h with ⟨-, hparts⟩ | ⟨hhigh, hsteps, _, ranges, hloop, hparts⟩
    · exact ⟨[], by rw [hparts, List.append_nil], ⟨rfl, Nat.zero_le _, by simp⟩, by simp; omega⟩
    · have hempty := rangeLoop_empty hsafe.steps ⟨rfl, Nat.zero_le _, by simp⟩ hloop
      refine ⟨ranges.1, hparts, hempty, ?_⟩
      have hwithin : ranges.1.length ≤
          max 1 (policy.maxPartitions - (nullPartition statistic policy).length) := hempty.within
      rcases Nat.eq_zero_or_pos (nullPartition statistic policy).length with hzero | hpos
      · omega
      · obtain ⟨hrows, hseparate⟩ := nullPartition_ne_nil.mp (List.length_pos_iff.mp hpos)
        have htwo := hsafe.room hhigh hrows hseparate hsteps
        omega
  have hnullHolds : ∀ p ∈ nullPartition statistic policy, p.Holds none :=
    fun p hp => (mem_nullPartition hp).1
  refine ⟨?_, ?_, ?_, ?_, ?_⟩
  · rw [hparts, List.map_append, List.nodup_append]
    refine ⟨?_, ?_, ?_⟩
    · unfold nullPartition
      split_ifs <;> simp
    · rw [hempty.ids]
      exact List.Nodup.map (fun _ _ hij => rangeId_inj hij) List.nodup_range
    · intro a ha b hb
      obtain ⟨p, hp, rfl⟩ := List.mem_map.mp ha
      rw [hempty.ids] at hb
      obtain ⟨i, -, rfl⟩ := List.mem_map.mp hb
      have hhead : (rangeId i).head? = some 'r' := rfl
      rw [(mem_nullPartition hp).2]
      intro heq
      rw [← heq] at hhead
      exact absurd hhead (by decide)
  · rw [hparts, List.length_append]
    exact hroom
  · exact fun step hstep v hv => absurd hv (hsafe.steps step hstep v)
  · intro hrows
    have hseparate := hsafe.nulls.resolve_left hrows
    obtain ⟨p, hp⟩ := List.exists_mem_of_ne_nil _ (nullPartition_ne_nil.mpr ⟨hrows, hseparate⟩)
    exact ⟨p, by rw [hparts]; exact List.mem_append_left _ hp, hnullHolds p hp⟩
  · rw [hparts, List.pairwise_append]
    refine ⟨?_, ?_, ?_⟩
    · unfold nullPartition
      split_ifs <;> simp
    · exact List.pairwise_of_forall_mem_list fun p hp q _ v hv => hempty.empty p hp v hv.1
    · exact fun p _ q hq v hv => hempty.empty q hq v hv.2

/-- CORRECT: a plan that is made is faithful exactly where the histogram has nothing to lose,
    provided no inner cut point of a hot step was rounded past its upper key. -/
theorem snapshotPlan_covers_iff (statistic : SourceStatistic α) (policy : PlannerPolicy)
    (hmax : 1 ≤ policy.maxPartitions) (plan : SnapshotPartitionPlan α)
    (h : snapshotPlan statistic policy = .ok plan) :
    (NothingToLose statistic policy → PlanCovers statistic policy plan.partitions) ∧
    ((∀ step ∈ statistic.steps, CutsWithin policy step) →
      PlanCovers statistic policy plan.partitions → NothingToLose statistic policy) :=
  ⟨covers_of_nothingToLose hmax h, fun hcuts => nothingToLose_of_covers hmax hcuts h⟩

/-- NULLs alone, and a step that is open below. -/
def nullsOnly : SourceStatistic ℕ :=
  { column := "id", totalRows := 3, steps := [], nullRows := 3, confidence := .high }

def openStep : SourceStatistic ℕ :=
  { column := "id", totalRows := 9, confidence := .high,
    steps := [{ rangeHiKey := .other 7, equalRows := 4, rangeRows := 5 }] }

theorem snapshotPlan_covers_iff_small :
    (∀ plan, snapshotPlan nullsOnly {} = .ok plan → PlanCovers nullsOnly {} plan.partitions) ∧
    ∀ plan, snapshotPlan openStep {} = .ok plan →
      PlanCovers openStep {} plan.partitions → NothingToLose openStep {} := by
  constructor
  · intro plan h
    exact (snapshotPlan_covers_iff nullsOnly {} (by decide) plan h).1
      ⟨by simp [nullsOnly], .inr rfl, fun _ _ _ hne => absurd rfl hne⟩
  · intro plan h
    refine (snapshotPlan_covers_iff openStep {} (by decide) plan h).2 ?_
    intro step hstep lower upper hbounds
    rw [List.mem_singleton.mp hstep] at hbounds
    cases hbounds

/-- A step below the target and a hot step after it. -/
def hotStepSecond : SourceStatistic ℕ where
  column := "id"
  totalRows := 1150
  confidence := .high
  steps :=
    [{ rangeHiKey := .number 100 true, equalRows := 10, rangeRows := 240,
       lowerKey := some (.number 0 true) },
     { rangeHiKey := .number 1100 true, equalRows := 0, rangeRows := 900,
       lowerKey := some (.number 100 true) }]

def targetTwoHundred : PlannerPolicy := { targetRows := some 200, maxPartitions := 8 }

/-- The parts of the hot step are numbered from the first again. -/
theorem hot_step_repeats_ids : ∃ plan, snapshotPlan hotStepSecond targetTwoHundred = .ok plan ∧
    ¬ PlanCovers hotStepSecond targetTwoHundred plan.partitions := by
  have hids : (snapshotPlan hotStepSecond targetTwoHundred).map
      (fun plan => plan.partitions.map (·.partitionId)) =
      .ok [rangeId 0, rangeId 0, rangeId 1, rangeId 2, rangeId 3, rangeId 4] := by
    decide +kernel
  cases h : snapshotPlan hotStepSecond targetTwoHundred with
  | error e =>
    rw [h] at hids
    cases hids
  | ok plan =>
    rw [h] at hids
    refine ⟨plan, rfl, fun hcovers => ?_⟩
    have hnodup := hcovers.ids
    have hlist : plan.partitions.map (·.partitionId) =
        [rangeId 0, rangeId 0, rangeId 1, rangeId 2, rangeId 3, rangeId 4] := Except.ok.inj hids
    rw [hlist] at hnodup
    exact absurd hnodup (by decide)

end Dpone.Partitioning
