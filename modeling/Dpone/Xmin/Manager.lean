import Dpone.Schemes.Wrapped

/-! The transaction windows of `runtime/xmin/manager.py`. A full transaction id is an epoch and 32
    low bits; a row shows only the low bits. What the database answers, the frozen id and the
    clock, are arguments. -/

namespace Dpone.Xmin
open Dpone.Schemes

/-- `epoch_mod`. -/
def epochMod : ℤ := 2 ^ 32

def splitXid (full : ℤ) : ℤ × ℤ := (full / epochMod, full % epochMod)

structure XMinState where
  xminValue : ℤ
  timestamp : ℕ
  isInitial : Bool := false
  wraparoundDetected : Bool := false
  frozenXid : Option ℤ := none
  deriving DecidableEq

/-- `calculate_safe_xmin`. -/
def calculateSafeXmin (now : ℕ) (frozenXid currentXmin : ℤ) (previousState : Option XMinState) :
    XMinState :=
  let epochDiff : ℤ := match previousState with
    | some previous => (splitXid currentXmin).1 - (splitXid previous.xminValue).1
    | none => 0
  if 1 < epochDiff then
    { xminValue := currentXmin, timestamp := now, isInitial := true, wraparoundDetected := true }
  else
    let currLow := currentXmin % epochMod
    let frozenDetected := frozenXid ≠ 0 ∧ currLow < frozenXid
    { xminValue := currentXmin, timestamp := now, isInitial := previousState.isNone,
      wraparoundDetected := previousState.isSome && epochDiff = 1,
      frozenXid := if frozenDetected then some frozenXid else none }

/-- `should_perform_full_refresh`. -/
def shouldPerformFullRefresh (state : XMinState) : Bool := state.isInitial

/-- The condition on the low bits of a row that a query is built with. -/
inductive WhereCondition where
  | everything
  | between (prevLow currLow : ℤ)
  | wrapped (prevLow currLow : ℤ)
  deriving DecidableEq

/-- The text of a condition. -/
def WhereCondition.text : WhereCondition → String
  | .everything => "TRUE"
  | .between prevLow currLow =>
    s!"(t.xmin::text::bigint >= {prevLow} AND t.xmin::text::bigint < {currLow})"
  | .wrapped prevLow currLow =>
    s!"(t.xmin::text::bigint >= {prevLow}) OR (t.xmin::text::bigint < {currLow})"

/-- Whether a row with these low bits meets the condition. -/
def WhereCondition.selects (low : ℤ) : WhereCondition → Prop
  | .everything => True
  | .between prevLow currLow => prevLow ≤ low ∧ low < currLow
  | .wrapped prevLow currLow => prevLow ≤ low ∨ low < currLow

/-- The condition of `build_incremental_query`, before a custom predicate. -/
def whereCondition (prevState : Option XMinState) (anchorFull : ℤ) : WhereCondition :=
  match prevState with
  | none => .everything
  | some previous =>
    let (currEpoch, currLow) := splitXid anchorFull
    let (prevEpoch, prevLow) := splitXid previous.xminValue
    let diff := currEpoch - prevEpoch
    if diff = 0 then .between prevLow currLow
    else if diff = 1 then .wrapped prevLow currLow
    else .everything

/-- `build_incremental_query`. -/
def buildIncrementalQuery (schema table : String) (prevState : Option XMinState) (anchorFull : ℤ)
    (columns : List String) (customPredicate : Option String) : String :=
  let columnsStr := if columns = [] then "*"
    else String.intercalate ", " (columns.map fun col => "\"" ++ col ++ "\"")
  let condition := (whereCondition prevState anchorFull).text
  let condition := match customPredicate with
    | some predicate => if predicate = "" then condition else s!"({condition}) AND ({predicate})"
    | none => condition
  "\n        SELECT " ++ columnsStr ++ ", t.xmin AS __dpone__xmin\n        FROM \"" ++ schema ++
    "\".\"" ++ table ++ "\" AS t\n        WHERE " ++ condition ++ "\n        "

/-! ### Successive runs -/

/-- What a run reads: its snapshot's anchor, the frozen id and the clock. -/
structure Reading where
  currentXmin : ℤ
  frozenXid : ℤ
  now : ℕ
  deriving DecidableEq

/-- A run: the state that it found, the one that it saves, and the condition it extracts with. -/
structure Sync where
  previous : Option XMinState
  saved : XMinState
  condition : WhereCondition
  deriving DecidableEq

def sync (previous : Option XMinState) (reading : Reading) : Sync where
  previous := previous
  saved := calculateSafeXmin reading.now reading.frozenXid reading.currentXmin previous
  condition := whereCondition previous reading.currentXmin

/-- Runs in which each finds the state that the one before it saved. -/
def syncs (previous : Option XMinState) : List Reading → List Sync
  | [] => []
  | reading :: readings =>
    sync previous reading :: syncs (some (sync previous reading).saved) readings

end Dpone.Xmin

/-! RUN: over strictly increasing anchors the runs leave no transaction id out, and a run falls back
    to a full refresh exactly when its query carries no window. A query with a window selects the
    low bits of the ids in it and no others, so it selects every row only where the window is a
    whole cycle long. -/

namespace Dpone.Xmin
open Dpone.Schemes

theorem epochMod_pos : 0 < epochMod := by decide

/-- A row of this full transaction id is selected. -/
def Sync.selects (run : Sync) (full : ℤ) : Prop := run.condition.selects (full % epochMod)

@[simp] theorem sync_previous (previous : Option XMinState) (reading : Reading) :
    (sync previous reading).previous = previous := rfl

@[simp] theorem sync_xminValue (previous : Option XMinState) (reading : Reading) :
    (sync previous reading).saved.xminValue = reading.currentXmin := by
  simp only [sync, calculateSafeXmin]
  split_ifs <;> rfl

/-- The anchor that a run starts from lies below its own. -/
def Advances (previous : Option XMinState) (reading : Reading) : Prop :=
  ∀ p, previous = some p → p.xminValue < reading.currentXmin

/-! ### The condition by the distance of the epochs -/

section Epochs
variable {p : XMinState} {anchor : ℤ}

theorem whereCondition_same (h : anchor / epochMod = p.xminValue / epochMod) :
    whereCondition (some p) anchor = .between (p.xminValue % epochMod) (anchor % epochMod) := by
  simp [whereCondition, splitXid, h]

theorem whereCondition_next (h : anchor / epochMod = p.xminValue / epochMod + 1) :
    whereCondition (some p) anchor = .wrapped (p.xminValue % epochMod) (anchor % epochMod) := by
  simp [whereCondition, splitXid, h]

theorem whereCondition_far (h : p.xminValue / epochMod + 1 < anchor / epochMod) :
    whereCondition (some p) anchor = .everything := by
  have hsame : ¬ anchor / epochMod - p.xminValue / epochMod = 0 := by omega
  have hnext : ¬ anchor / epochMod - p.xminValue / epochMod = 1 := by omega
  simp [whereCondition, splitXid, hsame, hnext]

theorem epoch_cases (h : p.xminValue < anchor) :
    anchor / epochMod = p.xminValue / epochMod ∨ anchor / epochMod = p.xminValue / epochMod + 1 ∨
      p.xminValue / epochMod + 1 < anchor / epochMod := by
  have hle := Int.ediv_le_ediv epochMod_pos h.le
  omega

end Epochs

theorem isInitial_some {p : XMinState} {reading : Reading} :
    (sync (some p) reading).saved.isInitial = true ↔
      p.xminValue / epochMod + 1 < reading.currentXmin / epochMod := by
  change XMinState.isInitial
    (ite (1 < reading.currentXmin / epochMod - p.xminValue / epochMod) _ _) = true ↔ _
  by_cases h : 1 < reading.currentXmin / epochMod - p.xminValue / epochMod
  · rw [if_pos h]
    exact ⟨fun _ => by omega, fun _ => rfl⟩
  · rw [if_neg h]
    exact ⟨nofun, fun hlt => absurd hlt (by omega)⟩

/-- CORRECT: the fallback is decided where the query carries no window. -/
theorem isInitial_iff {previous : Option XMinState} {reading : Reading}
    (h : Advances previous reading) :
    (sync previous reading).saved.isInitial = true ↔
      (sync previous reading).condition = .everything := by
  cases previous with
  | none => simp [sync, calculateSafeXmin, whereCondition]
  | some p =>
    rw [isInitial_some]
    change _ ↔ whereCondition (some p) reading.currentXmin = .everything
    rcases epoch_cases (h p rfl) with heq | heq | hlt
    · rw [whereCondition_same heq]
      exact ⟨fun _ => by omega, nofun⟩
    · rw [whereCondition_next heq]
      exact ⟨fun _ => by omega, nofun⟩
    · rw [whereCondition_far hlt]
      exact ⟨fun _ => rfl, fun _ => hlt⟩

/-- CORRECT: a window selects the low bits of the ids in it. -/
theorem selects_iff {p : XMinState} {reading : Reading} (h : p.xminValue < reading.currentXmin)
    {low : ℤ} (hlow : 0 ≤ low ∧ low < epochMod) :
    (sync (some p) reading).condition.selects low ↔
      (sync (some p) reading).condition = .everything ∨
        SeenIn epochMod p.xminValue reading.currentXmin low := by
  change (whereCondition (some p) reading.currentXmin).selects low ↔
    whereCondition (some p) reading.currentXmin = .everything ∨ _
  rcases epoch_cases h with heq | heq | hlt
  · rw [whereCondition_same heq, seenIn_same epochMod_pos hlow heq]
    simp [WhereCondition.selects]
  · rw [whereCondition_next heq, seenIn_next epochMod_pos hlow heq]
    simp [WhereCondition.selects]
  · rw [whereCondition_far hlt]
    simp [WhereCondition.selects]

/-- STEP: a run selects every id from the anchor that it found up to its own. -/
theorem selects_window {p : XMinState} {reading : Reading} {x : ℤ} (hle : p.xminValue ≤ x)
    (hlt : x < reading.currentXmin) : (sync (some p) reading).selects x :=
  (selects_iff (hle.trans_lt hlt) ⟨Int.emod_nonneg x epochMod_pos.ne',
    Int.emod_lt_of_pos x epochMod_pos⟩).mpr (.inr ⟨x, hle, hlt, rfl⟩)

/-- RUN: the runs after a saved state select every id from its anchor up to the last one. -/
theorem covered : ∀ {p : XMinState} {readings : List Reading} {x : ℤ}, p.xminValue ≤ x →
    x < (readings.map (·.currentXmin)).getLastD p.xminValue →
    ∃ run ∈ syncs (some p) readings, run.selects x
  | p, [], x, hle, hlt => absurd hle (not_le.mpr hlt)
  | p, reading :: readings, x, hle, hlt => by
    by_cases hnow : x < reading.currentXmin
    · exact ⟨_, List.mem_cons_self .., selects_window hle hnow⟩
    · have hnext : (sync (some p) reading).saved.xminValue ≤ x := by
        rw [sync_xminValue]
        exact not_lt.mp hnow
      have hlast : x < (readings.map (·.currentXmin)).getLastD
          (sync (some p) reading).saved.xminValue := by
        rwa [List.map_cons, List.getLastD_cons, ← sync_xminValue (some p)] at hlt
      obtain ⟨run, hrun, hselects⟩ := covered hnext hlast
      exact ⟨run, List.mem_cons_of_mem _ hrun, hselects⟩

/-- Every run of increasing anchors is a run that advances. -/
theorem syncs_advance : ∀ {previous : Option XMinState} {readings : List Reading},
    (∀ p, previous = some p → ∀ reading ∈ readings, p.xminValue < reading.currentXmin) →
    readings.Pairwise (·.currentXmin < ·.currentXmin) →
    ∀ run ∈ syncs previous readings, ∃ previous reading, Advances previous reading ∧
      run = sync previous reading
  | _, [], _, _, run, hrun => absurd hrun List.not_mem_nil
  | previous, reading :: readings, hprevious, hincreasing, run, hrun => by
    obtain ⟨hhead, htail⟩ := List.pairwise_cons.mp hincreasing
    rcases List.mem_cons.mp hrun with rfl | hrun
    · exact ⟨previous, reading, fun p hp => hprevious p hp reading (List.mem_cons_self ..), rfl⟩
    · refine syncs_advance ?_ htail run hrun
      rintro p hp next hnext
      obtain rfl := Option.some.inj hp
      rw [sync_xminValue]
      exact hhead next hnext

/-- A query selects every row where it carries no window or its window is a whole cycle. -/
theorem selects_everything_iff {previous : Option XMinState} {reading : Reading}
    (h : Advances previous reading) :
    (∀ low, 0 ≤ low → low < epochMod → (sync previous reading).condition.selects low) ↔
      (sync previous reading).condition = .everything ∨
        ∃ p, previous = some p ∧ epochMod ≤ reading.currentXmin - p.xminValue := by
  cases previous with
  | none => simp [sync, whereCondition, WhereCondition.selects]
  | some p =>
    have hall := seenIn_all epochMod_pos p.xminValue reading.currentXmin
    constructor
    · intro hselects
      by_cases heverything : (sync (some p) reading).condition = .everything
      · exact .inl heverything
      · refine .inr ⟨p, rfl, hall.mp fun low hlow hlt => ?_⟩
        exact ((selects_iff (h p rfl) ⟨hlow, hlt⟩).mp (hselects low hlow hlt)).resolve_left
          heverything
    · rintro (heverything | ⟨q, hq, hcycle⟩) low hlow hlt
      · exact (selects_iff (h p rfl) ⟨hlow, hlt⟩).mpr (.inl heverything)
      · obtain rfl := Option.some.inj hq
        exact (selects_iff (h p rfl) ⟨hlow, hlt⟩).mpr (.inr (hall.mpr hcycle low hlow hlt))

/-- Whether a query selects every row, whatever its low bits. -/
def Sync.selectsEverything (run : Sync) : Prop :=
  ∀ low, 0 ≤ low → low < epochMod → run.condition.selects low

/-- RUN: for strictly increasing anchors, every id from the first up to the last is selected by one
    of the runs after the first, whatever that one found. A run falls back to a full refresh exactly
    when its query carries no window; a query with a window selects every row exactly when the
    window is a whole cycle long. -/
theorem windows_have_no_gap (previous : Option XMinState) (first : Reading)
    (readings : List Reading) (hprevious : Advances previous first)
    (hincreasing : (first :: readings).Pairwise (·.currentXmin < ·.currentXmin)) :
    (∀ x, first.currentXmin ≤ x →
      x < (readings.map (·.currentXmin)).getLastD first.currentXmin →
      ∃ run ∈ (syncs previous (first :: readings)).tail, run.selects x) ∧
    ∀ run ∈ syncs previous (first :: readings),
      (shouldPerformFullRefresh run.saved = true ↔ run.condition = .everything) ∧
      (run.selectsEverything ↔ run.condition = .everything ∨
          ∃ p, run.previous = some p ∧ epochMod ≤ run.saved.xminValue - p.xminValue) := by
  constructor
  · intro x hle hlt
    refine covered ?_ ?_
    · rwa [sync_xminValue]
    · rwa [sync_xminValue]
  · intro run hrun
    have hall : ∀ p, previous = some p → ∀ reading ∈ first :: readings,
        p.xminValue < reading.currentXmin := by
      intro p hp reading hreading
      have hfirst := hprevious p hp
      rcases List.mem_cons.mp hreading with rfl | hlater
      · exact hfirst
      · exact hfirst.trans ((List.pairwise_cons.mp hincreasing).1 reading hlater)
    obtain ⟨found, reading, hadvances, rfl⟩ := syncs_advance hall hincreasing run hrun
    refine ⟨isInitial_iff hadvances, ?_⟩
    rw [Sync.selectsEverything, selects_everything_iff hadvances, sync_xminValue, sync_previous]

/-- Anchors on both sides of two borders between epochs, the second in a fallback. -/
def borderReadings : List Reading :=
  [⟨2 ^ 32 - 1, 0, 0⟩, ⟨2 ^ 32 + 3, 0, 1⟩, ⟨2 ^ 34, 0, 2⟩]

theorem windows_have_no_gap_at_borders :
    (∀ x, 5 ≤ x → x < (borderReadings.map (·.currentXmin)).getLastD 5 →
      ∃ run ∈ (syncs none (⟨5, 0, 0⟩ :: borderReadings)).tail, run.selects x) ∧
    ∀ run ∈ syncs none (⟨5, 0, 0⟩ :: borderReadings),
      (shouldPerformFullRefresh run.saved = true ↔ run.condition = .everything) ∧
      (run.selectsEverything ↔ run.condition = .everything ∨
          ∃ p, run.previous = some p ∧ epochMod ≤ run.saved.xminValue - p.xminValue) :=
  windows_have_no_gap none ⟨5, 0, 0⟩ borderReadings nofun (by decide)

/-- A window of a whole cycle and two ids: every row is selected and no fallback is decided. -/
theorem whole_cycle_without_fallback :
    ¬ ∀ run ∈ syncs none [⟨5, 0, 0⟩, ⟨2 ^ 32 + 7, 0, 1⟩],
      (shouldPerformFullRefresh run.saved = true ↔ run.selectsEverything) := by
  intro h
  let run := sync (some (sync none ⟨5, 0, 0⟩).saved) ⟨2 ^ 32 + 7, 0, 1⟩
  have hrun := h run (by simp [syncs, run])
  have hselects : run.selectsEverything := by
    intro low _ _
    change (5 : ℤ) ≤ low ∨ low < 7
    omega
  exact absurd (hrun.mpr hselects) (by decide)

end Dpone.Xmin
