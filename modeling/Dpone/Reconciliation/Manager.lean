import Mathlib.Data.Int.Notation
import Mathlib.Data.List.Dedup
import Mathlib.Data.Int.Order.Basic
import Dpone.Schemes.Run

/-! The reconciliation manager: snapshots of source keys, and what it deletes.

    A run stores the keys of the source under its own timestamp, keeps the two newest snapshots and
    soft-deletes what the older of them has and the newer has not. Every external call may fail,
    with or without effect; `Reply` says how it went, and a run is a function of its replies. -/

namespace Dpone.Reconciliation

/-- How an external call went. -/
inductive Reply where
  | done
  | failed (effect : Bool)
  deriving DecidableEq

/-- The load job of a whole snapshot; an error that names the schema has the table recreated and
    the load repeated (`none`: the recreation itself failed). -/
inductive LoadReply where
  | done
  | failed (effect : Bool)
  | schemaMismatch (reload : Option Reply)
  deriving DecidableEq

/-- The comparison query; an error that reads like a missing column counts as nothing to do. -/
inductive CompareReply where
  | done
  | unusable
  | failed
  deriving DecidableEq

/-- A row of the `__rs` table; the key stands for the texts of the unique key columns. -/
structure SnapshotRow (K : Type) where
  key : K
  loadedAt : ℤ
  deriving DecidableEq

/-- One call of `process_reconciliation`: the source as it lists its keys, and every reply. -/
structure ReconciliationRun (K : Type) where
  now : ℤ
  source : List K
  separate : Bool
  batchSize : ℕ
  readFails : ℕ → Bool
  wholeLoad : LoadReply
  gcs : ℕ → Option Reply
  direct : ℕ → Reply
  count : Reply
  prune : Reply
  compare : CompareReply
  softDelete : Reply
  softDeletedRows : ℕ
  log : Reply

variable {K : Type} [DecidableEq K]

/-! ### Queries -/

/-- The newest timestamp of the table. -/
def newest (rows : List (SnapshotRow K)) : Option ℤ := (rows.map (·.loadedAt)).max?

/-- The second newest of the distinct timestamps. -/
def previous (rows : List (SnapshotRow K)) : Option ℤ :=
  ((rows.map (·.loadedAt)).filter fun t => some t ≠ newest rows).max?

/-- `bq_get_snapshot_count`. -/
def snapshotCount (rows : List (SnapshotRow K)) : ℕ := (rows.map (·.loadedAt)).dedup.length

/-- `bq_prune_old_snapshots`. -/
def pruneOldSnapshots (rows : List (SnapshotRow K)) : List (SnapshotRow K) :=
  rows.filter fun r => some r.loadedAt = newest rows ∨ some r.loadedAt = previous rows

/-- `bq_get_deleted_keys`: keys of the older of the two newest snapshots without a match in the
    newer one. -/
def getDeletedKeys (rows : List (SnapshotRow K)) : List K :=
  (rows.filter fun prev => some prev.loadedAt = previous rows ∧
    ¬ rows.any fun curr => some curr.loadedAt = newest rows ∧ curr.key = prev.key).map (·.key)

/-! ### Snapshots -/

section Snapshot
variable (run : ReconciliationRun K) (rows : List (SnapshotRow K))

def ReconciliationRun.stamp (keys : List K) : List (SnapshotRow K) := keys.map (⟨·, run.now⟩)

/-- A load job appends its whole file or nothing. -/
def ReconciliationRun.append (keys : List K) (effect : Bool) : List (SnapshotRow K) :=
  if effect then rows ++ run.stamp keys else rows

/-- `insert_snapshot_whole`: whether it returned, and the table. Any error but a schema mismatch is
    logged and swallowed; an empty source leaves no row. -/
def insertSnapshotWhole : Bool × List (SnapshotRow K) :=
  if run.readFails 0 then (true, rows)
  else if run.source = [] then (true, rows)
  else
    match run.wholeLoad with
    | .done => (true, run.append rows run.source true)
    | .failed effect => (true, run.append rows run.source effect)
    | .schemaMismatch none => (false, [])
    | .schemaMismatch (some .done) => (true, run.append [] run.source true)
    | .schemaMismatch (some (.failed effect)) => (false, run.append [] run.source effect)

/-- `load_snapshot_batch_direct`. -/
def loadBatchDirect (batchNum : ℕ) (page : List K) (rows : List (SnapshotRow K)) :
    Bool × List (SnapshotRow K) :=
  match run.direct batchNum with
  | .done => (true, run.append rows page true)
  | .failed effect => (false, run.append rows page effect)

/-- `load_snapshot_batch_via_gcs`: a failed GCS route falls back to the direct load. -/
def loadBatch (batchNum : ℕ) (page : List K) (rows : List (SnapshotRow K)) :
    Bool × List (SnapshotRow K) :=
  match run.gcs batchNum with
  | none => loadBatchDirect run batchNum page rows
  | some .done => (true, run.append rows page true)
  | some (.failed effect) => loadBatchDirect run batchNum page (run.append rows page effect)

/-- The loop of `insert_snapshot_batched`; every page but the last is nonempty, so the length of the
    source is fuel enough. -/
def insertBatches : ℕ → ℕ → ℕ → List (SnapshotRow K) → Bool × List (SnapshotRow K)
  | 0, _, _, rows => (true, rows)
  | fuel + 1, batchNum, offset, rows =>
    let page := (run.source.drop offset).take run.batchSize
    if run.readFails batchNum then (false, rows)
    else if page = [] then (true, rows)
    else
      match loadBatch run batchNum page rows with
      | (true, rows) => insertBatches fuel (batchNum + 1) (offset + run.batchSize) rows
      | (false, rows) => (false, rows)

/-- `insert_snapshot_from_source`. -/
def insertSnapshot : Bool × List (SnapshotRow K) :=
  if run.separate then insertBatches run (run.source.length + 1) 1 0 rows
  else insertSnapshotWhole run rows

end Snapshot

/-! ### One run -/

/-- What a run leaves behind: the source it met, whether a row of it was stored, whether the run
    completed, the keys it passed to a soft delete and those of a soft delete that completed. -/
structure RunRecord (K : Type) where
  source : List K
  taken : Bool
  completed : Bool
  passed : List K
  deleted : List K
  deriving DecidableEq

section Process
variable (run : ReconciliationRun K)

/-- `_compare_snapshots_and_soft_delete`: completed, passed, deleted. -/
def compareAndSoftDelete (rows : List (SnapshotRow K)) : Bool × List K × List K :=
  match run.compare with
  | .failed => (false, [], [])
  | .unusable => (true, [], [])
  | .done =>
    let keys := getDeletedKeys rows
    if keys = [] then (true, [], [])
    else
      match run.softDelete with
      | .failed _ => (false, keys, [])
      | .done => (decide (run.softDeletedRows = 0 ∨ run.log = .done), keys, keys)

/-- `process_reconciliation`, after the snapshot. -/
def compareSnapshots (rows : List (SnapshotRow K)) :
    (Bool × List K × List K) × List (SnapshotRow K) :=
  if run.count ≠ .done then ((false, [], []), rows)
  else if snapshotCount rows < 2 then ((true, [], []), rows)
  else
    match run.prune with
    | .failed effect => ((false, [], []), if effect then pruneOldSnapshots rows else rows)
    | .done => (compareAndSoftDelete run (pruneOldSnapshots rows), pruneOldSnapshots rows)

/-- `process_reconciliation`. -/
def processReconciliation (rows : List (SnapshotRow K)) :
    RunRecord K × List (SnapshotRow K) :=
  let (returned, stored) := insertSnapshot run rows
  let taken := stored.any fun r => r.loadedAt = run.now
  if returned then
    let ((completed, passed, deleted), rows) := compareSnapshots run stored
    (⟨run.source, taken, completed, passed, deleted⟩, rows)
  else (⟨run.source, taken, false, [], []⟩, stored)

end Process

/-! ### Any number of runs -/

/-- The snapshot table, the last timestamp and the runs, newest first. -/
structure ReconciliationWorld (K : Type) where
  rows : List (SnapshotRow K)
  clock : ℤ
  history : List (RunRecord K)

def ReconciliationWorld.start (clock : ℤ) : ReconciliationWorld K := ⟨[], clock, []⟩

/-- Timestamps of runs strictly increase. -/
inductive ReconciliationStep :
    ReconciliationWorld K → ReconciliationRun K → ReconciliationWorld K → Prop
  | run {w : ReconciliationWorld K} (run : ReconciliationRun K) (later : w.clock < run.now) :
      ReconciliationStep w run ⟨(processReconciliation run w.rows).2, run.now,
        (processReconciliation run w.rows).1 :: w.history⟩

end Dpone.Reconciliation

/-! Which runs lose no delete.

    Deletions are read off the two newest snapshots, so a run may only move the newest snapshot on
    when it stores the whole source and deletes what is lost, or when nothing is lost. Then every
    key that is gone from the newest snapshot has been deleted since it was last in one. A source
    that is empty leaves no snapshot, a swallowed error compares old ones, and a failure after the
    snapshot is stored moves the base of the next comparison past keys that were never deleted. -/

namespace Dpone.Reconciliation
open Dpone.Schemes

variable {K : Type} [DecidableEq K] {rows rows' : List (SnapshotRow K)} {run : ReconciliationRun K}

/-! ### Newest and previous snapshot -/

omit [DecidableEq K] in
theorem newest_eq_some {t : ℤ} : newest rows = some t ↔
    (∃ r ∈ rows, r.loadedAt = t) ∧ ∀ r ∈ rows, r.loadedAt ≤ t := by
  unfold newest
  rw [List.max?_eq_some_iff]
  simp

omit [DecidableEq K] in
theorem newest_eq_none : newest rows = none ↔ rows = [] := by
  unfold newest
  simp

omit [DecidableEq K] in
theorem previous_eq_some {t : ℤ} : previous rows = some t ↔
    (∃ r ∈ rows, r.loadedAt = t) ∧ some t ≠ newest rows ∧
      ∀ r ∈ rows, some r.loadedAt ≠ newest rows → r.loadedAt ≤ t := by
  unfold previous
  rw [List.max?_eq_some_iff]
  simp [and_assoc]

omit [DecidableEq K] in
theorem mem_prune {r : SnapshotRow K} : r ∈ pruneOldSnapshots rows ↔
    r ∈ rows ∧ (some r.loadedAt = newest rows ∨ some r.loadedAt = previous rows) := by
  simp [pruneOldSnapshots]

omit [DecidableEq K] in
theorem newest_prune : newest (pruneOldSnapshots rows) = newest rows := by
  cases h : newest rows with
  | none => rw [newest_eq_none.mp h]; rfl
  | some t =>
    obtain ⟨⟨r, hr, hrt⟩, hle⟩ := newest_eq_some.mp h
    refine newest_eq_some.mpr ⟨⟨r, mem_prune.mpr ⟨hr, .inl (by rw [hrt, h])⟩, hrt⟩, fun s hs => ?_⟩
    exact hle s (mem_prune.mp hs).1

omit [DecidableEq K] in
theorem previous_prune : previous (pruneOldSnapshots rows) = previous rows := by
  cases h : previous rows with
  | none =>
    cases h' : previous (pruneOldSnapshots rows) with
    | none => rfl
    | some t =>
      obtain ⟨⟨r, hr, rfl⟩, hne, -⟩ := previous_eq_some.mp h'
      rw [newest_prune] at hne
      rcases (mem_prune.mp hr).2 with hnew | hprev
      · exact absurd hnew hne
      · rw [h] at hprev; cases hprev
  | some t =>
    obtain ⟨⟨r, hr, hrt⟩, hne, hle⟩ := previous_eq_some.mp h
    refine previous_eq_some.mpr ⟨⟨r, mem_prune.mpr ⟨hr, .inr (by rw [hrt, h])⟩, hrt⟩, ?_, ?_⟩
    · rw [newest_prune]; exact hne
    · intro s hs hs'
      rw [newest_prune] at hs'
      exact hle s (mem_prune.mp hs).1 hs'

theorem mem_getDeletedKeys {k : K} : k ∈ getDeletedKeys rows ↔
    (∃ r ∈ rows, r.key = k ∧ some r.loadedAt = previous rows) ∧
      ¬ ∃ r ∈ rows, r.key = k ∧ some r.loadedAt = newest rows := by
  unfold getDeletedKeys
  simp only [List.mem_map, List.mem_filter, List.any_eq_true, decide_eq_true_eq]
  constructor
  · rintro ⟨r, ⟨hr, hprev, hnone⟩, rfl⟩
    exact ⟨⟨r, hr, rfl, hprev⟩, fun ⟨s, hs, hkey, hnew⟩ => hnone ⟨s, hs, hnew, hkey⟩⟩
  · rintro ⟨⟨r, hr, rfl, hprev⟩, hnone⟩
    exact ⟨r, ⟨hr, hprev, fun ⟨s, hs, hnew, hkey⟩ => hnone ⟨s, hs, hkey, hnew⟩⟩, rfl⟩

/-- The keys of the newest snapshot. -/
def lastKeys (rows : List (SnapshotRow K)) : List K :=
  (rows.filter fun r => some r.loadedAt = newest rows).map (·.key)

omit [DecidableEq K] in
theorem mem_lastKeys {k : K} :
    k ∈ lastKeys rows ↔ ∃ r ∈ rows, r.key = k ∧ some r.loadedAt = newest rows := by
  unfold lastKeys
  simp only [List.mem_map, List.mem_filter, decide_eq_true_eq]
  constructor
  · rintro ⟨r, ⟨hr, hnew⟩, rfl⟩; exact ⟨r, hr, rfl, hnew⟩
  · rintro ⟨r, hr, rfl, hnew⟩; exact ⟨r, ⟨hr, hnew⟩, rfl⟩

/-! ### A snapshot of the whole source -/

/-- The rows of a run's snapshot, beside the older ones. -/
def Stored (run : ReconciliationRun K) (rows rows' : List (SnapshotRow K)) : Prop :=
  ∀ r, r ∈ rows' ↔ r ∈ rows ∨ r.loadedAt = run.now ∧ r.key ∈ run.source

/-- A nonempty source that is read and loaded without an error; page `i` is loaded when it has a
    row, and read when the page before it has one. -/
def SnapshotTaken (run : ReconciliationRun K) : Prop :=
  run.source ≠ [] ∧
    if run.separate then 0 < run.batchSize ∧
      (∀ i, i * run.batchSize < run.source.length + run.batchSize → run.readFails (i + 1) = false) ∧
      ∀ i, i * run.batchSize < run.source.length →
        run.direct (i + 1) = .done ∨ run.gcs (i + 1) = some .done
    else run.readFails 0 = false ∧ run.wholeLoad = .done

/-- A separate-mode snapshot that fails before its first row is stored. -/
def SnapshotRefused (run : ReconciliationRun K) : Prop :=
  run.separate = true ∧ (run.readFails 1 = true ∨
    run.source ≠ [] ∧ 0 < run.batchSize ∧ run.direct 1 = .failed false ∧
      (run.gcs 1 = none ∨ run.gcs 1 = some (.failed false)))

omit [DecidableEq K] in
theorem mem_append {keys : List K} {effect : Bool} {r : SnapshotRow K} :
    r ∈ run.append rows keys effect ↔
      r ∈ rows ∨ effect = true ∧ r.loadedAt = run.now ∧ r.key ∈ keys := by
  have hstamp : r ∈ run.stamp keys ↔ r.loadedAt = run.now ∧ r.key ∈ keys := by
    unfold ReconciliationRun.stamp
    rw [List.mem_map]
    constructor
    · rintro ⟨k, hk, rfl⟩; exact ⟨rfl, hk⟩
    · rintro ⟨ht, hk⟩; exact ⟨r.key, hk, by rw [← ht]⟩
  cases effect <;> simp [ReconciliationRun.append, hstamp]

omit [DecidableEq K] in
theorem loadBatch_done {batchNum : ℕ} {page : List K}
    (h : run.direct batchNum = .done ∨ run.gcs batchNum = some .done) :
    ∃ rows', loadBatch run batchNum page rows = (true, rows') ∧
      ∀ r, r ∈ rows' ↔ r ∈ rows ∨ r.loadedAt = run.now ∧ r.key ∈ page := by
  unfold loadBatch
  cases hgcs : run.gcs batchNum with
  | none =>
    have hdirect := h.resolve_right (by rw [hgcs]; nofun)
    exact ⟨_, by simp only [loadBatchDirect, hdirect]; rfl, fun r => by simp [mem_append]⟩
  | some reply =>
    cases reply with
    | done => exact ⟨_, rfl, fun r => by simp [mem_append]⟩
    | failed effect =>
      have hdirect := h.resolve_right (by rw [hgcs]; nofun)
      refine ⟨_, by simp only [loadBatchDirect, hdirect]; rfl, fun r => ?_⟩
      simp only [mem_append, true_and]
      tauto

/-- The pages of a source that does not change are its rows. -/
theorem insertBatches_stored (hsize : 0 < run.batchSize)
    (hread : ∀ i, i * run.batchSize < run.source.length + run.batchSize →
      run.readFails (i + 1) = false)
    (hload : ∀ i, i * run.batchSize < run.source.length →
      run.direct (i + 1) = .done ∨ run.gcs (i + 1) = some .done) :
    ∀ (fuel i : ℕ) (rows : List (SnapshotRow K)),
      i * run.batchSize < run.source.length + run.batchSize →
      run.source.length < fuel + i * run.batchSize →
      ∃ rows', insertBatches run fuel (i + 1) (i * run.batchSize) rows = (true, rows') ∧
        ∀ r, r ∈ rows' ↔ r ∈ rows ∨
          r.loadedAt = run.now ∧ r.key ∈ run.source.drop (i * run.batchSize)
  | 0, i, rows, _, hfuel => by
    refine ⟨rows, rfl, fun r => ?_⟩
    rw [List.drop_eq_nil_of_le (by omega)]
    simp
  | fuel + 1, i, rows, hi, hfuel => by
    unfold insertBatches
    rw [if_neg (by rw [hread i hi]; nofun)]
    by_cases hpage : (run.source.drop (i * run.batchSize)).take run.batchSize = []
    · rw [if_pos hpage]
      have hnil : run.source.drop (i * run.batchSize) = [] :=
        (List.take_eq_nil_iff.mp hpage).resolve_left (Nat.pos_iff_ne_zero.mp hsize)
      exact ⟨rows, rfl, fun r => by simp [hnil]⟩
    · have hrow : i * run.batchSize < run.source.length := by
        by_contra hge
        exact hpage (by rw [List.drop_eq_nil_of_le (Nat.not_lt.mp hge), List.take_nil])
      have hnext : (i + 1) * run.batchSize = i * run.batchSize + run.batchSize := by
        rw [Nat.add_mul, Nat.one_mul]
      have hdone := hload i hrow
      obtain ⟨rows₁, hbatch, hrows₁⟩ : ∃ rows₁, loadBatch run (i + 1)
          ((run.source.drop (i * run.batchSize)).take run.batchSize) rows = (true, rows₁) ∧
          ∀ r, r ∈ rows₁ ↔ r ∈ rows ∨ r.loadedAt = run.now ∧
            r.key ∈ (run.source.drop (i * run.batchSize)).take run.batchSize :=
        loadBatch_done hdone
      obtain ⟨rows', hrest, hrows'⟩ := insertBatches_stored hsize hread hload fuel (i + 1) rows₁
        (by omega) (by omega)
      rw [if_neg hpage, hbatch]
      refine ⟨rows', by rw [← hrest, hnext], fun r => ?_⟩
      have hsplit : r.key ∈ run.source.drop (i * run.batchSize) ↔
          r.key ∈ (run.source.drop (i * run.batchSize)).take run.batchSize ∨
            r.key ∈ run.source.drop ((i + 1) * run.batchSize) := by
        rw [hnext, ← List.drop_drop, ← List.mem_append, List.take_append_drop]
      rw [hrows', hrows₁, hsplit]
      tauto

theorem insertSnapshot_taken (h : SnapshotTaken run) (rows : List (SnapshotRow K)) :
    ∃ rows', insertSnapshot run rows = (true, rows') ∧ Stored run rows rows' := by
  obtain ⟨hne, hmode⟩ := h
  unfold insertSnapshot
  cases hsep : run.separate with
  | true =>
    rw [hsep, if_pos rfl] at hmode
    obtain ⟨hsize, hread, hload⟩ := hmode
    obtain ⟨rows', hbatches, hrows'⟩ := insertBatches_stored hsize hread hload
      (run.source.length + 1) 0 rows (by omega) (by omega)
    rw [if_pos rfl]
    refine ⟨rows', by simpa using hbatches, fun r => ?_⟩
    simpa using hrows' r
  | false =>
    rw [hsep, if_neg nofun] at hmode
    rw [if_neg nofun]
    refine ⟨run.append rows run.source true, ?_, fun r => by simp [mem_append]⟩
    unfold insertSnapshotWhole
    rw [if_neg (by rw [hmode.1]; nofun), if_neg hne, hmode.2]

omit [DecidableEq K] in
theorem insertSnapshot_refused (h : SnapshotRefused run) (rows : List (SnapshotRow K)) :
    insertSnapshot run rows = (false, rows) := by
  obtain ⟨hsep, hfail⟩ := h
  unfold insertSnapshot
  rw [if_pos hsep]
  unfold insertBatches
  rcases hfail with hread | ⟨hne, hsize, hdirect, hgcs⟩
  · rw [if_pos hread]
  · by_cases hread : run.readFails 1 = true
    · rw [if_pos hread]
    · have hpage : (run.source.drop 0).take run.batchSize ≠ [] := by
        rw [List.drop_zero, ne_eq, List.take_eq_nil_iff]
        exact fun h => h.elim (Nat.pos_iff_ne_zero.mp hsize) hne
      have hbatch : loadBatch run 1 ((run.source.drop 0).take run.batchSize) rows =
          (false, rows) := by
        rcases hgcs with hgcs | hgcs <;>
          simp [loadBatch, hgcs, loadBatchDirect, hdirect, ReconciliationRun.append]
      rw [if_neg hread, if_neg hpage, hbatch]

end Dpone.Reconciliation
