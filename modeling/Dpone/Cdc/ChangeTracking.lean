import Mathlib.Data.List.Sort
import Dpone.Schemes.Numeral
import Dpone.Schemes.Run
import Dpone.Cdc.Change

/-! The SQL Server Change Tracking reader against concurrent writers.

    `read_batch` asks for the current version first and for the changed keys second, in separate
    statements; the version becomes the next token whatever the row cap cut off. Change Tracking
    keeps one net change per key, at the version that changed the key last. -/

namespace Dpone.Cdc
open Dpone.Schemes

variable {K V : Type} [DecidableEq K]

/-- A row of `CHANGETABLE(CHANGES t, version)`: the net change of one key. -/
structure TrackedRow (K : Type) where
  key : K
  version : ℕ
  operation : Char
  deriving DecidableEq

/-- A tracked table: its current version, one net change per changed key, the rows it holds now,
    and how a key spells its primary-key columns. -/
structure TrackingSource (K V : Type) where
  columns : List Str
  primaryKeys : List Str
  keyColumn : K → Str → Option V
  version : ℕ
  changes : List (TrackedRow K)
  table : K → Option (RowData V)

structure MSSQLChangeTrackingReaderConfig where
  sourceSchema : Str
  sourceTable : Str

/-- `_operation_map`. -/
def trackingOperation : Char → Option CDCOperation
  | 'I' => some .insert
  | 'U' => some .update
  | 'D' => some .delete
  | _ => none

/-- `ORDER BY CT.SYS_CHANGE_VERSION`. -/
def versionLe (a b : TrackedRow K) : Prop := a.version ≤ b.version

instance : DecidableRel (versionLe (K := K)) := fun _ _ => inferInstanceAs (Decidable (_ ≤ _))

/-- The changes the query selects before its `TOP`. -/
def changesSince (db : TrackingSource K V) (start : ℕ) : List (TrackedRow K) :=
  (db.changes.filter fun r => start < r.version).insertionSort versionLe

/-- `_select_columns_sql`: a primary-key column falls back on the key of a deleted row. -/
def selectColumn (db : TrackingSource K V) (key : K) (column : Str) : Option V :=
  let joined := ((db.table key).bind fun row => row.lookup column).join
  if column ∈ db.primaryKeys then joined <|> db.keyColumn key column else joined

variable (cfg : MSSQLChangeTrackingReaderConfig)

/-- The change of one selected row. -/
def trackedChange (db : TrackingSource K V) (r : TrackedRow K) : Option (CDCChange V) :=
  (trackingOperation r.operation).map fun op =>
    { operation := op
      data := db.columns.map fun c => (c, selectColumn db r.key c)
      position := decimalText r.version
      sourceSchema := cfg.sourceSchema, sourceTable := cfg.sourceTable
      metadata := [("backend".toList, "mssql_change_tracking".toList)] }

/-- `int(start_offset.token)`, zero without a token. -/
def startVersion (token : Option Str) : ℕ := (token.bind decimalValue).getD 0

/-- The second half of `read_batch`: the changes since the token, at a later moment than the
    watermark was taken. -/
def readTracked (db : TrackingSource K V) (token : Option Str) (watermark maxChanges : ℕ) :
    CDCBatch V :=
  let rows := (changesSince db (startVersion token)).take maxChanges
  { changes := rows.filterMap (trackedChange cfg db)
    nextOffset := some (decimalText watermark), highWatermark := some (decimalText watermark) }

/-! ### Runs of writers and reads -/

/-- The table, the reader's saved token, the watermark of a read in progress, and the rows of the
    changes returned so far. -/
structure TrackingState (K V : Type) where
  source : TrackingSource K V
  token : Option Str
  watermark : Option ℕ
  returned : List (TrackedRow K)

inductive TrackingStep (K V : Type) where
  /-- A transaction commits: the version moves on, and each changed key's net change with it. -/
  | commit (changed : List (K × Char)) (table : K → Option (RowData V))
  /-- `CHANGE_TRACKING_CURRENT_VERSION()`. -/
  | begin
  /-- The query for changes, whose offset becomes the saved token. -/
  | finish (maxChanges : ℕ)
  /-- A read that raises at either statement. -/
  | failed

/-- The rows a read returns as changes. -/
def returnedTracked (db : TrackingSource K V) (token : Option Str) (maxChanges : ℕ) :
    List (TrackedRow K) :=
  ((changesSince db (startVersion token)).take maxChanges).filter
    fun r => (trackingOperation r.operation).isSome

omit [DecidableEq K] in
/-- CORRECT: the returned rows are the ones the batch's changes come from, in order. -/
theorem readTracked_changes (db : TrackingSource K V) (token : Option Str) (watermark n : ℕ) :
    (readTracked cfg db token watermark n).changes =
      (returnedTracked db token n).filterMap (trackedChange cfg db) := by
  unfold readTracked returnedTracked
  rw [List.filterMap_filter]
  refine List.filterMap_congr fun r _ => ?_
  cases hr : trackingOperation r.operation <;> simp [trackedChange, hr]

/-- A commit's effect on the tracked changes: the changed keys move to the new version. -/
def commitSource (db : TrackingSource K V) (changed : List (K × Char))
    (table : K → Option (RowData V)) : TrackingSource K V :=
  { db with
    version := db.version + 1
    changes := db.changes.filter (fun r => r.key ∉ changed.map (·.1)) ++
      changed.map fun c => { key := c.1, version := db.version + 1, operation := c.2 }
    table := table }

def TrackingStep.step : TrackingState K V → TrackingStep K V → TrackingState K V → Prop
  | s, .commit changed table, s' =>
    (changed.map (·.1)).Nodup ∧ (∀ c ∈ changed, (trackingOperation c.2).isSome) ∧
    s' = { s with source := commitSource s.source changed table }
  | s, .begin, s' => s' = { s with watermark := some s.source.version }
  | s, .finish maxChanges, s' =>
    0 < maxChanges ∧ ∃ watermark, s.watermark = some watermark ∧
      s' = { s with
        token := (readTracked cfg s.source s.token watermark maxChanges).nextOffset
        watermark := none
        returned := s.returned ++ returnedTracked s.source s.token maxChanges }
  | s, .failed, s' => s' = { s with watermark := none }

/-- A tracked table nobody has read yet. -/
structure TrackingStart (K V : Type) where
  columns : List Str
  primaryKeys : List Str
  keyColumn : K → Str → Option V
  table : K → Option (RowData V)

def TrackingStart.state (i : TrackingStart K V) : TrackingState K V :=
  { source := { columns := i.columns, primaryKeys := i.primaryKeys, keyColumn := i.keyColumn
                version := 0, changes := [], table := i.table }
    token := none, watermark := none, returned := [] }

/-- LOSSLESS: every net change at or before the saved token has been returned. -/
def NothingUnread (s : TrackingState K V) : Prop :=
  ∀ r ∈ s.source.changes, r.version ≤ startVersion s.token → r ∈ s.returned

/-- Beyond the cap there are only changes newer than the watermark, or returned by an earlier read
    (as committed between its two statements). -/
def RoomForWatermark (s : TrackingState K V) : TrackingStep K V → Prop
  | .finish maxChanges => ∀ watermark, s.watermark = some watermark →
      ∀ r ∈ (changesSince s.source (startVersion s.token)).drop maxChanges,
        r.version ≤ watermark → r ∈ s.returned
  | _ => True

/-! ### What reads leave unread -/

/-- INVARIANT of every run. -/
structure TrackingInv (s : TrackingState K V) : Prop where
  keys_nodup : (s.source.changes.map (·.key)).Nodup
  operations : ∀ r ∈ s.source.changes, (trackingOperation r.operation).isSome
  token_le : startVersion s.token ≤ s.source.version
  watermark_le : ∀ w ∈ s.watermark, w ≤ s.source.version

@[simp] theorem startVersion_decimalText (n : ℕ) : startVersion (some (decimalText n)) = n := by
  rw [startVersion, Option.bind_some, decimalValue_decimalText]; rfl

omit [DecidableEq K] in
theorem changesSince_spec (db : TrackingSource K V) (start : ℕ) :
    (changesSince db start).Perm (db.changes.filter fun r => start < r.version) :=
  List.perm_insertionSort ..

/-- STEP: the invariant. -/
theorem trackingInv_step {s s' : TrackingState K V} {l : TrackingStep K V} (h : TrackingInv s)
    (hs : TrackingStep.step cfg s l s') : TrackingInv s' := by
  cases l with
  | begin =>
    rw [show s' = { s with watermark := some s.source.version } from hs]
    exact { h with watermark_le := fun w hw => (Option.mem_some_iff.mp hw).symm.le }
  | failed =>
    rw [show s' = { s with watermark := none } from hs]
    exact { h with watermark_le := nofun }
  | finish n =>
    obtain ⟨-, w, hw, rfl⟩ := hs
    exact { h with
      token_le := by simpa [readTracked] using h.watermark_le w hw
      watermark_le := nofun }
  | commit changed table =>
    obtain ⟨hnodup, hops, rfl⟩ := hs
    refine { keys_nodup := ?_, operations := fun r hr => ?_, token_le := ?_, watermark_le := ?_ }
    · have hmap : ((commitSource s.source changed table).changes.map (·.key)) =
          (s.source.changes.filter fun r => r.key ∉ changed.map (·.1)).map (·.key) ++
            changed.map (·.1) := by
        simp [commitSource, Function.comp_def]
      change ((commitSource s.source changed table).changes.map (·.key)).Nodup
      rw [hmap]
      refine List.nodup_append.mpr ⟨h.keys_nodup.sublist (List.filter_sublist.map _), hnodup, ?_⟩
      rintro a ha b hb rfl
      obtain ⟨r, hr, rfl⟩ := List.mem_map.mp ha
      exact absurd hb (by simpa using (List.mem_filter.mp hr).2)
    · rcases List.mem_append.mp hr with hr | hr
      · exact h.operations r (List.mem_filter.mp hr).1
      · obtain ⟨c, hc, rfl⟩ := List.mem_map.mp hr
        exact hops c hc
    · exact h.token_le.trans (Nat.le_succ _)
    · exact fun w hw => (h.watermark_le w hw).trans (Nat.le_succ _)

/-- STEP: a read leaves nothing unread exactly when the cap has room. -/
theorem nothingUnread_step {s s' : TrackingState K V} {l : TrackingStep K V} (h : TrackingInv s)
    (hI : NothingUnread s) (hs : TrackingStep.step cfg s l s') :
    NothingUnread s' ↔ RoomForWatermark s l := by
  cases l with
  | begin => rw [show s' = { s with watermark := _ } from hs]; exact iff_of_true hI trivial
  | failed => rw [show s' = { s with watermark := none } from hs]; exact iff_of_true hI trivial
  | commit changed table =>
    obtain ⟨-, -, rfl⟩ := hs
    refine iff_of_true (fun r hr hle => ?_) trivial
    rcases List.mem_append.mp hr with hr | hr
    · exact hI r (List.mem_filter.mp hr).1 hle
    · -- a key just changed is past every token there can be
      obtain ⟨c, -, rfl⟩ := List.mem_map.mp hr
      have := h.token_le
      change s.source.version + 1 ≤ startVersion s.token at hle
      omega
  | finish n =>
    obtain ⟨-, w, hw, rfl⟩ := hs
    set pending := changesSince s.source (startVersion s.token) with hpending
    have hperm : pending.Perm _ := changesSince_spec s.source (startVersion s.token)
    have hmem : ∀ r, r ∈ pending ↔ r ∈ s.source.changes ∧ startVersion s.token < r.version := by
      intro r; rw [hperm.mem_iff, List.mem_filter, decide_eq_true_eq]
    have hdisj : (pending.take n ++ pending.drop n).Nodup := by
      rw [List.take_append_drop]
      exact hperm.nodup_iff.mpr ((List.Nodup.of_map _ h.keys_nodup).filter _)
    have hret : ∀ r ∈ s.source.changes,
        r ∈ returnedTracked s.source s.token n ↔ r ∈ pending.take n := by
      intro r hr
      rw [returnedTracked, List.mem_filter, ← hpending]
      simp [h.operations r hr]
    constructor
    · intro hall w' hw' r hr hle
      rw [hw] at hw'
      cases hw'
      have hsrc := ((hmem r).mp (List.mem_of_mem_drop hr)).1
      have hreturned := hall r hsrc (by simpa [readTracked] using hle)
      rcases List.mem_append.mp hreturned with hold | hnew
      · exact hold
      · exact absurd rfl ((List.nodup_append.mp hdisj).2.2 r ((hret r hsrc).mp hnew) r hr)
    · intro hroom r hr hle
      have hle : r.version ≤ w := by simpa [readTracked] using hle
      refine List.mem_append.mpr ?_
      by_cases hold : r.version ≤ startVersion s.token
      · exact .inl (hI r hr hold)
      · have hrow : r ∈ pending.take n ++ pending.drop n := by
          rw [List.take_append_drop]; exact (hmem r).mpr ⟨hr, by omega⟩
        rcases List.mem_append.mp hrow with htake | hdrop
        · exact .inr ((hret r hr).mpr htake)
        · exact .inl (hroom w hw r hdrop hle)

omit [DecidableEq K] in
theorem trackingInv_start (i : TrackingStart K V) : TrackingInv i.state :=
  { keys_nodup := List.nodup_nil, operations := nofun, token_le := le_rfl, watermark_le := nofun }

/-- CORRECT (exactly when): in a run of commits and reads, with commits between the two statements
    of a read, no net change at or before the saved token is ever unread if and only if every read
    has room for the pending net changes up to its watermark. -/
theorem nothing_unread_iff_room (i : TrackingStart K V)
    {τ : List (TrackingState K V × TrackingStep K V)} {s : TrackingState K V}
    (h : Run (TrackingStep.step cfg) i.state τ s) :
    ((∀ p ∈ τ, NothingUnread p.1) ∧ NothingUnread s) ↔ ∀ p ∈ τ, RoomForWatermark p.1 p.2 :=
  h.always_iff (trackingInv_start i) nofun (fun hi hs => trackingInv_step cfg hi hs)
    fun hi hl hs => nothingUnread_step cfg hi hl hs

/-! ### A watermark past the cap -/

def noRows : ℕ → Option (RowData ℕ) := fun _ => none

def oneKeyTable : TrackingStart ℕ ℕ :=
  { columns := [['k']], primaryKeys := [['k']], keyColumn := fun k _ => some k, table := noRows }

def trackingConfig : MSSQLChangeTrackingReaderConfig :=
  { sourceSchema := "dbo".toList, sourceTable := "t".toList }

/-- One committed insert, then two. -/
def oneInsert : TrackingState ℕ ℕ :=
  { oneKeyTable.state with source := commitSource oneKeyTable.state.source [(1, 'I')] noRows }

def twoInserts : TrackingState ℕ ℕ :=
  { oneInsert with source := commitSource oneInsert.source [(2, 'I')] noRows }

/-- After a read capped at one row: the token is version two, the first insert was returned. -/
def cappedRead : TrackingState ℕ ℕ :=
  { twoInserts with
    token := some (decimalText 2), returned := [{ key := 1, version := 1, operation := 'I' }] }

def cappedSteps : List (TrackingState ℕ ℕ × TrackingStep ℕ ℕ) :=
  [(oneKeyTable.state, .commit [(1, 'I')] noRows), (oneInsert, .commit [(2, 'I')] noRows),
    (twoInserts, .begin), ({ twoInserts with watermark := some 2 }, .finish 1)]

theorem capped_run :
    Run (TrackingStep.step trackingConfig) oneKeyTable.state cappedSteps cappedRead := by
  refine .snoc (τ := [_, _, _]) (.snoc (τ := [_, _]) (.snoc (τ := [_])
    (.snoc (τ := []) .nil ?_) ?_) ?_) ?_
  · exact ⟨by decide, by decide, rfl⟩
  · exact ⟨by decide, by decide, rfl⟩
  · exact rfl
  · exact ⟨by decide, 2, rfl, rfl⟩

/-- The token is past both inserts, and the second was never returned. -/
theorem capped_read_leaves_unread : ∃ τ s,
    Run (TrackingStep.step trackingConfig) oneKeyTable.state τ s ∧
      ∃ r ∈ s.source.changes, r.version ≤ startVersion s.token ∧ r ∉ s.returned :=
  ⟨_, cappedRead, capped_run, { key := 2, version := 2, operation := 'I' }, by decide, by decide, by decide⟩

theorem nothing_unread_iff_on_capped_run :
    ((∀ p ∈ cappedSteps, NothingUnread p.1) ∧ NothingUnread cappedRead) ↔
      ∀ p ∈ cappedSteps, RoomForWatermark p.1 p.2 :=
  nothing_unread_iff_room trackingConfig oneKeyTable capped_run

end Dpone.Cdc
