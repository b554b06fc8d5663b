import Mathlib.Data.List.Sort
import Dpone.Schemes.Numeral
import Dpone.Schemes.Run
import Dpone.Cdc.Change

/-! The SQL Server CDC reader against a growing change table.

    `read_batch` reads at most `max_changes` rows from the LSN after its token, in order of start
    LSN and sequence value, and returns the LSN of the last row as the next token. All rows of one
    transaction share a start LSN, so a cap that falls inside a transaction leaves the rest of it
    behind the next token for good. -/

namespace Dpone.Cdc
open Dpone.Schemes

variable {V : Type}

/-- A row of `cdc.fn_cdc_get_all_changes_*`. -/
structure CaptureRow (V : Type) where
  startLsn : ℕ
  seqval : ℕ
  operation : ℕ
  values : RowData V
  deriving DecidableEq

/-- What one `read_batch` sees of the database: the table's columns, the low and high endpoints,
    and the captured rows in no particular order. -/
structure CaptureSource (V : Type) where
  columns : List Str
  minLsn : Option ℕ
  maxLsn : Option ℕ
  rows : List (CaptureRow V)

structure MSSQLTableCDCReaderConfig where
  sourceSchema : Str
  sourceTable : Str
  includeUpdateBefore : Bool

/-- `sys.fn_varbintohexstr` of a `binary(10)`. -/
def lsnText (lsn : ℕ) : Str := "0x".toList ++ numeral 16 20 lsn

/-- `CONVERT(binary(10), token, 1)`. -/
def convertLsn (token : Str) : Option ℕ :=
  if token.take 2 = "0x".toList ∧ token.length = 22 then numeralValue 16 (token.drop 2) else none

theorem convertLsn_lsnText {lsn : ℕ} (h : lsn < 16 ^ 20) : convertLsn (lsnText lsn) = some lsn := by
  have hlen : (numeral 16 20 lsn).length = 20 := numeral_length ..
  have hvalue := numeralValue_numeral (by decide) (by decide) 20 lsn h
  unfold convertLsn lsnText
  generalize numeral 16 20 lsn = digits at hlen hvalue ⊢
  simp [hlen, hvalue]

inductive SqlError where
  | conversion | invalidRange
  deriving DecidableEq, Repr

/-- `@from_lsn`: the low endpoint for a fresh or all-zero token, else the LSN after the token, and
    never below the low endpoint. -/
def fromLsn (db : CaptureSource V) (token : Option Str) : Except SqlError (Option ℕ) :=
  let clamp (requested : ℕ) := db.minLsn.map fun low => if requested < low then low else requested
  match token with
  | none => .ok db.minLsn
  | some t =>
    if t = lsnText 0 then .ok db.minLsn
    else match convertLsn t with
      | none => .error .conversion
      | some lsn => .ok (clamp (lsn + 1)) -- fn_cdc_increment_lsn

/-- `ORDER BY [__$start_lsn], [__$seqval]`; ties keep the order the table yields them in. -/
def rowLe (a b : CaptureRow V) : Prop :=
  a.startLsn < b.startLsn ∨ (a.startLsn = b.startLsn ∧ a.seqval ≤ b.seqval)

instance : DecidableRel (rowLe (V := V)) := fun _ _ => inferInstanceAs (Decidable (_ ∨ _))

/-- `fn_cdc_get_all_changes_*(@from_lsn, @to_lsn, ...)`, ordered; an empty range is an error. -/
def allChanges (db : CaptureSource V) (fromLsn toLsn : ℕ) :
    Except SqlError (List (CaptureRow V)) :=
  if toLsn < fromLsn then .error .invalidRange
  else .ok ((db.rows.filter fun r => fromLsn ≤ r.startLsn ∧ r.startLsn ≤ toLsn).insertionSort rowLe)

/-- The rows the query selects before its `TOP`. -/
def pendingRows (db : CaptureSource V) (token : Option Str) :
    Except SqlError (List (CaptureRow V)) := do
  match ← fromLsn db token, db.maxLsn with
  | some low, some high => allChanges db low high
  | _, _ => return []

/-- `_operation_map`. -/
def operationMap : ℕ → Option CDCOperation
  | 1 => some .delete
  | 2 => some .insert
  | 3 => some .updateBefore
  | 4 => some .update
  | _ => none

variable (cfg : MSSQLTableCDCReaderConfig)

/-- The operation a row is reported with, if it is reported at all. -/
def reportedAs (r : CaptureRow V) : Option CDCOperation :=
  match operationMap r.operation with
  | some .updateBefore => if cfg.includeUpdateBefore then some .updateBefore else none
  | op => op

/-- The change of a reported row. -/
def toChange (columns : List Str) (r : CaptureRow V) : Option (CDCChange V) :=
  (reportedAs cfg r).map fun op =>
    { operation := op
      data := columns.map fun c => (c, (r.values.lookup c).join)
      position := lsnText r.startLsn
      sourceSchema := cfg.sourceSchema, sourceTable := cfg.sourceTable
      metadata := [("backend".toList, "mssql_cdc".toList)] }

/-- `read_batch`: changes of the selected rows, and the LSN of the last one as the next offset. -/
def readBatch (db : CaptureSource V) (token : Option Str) (maxChanges : ℕ) :
    Except SqlError (CDCBatch V) := do
  if db.columns = [] then
    return { changes := [], nextOffset := token, highWatermark := none }
  let rows := (← pendingRows db token).take maxChanges
  let highWatermark := rows.foldl (fun _ r => some (lsnText r.startLsn)) token
  return {
    changes := rows.filterMap (toChange cfg db.columns)
    nextOffset := highWatermark, highWatermark := highWatermark }

/-! ### Runs of capture and reading -/

/-- The change table, the reader's saved token and the rows whose changes were returned so far. -/
structure CaptureState (V : Type) where
  source : CaptureSource V
  token : Option Str
  returned : List (CaptureRow V)

inductive CaptureStep (V : Type) where
  /-- The capture job adds one transaction's rows. -/
  | capture (lsn : ℕ) (rows : List (CaptureRow V))
  /-- `read_batch` from the saved token, whose offset becomes the saved token. -/
  | read (maxChanges : ℕ)
  /-- A read that raises; nothing is saved. -/
  | readFailed

/-- Rows of a batch that became changes. -/
def returnedRows (db : CaptureSource V) (token : Option Str) (maxChanges : ℕ) :
    List (CaptureRow V) :=
  match pendingRows db token with
  | .ok rows => (rows.take maxChanges).filter fun r => (reportedAs cfg r).isSome
  | .error _ => []

/-- CORRECT: the returned rows are the ones the batch's changes come from, in order. -/
theorem readBatch_changes {db : CaptureSource V} {token : Option Str} {maxChanges : ℕ}
    {batch : CDCBatch V} (hcols : db.columns ≠ [])
    (h : readBatch cfg db token maxChanges = .ok batch) :
    batch.changes = (returnedRows cfg db token maxChanges).filterMap (toChange cfg db.columns) := by
  unfold readBatch at h
  rw [if_neg hcols] at h
  unfold returnedRows
  cases hp : pendingRows db token with
  | error e => rw [hp] at h; cases h
  | ok rows =>
    rw [hp] at h
    cases h
    rw [List.filterMap_filter]
    refine List.filterMap_congr fun r _ => ?_
    cases hr : reportedAs cfg r <;> simp [toChange, hr]

/-- One step. A captured transaction is newer than everything captured before it, and its rows are
    distinct; a read must be allowed at least one row. -/
def CaptureStep.step : CaptureState V → CaptureStep V → CaptureState V → Prop
  | s, .capture lsn rows, s' =>
    (∀ high ∈ s.source.maxLsn, high < lsn) ∧ (∃ low ∈ s.source.minLsn, low ≤ lsn) ∧
    lsn < 16 ^ 20 ∧ (∀ r ∈ rows, r.startLsn = lsn) ∧ rows.Nodup ∧
    s' = { s with source := { s.source with
      maxLsn := some lsn, rows := s.source.rows ++ rows } }
  | s, .read maxChanges, s' =>
    0 < maxChanges ∧ ∃ batch, readBatch cfg s.source s.token maxChanges = .ok batch ∧
      s' = { s with
        token := batch.nextOffset
        returned := s.returned ++ returnedRows cfg s.source s.token maxChanges }
  | s, .readFailed, s' => s' = s

/-- A captured table nobody has read yet; LSN zero is reserved. -/
structure CaptureStart (V : Type) where
  columns : List Str
  columns_ne : columns ≠ []
  low : ℕ
  low_pos : 0 < low

def CaptureStart.state (i : CaptureStart V) : CaptureState V :=
  { source := { columns := i.columns, minLsn := some i.low, maxLsn := none, rows := [] }
    token := none, returned := [] }

/-- The saved token is at or past the row. -/
def Behind (token : Option Str) (r : CaptureRow V) : Prop :=
  ∃ t, token = some (lsnText t) ∧ t < 16 ^ 20 ∧ r.startLsn ≤ t

/-- LOSSLESS: every reportable row at or before the saved token has been returned. -/
def Lossless (s : CaptureState V) : Prop :=
  ∀ r ∈ s.source.rows, (reportedAs cfg r).isSome → Behind s.token r → r ∈ s.returned

/-- The cap leaves no reportable row of the last transaction it reaches behind. -/
def WholeTransactions (s : CaptureState V) : CaptureStep V → Prop
  | .read maxChanges => ∀ rows, pendingRows s.source s.token = .ok rows →
      ∀ last ∈ (rows.take maxChanges).getLast?, ∀ r ∈ rows.drop maxChanges,
        (reportedAs cfg r).isSome → r.startLsn ≠ last.startLsn
  | _ => True

end Dpone.Cdc
