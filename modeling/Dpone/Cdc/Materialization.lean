import Mathlib.Data.Char
import Mathlib.Data.List.Lex
import Mathlib.Data.List.MinMax
import Mathlib.Data.Prod.Lex
import Dpone.Cdc.Change

/-! Event rows of the CDC log, and the serving table selected from them.

    `cdc_event_row` turns a change into a log row keyed by the hash of its unique key; the
    materialization keeps, for every key hash, the row that comes first by ingest time, position
    length, position, sequence and event hash, all descending, and drops deleted ones. The canonical
    JSON texts and SHA-256 are a parameter. -/

namespace Dpone.Cdc
open Dpone.Schemes

variable {V : Type}

/-- What `cdc_event_hash` hashes. -/
structure EventPayload (V : Type) where
  operation : String
  position : Str
  sourceSchema : Str
  sourceTable : Str
  transactionId : Option Str
  sequence : Option Str
  uniqueKey : RowData V
  data : RowData V
  before : RowData V
  metadata : List (Str × Str)

/-- `_canonical_json` of a row and of an event payload, and `_sha256`. -/
structure Digests (V : Type) where
  rowJson : RowData V → Str
  eventJson : EventPayload V → Str
  sha256 : Str → Str

/-- A row of the CDC log; the ingest time is kept to the millisecond. -/
structure CdcEventRow where
  streamId : Str
  routeId : Str
  pipelineName : Str
  sourceSchema : Str
  sourceTable : Str
  operation : String
  position : Str
  sequence : Str
  eventHash : Str
  uniqueKeyHash : Str
  uniqueKeyJson : Str
  payloadJson : Str
  beforeJson : Str
  deleted : ℕ
  ingestedAt : ℤ
  deriving DecidableEq

/-- `data.get(column)` for every key column. -/
def uniqueKeyPayload (data : RowData V) (uniqueKey : List Str) : RowData V :=
  uniqueKey.map fun column => (column, (data.lookup column).join)

section Rows
variable (digests : Digests V) (stream : CdcRuntimeStream)

def keyHash (data : RowData V) : Str :=
  digests.sha256 (digests.rowJson (uniqueKeyPayload data stream.uniqueKey))

def cdcEventHash (change : CDCChange V) : Str :=
  digests.sha256 (digests.eventJson
    { operation := change.operation.value
      position := change.position
      sourceSchema := change.sourceSchema
      sourceTable := change.sourceTable
      transactionId := change.transactionId
      sequence := change.sequence
      uniqueKey := uniqueKeyPayload change.data stream.uniqueKey
      data := change.data
      before := change.before.getD []
      metadata := change.metadata })

/-- `now` is in microseconds; the column is a `DateTime64(3)`. -/
def cdcEventRow (change : CDCChange V) (now : ℤ) : CdcEventRow where
  streamId := stream.streamId
  routeId := stream.routeId
  pipelineName := stream.pipelineName
  sourceSchema := change.sourceSchema
  sourceTable := change.sourceTable
  operation := change.operation.value
  position := change.position
  sequence := change.sequence.getD []
  eventHash := cdcEventHash digests stream change
  uniqueKeyHash := keyHash digests stream change.data
  uniqueKeyJson := digests.rowJson (uniqueKeyPayload change.data stream.uniqueKey)
  payloadJson := digests.rowJson change.data
  beforeJson := digests.rowJson (change.before.getD [])
  deleted := if change.isDelete then 1 else 0
  ingestedAt := now / 1000

end Rows

/-- What the window orders by. -/
abbrev Rank := ℤ ×ₗ ℕ ×ₗ Str ×ₗ Str ×ₗ Str

/-- The order of a rank is evaluated. -/
instance : Preorder Rank := (Prod.Lex.instLinearOrder ℤ _).toPreorder

/-- The `ORDER BY` of the window, ascending. -/
def CdcEventRow.rank (r : CdcEventRow) : Rank :=
  toLex (r.ingestedAt, toLex (r.position.length, toLex (r.position,
    toLex (r.sequence, r.eventHash))))

/-- The row numbered 1 in the partition of a key hash. Of equal rows it is the first in the table,
    whose order is not ours to choose. -/
def latestRow (table : List CdcEventRow) (hash : Str) : Option CdcEventRow :=
  (table.filter (·.uniqueKeyHash = hash)).argmax CdcEventRow.rank

/-- The payload that the serving table holds under a key hash, with `delete_mode` set to
    `exclude_deleted`. -/
def servingPayload (table : List CdcEventRow) (hash : Str) : Option Str :=
  (latestRow table hash).bind fun r => if r.deleted = 0 then some r.payloadJson else none

/-! The source. -/

inductive SourceChange (V : Type) where
  | insert (row : RowData V)
  | update (before after : RowData V)
  | delete (row : RowData V)

def SourceChange.operation : SourceChange V → CDCOperation
  | insert _ => .insert
  | update _ _ => .update
  | delete _ => .delete

/-- The image that a reader reports: the new row, or the deleted one. -/
def SourceChange.data : SourceChange V → RowData V
  | insert row => row
  | update _ after => after
  | delete row => row

def SourceChange.before : SourceChange V → Option (RowData V)
  | update before _ => some before
  | _ => none

/-- A change as a reader reports it, and when its event row was made. -/
structure Captured (V : Type) where
  change : SourceChange V
  position : Str
  sourceSchema : Str
  sourceTable : Str
  transactionId : Option Str := none
  sequence : Option Str := none
  metadata : List (Str × Str) := []
  now : ℤ

def Captured.toChange (c : Captured V) : CDCChange V where
  operation := c.change.operation
  data := c.change.data
  position := c.position
  sourceSchema := c.sourceSchema
  sourceTable := c.sourceTable
  transactionId := c.transactionId
  sequence := c.sequence
  before := c.change.before
  metadata := c.metadata

def eventRows (digests : Digests V) (stream : CdcRuntimeStream) (history : List (Captured V)) :
    List CdcEventRow :=
  history.map fun c => cdcEventRow digests stream c.toChange c.now

/-- A table under its unique key. -/
abbrev Contents (V : Type) := RowData V → Option (RowData V)

variable [DecidableEq V]

def SourceChange.apply (uniqueKey : List Str) (table : Contents V) : SourceChange V → Contents V
  | insert row => Function.update table (uniqueKeyPayload row uniqueKey) (some row)
  | update before after =>
    Function.update (Function.update table (uniqueKeyPayload before uniqueKey) none)
      (uniqueKeyPayload after uniqueKey) (some after)
  | delete row => Function.update table (uniqueKeyPayload row uniqueKey) none

/-- The source table after its history, from the empty table. -/
def finalContents (uniqueKey : List Str) (history : List (Captured V)) : Contents V :=
  history.foldl (fun table c => c.change.apply uniqueKey table) fun _ => none

end Dpone.Cdc
