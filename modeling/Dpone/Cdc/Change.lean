import Dpone.Schemes.Text

/-! Row-level changes and batches, the primitives all CDC readers share. -/

namespace Dpone.Cdc
open Dpone.Schemes

inductive CDCOperation where
  | insert | update | delete | updateBefore
  deriving DecidableEq, Repr

def CDCOperation.value : CDCOperation → String
  | insert => "insert" | update => "update" | delete => "delete" | updateBefore => "update_before"

/-- Column values of a change, `none` for NULL. -/
abbrev RowData (V : Type) := List (Str × Option V)

/-- A single row-level change; the position is a text of the source. -/
structure CDCChange (V : Type) where
  operation : CDCOperation
  data : RowData V
  position : Str
  sourceSchema : Str
  sourceTable : Str
  transactionId : Option Str := none
  sequence : Option Str := none
  before : Option (RowData V) := none
  metadata : List (Str × Str) := []
  deriving DecidableEq

def CDCChange.isDelete {V : Type} (c : CDCChange V) : Bool := c.operation = .delete

/-- A finite CDC read result plus its durable next offset. -/
structure CDCBatch (V : Type) where
  changes : List (CDCChange V)
  nextOffset : Option Str
  highWatermark : Option Str
  deriving DecidableEq

def CDCBatch.rowCount {V : Type} (b : CDCBatch V) : ℕ := b.changes.length

/-- Canonical runtime identity for one source -> sink CDC loop. -/
structure CdcRuntimeStream where
  streamId : Str
  routeId : Str
  pipelineName : Str
  uniqueKey : List Str

end Dpone.Cdc
