import Dpone.Schemes.Numeral
import Dpone.Cdc.Change

/-! Event identity, idempotency and poison classification of a bounded batch.

    An event is poison when an earlier one of the batch has its identity, when its operation is not
    a row operation, or when a key column is missing; the others are clean. The canonical JSON text
    and SHA-256 of an identity are a parameter. -/

namespace Dpone.Cdc
open Dpone.Schemes

variable {V : Type}

/-- `_key_payload`: the key columns, or both images where the stream has no key. -/
inductive KeyPayload (V : Type) where
  | columns (values : RowData V)
  | images (data before : RowData V)

/-- What `event_id` hashes. -/
structure IdentityPayload (V : Type) where
  sourceSchema : Str
  sourceTable : Str
  operation : String
  position : Str
  transactionId : Option Str
  sequence : Option Str
  key : KeyPayload V
  data : RowData V
  before : RowData V

/-- `before or {}`. -/
def CDCChange.beforeImage (c : CDCChange V) : RowData V := c.before.getD []

/-- `data.get(key, before.get(key))`. -/
def CDCChange.keyValue (c : CDCChange V) (key : Str) : Option V :=
  match c.data.lookup key with
  | some v => v
  | none => (c.beforeImage.lookup key).join

def keyPayload (c : CDCChange V) (uniqueKey : List Str) : KeyPayload V :=
  if uniqueKey = [] then .images c.data c.beforeImage
  else .columns (uniqueKey.map fun key => (key, c.keyValue key))

variable (identity : IdentityPayload V → Str)

def eventId (uniqueKey : List Str) (c : CDCChange V) : Str :=
  identity
    { sourceSchema := c.sourceSchema
      sourceTable := c.sourceTable
      operation := c.operation.value
      position := c.position
      transactionId := c.transactionId
      sequence := c.sequence
      key := keyPayload c uniqueKey
      data := c.data
      before := c.beforeImage }

structure CDCIdempotencyReport where
  totalEvents : ℕ
  uniqueEvents : ℕ
  duplicateEventIds : List Str

def CDCIdempotencyReport.duplicateCount (r : CDCIdempotencyReport) : ℕ :=
  r.totalEvents - r.uniqueEvents

def CDCIdempotencyReport.passed (r : CDCIdempotencyReport) : Bool := r.duplicateEventIds = []

/-- The loop of `evaluate`: what was seen, and what was seen again. -/
def evaluateFrom (uniqueKey : List Str) (total : ℕ) (seen duplicates : List Str) :
    List (CDCChange V) → CDCIdempotencyReport
  | [] =>
    { totalEvents := total, uniqueEvents := seen.length, duplicateEventIds := duplicates }
  | c :: cs =>
    let id := eventId identity uniqueKey c
    let again := if id ∈ seen ∧ id ∉ duplicates then duplicates ++ [id] else duplicates
    evaluateFrom uniqueKey (total + 1) (if id ∈ seen then seen else id :: seen) again cs

def evaluate (uniqueKey : List Str) (changes : List (CDCChange V)) : CDCIdempotencyReport :=
  evaluateFrom identity uniqueKey 0 [] [] changes

/-! ### Classification -/

inductive PoisonReason where
  | duplicateEvent | unsupportedOperation | uniqueKeyMissing
  deriving DecidableEq, Repr

def PoisonReason.text : PoisonReason → String
  | duplicateEvent => "cdc_poison.duplicate_event"
  | unsupportedOperation => "cdc_poison.unsupported_operation"
  | uniqueKeyMissing => "cdc_poison.unique_key_missing"

/-- `_summary`. -/
def PoisonReason.summary : PoisonReason → String
  | duplicateEvent => "Duplicate CDC event identity was quarantined"
  | uniqueKeyMissing => "CDC event is missing the configured unique key"
  | unsupportedOperation => "Unsupported CDC operation was quarantined"

/-- One quarantined event; its action is to quarantine, and it is replayable. -/
structure CdcPoisonRecord (V : Type) where
  recordId : Str
  eventId : Str
  reason : PoisonReason
  change : CDCChange V
  deriving DecidableEq

structure CdcPoisonDecision (V : Type) where
  cleanChanges : List (CDCChange V)
  records : List (CdcPoisonRecord V)

/-- `_reason`. -/
def poisonReason (uniqueKey seen : List Str) (id : Str) (c : CDCChange V) : Option PoisonReason :=
  if id ∈ seen then some .duplicateEvent
  else if c.operation = .updateBefore then some .unsupportedOperation
  else if uniqueKey = [] then some .uniqueKeyMissing
  else if ∃ key ∈ uniqueKey, c.keyValue key = none then some .uniqueKeyMissing
  else none

def poisonRecord (stream : CdcRuntimeStream) (index : ℕ) (id : Str) (reason : PoisonReason)
    (c : CDCChange V) : CdcPoisonRecord V where
  recordId := stream.streamId ++ [':'] ++ c.position ++ [':'] ++ decimalText index
  eventId := id
  reason := reason
  change := c

/-- The loop of `classify`. -/
def classifyFrom (stream : CdcRuntimeStream) (index : ℕ) (seen : List Str) :
    List (CDCChange V) → CdcPoisonDecision V
  | [] => { cleanChanges := [], records := [] }
  | c :: cs =>
    let id := eventId identity stream.uniqueKey c
    let rest := classifyFrom stream (index + 1) (id :: seen) cs
    match poisonReason stream.uniqueKey seen id c with
    | some reason => { rest with records := poisonRecord stream index id reason c :: rest.records }
    | none => { rest with cleanChanges := c :: rest.cleanChanges }

def classify (stream : CdcRuntimeStream) (changes : List (CDCChange V)) : CdcPoisonDecision V :=
  classifyFrom identity stream 0 [] changes

variable {identity}

theorem mem_classifyFrom {stream : CdcRuntimeStream} {c : CDCChange V} :
    ∀ {changes : List (CDCChange V)} {index : ℕ} {seen : List Str}, c ∈ changes →
      c ∈ (classifyFrom identity stream index seen changes).cleanChanges ∨
        ∃ r ∈ (classifyFrom identity stream index seen changes).records, r.change = c
  | c' :: cs, index, seen, h => by
      simp only [classifyFrom]
      rcases List.mem_cons.mp h with rfl | h
      · cases poisonReason stream.uniqueKey seen (eventId identity stream.uniqueKey c) c with
        | some reason => exact .inr ⟨_, List.mem_cons_self .., rfl⟩
        | none => exact .inl (List.mem_cons_self ..)
      · have ih := @mem_classifyFrom stream c cs (index + 1)
          (eventId identity stream.uniqueKey c' :: seen) h
        cases poisonReason stream.uniqueKey seen (eventId identity stream.uniqueKey c') c' with
        | some reason =>
          exact ih.imp_right fun ⟨r, hr, hc⟩ => ⟨r, List.mem_cons_of_mem _ hr, hc⟩
        | none => exact ih.imp_left fun hc => List.mem_cons_of_mem _ hc

/-- LOSSLESS: every change of a batch is clean or has a poison record. -/
theorem mem_classify (identity : IdentityPayload V → Str) (stream : CdcRuntimeStream)
    {changes : List (CDCChange V)} {c : CDCChange V} (h : c ∈ changes) :
    c ∈ (classify identity stream changes).cleanChanges ∨
      ∃ r ∈ (classify identity stream changes).records, r.change = c :=
  mem_classifyFrom h

theorem classifyFrom_records_nil {stream : CdcRuntimeStream} :
    ∀ {changes : List (CDCChange V)} {index : ℕ} {seen : List Str},
      (classifyFrom identity stream index seen changes).records = [] →
        (classifyFrom identity stream index seen changes).cleanChanges = changes
  | [], _, _, _ => rfl
  | c :: cs, index, seen, h => by
      simp only [classifyFrom] at h ⊢
      cases hr : poisonReason stream.uniqueKey seen (eventId identity stream.uniqueKey c) c with
      | some reason => rw [hr] at h; cases h
      | none => rw [hr] at h; exact congrArg (c :: ·) (classifyFrom_records_nil h)

end Dpone.Cdc
