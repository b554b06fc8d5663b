import Mathlib.Data.Int.Notation
import Mathlib.Data.List.Basic
import Dpone.Schemes.Saga

/-! Staged mutation of a nested package: root and child tables that are loaded as one unit.

    Members are staged one by one. `finalize_all` validates every member before it touches the first
    target, then finalizes and cleans up member by member. A failure before the first target aborts
    the staged members; a later one keeps their staging for reconciliation and says how far each
    member got. The sink answers each call with a value, an exception or an interrupt. -/

namespace Dpone.Normalization
open Dpone.Schemes Program

/-- A load configuration; `identity` tells objects apart. -/
structure LoadConfig where
  identity : ℕ
  targetSchema : String
  targetTable : String
  deriving DecidableEq

/-- The `staged_rows` attribute of a handle, of any type. -/
inductive StagedRows where
  | int (n : ℤ)
  | bool (b : Bool)
  | other
  deriving DecidableEq

/-- What `stage_payload` returns: row count, and the tables it works in by role. -/
structure StagedPayload where
  stagedRows : StagedRows
  metadataTables : Option (List (String × String))
  configTables : List (String × String)

/-- A handle of the sink, known by the number of the call that returned it. -/
structure StagedLoadHandle extends StagedPayload where
  identity : ℕ

structure Member where
  loadConfig : LoadConfig
  handle : StagedLoadHandle

def Member.id (member : Member) : ℕ := member.handle.identity

inductive TargetOutcome where
  | committed | commitUnknown | notInvoked
  deriving DecidableEq, Repr

structure RetainedMember where
  target : String
  targetOutcome : TargetOutcome
  operationTables : List (String × String)

/-- The details of a partial finalize. -/
structure RetentionDetails where
  failureBoundary : String
  targetOutcome : TargetOutcome
  finalizedTables : List String
  retainedMembers : List RetainedMember
  operationTables : List (String × String)
  cleanupAttempted : Bool
  cleanupStatus : String

/-- What happened to a handle. -/
inductive MutationEvent where
  | staged (id : ℕ)
  | validated (id : ℕ)
  | finalizing (id : ℕ)
  | finalized (id : ℕ)
  | aborted (id : ℕ)
  deriving DecidableEq

/-- The mutation object, the locals `pending` and `target_invoked` of `finalize_all`, the number of
    calls, and what happened, newest first. -/
structure MutationWorld where
  entries : List Member := []
  finalizedTables : List String := []
  targetOutcomeUnknown : Bool := false
  retentionRequired : Bool := false
  retained : Option RetentionDetails := none
  failureRecorded : Bool := false
  pending : List Member := []
  targetInvoked : Bool := false
  calls : ℕ := 0
  trace : List MutationEvent := []

/-- The sink, and the recorder of failures. -/
structure PackageSink where
  stagePayload : ℕ → Except Raised StagedPayload
  validateGiven : Bool
  validateStagedLoad : ℕ → Except Raised Unit
  finalizeStagedLoad : ℕ → Except Raised ℕ
  cleanupGiven : Bool
  cleanupStagedLoad : ℕ → Except Raised Unit
  abortStagedLoad : ℕ → Except Raised Unit
  recorderGiven : Bool
  failureRecorder : ℕ → Except Raised Unit

abbrev Mutating (α : Type) := Program MutationWorld Raised α

def sinkCall {α : Type} (replies : ℕ → Except Raised α) : Mutating α :=
  answered (·.calls) (fun w => { w with calls := w.calls + 1 }) replies

def happened (event : MutationEvent) : Mutating Unit :=
  modify fun w => { w with trace := event :: w.trace }

variable (sink : PackageSink)

/-! ### Staging -/

/-- `_validated_staged_rows`: an integer that is not a boolean, and not negative. -/
def validatedStagedRows : StagedRows → Option ℤ
  | .int n => if n < 0 then none else some n
  | _ => none

def appendEntry (member : Member) : Mutating Unit :=
  modify fun w => { w with entries := w.entries ++ [member] }

/-- `stage`: a handle becomes an entry once its row count is validated. -/
def stage (loadConfig : LoadConfig) : Mutating ℤ := do
  let id ← read (·.calls)
  let payload ← sinkCall sink.stagePayload
  happened (.staged id)
  match validatedStagedRows payload.stagedRows with
  | none => raise .exception
  | some rows => do
    appendEntry ⟨loadConfig, { payload with identity := id }⟩
    return rows

/-! ### Aborting -/

/-- Abort one handle: whether it failed. An interrupt passes. -/
def abortOne (member : Member) : Mutating Bool := do
  happened (.aborted member.id)
  let reply ← sinkCall fun n => .ok (sink.abortStagedLoad n)
  match reply with
  | .ok _ => return false
  | .error .exception => return true
  | .error .interrupt => raise .interrupt

/-- Abort every member, whichever fail: whether one did. -/
def abortMembers : List Member → Mutating Bool
  | [] => return false
  | member :: rest => do
    let failed ← abortOne sink member
    let failedLater ← abortMembers rest
    return failed || failedLater

def abortEntries : Mutating Unit := do
  let entries ← read (·.entries)
  let failed ← abortMembers sink entries
  modify fun w => { w with entries := [] }
  raiseWhen failed .exception

/-- `abort_all`. -/
def abortAll : Mutating Unit := fun w =>
  if w.retentionRequired then (.raised .exception, w) else abortEntries sink w

/-! ### Validating -/

/-- `StagedLoadValidationReceipt`, of this sink; the validated inputs are copies. -/
structure ValidationReceipt where
  handle : StagedLoadHandle
  validated : Bool
  loadConfig : LoadConfig
  validatedInputs : Option (LoadConfig × StagedLoadHandle)

/-- The gate of the sink, if it has one. -/
def validateCall : Mutating Unit :=
  if sink.validateGiven then sinkCall sink.validateStagedLoad else return ()

/-- `validate_staged_load_if_supported`. -/
def validateMember (member : Member) : Mutating ValidationReceipt := do
  validateCall sink
  happened (.validated member.id)
  return {
    handle := member.handle
    validated := sink.validateGiven
    loadConfig := member.loadConfig
    validatedInputs := if sink.validateGiven then some (member.loadConfig, member.handle) else none }

def validateMembers : List Member → Mutating (List ValidationReceipt)
  | [] => return []
  | member :: rest => do
    let receipt ← validateMember sink member
    let receipts ← validateMembers rest
    return receipt :: receipts

/-- `frozen_inputs`, when the receipt is of a validation: `none` is a `ValueError`. -/
def frozenConfig (receipt : ValidationReceipt) (member : Member) : Option LoadConfig :=
  if receipt.validated then
    if receipt.loadConfig.identity = member.loadConfig.identity then
      receipt.validatedInputs.map (·.1)
    else none
  else some member.loadConfig

/-! ### Finalizing -/

/-- `finalize_staged_load_after_validation`: the target is invoked. -/
def finalizeMember (member : Member) : Mutating ℕ := do
  modify fun w => { w with targetInvoked := true, trace := .finalizing member.id :: w.trace }
  let result ← sinkCall sink.finalizeStagedLoad
  modify fun w => { w with targetInvoked := false, trace := .finalized member.id :: w.trace }
  return result

def cleanupMember : Mutating Unit :=
  if sink.cleanupGiven then sinkCall sink.cleanupStagedLoad else return ()

/-- The loop of `finalize_all` over `pending`. -/
def finalizeLoop : List ValidationReceipt → List Member → Mutating (List ℕ)
  | _, [] => return []
  | [], _ :: _ => raise .exception
  | receipt :: receipts, member :: rest =>
    match frozenConfig receipt member with
    | none => raise .exception
    | some config => do
      let result ← finalizeMember sink member
      modify fun w => { w with finalizedTables := w.finalizedTables ++ [config.targetTable] }
      cleanupMember sink
      modify fun w => { w with pending := rest }
      let results ← finalizeLoop receipts rest
      return result :: results

/-- `_qualified_target`. -/
def qualifiedTarget (config : LoadConfig) : String := config.targetSchema ++ "." ++ config.targetTable

/-- `_operation_tables`. -/
def operationTables (handle : StagedLoadHandle) : List (String × String) :=
  match handle.metadataTables with
  | some tables => tables
  | none => handle.configTables.filter (·.2 ≠ ".")

/-- The members that stay: the first with the outcome of the failure, the others not invoked. -/
def retainedMembers (outcome : TargetOutcome) : List Member → List RetainedMember
  | [] => []
  | member :: rest =>
    ⟨qualifiedTarget member.loadConfig, outcome, operationTables member.handle⟩ ::
      retainedMembers .notInvoked rest

/-- `_nested_package_retention_details`; of two tables under one key the later counts. -/
def nestedPackageRetentionDetails (pending : List Member) (finalizedTables : List String)
    (targetInvoked : Bool) : RetentionDetails where
  failureBoundary := if targetInvoked then "commit_unknown" else "post_commit"
  targetOutcome := if targetInvoked then .commitUnknown else .committed
  finalizedTables := finalizedTables
  retainedMembers := retainedMembers (if targetInvoked then .commitUnknown else .committed) pending
  operationTables := pending.flatMap fun member =>
    (operationTables member.handle).map fun entry =>
      (qualifiedTarget member.loadConfig ++ ":" ++ entry.1, entry.2)
  cleanupAttempted := !targetInvoked
  cleanupStatus := if targetInvoked then "retained_for_reconciliation" else "failed"

/-- `_record_failure`, once; what the recorder raises is noted, unless it is an interrupt. -/
def recordFailure : Mutating Unit := fun w =>
  if ¬ sink.recorderGiven ∨ w.failureRecorded then (.returned (), w)
  else (do
    modify fun w => { w with failureRecorded := true }
    (sinkCall sink.failureRecorder).exceptDo fun e =>
      match e with
      | .exception => return ()
      | .interrupt => raise .interrupt : Mutating Unit) w

/-- A failure after a target was invoked. -/
def retainPackage : Mutating (List ℕ) := do
  modify fun w =>
    { w with
      targetOutcomeUnknown := w.targetInvoked
      retentionRequired := true
      retained := some (nestedPackageRetentionDetails w.pending w.finalizedTables w.targetInvoked) }
  recordFailure sink
  raise .exception

/-- A failure before any target: the staged members are aborted, and it is raised again. -/
def abortPackage (e : Raised) : Mutating (List ℕ) := do
  (abortAll sink).exceptDo fun abortError =>
    match abortError with
    | .exception => raise e
    | .interrupt => raise .interrupt
  raise e

/-- `except BaseException` of `finalize_all`. -/
def afterFailure (e : Raised) : Mutating (List ℕ) := do
  modify fun w => { w with entries := w.pending }
  let targetReached ← read fun w => w.targetInvoked || !w.finalizedTables.isEmpty
  if targetReached then retainPackage sink else abortPackage sink e

def validateThenFinalize : Mutating (List ℕ) := do
  let pending ← read (·.pending)
  let receipts ← validateMembers sink pending
  finalizeLoop sink receipts pending

/-- `finalize_all`. -/
def finalizeAll : Mutating (List ℕ) := do
  modify fun w => { w with pending := w.entries, entries := [], targetInvoked := false }
  (validateThenFinalize sink).exceptDo (afterFailure sink)

/-! ### Runs -/

/-- The stage calls, each of which may return or raise, then `finalize_all` unless the caller gives
    up before it, then `abort_all`. -/
def packageRun (loadConfigs : List LoadConfig) (finalize : Bool) : MutationWorld :=
  let w := loadConfigs.foldl (fun w config => (stage sink config w).2) {}
  let w := if finalize then (finalizeAll sink w).2 else w
  (abortAll sink w).2

end Dpone.Normalization
