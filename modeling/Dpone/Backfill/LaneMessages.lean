import Dpone.Backfill.LaneDispatch

/-! What the parent does with child messages and child exits.

    A lane runs one dispatch. A child that succeeds has its chunk completed on the ledger; any other
    end of a dispatch stops the process tree, asks for a committed receipt, and else fails the chunk.
    The coordinators of operation leases and receipts answer the parent and touch no lane, so they
    are part of the environment, which answers each call in any way or raises. -/

namespace Dpone.Backfill
open Dpone.Schemes Program

/-- Current command state of a lane. -/
structure ProcessLaneHandle where
  running : Option ProcessLaneDispatch := none
  controlError : Option String := none
  stopping : Bool := false
  treeQuiesced : Bool := false

/-- A child frame. -/
inductive LaneMessage where
  | operationLease (workerId : LaneId) (commandId : Str) (binding : ProcessLaneBinding)
  | receiptProbe (workerId : LaneId) (commandId : Str) (binding : ProcessLaneBinding)
  | succeeded (workerId : LaneId) (commandId : Str) (result : ℕ)
  | failed (workerId : LaneId) (commandId : Str) (error : String)
  | other

/-- The ledger callbacks that end a dispatch. -/
inductive Terminal where
  | complete | recover | fail
  deriving DecidableEq, Repr

inductive Answered where
  | accepted | refused | raised
  deriving DecidableEq, Repr

inductive LaneEvent where
  | answered (call : Terminal) (claim : LaneClaim) (outcome : Answered)
  | unstopped (claim : LaneClaim)
  deriving DecidableEq

/-- The lanes, what was given to them, and what the ledger answered, newest first. -/
structure ParentWorld where
  lanes : LaneId → ProcessLaneHandle
  errors : List String
  calls : ℕ
  published : List LaneClaim
  trace : List LaneEvent

/-- The environment answers the `n`-th call. `receive` yields a frame, or the text of a channel
    error; `terminateLaneTree` tells whether the process tree is gone. -/
structure ParentEnvironment where
  receive : ℕ → Except Raised (Except String LaneMessage)
  operationRequest : ℕ → Except Raised Bool
  receiptRequest : ℕ → Except Raised Bool
  operationFor : ℕ → LaneId → Str → Option ℕ
  validateSuccess : ℕ → Except Raised Bool
  completeChunk : ℕ → Except Raised Bool
  failChunk : ℕ → Except Raised Unit
  recoveryGiven : Bool
  recoverCommittedReceipt : ℕ → Except Raised Bool
  terminateLaneTree : ℕ → Except Raised Bool
  sendStop : ℕ → Except Raised Unit
  join : ℕ → Except Raised Unit
  exitcode : ℕ → LaneId → Option ℤ
  exitMessage : ℕ → LaneId → String

abbrev Parenting (α : Type) := Program ParentWorld Raised α

def processTreeSignalError : String := "DPONE_BACKFILL_PROCESS_TREE_TERMINATION_FAILED"
def receiptRecoveryError : String := "DPONE_BACKFILL_PROCESS_RECEIPT_RECOVERY_FAILED"
def parentReceiptValidationError : String :=
  "DPONE_BACKFILL_PROCESS_PARENT_RECEIPT_VALIDATION_FAILED"
def ledgerCompletionError : String := "DPONE_BACKFILL_PROCESS_LEDGER_COMPLETION_FAILED"
def unexpectedChildMessage : String := "DPONE_BACKFILL_PROCESS_UNEXPECTED_CHILD_MESSAGE"
def identityMismatch : String := "DPONE_BACKFILL_PROCESS_CHILD_MESSAGE_IDENTITY_MISMATCH"

def call {α : Type} (replies : ℕ → Except Raised α) : Parenting α :=
  answered (·.calls) (fun w => { w with calls := w.calls + 1 }) replies

def updateLane (lane : LaneId) (f : ProcessLaneHandle → ProcessLaneHandle) (w : ParentWorld) :
    ParentWorld :=
  { w with lanes := Function.update w.lanes lane (f (w.lanes lane)) }

def stoppingLane (lane : LaneId) : Parenting Unit :=
  modify (updateLane lane fun h => { h with stopping := true })

def appendError (error : String) : Parenting Unit :=
  modify fun w => { w with errors := w.errors ++ [error] }

def happened (event : LaneEvent) : Parenting Unit :=
  modify fun w => { w with trace := event :: w.trace }

/-- `_clear_running`. -/
def clearedLane (lane : LaneId) (w : ParentWorld) : ParentWorld :=
  updateLane lane (fun h => { h with running := none, controlError := none }) w

def clearRunning (lane : LaneId) : Parenting Unit := modify (clearedLane lane)

/-- A ledger callback, which accepts the transition, refuses it or raises. -/
def terminalCall (kind : Terminal) (claim : LaneClaim) (replies : ℕ → Except Raised Bool) :
    Parenting Bool := fun w =>
  let answered (outcome : Answered) : ParentWorld :=
    { w with calls := w.calls + 1, trace := .answered kind claim outcome :: w.trace }
  match replies w.calls with
  | .ok true => (.returned true, answered .accepted)
  | .ok false => (.returned false, answered .refused)
  | .error e => (.raised e, answered .raised)

variable (env : ParentEnvironment)

/-- `stop_lane`. -/
def stopLane (lane : LaneId) : Parenting Unit := fun w =>
  if (w.lanes lane).stopping ∨ (env.exitcode w.calls lane).isSome then (.returned (), w)
  else (do
    call env.sendStop
    stoppingLane lane : Parenting Unit) w

def terminateLane (lane : LaneId) : Parenting Bool := do
  stoppingLane lane
  let gone ← call env.terminateLaneTree
  modify (updateLane lane fun h =>
    { h with
      treeQuiesced := gone
      controlError := if gone then h.controlError else some processTreeSignalError })
  return gone

/-- `quiesce_lane_process_tree`. -/
def quiesceLaneProcessTree (lane : LaneId) : Parenting Bool := fun w =>
  if (w.lanes lane).treeQuiesced then (.returned true, w) else terminateLane env lane w

def treeQuiesced (lane : LaneId) (prequiesced : Bool) : Parenting Bool :=
  if prequiesced then read fun w => (w.lanes lane).treeQuiesced
  else quiesceLaneProcessTree env lane

/-- A registered operation may have committed a receipt. -/
def recoverReceipt (lane : LaneId) (running : ProcessLaneDispatch) : Parenting Bool := fun w =>
  if env.recoveryGiven ∧ (env.operationFor w.calls lane running.commandId).isSome then
    ((terminalCall .recover running.toLaneClaim env.recoverCommittedReceipt).exceptDo fun _ => do
      appendError receiptRecoveryError
      return false) w
  else (.returned false, w)

/-- `fail_chunk`, which returns nothing. -/
def failRunning (running : ProcessLaneDispatch) : Parenting Bool :=
  (terminalCall .fail running.toLaneClaim fun n => (env.failChunk n).map fun _ => true).exceptDo
    fun _ => do
      appendError ledgerFailureWriteError
      return false

/-- A lane whose process tree may still be alive: nothing is written for its dispatch. -/
def leaveUnstopped (lane : LaneId) (running : ProcessLaneDispatch) : Parenting Bool := do
  happened (.unstopped running.toLaneClaim)
  modify fun w =>
    if processTreeSignalError ∈ w.errors then w
    else { w with errors := w.errors ++ [processTreeSignalError] }
  clearRunning lane
  return true

def failUnlessRecovered (running : ProcessLaneDispatch) (recovered : Bool) : Parenting Bool :=
  if recovered then return true else failRunning env running

def resolveRunning (lane : LaneId) (prequiesced : Bool) (running : ProcessLaneDispatch) :
    Parenting Bool := do
  let quiesced ← treeQuiesced env lane prequiesced
  if quiesced then do
    let recovered ← recoverReceipt env lane running
    let ledgerHealthy ← failUnlessRecovered env running recovered
    clearRunning lane
    return ledgerHealthy
  else leaveUnstopped lane running

/-- `resolve_ambiguous_failure`; the error text is what `fail_chunk` stores. -/
def resolveAmbiguousFailure (lane : LaneId) (prequiesced : Bool) : Parenting Bool := fun w =>
  match (w.lanes lane).running with
  | none => (.returned true, w)
  | some running => resolveRunning env lane prequiesced running w

/-- A reported failure. -/
def failLane (lane : LaneId) (error : String) : Parenting Bool := do
  appendError error
  let _ ← resolveAmbiguousFailure env lane false
  return true

/-- `complete_chunk`, whose ordinary exceptions are failures; an interrupt passes. -/
def completeCall (running : ProcessLaneDispatch) : Parenting (Option Bool) :=
  (some <$> terminalCall .complete running.toLaneClaim env.completeChunk).exceptDo fun e =>
    match e with
    | .exception => return none
    | .interrupt => raise .interrupt

def completeRunning (lane : LaneId) (stopDispatch : Bool) (running : ProcessLaneDispatch) :
    Parenting Bool := do
  let answer ← completeCall env running
  match answer with
  | none => failLane env lane ledgerCompletionError
  | some keepRunning => do
    clearRunning lane
    if stopDispatch ∨ keepRunning = false then do
      stopLane env lane
      return !keepRunning
    else return false

def resolveControlError (lane : LaneId) : Parenting Bool := do
  let _ ← resolveAmbiguousFailure env lane false
  return true

def validateRunning (lane : LaneId) (stopDispatch : Bool) (running : ProcessLaneDispatch) :
    Parenting Bool := do
  let valid ← call env.validateSuccess
  if valid then completeRunning env lane stopDispatch running
  else failLane env lane parentReceiptValidationError

/-- A success of the running command. -/
def succeedLane (lane : LaneId) (stopDispatch : Bool) (running : ProcessLaneDispatch) :
    Parenting Bool := fun w =>
  if (w.lanes lane).controlError.isSome then resolveControlError env lane w
  else validateRunning env lane stopDispatch running w

def rejectMessage (lane : LaneId) : Parenting Bool := do
  appendError identityMismatch
  modify (updateLane lane fun h => { h with controlError := some identityMismatch })
  return true

def unexpectedMessage : Parenting Bool := do
  appendError unexpectedChildMessage
  return true

/-- `_matches_result`. -/
def matchesResult (lane : LaneId) (running : ProcessLaneDispatch) (workerId : LaneId)
    (commandId : Str) : Prop :=
  workerId = lane ∧ commandId = running.commandId

instance (lane : LaneId) (running : ProcessLaneDispatch) (workerId : LaneId) (commandId : Str) :
    Decidable (matchesResult lane running workerId commandId) :=
  inferInstanceAs (Decidable (_ ∧ _))

/-- A message other than a request, for a lane that runs a dispatch. -/
def handleResult (lane : LaneId) (stopDispatch : Bool) (running : ProcessLaneDispatch) :
    LaneMessage → Parenting Bool
  | .succeeded workerId commandId _ =>
    if matchesResult lane running workerId commandId then succeedLane env lane stopDispatch running
    else rejectMessage lane
  | .failed workerId commandId error =>
    if matchesResult lane running workerId commandId then failLane env lane error
    else rejectMessage lane
  | _ => rejectMessage lane

/-- The reply of a coordinator to a request. -/
def answerRequest (stopDispatch : Bool) (replies : ℕ → Except Raised Bool) : Parenting Bool := do
  let active ← call replies
  return !active || stopDispatch

def handleMessage (lane : LaneId) (stopDispatch : Bool) : LaneMessage → Parenting Bool
  | .operationLease _ _ _ => answerRequest stopDispatch env.operationRequest
  | .receiptProbe _ _ _ => answerRequest stopDispatch env.receiptRequest
  | message => fun w =>
    match (w.lanes lane).running with
    | none => unexpectedMessage w
    | some running => handleResult env lane stopDispatch running message w

/-- `handle_lane_message`. -/
def handleLaneMessage (lane : LaneId) (stopDispatch : Bool) : Parenting Bool := do
  let received ← call env.receive
  match received with
  | .error error => failLane env lane error
  | .ok message => handleMessage env lane stopDispatch message

/-- A lane whose process ended. -/
def resolveExit (lane : LaneId) : Parenting Unit := do
  let error ← read fun w => env.exitMessage w.calls lane
  appendError error
  stoppingLane lane
  let _ ← resolveAmbiguousFailure env lane false

/-- `handle_native_exits`: whether an exit was found. -/
def handleNativeExits (ready : LaneId → Bool) : List LaneId → Bool → Parenting Bool
  | [], found => return found
  | lane :: lanes, found => fun w =>
    if (w.lanes lane).running.isNone ∨ (ready lane = false ∧ (env.exitcode w.calls lane).isNone) then
      handleNativeExits ready lanes found w
    else (do
      call env.join
      let exited ← read fun w => (env.exitcode w.calls lane).isSome
      if exited then do
        resolveExit env lane
        handleNativeExits ready lanes true
      else handleNativeExits ready lanes found : Parenting Bool) w

/-! ### Runs -/

/-- What can happen to the lanes: a dispatch is published to an idle lane, a frame arrives, processes
    end, trees are terminated, a failure is resolved (after a drain or an abort), a control failure
    is latched. -/
inductive ParentEvent where
  | publish (lane : LaneId) (dispatch : ProcessLaneDispatch)
  | message (lane : LaneId) (stopDispatch : Bool)
  | nativeExits (lanes : List LaneId) (ready : LaneId → Bool)
  | terminated (gone : LaneId → Bool)
  | resolve (lane : LaneId) (prequiesced : Bool)
  | latch (lane : LaneId) (error : String)

/-- Each dispatch is published once. -/
def publish (lane : LaneId) (dispatch : ProcessLaneDispatch) (w : ParentWorld) : ParentWorld :=
  if (w.lanes lane).running.isNone ∧ dispatch.toLaneClaim ∉ w.published then
    { updateLane lane (fun h => { h with running := some dispatch, controlError := none }) w with
      published := w.published ++ [dispatch.toLaneClaim] }
  else w

def latchError (lane : LaneId) (error : String) : ParentWorld → ParentWorld :=
  updateLane lane fun h =>
    if h.running.isSome then { h with controlError := some (h.controlError.getD error) } else h

def parentStep : ParentEvent → Parenting Unit
  | .publish lane dispatch => modify (publish lane dispatch)
  | .message lane stopDispatch => do
    let _ ← handleLaneMessage env lane stopDispatch
  | .nativeExits lanes ready => do
    let _ ← handleNativeExits env ready lanes false
  | .terminated gone => modify fun w =>
    { w with lanes := fun lane => { w.lanes lane with treeQuiesced := gone lane } }
  | .resolve lane prequiesced => do
    let _ ← resolveAmbiguousFailure env lane prequiesced
  | .latch lane error => modify (latchError lane error)

/-- The parent after a sequence of events, each of which may return or raise. -/
def parentRun (events : List ParentEvent) (w : ParentWorld) : ParentWorld :=
  events.foldl (fun w e => (parentStep env e w).2) w

end Dpone.Backfill
