import Mathlib.Data.List.Basic
import Mathlib.Logic.Function.Basic
import Dpone.Schemes.Saga
import Dpone.Schemes.Text

/-! Two-phase dispatch of claimed chunks to the idle worker lanes.

    A batch is claimed lane by lane, then refreshed and proven as a whole, and only then sent. Every
    claim is captured in a handoff cell before its callback returns; it leaves the cell when its
    failure is on the ledger, or with the batch. Each callback may return anything or raise, an
    ordinary exception or an interrupt. Objects compared by identity are numbers. -/

namespace Dpone.Backfill
open Dpone.Schemes Program

/-- Exact durable chunk owner bound to one child command. -/
structure ProcessLaneBinding where
  runKey : Str
  chunkIndex : ℕ
  owner : Str
  wellFormed : runKey ≠ [] ∧ owner ≠ [] ∧ 1 ≤ chunkIndex
  deriving DecidableEq

/-- What `_same_claim` compares. -/
structure LaneClaim where
  commandId : Str
  binding : ProcessLaneBinding
  parentContext : ℕ
  deriving DecidableEq

structure ProcessLaneDispatch extends LaneClaim where
  loadConfig : ℕ
  identified : commandId ≠ []
  deriving DecidableEq

/-- Child-visible subset of a dispatch. -/
structure ProcessLaneRun where
  commandId : Str
  loadConfig : ℕ
  binding : ProcessLaneBinding
  deriving DecidableEq

abbrev LaneId := ℕ

structure PreparedLaneDispatch where
  lane : LaneId
  chunk : ℕ
  dispatch : ProcessLaneDispatch
  message : Option ProcessLaneRun := none

def PreparedLaneDispatch.claim (item : PreparedLaneDispatch) : LaneClaim :=
  item.dispatch.toLaneClaim

/-- The claim of an item, with the lane it is for. -/
def PreparedLaneDispatch.key (item : PreparedLaneDispatch) : LaneId × LaneClaim :=
  (item.lane, item.claim)

inductive DispatchBatchOutcome where
  | published | deferred | failed
  deriving DecidableEq, Repr

structure DispatchBatchResult where
  outcome : DispatchBatchOutcome
  prepared : List PreparedLaneDispatch := []

/-- What happened to a claim, in order of time. -/
inductive DispatchEvent where
  | began
  | refreshed (claim : LaneClaim)
  | proven (claim : LaneClaim)
  | sent (claim : LaneClaim)
  deriving DecidableEq

/-- Lanes, queue and handoff cell, and what was claimed and terminally failed; the trace has the
    newest event first. -/
structure DispatchWorld where
  running : LaneId → Option ProcessLaneDispatch
  controlError : LaneId → Option String
  queue : List ℕ
  handoff : List PreparedLaneDispatch
  errors : List String
  calls : ℕ
  claimed : List PreparedLaneDispatch
  failed : List LaneClaim
  trace : List DispatchEvent

/-- A claim callback: the dispatches it hands over before it ends. -/
structure ClaimReply where
  handed : List ProcessLaneDispatch
  result : Except Raised Unit

/-- The environment answers the `n`-th call. What `service_control` does on the side is to end the
    commands of lanes that are running. Every handed-over dispatch is a claim of its own. -/
structure DispatchEnvironment where
  exitcode : ℕ → LaneId → Option ℤ
  exitMessage : ℕ → LaneId → String
  stopping : ℕ → LaneId → Bool
  runtimeReady : ℕ → LaneId → Bool
  sentinelReady : ℕ → Except Raised (LaneId → Bool)
  claim : ℕ → ClaimReply
  pickle : ℕ → Except Raised Unit
  refresh : ℕ → Except Raised ProcessLaneDispatch
  prove : ℕ → Except Raised (Option String)
  controlTick : ℕ → Except Raised (Option String)
  finalControlTick : ℕ → Except Raised (Option String)
  finalControlGate : ℕ → Except Raised Bool
  serviceGiven : Bool
  service : ℕ → Except Raised (Option String)
  ended : ℕ → LaneId → Bool
  failChunk : ℕ → Except Raised Unit
  send : ℕ → Except Raised Unit
  render : ℕ → Except Raised String
  fresh : ∀ m n d d', d ∈ (claim m).handed → d' ∈ (claim n).handed →
    d.toLaneClaim = d'.toLaneClaim → m = n

abbrev Dispatching (α : Type) := Program DispatchWorld Raised α

/-- One call and its answer. -/
def invoke {α : Type} (replies : ℕ → Except Raised α) : Dispatching α :=
  answered (·.calls) (fun w => { w with calls := w.calls + 1 }) replies

def modifyWorld (f : DispatchWorld → DispatchWorld) : Dispatching Unit := modify f

def readWorld {α : Type} (f : DispatchWorld → α) : Dispatching α := read f

def record (event : DispatchEvent) : Dispatching Unit :=
  modifyWorld fun w => { w with trace := event :: w.trace }

/-- `_append_once`. -/
def appendOnce (error : String) : Dispatching Unit :=
  modifyWorld fun w =>
    if error ∈ w.errors then w else { w with errors := w.errors ++ [error] }

/-- `except Exception`: interrupts pass. -/
def exceptException {α : Type} (x : Dispatching α) (handler : Dispatching α) : Dispatching α :=
  x.exceptDo fun e =>
    match e with
    | .exception => handler
    | .interrupt => raise .interrupt

variable (env : DispatchEnvironment)

/-- `dispatch_failure_message`, which reads an arbitrary exception. -/
def dispatchFailureMessage : Dispatching String := invoke env.render

def ledgerFailureWriteError : String := "DPONE_BACKFILL_PROCESS_LEDGER_FAILURE_WRITE_FAILED"

/-! ### The handoff cell -/

/-- `unsent`: claims that their lane does not run. -/
def unsent (w : DispatchWorld) : List PreparedLaneDispatch :=
  w.handoff.filter fun item =>
    (w.running item.lane).all (·.toLaneClaim ≠ item.claim)

/-- `release_dispatch`. -/
def releaseDispatch (claim : LaneClaim) : Dispatching Unit :=
  modifyWorld fun w =>
    { w with handoff := w.handoff.filter (·.claim ≠ claim) }

/-- The dispatch captured for a lane and a chunk. -/
def capturedDispatch (lane chunk : ℕ) (w : DispatchWorld) : Option ProcessLaneDispatch :=
  (w.handoff.reverse.find? fun item => item.lane = lane ∧ item.chunk = chunk).map (·.dispatch)

/-- The claim continuation: it refuses a second dispatch, and captures the first. -/
def captureClaim (lane chunk : ℕ) (dispatch : ProcessLaneDispatch) : Dispatching Unit :=
  modifyWorld fun w =>
    if (capturedDispatch lane chunk w).isSome then w
    else
      let item := { lane := lane, chunk := chunk, dispatch := dispatch }
      { w with handoff := w.handoff ++ [item], claimed := w.claimed ++ [item] }

def captureAll (lane chunk : ℕ) : List ProcessLaneDispatch → Dispatching Unit
  | [] => return ()
  | dispatch :: rest => do
    captureClaim lane chunk dispatch
    captureAll lane chunk rest

/-- `claim_chunk`. -/
def claimChunk (lane chunk : ℕ) : Dispatching Unit := fun w =>
  (do captureAll lane chunk (env.claim w.calls).handed
      invoke fun n => (env.claim n).result : Dispatching Unit) w

/-! ### Abandoning claims -/

/-- `fail_chunk`, with the release that follows it. -/
def failChunk (dispatch : ProcessLaneDispatch) : Dispatching Unit := do
  invoke env.failChunk
  modifyWorld fun w => { w with failed := w.failed ++ [dispatch.toLaneClaim] }
  releaseDispatch dispatch.toLaneClaim

/-- `_fail_claim`. -/
def failClaim (dispatch : ProcessLaneDispatch) : Dispatching Unit :=
  (failChunk env dispatch).exceptDo fun _ => appendOnce ledgerFailureWriteError

/-- A claim is failed unless its lane runs. -/
def abandonClaim (item : PreparedLaneDispatch) : Dispatching Unit := fun w =>
  if (w.running item.lane).isNone then failClaim env item.dispatch w else (.returned (), w)

/-- `_abandon`: claims that were never sent. -/
def abandonClaims : List PreparedLaneDispatch → Dispatching Unit
  | [] => return ()
  | item :: rest => do
    abandonClaim env item
    abandonClaims rest

/-- A failed batch. -/
def failBatch (error : String) (prepared : List PreparedLaneDispatch) :
    Dispatching DispatchBatchResult := do
  appendOnce error
  abandonClaims env prepared
  return { outcome := .failed }

/-- `_abort_prepared`: go on with `next` unless there is an error. -/
def abortPrepared (error : Option String) (prepared remaining : List PreparedLaneDispatch)
    (next : Dispatching DispatchBatchResult) : Dispatching DispatchBatchResult :=
  match error with
  | none => next
  | some error => do
    appendOnce error
    abandonClaims env prepared
    abandonClaims env remaining
    return { outcome := .failed }

/-- `service_control`, whose ordinary exceptions are dispatch failures. -/
def serviceControl : Dispatching (Option String) := do
  modifyWorld fun w =>
    { w with running := fun lane => if env.ended w.calls lane then none else w.running lane }
  exceptException (invoke env.service) (do return some (← dispatchFailureMessage env))

/-- `_abort_after_service`. -/
def abortAfterService (prepared remaining : List PreparedLaneDispatch)
    (next : Dispatching DispatchBatchResult) : Dispatching DispatchBatchResult :=
  if env.serviceGiven then do
    let error ← serviceControl env
    abortPrepared env error prepared remaining next
  else next

/-! ### The phases of a batch -/

/-- The `claim` and `serialize` stages of one lane: the dispatch is read back from the cell. -/
def claimStage (lane chunk : ℕ) : Dispatching Unit := do
  claimChunk env lane chunk
  let dispatch ← readWorld (capturedDispatch lane chunk)
  raiseWhen dispatch.isNone .exception
  invoke env.pickle -- ProcessLaneRun.from_dispatch

/-- A failure of a stage is reported and fails the batch. -/
def failStage (prepared : DispatchWorld → List PreparedLaneDispatch) :
    Dispatching DispatchBatchResult := do
  let error ← dispatchFailureMessage env
  let items ← readWorld prepared
  failBatch env error items

/-- A stage whose ordinary failure fails the batch, and what follows it. -/
def stageThen {α : Type} (stage : Dispatching α) (prepared : DispatchWorld → List PreparedLaneDispatch)
    (next : α → Dispatching DispatchBatchResult) : Dispatching DispatchBatchResult := do
  let outcome ← exceptException (some <$> stage) (return none)
  match outcome with
  | some a => next a
  | none => failStage env prepared

/-- The callbacks between two stages. -/
def betweenStages (prepared remaining : List PreparedLaneDispatch)
    (next : Dispatching DispatchBatchResult) : Dispatching DispatchBatchResult :=
  abortAfterService env prepared remaining do
    let error ← invoke env.controlTick
    abortPrepared env error prepared remaining do
      abortAfterService env prepared remaining next

/-- The claim phase, `prepared` being the claims so far; `next` gets all of them. -/
def claimLanes (next : List PreparedLaneDispatch → Dispatching DispatchBatchResult) :
    List LaneId → List PreparedLaneDispatch → Dispatching DispatchBatchResult
  | [], prepared => next prepared
  | lane :: lanes, prepared => fun w =>
    match w.queue with
    | [] => next prepared w
    | chunk :: queue =>
      if (w.running lane).isSome ∨ env.stopping w.calls lane ∨ ¬ env.runtimeReady w.calls lane then
        claimLanes next lanes prepared w
      else if (env.exitcode w.calls lane).isSome then
        failBatch env (env.exitMessage w.calls lane) prepared w
      else
        stageThen env (claimStage env lane chunk) (·.handoff) (fun _ => do
          let handoff ← readWorld (·.handoff)
          betweenStages env handoff [] (claimLanes next lanes handoff)) { w with queue := queue }

/-- The `refresh` and `serialize` stages of one claim. -/
def refreshStage (item : PreparedLaneDispatch) : Dispatching PreparedLaneDispatch := do
  let dispatch ← invoke env.refresh
  raiseWhen (item.claim ≠ dispatch.toLaneClaim) .exception
  invoke env.pickle
  record (.refreshed dispatch.toLaneClaim)
  return { item with
    dispatch := dispatch
    message := some ⟨dispatch.commandId, dispatch.loadConfig, dispatch.binding⟩ }

/-- The refresh and proof phase over `remaining`; `next` gets the refreshed claims. -/
def refreshClaims (prepared : List PreparedLaneDispatch)
    (next : List PreparedLaneDispatch → Dispatching DispatchBatchResult) :
    List PreparedLaneDispatch → List PreparedLaneDispatch → Dispatching DispatchBatchResult
  | [], refreshed => next refreshed
  | item :: remaining, refreshed =>
    stageThen env (refreshStage env item) (fun _ => prepared) fun item =>
      let refreshed := refreshed ++ [item]
      betweenStages env refreshed remaining do
        let proofError ← invoke env.prove
        abortPrepared env proofError refreshed remaining do
          record (.proven item.claim)
          abortAfterService env refreshed remaining (refreshClaims prepared next remaining refreshed)

/-- `_prepared_lane_exit_error`. -/
def preparedLaneExitError (prepared : List PreparedLaneDispatch) : Dispatching (Option String) := do
  let ready ← invoke env.sentinelReady
  readWorld fun w =>
    (prepared.find? fun item => (env.exitcode w.calls item.lane).isSome ∨ ready item.lane).map
      fun item => env.exitMessage w.calls item.lane

/-- A pipe write; the lane owns the dispatch from before it begins. -/
def publishOne (item : PreparedLaneDispatch) : Dispatching Unit := do
  modifyWorld fun w =>
    { w with
      running := Function.update w.running item.lane (some item.dispatch)
      controlError := Function.update w.controlError item.lane none }
  raiseWhen item.message.isNone .exception
  record (.sent item.claim)
  invoke env.send

/-- A failed write: the lane keeps the dispatch, the claims after it are abandoned. -/
def sendFailed (item : PreparedLaneDispatch) (rest : List PreparedLaneDispatch) (e : Raised) :
    Dispatching DispatchBatchResult := do
  let error ← dispatchFailureMessage env
  modifyWorld fun w =>
    { w with controlError := Function.update w.controlError item.lane (some error) }
  appendOnce error
  match e with
  | .exception => do
    abandonClaims env rest
    return { outcome := .failed }
  | .interrupt => raise .interrupt

/-- The send phase. -/
def sendClaims : List PreparedLaneDispatch → Dispatching DispatchBatchResult
  | [] => return { outcome := .published }
  | item :: rest => fun w =>
    if (env.exitcode w.calls item.lane).isSome then
      failBatch env (env.exitMessage w.calls item.lane) (item :: rest) w
    else
      match publishOne env item w with
      | (.raised e, w) => sendFailed env item rest e w
      | (.returned _, w) => sendClaims rest w
      | (.stopped, w) => (.stopped, w)

/-- From the last proof to the first write: no callback but the readiness check in between. -/
def finalChecks (refreshed : List PreparedLaneDispatch) : Dispatching DispatchBatchResult :=
  abortAfterService env refreshed [] do
    let controlError ← invoke env.finalControlTick
    abortPrepared env controlError refreshed [] do
      stageThen env (invoke env.finalControlGate) (fun _ => refreshed) fun deferred =>
        if deferred then return { outcome := .deferred, prepared := refreshed }
        else do
          let exitError ← preparedLaneExitError env refreshed
          abortPrepared env exitError refreshed [] (sendClaims env refreshed)

/-- The phases after the claims. -/
def dispatchClaims (prepared : List PreparedLaneDispatch) : Dispatching DispatchBatchResult :=
  if prepared = [] then return { outcome := .published }
  else refreshClaims env prepared (finalChecks env) prepared []

/-- `_dispatch_prepared_lifecycle`. -/
def dispatchPreparedLifecycle (lanes : List LaneId) : Dispatching DispatchBatchResult := do
  record .began
  let prepared ← readWorld (·.handoff)
  if prepared = [] then claimLanes env (dispatchClaims env) lanes []
  else dispatchClaims env prepared

/-- `except BaseException` around the lifecycle, when a handoff cell is given. -/
def reportLifecycle (e : Raised) : Dispatching DispatchBatchResult := do
  let error ← (dispatchFailureMessage env).exceptDo fun _ =>
    return "DPONE_BACKFILL_PROCESS_DISPATCH_FAILED: stage=lifecycle"
  appendOnce error
  raise e

/-- The cell after a result: what a failed batch left unsent, else what the result retains. -/
def settleHandoff (result : DispatchBatchResult) : Dispatching Unit :=
  modifyWorld fun w =>
    { w with handoff := if result.outcome = .failed then unsent w else result.prepared }

/-- `dispatch_prepared_batch`. -/
def dispatchPreparedBatch (lanes : List LaneId) : Dispatching DispatchBatchResult :=
  (do let result ← dispatchPreparedLifecycle env lanes
      settleHandoff result
      return result).exceptDo (reportLifecycle env)

/-- Attempts with one cell, each after the first because the one before was deferred. Between
    attempts running commands may end. -/
def dispatchAttempts : List (List LaneId) → Dispatching DispatchBatchOutcome
  | [] => return .deferred
  | lanes :: more => do
    let result ← dispatchPreparedBatch env lanes
    match result.outcome with
    | .deferred => do
      modifyWorld fun w =>
        { w with
          running := fun lane => if env.ended w.calls lane then none else w.running lane
          calls := w.calls + 1 }
      dispatchAttempts more
    | outcome => return outcome

/-- A dispatch of a given chunk, to run the model on. -/
def dispatchOfChunk (chunkIndex loadConfig : ℕ) : ProcessLaneDispatch where
  commandId := "command".toList
  binding := ⟨"run".toList, chunkIndex + 1, "owner".toList, by decide, by decide, by omega⟩
  parentContext := 0
  loadConfig := loadConfig
  identified := by decide

end Dpone.Backfill
