import Dpone.Schemes.Numeral
import Dpone.Schemes.Pool
import Dpone.Window.Execution

/-! Chunk staging: attempts, their journal records and the pool of workers.

    A chunk is staged by attempts 0, 1 and 2. Each attempt is journaled before its staging starts
    and again when its receipt is verified; a restart goes on from the record it finds. The worker
    never stages the attempt a record names, it only inspects it: a new staging takes the next
    number, after every older attempt was discarded. -/

namespace Dpone.Window
open Dpone.Schemes Program

/-- How far the attempt of a record came. -/
inductive ChunkPhase where
  | staging
  | verified (receipt : ChunkReceipt)
  | failed

/-- The record of a chunk; `validate_window_record` admits no other attempt ordinal. -/
structure ChunkRecord where
  attempt : ℕ
  phase : ChunkPhase
  ordinal : attempt ≤ 2

/-- What the target was told: attempts whose staging began, attempts it confirmed removed. -/
inductive StagingEvent where
  | staged (attempt : ℕ)
  | discarded (attempt : ℕ)
  deriving DecidableEq, Repr

/-- The durable state of one chunk: its record, how many external calls its workers made, and what
    happened, newest first. -/
structure ChunkWorld where
  record : Option ChunkRecord
  calls : ℕ
  trace : List StagingEvent

/-- The environment answers the `n`-th external call made for a chunk. -/
structure ChunkEnvironment where
  reply : ℕ → Answer WindowError Unit
  inspect : ℕ → Answer WindowError (Option ChunkReceipt)
  stage : ℕ → Answer WindowError ChunkReceipt
  takesEffect : ℕ → Bool

abbrev Staging (α : Type) := Program ChunkWorld WindowError α

/-- One external call, with the events of invoking it and of its return. -/
def call {α : Type} (replies : ℕ → Answer WindowError α) (asked returned : List StagingEvent) :
    Staging α := fun w =>
  Program.ask (replies w.calls)
    (fun w => { w with calls := w.calls + 1, trace := returned ++ asked ++ w.trace })
    (fun w => { w with calls := w.calls + 1, trace := asked ++ w.trace }) w

variable (env : ChunkEnvironment) (chunk : WindowChunk)

/-- A call that leaves no event: `_check`, `sleeper`, `rows.close`. -/
def silently : Staging Unit := call env.reply [] []

/-- `journal.read(key)`. -/
def readRecord : Staging (Option ChunkRecord) := do
  silently env
  fun w => (.returned w.record, w)

/-- `journal.write(key, ...)`: a write that does not return may have taken effect. -/
def writeRecord (attempt : ℕ) (phase : ChunkPhase) : Staging Unit := fun w =>
  if h : attempt ≤ 2 then
    let saved := { w with record := some ⟨attempt, phase, h⟩, calls := w.calls + 1 }
    let failed := if env.takesEffect w.calls then saved else { w with calls := w.calls + 1 }
    Program.ask (env.reply w.calls) (fun _ => saved) (fun _ => failed) w
  else raise (.contract "Invalid persisted attempt ordinal") w

/-- `f"{chunk.chunk_id}-{attempt}"`. -/
def attemptId (chunkId : Str) (attempt : ℕ) : Str := chunkId ++ '-' :: decimalText attempt

/-- `_verified`. -/
def verifiedReceipt (receipt : ChunkReceipt) (attempt : ℕ) : Staging ChunkReceipt := do
  raiseWhen (receipt.chunkId ≠ chunk.chunkId ∨ receipt.attemptId ≠ attemptId chunk.chunkId attempt)
    (.contract "Staging receipt belongs to a different chunk attempt")
  return receipt

/-- The body of the `try`: stage, verify, and compare with what the server holds. -/
def stageOnce (attempt : ℕ) : Staging (Option ChunkReceipt) := do
  let receipt ← call env.stage [.staged attempt] []
  let receipt ← verifiedReceipt chunk receipt attempt
  let observed ← call env.inspect [] []
  raiseWhen (observed ≠ some receipt)
    (.contract "Staging receipt failed server-side reconciliation")
  return some receipt

/-- `except WindowTransientError`: what the server verified counts; otherwise try again, if the
    budget allows. -/
def reconcileTransient (attempt : ℕ) (e : WindowError) : Staging (Option ChunkReceipt) := do
  silently env -- _check
  match ← call env.inspect [] [] with
  | some observed =>
    let receipt ← verifiedReceipt chunk observed attempt
    return some receipt
  | none =>
    if attempt = 2 then do
      writeRecord env attempt .failed
      raise e
    else do
      silently env -- sleeper
      return none

/-- `except WindowContractError`. -/
def failAttempt (attempt : ℕ) (e : WindowError) : Staging (Option ChunkReceipt) := do
  writeRecord env attempt .failed
  raise e

/-- The `except` clauses of a staging. -/
def handleStaging (attempt : ℕ) : WindowError → Staging (Option ChunkReceipt)
  | .transient => reconcileTransient env chunk attempt .transient
  | .contract text => failAttempt env attempt (.contract text)
  | .outcomeUnknown text => failAttempt env attempt (.outcomeUnknown text)
  | .other => raise .other

/-- Staging of one attempt, from its `staging` record to its `verified` one; `none` is `continue`. -/
def stageAttempt (attempt : ℕ) : Staging (Option ChunkReceipt) := do
  writeRecord env attempt .staging
  let staged ← ((stageOnce env chunk attempt).exceptDo (handleStaging env chunk attempt)).finallyDo
    (silently env) -- rows.close
  match staged with
  | some receipt =>
    writeRecord env attempt (.verified receipt)
    return some receipt
  | none => return none

/-- `for prior_attempt in range(attempt)`: every older attempt is confirmed removed. -/
def discardPrior : List ℕ → Staging Unit
  | [] => return ()
  | prior :: rest => do
    silently env -- _check
    call env.reply [] [.discarded prior]
    discardPrior rest

/-- The receipt of a phase. -/
def ChunkPhase.receipt : ChunkPhase → Option ChunkReceipt
  | .verified receipt => some receipt
  | _ => none

/-- An attempt whose staging the server has verified is adopted. -/
def adoptReceipt (attempt : ℕ) (previous : ChunkPhase) (observed : ChunkReceipt) :
    Staging ChunkReceipt := do
  let receipt ← verifiedReceipt chunk observed attempt
  raiseWhen (previous.receipt.any (· ≠ receipt))
    (.contract "Verified staging receipt changed since checkpoint")
  writeRecord env attempt (.verified receipt)
  return receipt

/-- The next attempt is on record, and no older one is left at the target. -/
def openAttempt (attempt : ℕ) : Staging Unit := do
  writeRecord env attempt .staging
  silently env -- _check
  discardPrior env (List.range attempt)

/-- The loop of `_chunk`: `previous` is the phase on record of an attempt that may be staged. -/
def chunkLoop : (attempt : ℕ) → (previous : Option ChunkPhase) → Staging ChunkReceipt
  | attempt, none =>
    if attempt ≤ 2 then do
      silently env -- _check
      match ← stageAttempt env chunk attempt with
      | some receipt => return receipt
      | none => chunkLoop attempt (some .staging)
    else raise (.contract "Chunk retry budget exhausted")
  | attempt, some previous =>
    if _ : attempt ≤ 2 then do
      silently env -- _check
      match ← call env.inspect [] [] with
      | some observed => adoptReceipt env chunk attempt previous observed
      | none =>
        raiseWhen previous.receipt.isSome (.contract "Verified staging is missing or changed")
        if attempt = 2 then do
          writeRecord env attempt .failed
          raise (.contract "Chunk retry budget exhausted")
        else do
          openAttempt env (attempt + 1)
          match ← stageAttempt env chunk (attempt + 1) with
          | some receipt => return receipt
          | none => chunkLoop (attempt + 1) (some .staging)
    else raise (.contract "Chunk retry budget exhausted")
termination_by attempt previous => 2 * (3 - attempt) + (if previous.isSome then 0 else 1)
decreasing_by
  · simp
  · simp; omega

/-- `_chunk`. -/
def chunkWorker : Staging ChunkReceipt := do
  match ← readRecord env with
  | none => chunkLoop env chunk 0 none
  | some record =>
    match record.phase with
    | .failed =>
      raise (.contract "Previous chunk attempt failed terminally; start a new approved run")
    | phase => chunkLoop env chunk record.attempt (some phase)

/-! ### All chunks of a run -/

/-- The chunks of a run, by identity. -/
abbrev StagingWorld := Str → ChunkWorld

/-- A worker reads and writes its own chunk only. -/
def onChunk {α : Type} (chunkId : Str) (x : Staging α) : Program StagingWorld WindowError α :=
  fun w => ((x (w chunkId)).1, Function.update w chunkId (x (w chunkId)).2)

/-- `_chunks`: the pool over the chunks of the plan. -/
def stageChunks (envs : Str → ChunkEnvironment) (schedule : Schedule) (plan : WindowPlan) :
    Program StagingWorld WindowError (List ChunkReceipt) :=
  runPool schedule (fun chunk => onChunk chunk.chunkId (chunkWorker (envs chunk.chunkId) chunk))
    .other plan.workers plan.chunks

/-- One execution of a run: workers and schedule are its own, the chunks are those of the run. Chunk
    identities are digests of the distinct ranges of the plan. -/
structure StagingExecution (chunks : List WindowChunk) where
  plan : WindowPlan
  schedule : Schedule
  sameChunks : plan.chunks = chunks
  distinct : (chunks.map (·.chunkId)).Nodup
  workers_pos : 0 < plan.workers

/-- A run none of whose chunks was staged yet. -/
def StagingWorld.initial : StagingWorld := fun _ => { record := none, calls := 0, trace := [] }

/-- The chunks after any sequence of executions. -/
def afterStaging (envs : Str → ChunkEnvironment) {chunks : List WindowChunk}
    (executions : List (StagingExecution chunks)) : StagingWorld :=
  executions.foldl (fun w e => (stageChunks envs e.schedule e.plan w).2) StagingWorld.initial

end Dpone.Window
