import Mathlib.Data.List.Dedup
import Mathlib.Data.List.Count
import Dpone.Schemes.Saga
import Dpone.Schemes.Text

/-! Bounded-window publication: a saga over source, target, journal, evidence and cursor.

    One execution stages the chunks, seals a generation, journals its intent, publishes, and then
    journals, records evidence and advances the cursor. Any external call may raise or be cut off
    by the process stopping, and a journal write that raises may or may not have been persisted.
    The next execution of the run starts from whatever record the journal holds. -/

namespace Dpone.Window
open Dpone.Schemes

/-- One contiguous half-open extraction range. -/
structure WindowChunk where
  chunkId : Str
  start : ℤ
  stop : ℤ
  deriving DecidableEq

/-- What the executor reads of a plan. `workers` bounds the staging pool. -/
structure WindowPlan where
  runId : Str
  targetId : Str
  chunks : List WindowChunk
  workers : ℕ

/-- Adapter-verified staging parity; malformed receipts cannot be built. -/
structure ChunkReceipt where
  chunkId : Str
  attemptId : Str
  rowCount : ℕ
  digest : Str
  wellFormed : chunkId ≠ [] ∧ attemptId ≠ [] ∧ digest ≠ []
  deriving DecidableEq

inductive PublicationStatus where
  | published | absent | unknown
  deriving DecidableEq, Repr

inductive WindowError where
  | contract (text : String)
  | outcomeUnknown (text : String)
  | transient
  | other
  deriving DecidableEq, Repr

/-- Run phases past `planned`. -/
inductive Phase where
  | publishing | published | evidenceComplete | succeeded
  deriving DecidableEq, Repr

/-- The run record: `planned` carries no fields, every later phase a generation and receipts. -/
inductive RunRecord where
  | planned
  | later (phase : Phase) (generation : Str) (receipts : List ChunkReceipt)
  deriving DecidableEq

/-- Success as the caller sees it. -/
structure WindowResult where
  runId : Str
  generation : Str
  receipts : List ChunkReceipt
  deriving DecidableEq

/-- What happened outside, and what was reported. -/
inductive Event where
  | publish (generation : Str)
  | proven (generation : Str)
  | evidence (generation : Str)
  | evidenceRecorded (generation : Str)
  | advance (generation : Str)
  | advanced (generation : Str)
  | journaled (record : RunRecord)
  | succeeded (generation : Str)
  deriving DecidableEq

/-- The durable state of one run: its record, how many external calls were made, and what
    happened, newest first. -/
structure World where
  journal : Option RunRecord
  calls : ℕ
  trace : List Event

/-- How an external call ends. -/
inductive Reply (α : Type) where
  | returns (a : α)
  | raises (e : WindowError)
  | stops

/-- The environment answers the `n`-th external call of the run. A journal write that does not
    return may have taken effect all the same. -/
structure Environment where
  reply : ℕ → Reply Unit
  receipts : ℕ → Reply (List ChunkReceipt)
  generation : ℕ → Reply (Option Str)
  status : ℕ → Reply PublicationStatus
  takesEffect : ℕ → Bool

abbrev Exec (α : Type) := Program World WindowError α

/-- One external call, with the events of invoking it and of its answer. -/
def ask {α : Type} (replies : ℕ → Reply α) (asked : List Event) (answered : α → List Event) :
    Exec α := fun w =>
  match replies w.calls with
  | .returns a =>
    (.returned a, { w with calls := w.calls + 1, trace := answered a ++ asked ++ w.trace })
  | .raises e => (.raised e, { w with calls := w.calls + 1, trace := asked ++ w.trace })
  | .stops => (.stopped, { w with calls := w.calls + 1, trace := asked ++ w.trace })

variable (env : Environment)

/-- A call that leaves no event of its own. -/
def quiet : Exec Unit := ask env.reply [] fun _ => []

/-- `WindowJournal.read("run")`. -/
def journalRead : Exec (Option RunRecord) := do
  quiet env
  fun w => (.returned w.journal, w)

/-- `validate_window_record` for the run record. -/
def RunRecord.valid : RunRecord → Bool
  | .planned => true
  | .later _ generation _ => generation ≠ []

/-- `WindowJournal.write("run", record)`: a valid record replaces the old one atomically. -/
def journalWrite (record : RunRecord) : Exec Unit := do
  Program.raiseWhen (record.valid = false) (.contract "Malformed persisted generation")
  fun w =>
    let saved := { w with
      journal := some record, calls := w.calls + 1, trace := .journaled record :: w.trace }
    let failed := if env.takesEffect w.calls then saved else { w with calls := w.calls + 1 }
    match env.reply w.calls with
    | .returns _ => (.returned (), saved)
    | .raises e => (.raised e, failed)
    | .stops => (.stopped, failed)

/-- `recover_publication`: reconciliation only. -/
def recoverPublication (generation : Str) : Exec Unit := do
  let status ← ask env.status []
    fun s => if s = .published then [.proven generation] else []
  Program.raiseWhen (status ≠ .published)
    (.outcomeUnknown "Publication is not proven; inspect target generation before recovery")

/-- The attempt identities of a chunk. -/
def attemptIds (chunkId : Str) : List Str :=
  ["-0", "-1", "-2"].map fun s => chunkId ++ s.toList

/-- `_load_receipts`. -/
def loadReceipts (plan : WindowPlan) (records : List ChunkReceipt) : Exec (List ChunkReceipt) := do
  let expected : List Str := (plan.chunks.map (·.chunkId)).dedup
  let ids : List Str := records.map (·.chunkId)
  Program.raiseWhen (records.length ≠ expected.length ∨ (∃ i ∈ ids, i ∉ expected) ∨
      ∃ i ∈ expected, i ∉ ids)
    (.contract "Publication receipts must cover each plan chunk exactly once")
  Program.raiseWhen (∃ r ∈ records, r.attemptId ∉ attemptIds r.chunkId)
    (.contract "Publication receipt has invalid attempt identity")
  return records

/-- The `planned` branch of `_run`: stage, seal, journal the intent, publish, reconcile. The chunk
    workers touch staging and the chunk records only; the environment answers for them. -/
def publishPlanned : Exec (Str × List ChunkReceipt) := do
  quiet env -- source.validate
  let receipts ← ask env.receipts [] fun _ => []
  quiet env -- _check
  let generation ← ask env.generation [] fun _ => []
  let generation := generation.getD []
  Program.raiseWhen (generation = []) (.contract "Target generation must be nonempty")
  journalWrite env (.later .publishing generation receipts)
  quiet env
  (ask env.reply [.publish generation] fun _ => []).exceptDo
    fun _ => recoverPublication env generation
  recoverPublication env generation
  return (generation, receipts)

/-- The other branch: a journaled intent permits reconciliation only. -/
def reconcileLater (plan : WindowPlan) (generation : Str) (records : List ChunkReceipt) :
    Exec (Str × List ChunkReceipt) := do
  Program.raiseWhen (generation = []) (.contract "Invalid persisted generation")
  let receipts ← loadReceipts plan records
  recoverPublication env generation
  return (generation, receipts)

/-- The tail of `_run` for every phase but `succeeded`. -/
def complete (generation : Str) (receipts : List ChunkReceipt) : Exec Unit := do
  journalWrite env (.later .published generation receipts)
  quiet env
  ask env.reply [.evidence generation] fun _ => [.evidenceRecorded generation]
  journalWrite env (.later .evidenceComplete generation receipts)
  quiet env
  ask env.reply [.advance generation] fun _ => [.advanced generation]
  journalWrite env (.later .succeeded generation receipts)

/-- Reading the run record, creating it for a new run. -/
def openRun : Exec RunRecord := do
  match ← journalRead env with
  | some record => return record
  | none =>
    quiet env -- source.validate
    journalWrite env .planned
    return .planned

/-- `_run`. -/
def run (plan : WindowPlan) : Exec WindowResult := do
  match ← openRun env with
  | .planned =>
    let (generation, receipts) ← publishPlanned env
    quiet env
    complete env generation receipts
    return { runId := plan.runId, generation := generation, receipts := receipts }
  | .later phase generation records =>
    let (generation, receipts) ← reconcileLater env plan generation records
    quiet env
    if phase ≠ .succeeded then complete env generation receipts
    return { runId := plan.runId, generation := generation, receipts := receipts }

/-- `execute_leased`: the renewal thread shows up as failing checks, and as a failing shutdown. -/
def executeLeased (plan : WindowPlan) (leaseTarget : Str) : Exec WindowResult := do
  Program.raiseWhen (leaseTarget ≠ plan.targetId)
    (.contract "Caller lease target does not match window target")
  quiet env -- store.assert_lease
  quiet env -- target.validate
  (run env plan).finallyDo (quiet env)

/-- `execute`. -/
def execute (plan : WindowPlan) : Exec WindowResult := do
  quiet env -- target.validate
  quiet env -- store.acquire
  (executeLeased env plan plan.targetId).finallyDo (quiet env)

/-- An execution of the run, under its own lease or a caller's. -/
structure Execution (runId : Str) where
  plan : WindowPlan
  sameRun : plan.runId = runId
  callerLease : Option Str

/-- One execution and what it reports. -/
def attempt {runId : Str} (e : Execution runId) : Exec Unit := do
  let result ← match e.callerLease with
    | none => execute env e.plan
    | some leaseTarget => executeLeased env e.plan leaseTarget
  fun w => (.returned (), { w with trace := .succeeded result.generation :: w.trace })

/-- A run nobody has executed yet. -/
def World.initial : World := { journal := none, calls := 0, trace := [] }

/-- The world after any sequence of executions of the run. -/
def afterRuns {runId : Str} (executions : List (Execution runId)) : World :=
  executions.foldl (fun w e => (attempt env e w).2) World.initial

end Dpone.Window
