import Dpone.ColumnarRanges.Budget
import Dpone.Schemes.Dict
import Dpone.Schemes.Text

/-! The bounded executor of columnar ranges.

    The ranges are worked on in batches: open a session for each range of the batch, submit the
    ranges to a pool of as many threads, take the results in whatever order they are finished, shut
    the pool down and close the sessions. Main thread and pool threads step in any order; a step is
    what a thread does between two points where another one can interfere. -/

namespace Dpone.ColumnarRanges
open Dpone.Schemes

variable {ε : Type}

/-! ### Plans and results -/

structure ColumnarRangeDescriptor where
  rangeId : Str
  ordinal : ℕ
  deriving DecidableEq

structure RangeParallelismPolicy where
  readerWorkers : ℤ
  maxInflightRanges : ℤ
  maxInflightRows : ℤ
  maxInflightBytes : ℤ

/-- A plan, as `create` checks it. -/
structure ColumnarRangePlan where
  policy : RangeParallelismPolicy
  ranges : List ColumnarRangeDescriptor
  nonempty : ranges ≠ []
  contiguous : ranges.map (·.ordinal) = List.range ranges.length
  distinct : (ranges.map (·.rangeId)).Nodup

structure RangeExecutionResult where
  rangeId : Str
  rows : ℤ
  retainedBytes : ℤ
  eofConfirmed : Bool
  deriving DecidableEq

structure RangeExecutionSummary where
  ranges : List RangeExecutionResult
  observedReaderConcurrency : ℤ
  budget : AggregateRangeBudget

/-- What a result has to say to be taken for that of a range. -/
def RangeExecutionResult.IsOf (r : RangeExecutionResult) (item : ColumnarRangeDescriptor) : Prop :=
  r.rangeId = item.rangeId ∧ r.eofConfirmed = true

instance (r : RangeExecutionResult) (item : ColumnarRangeDescriptor) : Decidable (r.IsOf item) :=
  inferInstanceAs (Decidable (_ ∧ _))

/-- How often a session was cancelled and closed. -/
structure RangeSession where
  cancelCalls : ℕ := 0
  closeCalls : ℕ := 0
  deriving DecidableEq

/-! ### The threads of the pool -/

abbrev TaskOutcome (ε : Type) := Except (Fault ε) RangeExecutionResult

/-- Where `execute_one` stands for a range that was submitted; `dropped` is a future cancelled while
    it was queued, `yielded` one whose result was taken. -/
inductive Task (ε : Type) where
  | queued
  | started
  | opening
  | entered (lease : ℕ)
  | reading (lease : ℕ)
  | leaving (lease : ℕ) (outcome : TaskOutcome ε)
  | ended (outcome : TaskOutcome ε)
  | yielded
  | dropped

/-- No thread works on the range, and none will. -/
def Task.Settled : Task ε → Prop
  | .ended _ | .yielded | .dropped => True
  | _ => False

/-- What `execute_one` makes of the end of the worker. -/
def checked (item : ColumnarRangeDescriptor) : Except ε RangeExecutionResult → TaskOutcome ε
  | .error e => .error (.raised e)
  | .ok r =>
    if r.IsOf item then .ok r
    else .error (.value "Range worker must return matching identity and confirmed EOF.")

/-- The steps of `execute_one`: what the task becomes, the budget after it, and the readers that
    become active. -/
inductive Moves (item : ColumnarRangeDescriptor) (cancelled : Bool) (w : BudgetWorld) :
    Task ε → Task ε → BudgetWorld → ℤ → Prop
  | start : Moves item cancelled w .queued .started w 0
  | refused (h : cancelled = true) : Moves item cancelled w .started
      (.ended (.error (.runtime "Range execution cancelled before source read."))) w 0
  | passed (h : cancelled = false) : Moves item cancelled w .started .opening w 0
  | opened {lease : ℕ} {w' : BudgetWorld}
      (h : w.openRange (ε := ε) cancelled = (.leased lease, w')) :
      Moves item cancelled w .opening (.entered lease) w' 0
  | notOpened {e : Fault ε} {w' : BudgetWorld} (h : w.openRange cancelled = (.raised e, w')) :
      Moves item cancelled w .opening (.ended (.error e)) w' 0
  | enter {lease : ℕ} : Moves item cancelled w (.entered lease) (.reading lease) w 1
  | finish {lease : ℕ} (outcome : Except ε RangeExecutionResult) :
      Moves item cancelled w (.reading lease) (.leaving lease (checked item outcome)) w (-1)
  | leave {lease : ℕ} {outcome : TaskOutcome ε} : Moves item cancelled w (.leaving lease outcome)
      (.ended outcome) (w.release (ε := ε) lease).2 0

/-- A worker leases rows and bytes, under the event that it was given or none, and releases what was
    leased so. -/
def WorkerCall (cancelled : Bool) (w : BudgetWorld) : BudgetCall → Prop
  | .openRange _ => False
  | .acquire _ _ flag => flag = false ∨ flag = cancelled
  | .release lease => ∀ l, w.leases[lease]? = some l → l.amounts .ranges = 0

/-! ### The main thread -/

/-- Where `execute` stands; `futures` tells whether every range of the batch was submitted. -/
inductive MainPc (ε : Type) where
  | opening
  | submitting
  | collecting
  | failing (e : Fault ε) (futures : Bool)
  | cancelling (e : Fault ε) (futures : Bool)
  | leaving (e : Option (Fault ε))
  | draining (e : Option (Fault ε))
  | done (outcome : Except (Fault ε) RangeExecutionSummary)

structure ExecutorState (ε : Type) where
  offset : ℕ := 0
  pc : MainPc ε := .opening
  earlier : List RangeSession := []
  sessions : List RangeSession := []
  tasks : List (Task ε) := []
  results : List (ℕ × RangeExecutionResult) := []
  cancelled : Bool := false
  active : ℤ := 0
  observed : ℤ := 0
  world : BudgetWorld

namespace ExecutorState

/-- `session.close()`. -/
def closeSession (x : RangeSession) : RangeSession := { x with closeCalls := x.closeCalls + 1 }

def cancelSession (x : RangeSession) : RangeSession := { x with cancelCalls := x.cancelCalls + 1 }

/-- Every session of the batch is closed, and the batch is left. -/
def closeBatch (s : ExecutorState ε) (pc : MainPc ε) : ExecutorState ε :=
  { s with pc, earlier := s.earlier ++ s.sessions.map closeSession, sessions := [], tasks := [] }

/-- The first error of closing sessions, the last session being closed first. -/
def closeError (faults : ℕ → Option ε) (n : ℕ) : Option (Fault ε) :=
  ((List.range n).reverse.findSome? faults).map .raised

/-- Futures that are still queued are cancelled. -/
def dropQueued : Task ε → Task ε
  | .queued => .dropped
  | t => t

/-- One thread of the pool moved. -/
def moved (s : ExecutorState ε) (i : ℕ) (t : Task ε) (w : BudgetWorld) (δ : ℤ) : ExecutorState ε :=
  { s with
    tasks := s.tasks.set i t
    world := w
    active := s.active + δ
    observed := if 0 < δ then max s.observed (s.active + δ) else s.observed }

end ExecutorState

open ExecutorState

section Execute
variable (plan : ColumnarRangePlan)

def workerLimit : ℤ := min plan.policy.readerWorkers plan.ranges.length

/-- The ranges of the batch. -/
def batchItems (s : ExecutorState ε) : List ColumnarRangeDescriptor :=
  (plan.ranges.drop s.offset).take (workerLimit plan).toNat

/-- The results in the order of the ordinals. -/
def orderedResults (results : List (ℕ × RangeExecutionResult)) :
    Except (Fault ε) (List RangeExecutionResult) :=
  (List.range results.length).mapM fun index =>
    match results.lookup index with
    | some r => .ok r
    | none => .error (.key index)

/-- What follows the last batch. -/
def conclude (s : ExecutorState ε) : Except (Fault ε) RangeExecutionSummary := do
  if s.results.length ≠ plan.ranges.length then
    throw (.runtime "Range executor did not complete every planned range.")
  let ranges ← orderedResults s.results
  return ⟨ranges, s.observed, s.world.budget⟩

/-- After the sessions of a batch are closed without an error: the next batch, or the end. -/
def nextBatch (s : ExecutorState ε) : ExecutorState ε :=
  let next := { s with offset := s.offset + (batchItems plan s).length }
  if next.offset < plan.ranges.length then next.closeBatch .opening
  else next.closeBatch (.done (conclude plan next))

/-- Before the first batch. -/
def beginning : Except (Fault ε) (ExecutorState ε) := do
  let budget ← AggregateRangeBudget.make plan.policy.maxInflightRanges plan.policy.maxInflightRows
    plan.policy.maxInflightBytes
  if workerLimit plan = 0 then throw (.value "range() arg 3 must not be zero")
  if workerLimit plan < 0 then
    throw (.runtime "Range executor did not complete every planned range.")
  return { world := { budget } }

inductive Actor where
  | main
  | task (i : ℕ)
  | worker (i : ℕ)
  deriving DecidableEq

/-- The steps of `execute`. An exception that the caller of `execute` is `handling` hides the errors
    of closing sessions, as one in flight does. -/
inductive Step (handling : Bool) : ExecutorState ε → Actor → ExecutorState ε → Prop
  | openSession {s : ExecutorState ε} (hpc : s.pc = .opening) :
      Step handling s .main { s with
        sessions := s.sessions ++ [{}]
        pc := if s.sessions.length + 1 = (batchItems plan s).length then .submitting else .opening }
  | openFails {s : ExecutorState ε} (hpc : s.pc = .opening) (e : ε) :
      Step handling s .main (s.closeBatch (.done (.error (.raised e))))
  | submit {s : ExecutorState ε} (hpc : s.pc = .submitting) :
      Step handling s .main { s with
        tasks := s.tasks ++ [.queued]
        pc := if s.tasks.length + 1 = s.sessions.length then .collecting else .submitting }
  -- `submit` queues the range before it starts a thread
  | submitFails {s : ExecutorState ε} (hpc : s.pc = .submitting) (e : ε) (queued : Bool) :
      Step handling s .main { s with
        tasks := if queued then s.tasks ++ [.queued] else s.tasks
        pc := .failing (.raised e) false }
  | collect {s : ExecutorState ε} (hpc : s.pc = .collecting) {i : ℕ} {r : RangeExecutionResult}
      {item : ColumnarRangeDescriptor} (htask : s.tasks[i]? = some (.ended (.ok r)))
      (hitem : plan.ranges[s.offset + i]? = some item) :
      Step handling s .main { s with
        tasks := s.tasks.set i .yielded
        results := Dict.set item.ordinal r s.results }
  | collectFails {s : ExecutorState ε} (hpc : s.pc = .collecting) {i : ℕ} {e : Fault ε}
      (htask : s.tasks[i]? = some (.ended (.error e))) :
      Step handling s .main { s with pc := .failing e true }
  | collected {s : ExecutorState ε} (hpc : s.pc = .collecting)
      (hall : ∀ t ∈ s.tasks, t = .yielded) : Step handling s .main { s with pc := .leaving none }
  | cancelSessions {s : ExecutorState ε} {e : Fault ε} {futures : Bool}
      (hpc : s.pc = .failing e futures) :
      Step handling s .main { s with
        cancelled := true
        sessions := s.sessions.map cancelSession
        pc := .cancelling e futures }
  | cancelFutures {s : ExecutorState ε} {e : Fault ε} {futures : Bool}
      (hpc : s.pc = .cancelling e futures) :
      Step handling s .main { s with
        tasks := if futures then s.tasks.map dropQueued else s.tasks
        pc := .leaving (some e) }
  | shutdown {s : ExecutorState ε} {e : Option (Fault ε)} (hpc : s.pc = .leaving e) :
      Step handling s .main { s with tasks := s.tasks.map dropQueued, pc := .draining e }
  | closeFailed {s : ExecutorState ε} {e : Fault ε} (hpc : s.pc = .draining (some e))
      (hsettled : ∀ t ∈ s.tasks, t.Settled) :
      Step handling s .main (s.closeBatch (.done (.error e)))
  | closeRaises {s : ExecutorState ε} (hpc : s.pc = .draining none)
      (hsettled : ∀ t ∈ s.tasks, t.Settled) {faults : ℕ → Option ε} {e : Fault ε}
      (hhandling : handling = false) (hclose : closeError faults s.sessions.length = some e) :
      Step handling s .main (s.closeBatch (.done (.error e)))
  | close {s : ExecutorState ε} (hpc : s.pc = .draining none)
      (hsettled : ∀ t ∈ s.tasks, t.Settled) {faults : ℕ → Option ε}
      (hclose : handling = true ∨ closeError faults s.sessions.length = none) :
      Step handling s .main (nextBatch plan s)
  | task {s : ExecutorState ε} {i : ℕ} {item : ColumnarRangeDescriptor} {t t' : Task ε}
      {w : BudgetWorld} {δ : ℤ} (htask : s.tasks[i]? = some t)
      (hitem : plan.ranges[s.offset + i]? = some item)
      (hmoves : Moves item s.cancelled s.world t t' w δ) :
      Step handling s (.task i) (s.moved i t' w δ)
  | worker {s : ExecutorState ε} {i lease : ℕ} (htask : s.tasks[i]? = some (.reading lease))
      {c : BudgetCall} (hcall : WorkerCall s.cancelled s.world c) :
      Step handling s (.worker i) { s with world := (s.world.call (ε := ε) c).2 }

end Execute

end Dpone.ColumnarRanges
