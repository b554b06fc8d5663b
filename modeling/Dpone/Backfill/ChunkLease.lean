import Mathlib.Data.List.Basic
import Dpone.Schemes.Python

/-! The chunk lease operations of the backfill ledger.

    Every operation loads the ledger, decides on the record of one chunk (`recover_stale_running` on
    all of them) and saves the ledger, all under the store's lock. A completion stores the caller's
    record in place of the one it checked. Instants are microseconds; `now k` is the `k`-th time the
    call reads the clock. -/

namespace Dpone.Backfill
open Dpone.Schemes

abbrev Instant := ℤ

inductive ChunkStatus where
  | pending | running | success | failed
  deriving DecidableEq, Repr

structure BackfillChunkRecord where
  index : ℤ
  status : ChunkStatus := .pending
  attempts : ℤ := 0
  error : Option Str := none
  leaseOwner : Option Str := none
  leaseExpiresAt : Option Instant := none
  startedAt : Option Instant := none
  updatedAt : Option Instant := none
  deriving DecidableEq

inductive CampaignStatus where
  | active | cancelRequested
  deriving DecidableEq, Repr

structure BackfillLedger where
  runKey : String
  status : CampaignStatus := .active
  chunks : List BackfillChunkRecord := []
  createdAt : Option Instant := none
  updatedAt : Option Instant := none
  deriving DecidableEq

/-- `BackfillLedger.chunk`: the first record with the index. -/
def BackfillLedger.chunk (ledger : BackfillLedger) (index : ℤ) :
    Except PyError BackfillChunkRecord :=
  match ledger.chunks.find? (·.index = index) with
  | some record => .ok record
  | none => .error (.keyError s!"backfill ledger {ledger.runKey} has no chunk {index}")

/-- `_expired`: an absent expiry has passed. -/
def expired (value : Option Instant) (now : Instant) : Bool :=
  match value with
  | none => true
  | some parsed => parsed ≤ now

def save (ledger : BackfillLedger) (now : Instant) : BackfillLedger :=
  { ledger with createdAt := ledger.createdAt.or (some now), updatedAt := some now }

/-- `update_chunk` on the list: the first record with the index is replaced, else appended. -/
def replaceChunk (record : BackfillChunkRecord) : List BackfillChunkRecord → List BackfillChunkRecord
  | [] => [record]
  | existing :: chunks =>
    if existing.index = record.index then record :: chunks
    else existing :: replaceChunk record chunks

def updateChunk (ledger : BackfillLedger) (record : BackfillChunkRecord) (now : ℕ → Instant)
    (k : ℕ) : BackfillLedger :=
  save { ledger with
    chunks := replaceChunk { record with updatedAt := some (now k) } ledger.chunks } (now (k + 1))

def acquireChunkLease (ledger : BackfillLedger) (index : ℤ) (owner : Str)
    (leaseExpiresAt : Instant) (now : ℕ → Instant) : Except PyError (Bool × BackfillLedger) :=
  if ledger.status = .cancelRequested then .ok (false, ledger)
  else do
    let record ← ledger.chunk index
    if record.status = .success then .ok (false, ledger)
    else if record.status = .running ∧ ¬ expired record.leaseExpiresAt (now 0) then
      .ok (false, ledger)
    else .ok (true, updateChunk ledger
      { record with
        status := .running
        attempts := record.attempts + 1
        leaseOwner := some owner
        leaseExpiresAt := some leaseExpiresAt
        startedAt := record.startedAt.or (some (now 1))
        error := none } now 2)

def completeChunkIfOwned (ledger : BackfillLedger) (record : BackfillChunkRecord) (owner : Str)
    (now : ℕ → Instant) : Except PyError (Bool × BackfillLedger) := do
  let current ← ledger.chunk record.index
  if current.status ≠ .running ∨ current.leaseOwner ≠ some owner then .ok (false, ledger)
  else .ok (true, updateChunk ledger
    { record with leaseOwner := none, leaseExpiresAt := none } now 0)

/-- `renew_chunk_lease`: an expiry that is absent counts as passed, so an accepted renewal compares
    two instants. -/
def renewChunkLease (ledger : BackfillLedger) (index : ℤ) (owner : Str)
    (leaseExpiresAt : Instant) (now : ℕ → Instant) : Except PyError (Bool × BackfillLedger) := do
  let record ← ledger.chunk index
  match record.leaseExpiresAt with
  | none => .ok (false, ledger)
  | some currentExpiry =>
    if record.status ≠ .running ∨ record.leaseOwner ≠ some owner ∨
        expired (some currentExpiry) (now 0) ∨ leaseExpiresAt ≤ now 1 then
      .ok (false, ledger)
    else if currentExpiry < leaseExpiresAt then
      .ok (true, updateChunk ledger { record with leaseExpiresAt := some leaseExpiresAt } now 2)
    else .ok (true, ledger)

/-- The test of `recover_stale_running`. -/
def BackfillChunkRecord.stale (record : BackfillChunkRecord) (now : Instant) : Bool :=
  record.status = .running ∧ expired record.leaseExpiresAt now

/-- One round of the loop of `recover_stale_running`. -/
def BackfillChunkRecord.recover (record : BackfillChunkRecord) (now : Instant) :
    BackfillChunkRecord :=
  if record.stale now then
    { record with
      status := .failed, error := some "lease_expired".toList, leaseOwner := none
      leaseExpiresAt := none }
  else record

@[simp] theorem BackfillChunkRecord.recover_index (record : BackfillChunkRecord) (now : Instant) :
    (record.recover now).index = record.index := by
  unfold recover; split <;> rfl

theorem BackfillChunkRecord.recover_of_not_stale {record : BackfillChunkRecord} {now : Instant}
    (h : ¬ record.stale now) : record.recover now = record := if_neg h

def recoverStaleRunning (ledger : BackfillLedger) (now saved : Instant) :
    List ℤ × BackfillLedger :=
  let recovered := (ledger.chunks.filter (·.stale now)).map (·.index)
  if recovered = [] then (recovered, ledger)
  else (recovered, save { ledger with chunks := ledger.chunks.map (·.recover now) } saved)

end Dpone.Backfill
