import Dpone.Confined.TransactionJournal

/-! Replacing a file when its digest is the expected one: a journal, one atomic exchange of names,
    a check of what was exchanged out, and the removal of the old file. -/

namespace Dpone.Confined
open Dpone.Schemes Dpone.Schemes.Crash

variable (site : Site)

/-- `ConfinedReplaceOutcome`. -/
structure ReplaceOutcome where
  committed : Bool
  cleanupRequired : Bool := false
  recoveryName : Option Str := none
  deriving DecidableEq

/-- What a call of `replace_file_if_digest` is given besides its site. -/
structure Replacement where
  replacementName : Str
  expectedSha256 : Str

def mutationError {α : Type} (code : String) (recoveryName : Option Str := none)
    (committed : Bool := false) (cleanupRequired : Bool := false) : Call α :=
  raise (.mutation code recoveryName committed cleanupRequired)

def validateReplaceInputs (call : Replacement) : Call Unit :=
  rescue
    (do
      ofExcept (validateTransactionNames site site.target call.replacementName)
      ofExcept (validateSha256 call.expectedSha256))
    fun
      | .journal code => mutationError code
      | fault => raise fault

def readForReplace (name : Str) : Call FileSnapshot :=
  rescue (readConfinedLeaf site name site.maxBytes) fun
    | .confinedFile code =>
      mutationError (if code = "file_not_found" ∨ code = "source_changed" then "source_changed"
        else "unsafe_path")
    | fault => raise fault

/-- `_journal_mutation_error`. -/
def journalMutationError {α : Type} (code : String) : Call α :=
  if code = "path_invalid" ∨ code = "digest_invalid" ∨ code = "journal_too_large" then
    mutationError code
  else mutationError "recovery_required" (safeJournalName site.target) false true

/-- `_finish_committed`: cleanup problems do not undo the commit. -/
def finishCommitted (journal : JournalFile) (displaced : FileSnapshot) : Call ReplaceOutcome :=
  rescue
    (do
      removeSnapshot site journal.record.exchangeName displaced
      removeTransactionJournal site journal
      return { committed := true })
    fun _ => do
      let name := if ← leafExists site journal.record.exchangeName
        then journal.record.exchangeName else journal.name
      return { committed := true, cleanupRequired := true, recoveryName := some name }

/-- `_raise_after_source_mismatch`: exchange back, then raise. -/
def raiseAfterSourceMismatch (journal : JournalFile) (displacedSource prepared : FileSnapshot)
    (errorCode : String) : Call ReplaceOutcome := do
  let rollback ← rescue
    (exchangeBack site journal.record.exchangeName displacedSource journal.record.desiredSha256
      prepared.identity)
    fun _ => mutationError "recovery_required" (some journal.name) false true
  rescue (removeTransactionJournal site journal) fun _ =>
    mutationError "recovery_required" (some (rollback.recoveryName.getD journal.name)) false true
  mutationError errorCode rollback.recoveryName false rollback.cleanupRequired

/-- `replace_file_if_digest` once its journal is durable. -/
def exchangePrepared (call : Replacement) (journal : JournalFile) (replacement : FileSnapshot) :
    Call ReplaceOutcome := do
  rescue (atomicExchange site site.target call.replacementName) fun _ =>
    mutationError "recovery_required" (some journal.name) false true
  let synced ← rescue (do fsync site; return true) fun _ => pure false
  let displaced ← rescue (readConfinedLeaf site call.replacementName site.maxBytes) fun
    | .confinedFile _ => mutationError "recovery_required" (some journal.name) false true
    | fault => raise fault
  if displaced.sha256 ≠ call.expectedSha256 then
    raiseAfterSourceMismatch site journal displaced replacement "source_changed"
  else
    match ← leafMatchesSnapshot site site.target replacement with
    | false => raiseAfterSourceMismatch site journal displaced replacement "replacement_changed"
    | true =>
      if synced = false then
        return { committed := true, cleanupRequired := true,
                 recoveryName := some call.replacementName }
      else finishCommitted site journal displaced

/-- `replace_file_if_digest` once no earlier journal is left. -/
def replaceRecovered (call : Replacement) : Call ReplaceOutcome := do
  let target ← readForReplace site site.target
  let replacement ← readForReplace site call.replacementName
  if target.sha256 ≠ call.expectedSha256 then mutationError "source_changed"
  else if target.sha256 = replacement.sha256 then return { committed := true }
  else
    let journal ← rescue
      (createTransactionJournal site
        { targetName := site.target, exchangeName := call.replacementName,
          expectedSha256 := call.expectedSha256, desiredSha256 := replacement.sha256 })
      fun
        | .journal code => journalMutationError site code
        | fault => raise fault
    exchangePrepared site call journal replacement

/-- `replace_file_if_digest`. -/
def replaceFileIfDigest (call : Replacement) : Call ReplaceOutcome := do
  validateReplaceInputs site call
  let recovery ← recoverTransaction site
  if recovery.recoveryRequired then
    mutationError "recovery_required" recovery.recoveryName recovery.committed
      recovery.cleanupRequired
  else replaceRecovered site call

end Dpone.Confined
