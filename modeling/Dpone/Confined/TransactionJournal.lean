import Dpone.Confined.Files
import Dpone.Schemes.JsonText
import Dpone.Schemes.Records

/-! The journal of one replacement: its text, its file, and recovery by the digests it names. -/

namespace Dpone.Confined
open Dpone.Schemes Dpone.Schemes.Crash Dpone.Schemes.JsonText

/-! ### Names and digests -/

def validateLeafSyntax (name : Str) : Except Fault Unit :=
  if name = [] ∨ name = ['.'] ∨ name = ['.', '.'] ∨ '/' ∈ name ∨ '\\' ∈ name ∨
      '\x00' ∈ name then
    .error (.journal "path_invalid")
  else .ok ()

def journalName (target : Str) : Str := '.' :: (target ++ ".dpone-transaction.json".toList)

/-- `transaction_journal_name`. -/
def transactionJournalName (target : Str) : Except Fault Str := do
  validateLeafSyntax target
  return journalName target

/-- `len(os.fsencode(name))`. -/
def encodedLength (name : Str) : ℕ := (encodeUtf8 name).length

section Names
variable (site : Site)

def validateTransactionLeaf (name : Str) : Except Fault Unit := do
  validateLeafSyntax name
  if site.nameMax < encodedLength name then .error (.journal "path_invalid") else .ok ()

def validateTransactionNames (target exchange : Str) : Except Fault Unit := do
  let journal ← transactionJournalName target
  validateTransactionLeaf site target
  validateTransactionLeaf site exchange
  if target = exchange ∨ journal = target ∨ journal = exchange then
    .error (.journal "path_invalid")
  else if site.nameMax < encodedLength journal then .error (.journal "path_invalid")
  else .ok ()

end Names

def hexDigit (c : Char) : Bool := ('0' ≤ c ∧ c ≤ '9') ∨ ('a' ≤ c ∧ c ≤ 'f')

def validateSha256 (value : Str) : Except Fault Unit :=
  if "sha256:".toList = value.take 7 ∧ value.length = 71 ∧ (value.drop 7).all hexDigit then .ok ()
  else .error (.journal "digest_invalid")

/-! ### Text of a journal -/

/-- `TransactionJournalRecord`; its phase is always `prepared`. -/
structure JournalRecord where
  targetName : Str
  exchangeName : Str
  expectedSha256 : Str
  desiredSha256 : Str
  deriving DecidableEq

def journalMaxBytes : ℕ := 4096

def journalSchema : Str := "dpone.confined-file-transaction".toList

def journalPhase : Str := "prepared".toList

/-- The fields of a record in the order of their keys. -/
def JournalRecord.fields (record : JournalRecord) : List (Str × Scalar) :=
  [("desired_sha256".toList, .str record.desiredSha256),
    ("exchange_name".toList, .str record.exchangeName),
    ("expected_sha256".toList, .str record.expectedSha256),
    ("phase".toList, .str journalPhase),
    ("schema".toList, .str journalSchema),
    ("target_name".toList, .str record.targetName),
    ("version".toList, .int 1)]

def encodeText (record : JournalRecord) : Str := dumps record.fields ++ ['\n']

def encode (record : JournalRecord) : Except Fault Str :=
  if journalMaxBytes < (encodeText record).length then .error (.journal "journal_too_large")
  else .ok (encodeText record)

def journalKeys : List Str :=
  ["schema", "version", "target_name", "exchange_name", "expected_sha256", "desired_sha256",
    "phase"].map String.toList

def journalInvalid {α : Type} : Except Fault α := .error (.journal "journal_invalid")

/-- `_string`. -/
def stringField (fields : List (Str × Scalar)) (key : String) : Except Fault Str :=
  match fields.lookup key.toList with
  | some (.str value) => .ok value
  | _ => journalInvalid

def jsonSpace (c : Char) : Bool := c = ' ' ∨ c = '\t' ∨ c = '\n' ∨ c = '\r'

def decode (content expectedTarget : Str) : Except Fault JournalRecord := do
  match loads (content.rdropWhile jsonSpace) with
  | none => journalInvalid
  | some fields =>
    if ¬(fields.map Prod.fst).Nodup then journalInvalid
    else if ¬(∀ key ∈ fields.map Prod.fst, key ∈ journalKeys) ∨
        ¬(∀ key ∈ journalKeys, key ∈ fields.map Prod.fst) then journalInvalid
    else if fields.lookup "schema".toList ≠ some (.str journalSchema) ∨
        fields.lookup "version".toList ≠ some (.int 1) ∨
        fields.lookup "phase".toList ≠ some (.str journalPhase) then journalInvalid
    else
      let targetName ← stringField fields "target_name"
      let exchangeName ← stringField fields "exchange_name"
      validateLeafSyntax targetName
      validateLeafSyntax exchangeName
      if targetName ≠ expectedTarget ∨ targetName = exchangeName then journalInvalid
      else
        let expectedSha256 ← stringField fields "expected_sha256"
        validateSha256 expectedSha256
        let desiredSha256 ← stringField fields "desired_sha256"
        validateSha256 desiredSha256
        return { targetName, exchangeName, expectedSha256, desiredSha256 }

/-! ### Reading a journal back -/

theorem dumps_stripped (record : JournalRecord) :
    (encodeText record).rdropWhile jsonSpace = dumps record.fields := by
  obtain ⟨s, hs⟩ := dumps_closed record.fields
  unfold encodeText
  rw [List.rdropWhile_concat_pos _ _ _ (by decide), hs,
    List.rdropWhile_concat_neg _ _ _ (by decide)]

/-- What is read of the beginning of a journal's text is the journal. -/
theorem loads_beginning {record : JournalRecord} {content : Str} {fields : List (Str × Scalar)}
    (hcontent : content <+: encodeText record)
    (h : loads (content.rdropWhile jsonSpace) = some fields) : fields = record.fields := by
  have hwhole : content.rdropWhile jsonSpace <+: dumps record.fields := by
    rcases List.prefix_concat_iff.mp hcontent with rfl | hcontent
    · exact (dumps_stripped record).symm ▸ List.prefix_rfl
    · exact (List.rdropWhile_prefix _ content).trans hcontent
  obtain ⟨tail, htail⟩ := hwhole
  have hloads := loads_dumps record.fields
  by_cases hnil : tail = []
  · rw [hnil, List.append_nil] at htail
    rw [htail, hloads] at h
    exact (Option.some.inj h).symm
  · rw [← htail, loads_append hnil h] at hloads
    cases hloads

section Fields
variable (record : JournalRecord)

@[simp] theorem stringField_target :
    stringField record.fields "target_name" = .ok record.targetName := rfl

@[simp] theorem stringField_exchange :
    stringField record.fields "exchange_name" = .ok record.exchangeName := rfl

@[simp] theorem stringField_expected :
    stringField record.fields "expected_sha256" = .ok record.expectedSha256 := rfl

@[simp] theorem stringField_desired :
    stringField record.fields "desired_sha256" = .ok record.desiredSha256 := rfl

end Fields

/-- A beginning of a journal's text decodes, if it does, to the journal. -/
theorem decode_beginning {record read : JournalRecord} {content target : Str}
    (hcontent : content <+: encodeText record) (h : decode content target = .ok read) :
    read = record := by
  unfold decode at h
  cases hloads : loads (content.rdropWhile jsonSpace) with
  | none => rw [hloads] at h; cases h
  | some fields =>
    obtain rfl := loads_beginning hcontent hloads
    rw [hloads] at h
    dsimp only at h
    split_ifs at h
    · cases h
    · cases h
    · simp only [stringField_target, stringField_exchange, ok_bind] at h
      obtain ⟨_, -, h⟩ := bind_ok.mp h
      obtain ⟨_, -, h⟩ := bind_ok.mp h
      split_ifs at h
      · cases h
      · simp only [stringField_expected, stringField_desired, ok_bind] at h
        obtain ⟨_, -, h⟩ := bind_ok.mp h
        obtain ⟨_, -, h⟩ := bind_ok.mp h
        exact (Except.ok.inj h).symm
    · cases h

/-- Only `TransactionJournalError` is raised. -/
def JournalErrors {α : Type} (x : Except Fault α) : Prop :=
  ∀ e, x = .error e → ∃ code, e = .journal code

theorem journalErrors_ok {α : Type} (a : α) : JournalErrors (.ok a) := nofun

theorem journalErrors_journal {α : Type} (code : String) :
    JournalErrors (.error (.journal code) : Except Fault α) := fun _ h => ⟨code, by cases h; rfl⟩

theorem JournalErrors.bind {α β : Type} {x : Except Fault α} {f : α → Except Fault β}
    (hx : JournalErrors x) (hf : ∀ a, JournalErrors (f a)) : JournalErrors (x >>= f) := by
  intro e h
  rcases bind_error.mp h with h | ⟨a, -, h⟩
  · exact hx e h
  · exact hf a e h

theorem validateLeafSyntax_errors (name : Str) : JournalErrors (validateLeafSyntax name) := by
  unfold validateLeafSyntax
  split_ifs
  · exact journalErrors_journal _
  · exact journalErrors_ok _

theorem validateSha256_errors (value : Str) : JournalErrors (validateSha256 value) := by
  unfold validateSha256
  split_ifs
  · exact journalErrors_ok _
  · exact journalErrors_journal _

theorem stringField_errors (fields : List (Str × Scalar)) (key : String) :
    JournalErrors (stringField fields key) := by
  unfold stringField
  split
  · exact journalErrors_ok _
  · exact journalErrors_journal _

theorem decode_errors (content target : Str) : JournalErrors (decode content target) := by
  unfold decode
  split
  · exact journalErrors_journal _
  split_ifs
  · exact journalErrors_journal _
  · exact journalErrors_journal _
  · refine (stringField_errors _ _).bind fun targetName => ?_
    refine (stringField_errors _ _).bind fun exchangeName => ?_
    refine (validateLeafSyntax_errors _).bind fun _ => (validateLeafSyntax_errors _).bind fun _ => ?_
    split_ifs
    · exact journalErrors_journal _
    · refine (stringField_errors _ _).bind fun _ => (validateSha256_errors _).bind fun _ => ?_
      exact (stringField_errors _ _).bind fun _ => (validateSha256_errors _).bind fun _ =>
        journalErrors_ok _
  · exact journalErrors_journal _

theorem decode_target {content target : Str} {record : JournalRecord}
    (h : decode content target = .ok record) : record.targetName = target := by
  unfold decode at h
  split at h
  · cases h
  · split_ifs at h
    · cases h
    · cases h
    · obtain ⟨targetName, -, h⟩ := bind_ok.mp h
      obtain ⟨exchangeName, -, h⟩ := bind_ok.mp h
      obtain ⟨_, -, h⟩ := bind_ok.mp h
      obtain ⟨_, -, h⟩ := bind_ok.mp h
      split_ifs at h with hnames
      · cases h
      · obtain ⟨_, -, h⟩ := bind_ok.mp h
        obtain ⟨_, -, h⟩ := bind_ok.mp h
        obtain ⟨_, -, h⟩ := bind_ok.mp h
        obtain ⟨_, -, h⟩ := bind_ok.mp h
        rw [← Except.ok.inj h]
        exact not_not.mp (not_or.mp hnames).1
    · cases h

/-- LOSSLESS: the text of a journal with valid names and digests is read back. -/
theorem decode_encodeText (record : JournalRecord)
    (htarget : validateLeafSyntax record.targetName = .ok ())
    (hexchange : validateLeafSyntax record.exchangeName = .ok ())
    (hne : record.targetName ≠ record.exchangeName)
    (hexpected : validateSha256 record.expectedSha256 = .ok ())
    (hdesired : validateSha256 record.desiredSha256 = .ok ()) :
    decode (encodeText record) record.targetName = .ok record := by
  unfold decode
  rw [dumps_stripped, loads_dumps]
  have hkeys : record.fields.map Prod.fst = ["desired_sha256", "exchange_name", "expected_sha256",
      "phase", "schema", "target_name", "version"].map String.toList := rfl
  dsimp only
  rw [hkeys, if_neg (by decide), if_neg (by decide), if_neg]
  · simp only [stringField_target, stringField_exchange, stringField_expected,
      stringField_desired, ok_bind, htarget, hexchange, hexpected, hdesired]
    rw [if_neg (by simp [hne])]
    rfl
  · simp only [not_or, not_not]
    exact ⟨rfl, rfl, rfl⟩

/-! ### File of a journal -/

variable (site : Site)

/-- `TransactionJournalFile`. -/
structure JournalFile where
  name : Str
  record : JournalRecord
  identity : FileIdentity

def ofExcept {α : Type} : Except Fault α → Call α
  | .ok a => pure a
  | .error fault => raise fault

def fsyncDirectory : Call Unit :=
  rescue (fsync site) fun _ => raise (.journal "directory_sync_failed")

/-- `_write_all`: a write that takes nothing is an error. -/
def writeAll (name : Str) : ℕ → Str → Call Unit
  | 0, _ => pure ()
  | _ + 1, [] => pure ()
  | fuel + 1, payload => do
    let written ← writeLeaf site name payload
    if written = 0 then raise .os else writeAll name fuel (payload.drop written)

/-- History: the digests that a journal names are noted before its file is created. -/
def noteDigests (record : JournalRecord) : Call Unit := fun w =>
  .done () { w with named := record.expectedSha256 :: record.desiredSha256 :: w.named }

/-- `create_transaction_journal`. -/
def createTransactionJournal (record : JournalRecord) : Call JournalFile := do
  ofExcept (validateTransactionNames site record.targetName record.exchangeName)
  ofExcept (validateSha256 record.expectedSha256)
  ofExcept (validateSha256 record.desiredSha256)
  let name := journalName record.targetName
  let payload ← ofExcept (encode record)
  noteDigests record
  let identity ← rescue
    (do
      createLeaf site name
      writeAll site name payload.length payload
      let metadata ← statLeaf site name
      if metadata.size ≠ payload.length then raise (.journal "journal_invalid")
      else
        fsync site
        statLeaf site name)
    fun
      | .fileExists => raise (.journal "journal_exists")
      | .journal code => raise (.journal code)
      | _ => raise (.journal "journal_write_failed")
  fsyncDirectory site
  return { name, record, identity }

/-- `load_transaction_journal`. -/
def loadTransactionJournal : Call (Option JournalFile) := do
  let name ← ofExcept (transactionJournalName site.target)
  if site.nameMax < encodedLength name then raise (.journal "path_invalid")
  else
    let snapshot ← rescue (do return some (← readConfinedLeaf site name journalMaxBytes)) fun
      | .confinedFile code =>
        if code = "file_not_found" then pure none else raise (.journal "journal_invalid")
      | fault => raise fault
    match snapshot with
    | none => return none
    | some snapshot =>
      let record ← ofExcept (decode snapshot.content site.target)
      return some { name, record, identity := snapshot.identity }

/-- `remove_transaction_journal`: only the file that was parsed. -/
def removeTransactionJournal (journal : JournalFile) : Call Unit := do
  match ← found (statLeaf site journal.name) with
  | none => return ()
  | some current =>
    if current ≠ journal.identity then raise (.journal "journal_changed")
    else
      rescue
        (do
          unlink site journal.name
          fsyncDirectory site)
        fun _ => raise (.journal "journal_cleanup_failed")

/-! ### Recovery -/

inductive RecoveryStatus where
  | none | committed | rolledBack | recoveryRequired
  deriving DecidableEq

/-- `ConfinedRecoveryOutcome`. -/
structure RecoveryOutcome where
  status : RecoveryStatus
  committed : Bool := false
  cleanupRequired : Bool := false
  recoveryRequired : Bool := false
  recoveryName : Option Str := .none
  deriving DecidableEq

def recoveryRequired (name : Option Str) : RecoveryOutcome :=
  { status := .recoveryRequired, cleanupRequired := true, recoveryRequired := true,
    recoveryName := name }

def safeJournalName (target : Str) : Option Str := (transactionJournalName target).toOption

def readOptional (name : Str) : Call (Option FileSnapshot) :=
  rescue (do return some (← readConfinedLeaf site name site.maxBytes)) fun
    | .confinedFile code =>
      if code = "file_not_found" then pure none else raise (.confinedFile code)
    | fault => raise fault

/-- `_finish_recovery`: the artifact of a decided row, then its journal. -/
def finishRecovery (journal : JournalFile) (artifact : Option FileSnapshot)
    (status : RecoveryStatus) (committed : Bool) : Call RecoveryOutcome :=
  rescue
    (do
      match artifact with
      | none => removeTransactionJournal site journal
      | some artifact =>
        removeSnapshot site journal.record.exchangeName artifact
        removeTransactionJournal site journal
      return { status, committed })
    fun _ => do
      let name := if ← leafExists site journal.record.exchangeName
        then journal.record.exchangeName else journal.name
      return { status := if committed then status else .recoveryRequired, committed,
               cleanupRequired := true, recoveryRequired := true, recoveryName := some name }

/-- The last row of the table: the displaced source is not the expected one. -/
def recoverExchangeBack (journal : JournalFile) (target exchangeSide : FileSnapshot) :
    Call RecoveryOutcome := do
  let rolled ← rescue
    (do return some (← exchangeBack site journal.record.exchangeName exchangeSide
      journal.record.desiredSha256 target.identity))
    fun _ => pure none
  match rolled with
  | none => return recoveryRequired (some journal.name)
  | some rollback =>
    let removed ← rescue (do removeTransactionJournal site journal; return true)
      fun _ => pure false
    match removed with
    | false => return recoveryRequired (some (rollback.recoveryName.getD journal.name))
    | true =>
      let needsRecovery := rollback.recoveryName.isSome || rollback.cleanupRequired
      return { status := if needsRecovery then .recoveryRequired else .rolledBack,
               cleanupRequired := rollback.cleanupRequired, recoveryRequired := needsRecovery,
               recoveryName := rollback.recoveryName }

/-- The recovery table over the digests under the target and the exchange name. -/
def recoverDecided (journal : JournalFile) (target : FileSnapshot)
    (exchangeSide : Option FileSnapshot) : Call RecoveryOutcome :=
  let record := journal.record
  let exchangeDigest := exchangeSide.map (·.sha256)
  if target.sha256 = record.desiredSha256 ∧ exchangeDigest = some record.expectedSha256 then
    finishRecovery site journal exchangeSide .committed true
  else if target.sha256 = record.expectedSha256 ∧ exchangeDigest = some record.desiredSha256 then
    finishRecovery site journal exchangeSide .rolledBack false
  else if target.sha256 = record.desiredSha256 ∧ exchangeSide = none then
    finishRecovery site journal none .committed true
  else match exchangeSide with
    | none => pure (recoveryRequired (some journal.name))
    | some exchangeSide =>
      if target.sha256 ≠ record.desiredSha256 then pure (recoveryRequired (some journal.name))
      else recoverExchangeBack site journal target exchangeSide

/-- `recover_transaction`. -/
def recoverTransaction : Call RecoveryOutcome := do
  let loaded ← rescue
    (do
      ofExcept (validateTransactionLeaf site site.target)
      return some (← loadTransactionJournal site))
    fun
      | .journal _ => pure none
      | fault => raise fault
  match loaded with
  | none => return recoveryRequired (safeJournalName site.target)
  | some none => return { status := .none }
  | some (some journal) =>
    let sides ← rescue
      (do
        ofExcept (validateTransactionNames site journal.record.targetName
          journal.record.exchangeName)
        let target ← readOptional site journal.record.targetName
        return some (target, ← readOptional site journal.record.exchangeName))
      fun
        | .confinedFile _ => pure none
        | .journal _ => pure none
        | fault => raise fault
    match sides with
    | some (some target, exchangeSide) => recoverDecided site journal target exchangeSide
    | _ => return recoveryRequired (some journal.name)

end Dpone.Confined
