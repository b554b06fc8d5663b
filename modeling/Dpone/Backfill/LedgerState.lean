import Dpone.Schemes.Dynamic
import Dpone.Schemes.Literals

/-! The backfill ledger as a document: what the state file stores, and what is read back from it.

    Fields that the reader takes over unchanged hold whatever they were given; the others are
    converted, and an empty text gives way to the default. A handoff and a publication are checked
    when they are built, so a record carries the proof that it passed. -/

namespace Dpone.Backfill.State
open Dpone.Schemes

/-! ### Chunks -/

variable {α : Type}

structure BackfillChunkRecord (α : Type) where
  index : ℤ
  start : Str
  stop : Str
  idempotencyKey : Str
  status : Str := "pending".toList
  attempts : ℤ := 0
  rowsExtracted : ℤ := 0
  rowsLoaded : ℤ := 0
  runId : Dynamic α := .none
  loadId : Dynamic α := .none
  error : Dynamic α := .none
  leaseOwner : Dynamic α := .none
  leaseExpiresAt : Dynamic α := .none
  startedAt : Dynamic α := .none
  finishedAt : Dynamic α := .none
  updatedAt : Dynamic α := .none
  executionEvidence : List (Str × Dynamic α) := []

namespace BackfillChunkRecord

def toJsonable (r : BackfillChunkRecord α) : List (Str × Dynamic α) :=
  [("index".toList, .int r.index), ("start".toList, .str r.start), ("end".toList, .str r.stop),
    ("idempotency_key".toList, .str r.idempotencyKey), ("status".toList, .str r.status),
    ("attempts".toList, .int r.attempts), ("rows_extracted".toList, .int r.rowsExtracted),
    ("rows_loaded".toList, .int r.rowsLoaded), ("run_id".toList, r.runId),
    ("load_id".toList, r.loadId), ("error".toList, r.error), ("lease_owner".toList, r.leaseOwner),
    ("lease_expires_at".toList, r.leaseExpiresAt), ("started_at".toList, r.startedAt),
    ("finished_at".toList, r.finishedAt), ("updated_at".toList, r.updatedAt),
    ("execution_evidence".toList, .dict r.executionEvidence)]

variable (b : Builtins α)

/-- `BackfillChunkRecord.from_dict`; a record that is no mapping has no field `index`. -/
def fromDict : Dynamic α → Except PyError (BackfillChunkRecord α)
  | .dict data => do
    let index ← match data.lookup "index".toList with
      | some value => Dynamic.toInt b value
      | none => throw (.keyError "index")
    let attempts ← Dynamic.toInt b (Dynamic.orElse b (Dynamic.get "attempts".toList data) (.int 0))
    let rowsExtracted ←
      Dynamic.toInt b (Dynamic.orElse b (Dynamic.get "rows_extracted".toList data) (.int 0))
    let rowsLoaded ←
      Dynamic.toInt b (Dynamic.orElse b (Dynamic.get "rows_loaded".toList data) (.int 0))
    return {
      index
      start := Dynamic.toText b (Dynamic.orElse b (Dynamic.get "start".toList data) (.str []))
      stop := Dynamic.toText b (Dynamic.orElse b (Dynamic.get "end".toList data) (.str []))
      idempotencyKey :=
        Dynamic.toText b (Dynamic.orElse b (Dynamic.get "idempotency_key".toList data) (.str []))
      status := Dynamic.toText b
        (Dynamic.orElse b (Dynamic.get "status".toList data) (.str "pending".toList))
      attempts, rowsExtracted, rowsLoaded
      runId := Dynamic.get "run_id".toList data
      loadId := Dynamic.get "load_id".toList data
      error := Dynamic.get "error".toList data
      leaseOwner := Dynamic.get "lease_owner".toList data
      leaseExpiresAt := Dynamic.get "lease_expires_at".toList data
      startedAt := Dynamic.get "started_at".toList data
      finishedAt := Dynamic.get "finished_at".toList data
      updatedAt := Dynamic.get "updated_at".toList data
      executionEvidence := match Dynamic.get "execution_evidence".toList data with
        | .dict evidence => evidence
        | _ => [] }
  | _ => .error .typeError

/-- LOSSLESS: a chunk in any status is read back as it was written. -/
theorem fromDict_toJsonable {r : BackfillChunkRecord α} (h : r.status ≠ []) :
    fromDict b (.dict r.toJsonable) = .ok r := by
  have hstatus : Dynamic.toText b (Dynamic.orElse b (.str r.status) (.str "pending".toList)) =
      r.status := by rw [Dynamic.toText_orElse, if_neg h]
  -- what the reader finds under each name
  show (do
    let index ← Dynamic.toInt b (.int r.index)
    let attempts ← Dynamic.toInt b (Dynamic.orElse b (.int r.attempts) (.int 0))
    let rowsExtracted ← Dynamic.toInt b (Dynamic.orElse b (.int r.rowsExtracted) (.int 0))
    let rowsLoaded ← Dynamic.toInt b (Dynamic.orElse b (.int r.rowsLoaded) (.int 0))
    return { r with
      index
      start := Dynamic.toText b (Dynamic.orElse b (.str r.start) (.str []))
      stop := Dynamic.toText b (Dynamic.orElse b (.str r.stop) (.str []))
      idempotencyKey := Dynamic.toText b (Dynamic.orElse b (.str r.idempotencyKey) (.str []))
      status := Dynamic.toText b (Dynamic.orElse b (.str r.status) (.str "pending".toList))
      attempts, rowsExtracted, rowsLoaded }) = Except.ok r
  simp only [hstatus, Dynamic.toText_orElse_nil, Dynamic.toInt_orElse]
  rfl

end BackfillChunkRecord

/-! ### The xmin handoff -/

def hexDigest (s : Str) : Bool :=
  s.length = 64 && s.all fun c => "0123456789abcdef".toList.contains c

/-- `_is_sha256`, and `_TOKEN.fullmatch`. -/
def isSha256 (s : Str) : Bool := (cutPrefix "sha256:".toList s).any hexDigest

structure HandoffFields where
  handoffId : Str
  status : Str
  anchorXmin : ℤ
  snapshotToken : Str
  stateKeySha256 : Str
  sourceAuthoritySha256 : Str
  planHash : Str
  seedLoadId : Str
  receiptId : Option Str := none
  candidateRevision : Option ℤ := none
  contractVersion : Str := "postgres_xmin_initial_handoff_v1".toList
  publicationReceiptId : Option Str := none

/-- `bool(value)` of an optional text. -/
def present (s : Option Str) : Bool := s.any (· ≠ [])

/-- The statuses of a handoff. -/
def handoffStatuses : List Str := ["anchored".toList, "committing".toList, "committed".toList]

variable (u : Unicode)

/-- `BackfillXminHandoffRecord.__post_init__`. -/
def HandoffFields.postInit (r : HandoffFields) : Except PyError Unit :=
  if r.contractVersion ≠ "postgres_xmin_initial_handoff_v1".toList then
    .error (.valueError "postgres_xmin_handoff.contract_version_invalid")
  else if r.handoffId = [] ∨ r.status ∉ handoffStatuses then
    .error (.valueError "postgres_xmin_handoff.record_invalid")
  else if r.anchorXmin < 1 then .error (.valueError "postgres_xmin_handoff.anchor_invalid")
  else if isSha256 r.snapshotToken = false then
    .error (.valueError "postgres_xmin_handoff.snapshot_token_invalid")
  else if hexDigest r.stateKeySha256 = false ∨ hexDigest r.sourceAuthoritySha256 = false then
    .error (.valueError "postgres_xmin_handoff.identity_invalid")
  else if r.planHash = [] ∨ r.seedLoadId = [] then
    .error (.valueError "postgres_xmin_handoff.campaign_identity_invalid")
  else if r.publicationReceiptId.any fun s => strip u s = [] then
    .error (.valueError "postgres_xmin_handoff.publication_receipt_invalid")
  else if decide (r.status = "committed".toList) ≠ present r.receiptId ∨
      decide (r.status = "committed".toList) ≠ r.candidateRevision.isSome then
    .error (.valueError "postgres_xmin_handoff.receipt_state_invalid")
  else if r.candidateRevision.any (· < 1) then
    .error (.valueError "postgres_xmin_handoff.receipt_state_invalid")
  else .ok ()

structure BackfillXminHandoffRecord extends HandoffFields where
  valid : toHandoffFields.postInit u = .ok ()

namespace BackfillXminHandoffRecord
variable {u}

def toJsonable (r : BackfillXminHandoffRecord u) : List (Str × Dynamic α) :=
  [("contract_version".toList, .str r.contractVersion), ("handoff_id".toList, .str r.handoffId),
    ("status".toList, .str r.status), ("anchor_xmin".toList, .int r.anchorXmin),
    ("snapshot_token".toList, .str r.snapshotToken),
    ("state_key_sha256".toList, .str r.stateKeySha256),
    ("source_authority_sha256".toList, .str r.sourceAuthoritySha256),
    ("plan_hash".toList, .str r.planHash), ("seed_load_id".toList, .str r.seedLoadId),
    ("publication_receipt_id".toList, Dynamic.ofText r.publicationReceiptId),
    ("receipt_id".toList, Dynamic.ofText r.receiptId),
    ("candidate_revision".toList, Dynamic.ofInt r.candidateRevision)]

end BackfillXminHandoffRecord

/-- `_exact_int`. -/
def exactInt (field : String) : Dynamic α → Except PyError ℤ
  | .int n => .ok n
  | _ => .error (.valueError s!"postgres_xmin_handoff.{field}_invalid")

/-- `read(value) if value is not None else None`. -/
def optionally {β : Type} (read : Dynamic α → Except PyError β) :
    Dynamic α → Except PyError (Option β)
  | .none => .ok none
  | value => (read value).map some

/-- `str(value) if value else None`. -/
def textIfAny (b : Builtins α) (value : Dynamic α) : Option Str :=
  if Dynamic.truthy b value then some (Dynamic.toText b value) else none

/-- `BackfillXminHandoffRecord(...)`. -/
def HandoffFields.make (r : HandoffFields) : Except PyError (BackfillXminHandoffRecord u) :=
  match h : r.postInit u with
  | .ok () => .ok ⟨r, h⟩
  | .error e => .error e

/-- `BackfillXminHandoffRecord.from_dict`. -/
def BackfillXminHandoffRecord.fromDict (b : Builtins α) :
    Dynamic α → Except PyError (BackfillXminHandoffRecord u)
  | .dict raw => do
    let text name := Dynamic.toText b (Dynamic.orElse b (Dynamic.get name raw) (.str []))
    let anchorXmin ← exactInt "anchor_xmin" (Dynamic.get "anchor_xmin".toList raw)
    let candidateRevision ←
      optionally (exactInt "candidate_revision") (Dynamic.get "candidate_revision".toList raw)
    HandoffFields.make u {
      contractVersion := text "contract_version".toList
      handoffId := text "handoff_id".toList
      status := text "status".toList
      anchorXmin
      snapshotToken := text "snapshot_token".toList
      stateKeySha256 := text "state_key_sha256".toList
      sourceAuthoritySha256 := text "source_authority_sha256".toList
      planHash := text "plan_hash".toList
      seedLoadId := text "seed_load_id".toList
      publicationReceiptId := textIfAny b (Dynamic.get "publication_receipt_id".toList raw)
      receiptId := textIfAny b (Dynamic.get "receipt_id".toList raw)
      candidateRevision }
  | _ => .error (.valueError "postgres_xmin_handoff.record_invalid")

/-! ### The publication -/

structure PublicationFields (α : Type) where
  mode : Str
  targetTable : Str
  shadowTable : Str
  backupTable : Str
  phase : Str := "planned".toList
  expectedRows : Option ℤ := none
  actualRows : Option ℤ := none
  duplicateKeys : Option ℤ := none
  receiptId : Dynamic α := .none
  preparedAt : Dynamic α := .none
  publishedAt : Dynamic α := .none
  predecessorObjectId : Option ℤ := none
  predecessorCreateToken : Dynamic α := .none
  predecessorReceiptId : Dynamic α := .none
  shadowObjectId : Option ℤ := none
  shadowCreateToken : Dynamic α := .none
  objectContractSha256 : Dynamic α := .none

/-- `value is not None and not str(value).strip()`. -/
def blankToken (b : Builtins α) (value : Dynamic α) : Bool :=
  !value.isNone && strip u (Dynamic.toText b value) = []

/-- `BackfillPublicationRecord.__post_init__`; only texts have `partition`. -/
def PublicationFields.postInit (b : Builtins α) (r : PublicationFields α) : Except PyError Unit :=
  if r.predecessorObjectId.any (· < 1) || r.shadowObjectId.any (· < 1) then
    .error (.valueError "backfill publication object identity is invalid")
  else if blankToken u b r.predecessorCreateToken || blankToken u b r.shadowCreateToken then
    .error (.valueError "backfill publication object generation token is invalid")
  else if r.predecessorObjectId = none ∧ r.predecessorCreateToken.isNone = false then
    .error (.valueError "backfill publication predecessor generation is incomplete")
  else if r.shadowObjectId = none ∧ r.shadowCreateToken.isNone = false then
    .error (.valueError "backfill publication shadow generation is incomplete")
  else match r.objectContractSha256 with
    | .none => .ok ()
    | .str s =>
      if isSha256 s then .ok ()
      else .error (.valueError "backfill publication object contract digest is invalid")
    | _ => .error .typeError

structure BackfillPublicationRecord (b : Builtins α) extends PublicationFields α where
  valid : toPublicationFields.postInit u b = .ok ()

/-- `BackfillPublicationRecord(...)`. -/
def PublicationFields.make (b : Builtins α) (r : PublicationFields α) :
    Except PyError (BackfillPublicationRecord u b) :=
  match h : r.postInit u b with
  | .ok () => .ok ⟨r, h⟩
  | .error e => .error e

namespace BackfillPublicationRecord
variable {u} {b : Builtins α}

def toJsonable (r : BackfillPublicationRecord u b) : List (Str × Dynamic α) :=
  [("mode".toList, .str r.mode), ("target_table".toList, .str r.targetTable),
    ("shadow_table".toList, .str r.shadowTable), ("backup_table".toList, .str r.backupTable),
    ("phase".toList, .str r.phase), ("expected_rows".toList, Dynamic.ofInt r.expectedRows),
    ("actual_rows".toList, Dynamic.ofInt r.actualRows),
    ("duplicate_keys".toList, Dynamic.ofInt r.duplicateKeys), ("receipt_id".toList, r.receiptId),
    ("predecessor_object_id".toList, Dynamic.ofInt r.predecessorObjectId),
    ("predecessor_create_token".toList, r.predecessorCreateToken),
    ("predecessor_receipt_id".toList, r.predecessorReceiptId),
    ("shadow_object_id".toList, Dynamic.ofInt r.shadowObjectId),
    ("shadow_create_token".toList, r.shadowCreateToken),
    ("object_contract_sha256".toList, r.objectContractSha256),
    ("prepared_at".toList, r.preparedAt), ("published_at".toList, r.publishedAt)]

variable (u b)

/-- `BackfillPublicationRecord.from_dict`; what is no mapping has no `get`. -/
def fromDict : Dynamic α → Except PyError (BackfillPublicationRecord u b)
  | .dict data => do
    let text name default :=
      Dynamic.toText b (Dynamic.orElse b (Dynamic.get name data) (.str default))
    let expectedRows ← Dynamic.toOptionalInt b (Dynamic.get "expected_rows".toList data)
    let actualRows ← Dynamic.toOptionalInt b (Dynamic.get "actual_rows".toList data)
    let duplicateKeys ← Dynamic.toOptionalInt b (Dynamic.get "duplicate_keys".toList data)
    let predecessorObjectId ←
      Dynamic.toOptionalInt b (Dynamic.get "predecessor_object_id".toList data)
    let shadowObjectId ← Dynamic.toOptionalInt b (Dynamic.get "shadow_object_id".toList data)
    PublicationFields.make u b {
      mode := text "mode".toList []
      targetTable := text "target_table".toList []
      shadowTable := text "shadow_table".toList []
      backupTable := text "backup_table".toList []
      phase := text "phase".toList "planned".toList
      expectedRows, actualRows, duplicateKeys
      receiptId := Dynamic.get "receipt_id".toList data
      predecessorObjectId
      predecessorCreateToken := Dynamic.get "predecessor_create_token".toList data
      predecessorReceiptId := Dynamic.get "predecessor_receipt_id".toList data
      shadowObjectId
      shadowCreateToken := Dynamic.get "shadow_create_token".toList data
      objectContractSha256 := Dynamic.get "object_contract_sha256".toList data
      preparedAt := Dynamic.get "prepared_at".toList data
      publishedAt := Dynamic.get "published_at".toList data }
  | _ => .error .typeError

end BackfillPublicationRecord

/-! ### The ledger -/

structure BackfillLedger (b : Builtins α) where
  runKey : Str
  dataset : Str
  innerMode : Str
  chunkConfig : List (Str × Dynamic α)
  planHash : Dynamic α := .none
  configHash : Dynamic α := .none
  status : Str := "active".toList
  cancelReason : Dynamic α := .none
  cancelRequestedBy : Dynamic α := .none
  lockOwner : Dynamic α := .none
  lockExpiresAt : Dynamic α := .none
  chunks : List (BackfillChunkRecord α) := []
  createdAt : Dynamic α := .none
  updatedAt : Dynamic α := .none
  xminHandoff : Option (BackfillXminHandoffRecord u) := none
  publication : Option (BackfillPublicationRecord u b) := none
  portableScopeColumnContract : Option (List (Str × Dynamic α)) := none
  kind : Str := "dpone.backfill_ledger".toList
  schemaVersion : Str := "2".toList

namespace BackfillLedger
variable {u} {b : Builtins α}

/-- A mapping or `None`. -/
def dictOrNone : Option (List (Str × Dynamic α)) → Dynamic α
  | none => .none
  | some fields => .dict fields

def campaignJsonable (x : BackfillLedger u b) : List (Str × Dynamic α) :=
  [("kind".toList, .str x.kind), ("schema_version".toList, .str x.schemaVersion),
    ("run_key".toList, .str x.runKey), ("dataset".toList, .str x.dataset),
    ("inner_mode".toList, .str x.innerMode), ("chunk_config".toList, .dict x.chunkConfig),
    ("plan_hash".toList, x.planHash), ("config_hash".toList, x.configHash),
    ("status".toList, .str x.status), ("cancel_reason".toList, x.cancelReason),
    ("cancel_requested_by".toList, x.cancelRequestedBy), ("lock_owner".toList, x.lockOwner),
    ("lock_expires_at".toList, x.lockExpiresAt), ("created_at".toList, x.createdAt),
    ("updated_at".toList, x.updatedAt),
    ("xmin_handoff".toList, dictOrNone (x.xminHandoff.map (·.toJsonable))),
    ("publication".toList, dictOrNone (x.publication.map (·.toJsonable))),
    ("portable_scope_column_contract".toList, dictOrNone x.portableScopeColumnContract)]

def toJsonable (x : BackfillLedger u b) : List (Str × Dynamic α) :=
  x.campaignJsonable ++
    [("chunks".toList, .list (x.chunks.map fun record => .dict record.toJsonable))]

/-- `_portable_scope_column_contract`. -/
def columnContract : Dynamic α → Except PyError (Option (List (Str × Dynamic α)))
  | .none => .ok none
  | .dict fields => .ok (some fields)
  | _ => .error (.valueError "portable_scope.binding.campaign_contract_invalid")

def isVersion : Dynamic α → Bool
  | .str s => s = "2".toList
  | _ => false

variable (u b)

/-- `BackfillLedger.from_dict`; the field `kind` is not read. -/
def fromDict (data : List (Str × Dynamic α)) : Except PyError (BackfillLedger u b) := do
  let version := Dynamic.get "schema_version".toList data
  if isVersion version = false then
    throw (.valueError (s!"DPONE_BACKFILL_LEDGER_MIGRATION_REQUIRED: expected schema_version=2, " ++
      s!"got {String.ofList (b.repr version)}"))
  let text name default :=
    Dynamic.toText b (Dynamic.orElse b (Dynamic.get name data) (.str default))
  let chunkConfig ←
    Dynamic.toDict b (Dynamic.orElse b (Dynamic.get "chunk_config".toList data) (.dict []))
  let items ← Dynamic.toList b ((data.lookup "chunks".toList).getD (.list []))
  let chunks ← items.mapM (BackfillChunkRecord.fromDict b)
  let xminHandoff ← optionally (BackfillXminHandoffRecord.fromDict u b)
    (Dynamic.get "xmin_handoff".toList data)
  let publication ← optionally (BackfillPublicationRecord.fromDict u b)
    (Dynamic.get "publication".toList data)
  let portableScopeColumnContract ←
    columnContract (Dynamic.get "portable_scope_column_contract".toList data)
  return {
    runKey := text "run_key".toList []
    dataset := text "dataset".toList []
    innerMode := text "inner_mode".toList []
    chunkConfig
    planHash := Dynamic.get "plan_hash".toList data
    configHash := Dynamic.get "config_hash".toList data
    status := text "status".toList "active".toList
    cancelReason := Dynamic.get "cancel_reason".toList data
    cancelRequestedBy := Dynamic.get "cancel_requested_by".toList data
    lockOwner := Dynamic.get "lock_owner".toList data
    lockExpiresAt := Dynamic.get "lock_expires_at".toList data
    chunks
    createdAt := Dynamic.get "created_at".toList data
    updatedAt := Dynamic.get "updated_at".toList data
    xminHandoff, publication, portableScopeColumnContract
    schemaVersion := "2".toList }

end BackfillLedger

end Dpone.Backfill.State
