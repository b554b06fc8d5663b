import Mathlib.Data.Char
import Mathlib.Data.List.Lex
import Dpone.Schemes.Dict
import Dpone.Schemes.Records
import Dpone.Schemes.Sorted
import Dpone.Schemes.Text

/-! The codec between the typed authority record of an external publication and the state
    dictionary of its runtime: `clickhouse_external_replication_state.py`.

    A record has one entry for each member; the dictionary folds a member's stage, its candidate and
    the UUID it intends to create into one status and a few optional fields, and the decoder takes
    the rest from the record that the dictionary was made of. CORRECT: a valid record comes back,
    and may be changed through the dictionary, if and only if it is `Encodable`: the decoder refuses
    an intent without a candidate. -/

namespace Dpone.ClickHouse.External
open Dpone.Schemes

/-- `ExternalContractError` with its code and detail, `ExternalPublicationError` with its code, and
    the look-ups that fail. -/
inductive Failure where
  | contract (code : String) (detail : String)
  | publication (code : String)
  | lookup
  | phase
  deriving DecidableEq

def failIf (p : Prop) [Decidable p] (e : Failure) : Except Failure Unit :=
  if p then .error e else .ok ()

/-! ### Contract -/

/-- `ExternalAuthorityPhase`. -/
inductive Phase where
  | locked | staging | staged | publicationDispatching | committed | cleanupDispatching
  | completed | aborted
  deriving DecidableEq

def Phase.all : List Phase :=
  [.locked, .staging, .staged, .publicationDispatching, .committed, .cleanupDispatching,
   .completed, .aborted]

def Phase.value : Phase → Str
  | .locked => "LOCKED".toList
  | .staging => "STAGING".toList
  | .staged => "STAGED".toList
  | .publicationDispatching => "PUBLICATION_DISPATCHING".toList
  | .committed => "COMMITTED".toList
  | .cleanupDispatching => "CLEANUP_DISPATCHING".toList
  | .completed => "COMPLETED".toList
  | .aborted => "ABORTED".toList

/-- `ExternalAuthorityPhase(value)`. -/
def Phase.ofValue (value : Str) : Except Failure Phase :=
  match Phase.all.find? fun phase => phase.value = value with
  | some phase => .ok phase
  | none => .error .phase

/-- `ExternalMemberStageState`. -/
inductive StageState where
  | pending | createIntent | candidateBound | ready
  deriving DecidableEq

/-- `MemberPublicationState`. -/
inductive MemberPublicationState where
  | pending | committed | cleanupPending | unknown
  deriving DecidableEq

/-- `ReplicationMode`. -/
inductive ReplicationMode where
  | internal | external
  deriving DecidableEq

structure ArtifactIdentity where
  sha256 : Str
  byteSize : ℤ
  rowCount : ℤ
  schemaDigest : Str
  wireDigest : Str
  deriving DecidableEq

structure PhysicalGeneration where
  uuid : Str
  engineFull : Str
  schemaDigest : Str
  contentDigest : Str
  rowCount : ℤ
  deriving DecidableEq

/-- `ExternalMemberRecord`. -/
structure MemberRecord where
  memberId : Str
  stageState : StageState := .pending
  publicationState : MemberPublicationState := .unknown
  cleanupComplete : Bool := false
  predecessor : Option PhysicalGeneration := none
  candidateUuidIntent : Option Str := none
  candidate : Option PhysicalGeneration := none
  deriving DecidableEq

def schemaVersionV1 : Str := "dpone.clickhouse.cluster-external-full-refresh.v1".toList

/-- `ExternalAuthorityRecord`. -/
structure AuthorityRecord where
  targetKey : Str
  operationId : Str
  fenceToken : Str
  phase : Phase
  dispatchEpoch : ℤ
  inventoryDigest : Str
  planDigest : Str
  database : Str
  target : Str
  candidate : Str
  members : List MemberRecord
  artifact : Option ArtifactIdentity := none
  artifactBindingId : Option Str := none
  generationId : Option Str := none
  publicationCorrelationToken : Option Str := none
  publicationEntry : Option Str := none
  publicationQueryDigest : Option Str := none
  cleanupCorrelationToken : Option Str := none
  cleanupEntry : Option Str := none
  cleanupQueryDigest : Option Str := none
  errorCode : Option Str := none
  replicationMode : ReplicationMode := .external
  schemaVersion : Str := schemaVersionV1
  deriving DecidableEq

/-- `require_digest`. -/
def requireDigest (value : Str) (label : String) : Except Failure Unit :=
  failIf (value.length ≠ 64 ∨ ¬ value.all fun c => c ∈ "0123456789abcdef".toList)
    (.contract "IDENTITY_INVALID" (label ++ " digest must be lowercase SHA-256"))

def ArtifactIdentity.validate (a : ArtifactIdentity) : Except Failure Unit := do
  requireDigest a.sha256 "artifact"
  requireDigest a.schemaDigest "schema"
  requireDigest a.wireDigest "wire"
  failIf (a.byteSize < 0 ∨ a.rowCount < 0)
    (.contract "ARTIFACT_INVALID" "byte size and row count must be non-negative")

/-- A character of `[A-Za-z0-9_]`. -/
def engineWord (c : Char) : Bool := c.isAlphanum || c = '_'

section Contract
variable (u : Unicode)

/-- `is_external_merge_tree_engine`: the word that opens the text ends with `MergeTree`, a blank, a
    parenthesis or nothing follows it, and it is neither replicated nor shared. -/
def isExternalMergeTreeEngine (engine : Str) : Bool :=
  let normalized := engine.dropWhile u.isSpace
  let word := normalized.takeWhile engineWord
  let rest := normalized.dropWhile engineWord
  !("Replicated".toList.isPrefixOf normalized || "Shared".toList.isPrefixOf normalized) &&
    "MergeTree".toList.isSuffixOf word && rest.head?.all fun c => u.isSpace c || c = '('

def PhysicalGeneration.validate (g : PhysicalGeneration) : Except Failure Unit := do
  failIf (g.uuid = [] ∨ g.engineFull = [])
    (.contract "GENERATION_INVALID" "physical identity is incomplete")
  failIf (isExternalMergeTreeEngine u g.engineFull = false)
    (.contract "ENGINE_UNSUPPORTED" "external mode requires non-replicated MergeTree")
  requireDigest g.schemaDigest "schema"
  requireDigest g.contentDigest "content"
  failIf (g.rowCount < 0) (.contract "GENERATION_INVALID" "row count must be non-negative")

def validateOption : Option PhysicalGeneration → Except Failure Unit
  | none => .ok ()
  | some g => g.validate u

def MemberRecord.validate (m : MemberRecord) : Except Failure Unit := do
  failIf (m.memberId = []) (.contract "MEMBER_INVALID" "member identity is missing")
  validateOption u m.predecessor
  validateOption u m.candidate
  failIf (m.stageState = .ready ∧ m.candidate = none)
    (.contract "MEMBER_INVALID" "ready member has no bound candidate")
  failIf (m.stageState = .createIntent ∧ m.candidateUuidIntent.getD [] = [])
    (.contract "MEMBER_INVALID" "create intent has no candidate UUID")
  failIf (m.candidate ≠ none ∧ m.candidateUuidIntent ≠ none ∧
      m.candidateUuidIntent ≠ m.candidate.map PhysicalGeneration.uuid)
    (.contract "MEMBER_INVALID" "candidate differs from its UUID intent")

/-- `digest_payload` of an operation, an artifact, a schema and a number of rows. -/
abbrev GenerationDigest := Str → Str → Str → ℤ → Str

variable (digestPayload : GenerationDigest)

/-- `derive_generation_id`. -/
def deriveGenerationId (operationId artifactSha256 schemaDigest : Str) (rowCount : ℤ) :
    Except Failure Str := do
  requireDigest operationId "operation"
  requireDigest artifactSha256 "artifact"
  requireDigest schemaDigest "schema"
  failIf (rowCount < 0)
    (.contract "IDENTITY_INVALID" "generation row count must be non-negative")
  return digestPayload operationId artifactSha256 schemaDigest rowCount

/-- The artifact of a record, its binding and the generation it makes. -/
def validateArtifact (r : AuthorityRecord) : Except Failure Unit :=
  match r.artifact with
  | none => failIf (r.generationId ≠ none ∨ r.artifactBindingId ≠ none)
      (.contract "AUTHORITY_INVALID" "generation requires artifact identity")
  | some artifact => do
    artifact.validate
    failIf (r.artifactBindingId.getD [] = [])
      (.contract "AUTHORITY_INVALID" "artifact binding identity is missing")
    let expected ← deriveGenerationId digestPayload r.operationId artifact.sha256
      artifact.schemaDigest artifact.rowCount
    failIf (r.generationId ≠ some expected)
      (.contract "GENERATION_INVALID" "logical generation identity differs")

def requireDigestOption (label : String) : Option Str → Except Failure Unit
  | none => .ok ()
  | some value => requireDigest value label

/-- `ExternalAuthorityRecord.validate`. -/
def AuthorityRecord.validate (r : AuthorityRecord) : Except Failure Unit := do
  failIf (r.schemaVersion ≠ schemaVersionV1)
    (.contract "SCHEMA_UNSUPPORTED" "authority schema is not external V1")
  failIf (r.replicationMode ≠ .external)
    (.contract "MODE_MISMATCH" "authority must remain in external mode")
  failIf ([r.targetKey, r.operationId, r.fenceToken, r.database, r.target, r.candidate].any
      (·.isEmpty)) (.contract "AUTHORITY_INVALID" "required authority identity is missing")
  requireDigest r.targetKey "target key"
  requireDigest r.operationId "operation"
  requireDigest r.inventoryDigest "inventory"
  requireDigest r.planDigest "plan"
  failIf (r.dispatchEpoch < 0)
    (.contract "AUTHORITY_INVALID" "dispatch epoch must be non-negative")
  let ordered := sortedBy MemberRecord.memberId r.members
  failIf (ordered.length < 2 ∨ ¬ (ordered.map MemberRecord.memberId).Nodup)
    (.contract "AUTHORITY_INVALID" "exact unique member set is required")
  ordered.forM (MemberRecord.validate u)
  validateArtifact digestPayload r
  requireDigestOption "publication query" r.publicationQueryDigest
  requireDigestOption "cleanup query" r.cleanupQueryDigest

end Contract

/-! ### States -/

/-- The entry of a member; a field that is missing and one that is `None` are alike. -/
structure MemberState where
  state : Str
  candidateUuid : Option Str := none
  candidateEngineFull : Option Str := none
  candidateSchemaSha256 : Option Str := none
  candidateContentSha256 : Option Str := none
  candidateRowCount : Option ℤ := none
  deriving DecidableEq

/-- The fields that a state with an artifact has besides. -/
structure ArtifactState where
  sha256 : Str
  schemaSha256 : Str
  contentSha256 : Str
  rowCount : ℤ
  byteSize : ℤ
  bindingId : Option Str
  generationId : Option Str
  deriving DecidableEq

/-- The state dictionary of the runtime. -/
structure AuthorityState where
  targetKey : Str
  operationId : Str
  fenceToken : Str
  phase : Str
  dispatchEpoch : ℤ
  inventoryDigest : Str
  planDigest : Str
  candidateName : Str
  memberIds : List Str
  memberStates : List (Str × MemberState)
  version : ℤ
  artifact : Option ArtifactState
  deriving DecidableEq

/-- `external_generation_diverged:` and the member. -/
def divergedCode (memberId : Str) : Str := "external_generation_diverged:".toList ++ memberId

/-- `_generation_state`, with a status. -/
def generationState (status : Str) (candidate : Option PhysicalGeneration)
    (candidateUuidIntent : Option Str) : MemberState :=
  match candidate with
  | none => { state := status, candidateUuid := candidateUuidIntent }
  | some g => ⟨status, some g.uuid, some g.engineFull, some g.schemaDigest, some g.contentDigest,
      some g.rowCount⟩

/-- The status of a member. -/
def statusOf (errorCode : Option Str) (m : MemberRecord) : Str :=
  match m.stageState with
  | .pending => "PENDING".toList
  | .createIntent => "CREATE_INTENT".toList
  | .ready => "READY".toList
  | .candidateBound =>
    if errorCode = some (divergedCode m.memberId) then "DIVERGED".toList else "AMBIGUOUS".toList

def memberState (errorCode : Option Str) (m : MemberRecord) : MemberState :=
  generationState (statusOf errorCode m) m.candidate m.candidateUuidIntent

/-- `state_from_versioned`. -/
def stateFromVersioned (record : AuthorityRecord) (version : ℤ) : AuthorityState where
  targetKey := record.targetKey
  operationId := record.operationId
  fenceToken := record.fenceToken
  phase := record.phase.value
  dispatchEpoch := record.dispatchEpoch
  inventoryDigest := record.inventoryDigest
  planDigest := record.planDigest
  candidateName := record.candidate
  memberIds := record.members.map MemberRecord.memberId
  memberStates := (record.members.map fun m => (m.memberId, memberState record.errorCode m)).foldl
    (fun states entry => Dict.set entry.1 entry.2 states) []
  version := version
  artifact := record.artifact.map fun artifact => ⟨artifact.sha256, artifact.schemaDigest,
    artifact.wireDigest, artifact.rowCount, artifact.byteSize, record.artifactBindingId,
    record.generationId⟩

/-! ### Decoding -/

section Decoding
variable (u : Unicode)

/-- `_generation_from_state`, under a UUID. -/
def generationFromState (raw : MemberState) (uuid : Str) :
    Except Failure (Option PhysicalGeneration) :=
  match raw.candidateEngineFull, raw.candidateSchemaSha256, raw.candidateContentSha256,
    raw.candidateRowCount with
  | some engineFull, some schemaDigest, some contentDigest, some rowCount => do
    let candidate : PhysicalGeneration := ⟨uuid, engineFull, schemaDigest, contentDigest, rowCount⟩
    candidate.validate u
    return some candidate
  | _, _, _, _ => .ok none

def diverged : Failure := .publication "DPONE_CLICKHOUSE_CLUSTER_EXTERNAL_GENERATION_DIVERGED"

/-- The stage that a status stands for. -/
def stageOf (raw : MemberState) : StageState :=
  if raw.state = "READY".toList then .ready
  else if raw.state = "PENDING".toList then .pending
  else if (raw.state = "CREATE_INTENT".toList ∨ raw.state = "LOADING".toList) ∧
      raw.candidateUuid ≠ none then .createIntent
  else .candidateBound

/-- The candidate of an entry, over that of the record. -/
def candidateOf (raw : MemberState) (candidate : Option PhysicalGeneration) :
    Except Failure (Option PhysicalGeneration) :=
  match raw.candidateUuid with
  | none =>
    if raw.state = "PENDING".toList ∨ raw.state = "LOADING".toList then .ok none else .ok candidate
  | some uuid => do
    match ← generationFromState u raw uuid with
    | some encoded =>
      failIf (candidate.any fun g => g.uuid ≠ encoded.uuid) diverged
      return some encoded
    | none =>
      failIf (candidate.map PhysicalGeneration.uuid ≠ some uuid) diverged
      return candidate

/-- The member of an entry. -/
def memberOf (memberId : Str) (raw : MemberState) (prior : Option MemberRecord) :
    Except Failure MemberRecord := do
  let candidate ← candidateOf u raw (prior.bind MemberRecord.candidate)
  return {
    memberId
    stageState := stageOf raw
    publicationState := (prior.map MemberRecord.publicationState).getD .unknown
    cleanupComplete := (prior.map MemberRecord.cleanupComplete).getD false
    predecessor := prior.bind MemberRecord.predecessor
    candidateUuidIntent := match candidate with
      | some g => some g.uuid
      | none =>
        if stageOf raw = .createIntent then raw.candidateUuid
        else prior.bind MemberRecord.candidateUuidIntent
    candidate }

/-- `member`. -/
def findMember (record : AuthorityRecord) (memberId : Str) : Except Failure MemberRecord :=
  match record.members.find? fun m => m.memberId = memberId with
  | some m => .ok m
  | none => .error .lookup

/-- `state["member_states"][member_id]`. -/
def entryOf (state : AuthorityState) (memberId : Str) : Except Failure MemberState :=
  match state.memberStates.lookup memberId with
  | some raw => .ok raw
  | none => .error .lookup

def priorOf (base : Option AuthorityRecord) (memberId : Str) :
    Except Failure (Option MemberRecord) :=
  match base with
  | none => .ok none
  | some record => (findMember record memberId).map some

/-- `_state_member`. -/
def stateMember (state : AuthorityState) (base : Option AuthorityRecord) (memberId : Str) :
    Except Failure MemberRecord := do
  let prior ← priorOf base memberId
  let raw ← entryOf state memberId
  memberOf u memberId raw prior

/-- `_artifact`. -/
def artifactOf (state : AuthorityState) : Except Failure (Option ArtifactIdentity) :=
  match state.artifact with
  | none => .ok none
  | some a => do
    let artifact : ArtifactIdentity :=
      ⟨a.sha256, a.byteSize, a.rowCount, a.schemaSha256, a.contentSha256⟩
    artifact.validate
    return some artifact

/-- `str(value)` of a text or `None`. -/
def textOrNone (value : Option Str) : Str := value.getD "None".toList

def isDiverged (state : AuthorityState) (m : MemberRecord) : Bool :=
  (state.memberStates.lookup m.memberId).any fun raw => raw.state = "DIVERGED".toList

/-- The error code of the first member whose entry diverged. -/
def errorOf (state : AuthorityState) (members : List MemberRecord) : Option Str :=
  (members.find? (isDiverged state)).map fun m => divergedCode m.memberId

variable (digestPayload : GenerationDigest)

/-- `record_from_state`. -/
def recordFromState (state : AuthorityState) (base : Option AuthorityRecord)
    (database target inventoryDigest : Str) : Except Failure AuthorityRecord := do
  failIf (state.inventoryDigest ≠ inventoryDigest)
    (.publication "DPONE_CLICKHOUSE_CLUSTER_EXTERNAL_INVENTORY_DRIFT")
  let artifact ← artifactOf state
  let operationBase := base.filter fun record => record.operationId = state.operationId
  let members ← state.memberIds.mapM (stateMember u state operationBase)
  let phase ← Phase.ofValue state.phase
  let record : AuthorityRecord := {
    targetKey := state.targetKey
    operationId := state.operationId
    fenceToken := state.fenceToken
    phase
    dispatchEpoch := state.dispatchEpoch
    inventoryDigest := state.inventoryDigest
    planDigest := state.planDigest
    database
    target
    candidate := state.candidateName
    members
    artifact
    artifactBindingId := artifact.bind fun _ => state.artifact.map fun a => textOrNone a.bindingId
    generationId := artifact.bind fun _ => state.artifact.map fun a => textOrNone a.generationId
    publicationCorrelationToken := operationBase.bind AuthorityRecord.publicationCorrelationToken
    publicationEntry := operationBase.bind AuthorityRecord.publicationEntry
    publicationQueryDigest := operationBase.bind AuthorityRecord.publicationQueryDigest
    cleanupCorrelationToken := operationBase.bind AuthorityRecord.cleanupCorrelationToken
    cleanupEntry := operationBase.bind AuthorityRecord.cleanupEntry
    cleanupQueryDigest := operationBase.bind AuthorityRecord.cleanupQueryDigest
    errorCode := errorOf state members }
  record.validate u digestPayload
  return record

end Decoding

/-! ### Abort -/

/-- What a member says of the candidate. -/
structure Observation where
  present : Bool
  operationId : Option Str := none
  candidateName : Option Str := none
  candidateUuid : Option Str := none

/-- The calls on the members, over whatever state they have. -/
structure MemberService (σ : Type) where
  observeCandidate : σ → Str → Str → Except Failure Observation
  dropOwnedCandidate : σ → Str → Str → Except Failure σ

/-- `owned_observation`. -/
def ownedObservation (observed : Observation) (state : AuthorityState) : Bool :=
  observed.operationId = some state.operationId ∧ observed.candidateName = some state.candidateName

def cleanupUnknown : Failure := .publication "DPONE_CLICKHOUSE_CLUSTER_EXTERNAL_CLEANUP_UNKNOWN"

section Abort
variable {σ : Type} (service : MemberService σ)

/-- The candidate of one member is dropped, if it has one. -/
def dropMember (state : AuthorityState) (s : σ) (memberId : Str) : Except Failure σ := do
  let observed ← service.observeCandidate s memberId state.candidateName
  if observed.present then
    failIf (ownedObservation observed state = false) diverged
    let s ← service.dropOwnedCandidate s memberId (observed.candidateUuid.getD [])
    let again ← service.observeCandidate s memberId state.candidateName
    failIf again.present cleanupUnknown
    return s
  else return s

variable (u : Unicode) (digestPayload : GenerationDigest)

/-- `abort`, once the request has proved to be the one of the state, and the record that its last
    compare-and-swap asks for; `none` where the operation is aborted already. -/
def abort (s : σ) (current : AuthorityRecord) (version : ℤ) :
    Except Failure (σ × Option AuthorityRecord) := do
  let state := stateFromVersioned current version
  if state.phase = Phase.aborted.value then return (s, none)
  else
    failIf (state.phase ∉ [Phase.locked.value, Phase.staging.value, Phase.staged.value])
      cleanupUnknown
    let s ← state.memberIds.foldlM (dropMember service state) s
    let record ← recordFromState u digestPayload { state with phase := Phase.aborted.value }
      (some current) current.database current.target current.inventoryDigest
    return (s, some record)

end Abort

/-! ### Validity -/

@[simp] theorem failIf_ok {p : Prop} [Decidable p] {e : Failure} {x : Unit} :
    failIf p e = .ok x ↔ ¬ p := by
  unfold failIf
  split_ifs with h <;> simp [h]

theorem forM_ok {α : Type} {f : α → Except Failure Unit} {y : Unit} : ∀ {xs : List α},
    xs.forM f = .ok y ↔ ∀ x ∈ xs, f x = .ok ()
  | [] => ⟨fun _ => nofun, fun _ => rfl⟩
  | x :: xs => by
    have hcons : (x :: xs).forM f = (f x >>= fun _ => xs.forM f) := rfl
    rw [hcons, bind_ok, List.forall_mem_cons, ← forM_ok]
    exact ⟨fun ⟨_, hx, hxs⟩ => ⟨hx, hxs⟩, fun h => ⟨(), h⟩⟩

/-- `replace_member`. -/
def replaceMember (members : List MemberRecord) (desired : MemberRecord) : List MemberRecord :=
  members.map fun m => if m.memberId = desired.memberId then desired else m

section Valid
variable (u : Unicode) (digestPayload : GenerationDigest)

/-- The fields other than the members. -/
structure FixedValid (r : AuthorityRecord) : Prop where
  schema : r.schemaVersion = schemaVersionV1
  mode : r.replicationMode = .external
  identity : ¬ ([r.targetKey, r.operationId, r.fenceToken, r.database, r.target, r.candidate].any
    (·.isEmpty)) = true
  digests : requireDigest r.targetKey "target key" = .ok () ∧
    requireDigest r.operationId "operation" = .ok () ∧
    requireDigest r.inventoryDigest "inventory" = .ok () ∧
    requireDigest r.planDigest "plan" = .ok ()
  epoch : ¬ r.dispatchEpoch < 0
  artifact : validateArtifact digestPayload r = .ok ()
  queries : requireDigestOption "publication query" r.publicationQueryDigest = .ok () ∧
    requireDigestOption "cleanup query" r.cleanupQueryDigest = .ok ()

structure MembersValid (members : List MemberRecord) : Prop where
  two : 2 ≤ members.length
  nodup : (members.map MemberRecord.memberId).Nodup
  valid : ∀ m ∈ members, m.validate u = .ok ()

variable {u digestPayload}

/-- SPEC: what `validate` accepts. -/
theorem validate_ok {r : AuthorityRecord} : r.validate u digestPayload = .ok () ↔
    FixedValid digestPayload r ∧ MembersValid u r.members := by
  have hperm := sortedBy_perm MemberRecord.memberId r.members
  have hnodup : ((sortedBy MemberRecord.memberId r.members).map MemberRecord.memberId).Nodup ↔
      (r.members.map MemberRecord.memberId).Nodup := (hperm.map _).nodup_iff
  have hlength := hperm.length_eq
  simp only [AuthorityRecord.validate, bind_ok, failIf_ok, forM_ok, mem_sortedBy, hnodup, hlength]
  constructor
  · rintro ⟨_, hschema, _, hmode, _, hidentity, _, htarget, _, hoperation, _, hinventory, _, hplan,
      _, hepoch, _, hset, _, hmembers, _, hartifact, _, hpublication, hcleanup⟩
    rw [not_or, not_not] at hset
    exact ⟨⟨not_not.mp hschema, not_not.mp hmode, hidentity,
      ⟨htarget, hoperation, hinventory, hplan⟩, hepoch, hartifact, hpublication, hcleanup⟩,
      by omega, hset.2, hmembers⟩
  · rintro ⟨h, hmembers⟩
    obtain ⟨htarget, hoperation, hinventory, hplan⟩ := h.digests
    have hset : ¬ (r.members.length < 2 ∨ ¬ (r.members.map MemberRecord.memberId).Nodup) := by
      rw [not_or, not_not]
      exact ⟨by have := hmembers.two; omega, hmembers.nodup⟩
    exact ⟨(), not_not.mpr h.schema, (), not_not.mpr h.mode, (), h.identity, (), htarget, (),
      hoperation, (), hinventory, (), hplan, (), h.epoch, (), hset, (), hmembers.valid, (),
      h.artifact, (), h.queries⟩

/-- What a valid member says of its generations. -/
structure MemberFacts (m : MemberRecord) : Prop where
  candidate : ∀ g, m.candidate = some g → g.validate u = .ok ()
  ready : m.stageState = .ready → m.candidate ≠ none
  intent : m.stageState = .createIntent → m.candidateUuidIntent ≠ none

theorem MembersValid.facts {members : List MemberRecord} (h : MembersValid u members)
    {m : MemberRecord} (hm : m ∈ members) : MemberFacts (u := u) m := by
  have hvalid := h.valid m hm
  simp only [MemberRecord.validate, bind_ok, failIf_ok] at hvalid
  obtain ⟨_, -, _, -, _, hcandidate, _, hready, _, hintent, -⟩ := hvalid
  refine ⟨?_, fun hstage hnone => hready ⟨hstage, hnone⟩, ?_⟩
  · intro g hg
    rw [hg] at hcandidate
    exact hcandidate
  · intro hstage hnone
    exact hintent ⟨hstage, by rw [hnone]; rfl⟩

end Valid

/-! ### Entries -/

section Entries
variable {u : Unicode} {digestPayload : GenerationDigest} {r : AuthorityRecord}

theorem findMember_of_mem (hnodup : (r.members.map MemberRecord.memberId).Nodup) {m : MemberRecord}
    (hm : m ∈ r.members) : findMember r m.memberId = .ok m := by
  unfold findMember
  cases hfind : r.members.find? fun other => other.memberId = m.memberId with
  | none =>
    have hne := List.find?_eq_none.mp hfind m hm
    simp at hne
  | some other =>
    have hid := List.find?_some hfind
    have heq := List.inj_on_of_nodup_map hnodup (List.mem_of_find?_eq_some hfind) hm
      (by simpa using hid)
    rw [heq]

theorem lookup_memberStates (hnodup : (r.members.map MemberRecord.memberId).Nodup) (version : ℤ)
    {m : MemberRecord} (hm : m ∈ r.members) :
    (stateFromVersioned r version).memberStates.lookup m.memberId =
      some (memberState r.errorCode m) := by
  have hall := (@Dict.lookup_sets_iff Str MemberState _ _ _
    (r.members.map fun m => (m.memberId, memberState r.errorCode m))).mpr ?_
  · exact hall _ (List.mem_map_of_mem hm)
  · simp only [List.forall_mem_map]
    intro a ha b hb hid
    rw [List.inj_on_of_nodup_map hnodup ha hb hid]

/-- The stage comes back from the status. -/
theorem stageOf_memberState {m : MemberRecord} (hfacts : MemberFacts (u := u) m) :
    stageOf (memberState r.errorCode m) = m.stageState := by
  have hstate : (memberState r.errorCode m).state = statusOf r.errorCode m := by
    unfold memberState generationState
    cases m.candidate <;> rfl
  have huuid : m.stageState = .createIntent →
      (memberState r.errorCode m).candidateUuid ≠ none := by
    intro hstage
    have hintent := hfacts.intent hstage
    unfold memberState generationState
    cases m.candidate with
    | none => exact hintent
    | some g => simp
  unfold stageOf
  rw [hstate]
  cases hstage : m.stageState with
  | pending => simp [statusOf, hstage]
  | createIntent =>
    rw [if_neg (by simp [statusOf, hstage]), if_neg (by simp [statusOf, hstage]),
      if_pos ⟨.inl (by simp [statusOf, hstage]), huuid hstage⟩]
  | ready => simp [statusOf, hstage]
  | candidateBound =>
    have hstatus : statusOf r.errorCode m = "DIVERGED".toList ∨
        statusOf r.errorCode m = "AMBIGUOUS".toList := by
      simp only [statusOf, hstage]
      split_ifs
      · exact .inl rfl
      · exact .inr rfl
    rcases hstatus with h | h <;> rw [h] <;> simp

/-- STEP: an entry is decoded to its member if and only if the intent is the candidate's UUID. -/
theorem memberOf_memberState {m : MemberRecord} (hfacts : MemberFacts (u := u) m) :
    memberOf u m.memberId (memberState r.errorCode m) (some m) = .ok m ↔
      m.candidateUuidIntent = m.candidate.map PhysicalGeneration.uuid := by
  have hstage := stageOf_memberState (r := r) hfacts
  cases hcandidate : m.candidate with
  | none =>
    cases hintent : m.candidateUuidIntent with
    | none =>
      refine iff_of_true ?_ rfl
      have hraw : (memberState r.errorCode m).candidateUuid = none := by
        rw [memberState, hcandidate, hintent]
        rfl
      have hcreate : m.stageState ≠ .createIntent := fun h => hfacts.intent h hintent
      unfold memberOf candidateOf
      rw [hstage]
      simp only [hraw, hcandidate, Option.bind_some, ite_self, ok_bind, hcreate,
        Option.map_some, Option.getD_some, hintent]
      obtain ⟨⟩ := m
      simp only at hcandidate hintent
      subst hcandidate
      subst hintent
      rfl
    | some uuid =>
      refine iff_of_false ?_ nofun
      have hraw : memberState r.errorCode m =
          { state := statusOf r.errorCode m, candidateUuid := some uuid } := by
        rw [memberState, hcandidate, hintent]
        rfl
      unfold memberOf candidateOf
      rw [hraw, Option.bind_some, hcandidate]
      exact nofun
  | some g =>
    have hraw : memberState r.errorCode m = ⟨statusOf r.errorCode m, some g.uuid,
        some g.engineFull, some g.schemaDigest, some g.contentDigest, some g.rowCount⟩ := by
      rw [memberState, hcandidate]
      rfl
    have hdecoded : candidateOf u (memberState r.errorCode m) m.candidate = .ok (some g) := by
      unfold candidateOf generationFromState
      rw [hraw, hcandidate]
      simp only [hfacts.candidate g hcandidate, ok_bind]
      simp [failIf, pure, Except.pure]
    unfold memberOf
    rw [hstage, Option.bind_some, hdecoded, ok_bind]
    obtain ⟨⟩ := m
    simp only at hcandidate
    subst hcandidate
    simp [pure, Except.pure, eq_comm]

end Entries

/-! ### Records -/

section Records
variable (u : Unicode) (digestPayload : GenerationDigest)

/-- Every intent is the UUID of a candidate, and an error is the divergence of a bound member. -/
structure Encodable (r : AuthorityRecord) : Prop where
  intents : ∀ m ∈ r.members, m.candidateUuidIntent = m.candidate.map PhysicalGeneration.uuid
  error : r.errorCode = none ∨
    ∃ m ∈ r.members, m.stageState = .candidateBound ∧ r.errorCode = some (divergedCode m.memberId)

/-- The state dictionary of a record with another phase and other entries. -/
def changedState (r : AuthorityRecord) (version : ℤ) (phase : Phase)
    (memberStates : List (Str × MemberState)) : AuthorityState :=
  { stateFromVersioned r version with phase := phase.value, memberStates }

/-- Decoding a state over the record it was made of. -/
def decoded (r : AuthorityRecord) (state : AuthorityState) : Except Failure AuthorityRecord :=
  recordFromState u digestPayload state (some r) r.database r.target r.inventoryDigest

/-- What the codec is for: a record comes back, another phase or another entry changes nothing else,
    and an operation whose candidates are gone can be aborted. -/
structure Faithful (r : AuthorityRecord) : Prop where
  roundTrip : ∀ version, decoded u digestPayload r (stateFromVersioned r version) = .ok r
  phase : ∀ version phase, decoded u digestPayload r
    { stateFromVersioned r version with phase := phase.value } = .ok { r with phase }
  member : ∀ version, ∀ m ∈ r.members, ∀ raw desired,
    memberOf u m.memberId raw (some m) = .ok desired → desired.validate u = .ok () →
      ∃ errorCode, decoded u digestPayload r { stateFromVersioned r version with
        memberStates := Dict.set m.memberId raw (stateFromVersioned r version).memberStates } =
          .ok { r with members := replaceMember r.members desired, errorCode }
  abort : ∀ {σ : Type} (service : MemberService σ) (s : σ) (version : ℤ),
    r.phase ∈ [Phase.locked, .staging, .staged] →
      (∀ m ∈ r.members, ∃ observed,
        service.observeCandidate s m.memberId r.candidate = .ok observed ∧
          observed.present = false) →
      abort service u digestPayload s r version = .ok (s, some { r with phase := .aborted })

variable {u digestPayload} {r : AuthorityRecord}

theorem ofValue_value (phase : Phase) : Phase.ofValue phase.value = .ok phase := by
  cases phase <;> rfl

/-- The artifact comes back with its binding and its generation. -/
theorem artifact_decoded (hfixed : FixedValid digestPayload r) (version : ℤ) :
    artifactOf (stateFromVersioned r version) = .ok r.artifact ∧
      (r.artifact.bind fun _ => (stateFromVersioned r version).artifact.map fun a =>
        textOrNone a.bindingId) = r.artifactBindingId ∧
      (r.artifact.bind fun _ => (stateFromVersioned r version).artifact.map fun a =>
        textOrNone a.generationId) = r.generationId := by
  have hvalid := hfixed.artifact
  unfold validateArtifact at hvalid
  unfold artifactOf stateFromVersioned
  cases hartifact : r.artifact with
  | none =>
    rw [hartifact] at hvalid
    simp only [failIf_ok, not_or, not_not] at hvalid
    exact ⟨rfl, hvalid.2.symm, hvalid.1.symm⟩
  | some artifact =>
    rw [hartifact] at hvalid
    simp only [bind_ok, failIf_ok, not_not] at hvalid
    obtain ⟨_, hok, _, hbinding, expected, -, hgeneration⟩ := hvalid
    refine ⟨?_, ?_, ?_⟩
    · simp only [Option.map_some]
      rw [hok]
      rfl
    · cases hid : r.artifactBindingId with
      | none => simp [hid] at hbinding
      | some id => rfl
    · rw [hgeneration]
      rfl

/-- SPEC: decoding leaves everything but the phase, the members and the error. -/
theorem decoded_changedState (hfixed : FixedValid digestPayload r) (version : ℤ) (phase : Phase)
    (memberStates : List (Str × MemberState)) :
    decoded u digestPayload r (changedState r version phase memberStates) = (do
      let members ← (r.members.map MemberRecord.memberId).mapM
        (stateMember u (changedState r version phase memberStates) (some r))
      let record := { r with
        phase := phase, members := members,
        errorCode := errorOf (changedState r version phase memberStates) members }
      record.validate u digestPayload
      return record) := by
  obtain ⟨hartifact, hbinding, hgeneration⟩ := artifact_decoded hfixed version
  have hbase : (some r).filter (fun record => record.operationId =
      (changedState r version phase memberStates).operationId) = some r :=
    if_pos (decide_eq_true rfl)
  have hsame : artifactOf (changedState r version phase memberStates) = .ok r.artifact := hartifact
  unfold decoded recordFromState
  rw [hbase, hsame]
  have hinventory : failIf ((changedState r version phase memberStates).inventoryDigest ≠
      r.inventoryDigest) (.publication "DPONE_CLICKHOUSE_CLUSTER_EXTERNAL_INVENTORY_DRIFT") =
      .ok () := failIf_ok.mpr (not_not.mpr rfl)
  have hphase : Phase.ofValue (changedState r version phase memberStates).phase = .ok phase :=
    ofValue_value phase
  rw [hinventory, hphase]
  simp only [ok_bind]
  congr 1
  funext members
  have hrecord : ({ r with
      phase := phase, members := members,
      errorCode := errorOf (changedState r version phase memberStates) members } :
        AuthorityRecord) = {
      targetKey := r.targetKey, operationId := r.operationId, fenceToken := r.fenceToken,
      phase := phase,
      dispatchEpoch := r.dispatchEpoch, inventoryDigest := r.inventoryDigest,
      planDigest := r.planDigest, database := r.database, target := r.target,
      candidate := r.candidate, members := members, artifact := r.artifact,
      artifactBindingId := r.artifact.bind fun _ => (stateFromVersioned r version).artifact.map
        fun a => textOrNone a.bindingId,
      generationId := r.artifact.bind fun _ => (stateFromVersioned r version).artifact.map
        fun a => textOrNone a.generationId,
      publicationCorrelationToken := r.publicationCorrelationToken,
      publicationEntry := r.publicationEntry, publicationQueryDigest := r.publicationQueryDigest,
      cleanupCorrelationToken := r.cleanupCorrelationToken, cleanupEntry := r.cleanupEntry,
      cleanupQueryDigest := r.cleanupQueryDigest,
      errorCode := errorOf (changedState r version phase memberStates) members } := by
    rw [hbinding, hgeneration, ← hfixed.schema, ← hfixed.mode]
  rw [hrecord]
  rfl

/-- One member over the record. -/
theorem stateMember_eq (hnodup : (r.members.map MemberRecord.memberId).Nodup) {m : MemberRecord}
    (hm : m ∈ r.members) {state : AuthorityState} {raw : MemberState}
    (hraw : state.memberStates.lookup m.memberId = some raw) :
    stateMember u state (some r) m.memberId = memberOf u m.memberId raw (some m) := by
  unfold stateMember priorOf entryOf
  simp only [findMember_of_mem hnodup hm, Except.map, ok_bind, hraw]

theorem memberState_diverged {m : MemberRecord} (errorCode : Option Str) :
    (memberState errorCode m).state = "DIVERGED".toList ↔
      m.stageState = .candidateBound ∧ errorCode = some (divergedCode m.memberId) := by
  have hstate : (memberState errorCode m).state = statusOf errorCode m := by
    unfold memberState generationState
    cases m.candidate <;> rfl
  rw [hstate]
  unfold statusOf
  cases m.stageState with
  | pending => simp
  | createIntent => simp
  | ready => simp
  | candidateBound =>
    by_cases herror : errorCode = some (divergedCode m.memberId) <;> simp [herror]

/-- The error comes back if and only if it is the divergence of a bound member. -/
theorem errorOf_eq_iff (hnodup : (r.members.map MemberRecord.memberId).Nodup) (version : ℤ) :
    errorOf (stateFromVersioned r version) r.members = r.errorCode ↔ r.errorCode = none ∨
      ∃ m ∈ r.members, m.stageState = .candidateBound ∧
        r.errorCode = some (divergedCode m.memberId) := by
  have hdiverged : ∀ m ∈ r.members, isDiverged (stateFromVersioned r version) m = true ↔
      m.stageState = .candidateBound ∧ r.errorCode = some (divergedCode m.memberId) := by
    intro m hm
    rw [isDiverged, lookup_memberStates hnodup version hm, Option.any_some, decide_eq_true_iff,
      memberState_diverged]
  unfold errorOf
  cases hfind : r.members.find? (isDiverged (stateFromVersioned r version)) with
  | none =>
    rw [Option.map_none]
    constructor
    · exact fun h => .inl h.symm
    · rintro (h | ⟨m, hm, hbound⟩)
      · exact h.symm
      · exact absurd ((hdiverged m hm).mpr hbound) (List.find?_eq_none.mp hfind m hm)
  | some m =>
    have hm := List.mem_of_find?_eq_some hfind
    have hbound := (hdiverged m hm).mp (List.find?_some hfind)
    rw [Option.map_some]
    exact iff_of_true hbound.2.symm (.inr ⟨m, hm, hbound⟩)

/-- The fixed fields stay valid under another phase, other members and another error. -/
theorem FixedValid.changed (h : FixedValid digestPayload r) (phase : Phase)
    (members : List MemberRecord) (errorCode : Option Str) :
    FixedValid digestPayload { r with
      phase := phase, members := members, errorCode := errorCode } :=
  ⟨h.schema, h.mode, h.identity, h.digests, h.epoch, h.artifact, h.queries⟩

/-- RUN: the members of an encodable record come back. -/
theorem members_decoded (hmembers : MembersValid u r.members) (version : ℤ) (phase : Phase) :
    (r.members.map MemberRecord.memberId).mapM (stateMember u (changedState r version phase
        (stateFromVersioned r version).memberStates) (some r)) = .ok r.members ↔
      ∀ m ∈ r.members, m.candidateUuidIntent = m.candidate.map PhysicalGeneration.uuid := by
  rw [mapM_ok, List.forall₂_map_left_iff, List.forall₂_same]
  refine forall₂_congr fun m hm => ?_
  have hraw : (changedState r version phase
      (stateFromVersioned r version).memberStates).memberStates.lookup m.memberId =
      some (memberState r.errorCode m) := lookup_memberStates hmembers.nodup version hm
  rw [stateMember_eq hmembers.nodup hm hraw, memberOf_memberState (hmembers.facts hm)]

/-- An encodable record is decoded with any phase. -/
theorem Encodable.phase (h : Encodable r) (hvalid : r.validate u digestPayload = .ok ())
    (version : ℤ) (phase : Phase) : decoded u digestPayload r
      { stateFromVersioned r version with phase := phase.value } = .ok { r with phase } := by
  obtain ⟨hfixed, hmembers⟩ := validate_ok.mp hvalid
  have herror := (errorOf_eq_iff hmembers.nodup version).mpr h.error
  have hstate : { stateFromVersioned r version with phase := phase.value } =
      changedState r version phase (stateFromVersioned r version).memberStates := rfl
  rw [hstate, decoded_changedState hfixed, (members_decoded hmembers version phase).mpr h.intents,
    ok_bind]
  have hsame : errorOf (changedState r version phase (stateFromVersioned r version).memberStates)
      r.members = r.errorCode := herror
  simp only [hsame]
  have hrecord : AuthorityRecord.validate u digestPayload
      { r with phase := phase, members := r.members, errorCode := r.errorCode } = .ok () :=
    validate_ok.mpr ⟨hfixed.changed phase r.members r.errorCode, hmembers⟩
  rw [hrecord]
  rfl

theorem replaceMember_valid (hmembers : MembersValid u r.members) {desired : MemberRecord}
    (hdesired : desired.validate u = .ok ()) :
    MembersValid u (replaceMember r.members desired) := by
  have hids : (replaceMember r.members desired).map MemberRecord.memberId =
      r.members.map MemberRecord.memberId := by
    unfold replaceMember
    rw [List.map_map]
    refine List.map_congr_left fun m _ => ?_
    by_cases hid : m.memberId = desired.memberId <;> simp [hid]
  refine ⟨?_, by rw [hids]; exact hmembers.nodup, ?_⟩
  · unfold replaceMember
    rw [List.length_map]
    exact hmembers.two
  · unfold replaceMember
    rw [List.forall_mem_map]
    intro m hm
    split_ifs
    · exact hdesired
    · exact hmembers.valid m hm

/-- An encodable record is decoded with another entry of one member. -/
theorem Encodable.member (h : Encodable r) (hvalid : r.validate u digestPayload = .ok ())
    (version : ℤ) {m : MemberRecord} (hm : m ∈ r.members) {raw : MemberState}
    {desired : MemberRecord} (hraw : memberOf u m.memberId raw (some m) = .ok desired)
    (hdesired : desired.validate u = .ok ()) :
    ∃ errorCode, decoded u digestPayload r { stateFromVersioned r version with
      memberStates := Dict.set m.memberId raw (stateFromVersioned r version).memberStates } =
        .ok { r with members := replaceMember r.members desired, errorCode } := by
  obtain ⟨hfixed, hmembers⟩ := validate_ok.mp hvalid
  have hid : desired.memberId = m.memberId := by
    obtain ⟨candidate, -, heq⟩ := bind_ok.mp hraw
    cases heq
    rfl
  have hstate : { stateFromVersioned r version with
      memberStates := Dict.set m.memberId raw (stateFromVersioned r version).memberStates } =
      changedState r version r.phase
        (Dict.set m.memberId raw (stateFromVersioned r version).memberStates) := rfl
  have hdecoded : (r.members.map MemberRecord.memberId).mapM (stateMember u (changedState r version
      r.phase (Dict.set m.memberId raw (stateFromVersioned r version).memberStates)) (some r)) =
      .ok (replaceMember r.members desired) := by
    rw [mapM_ok, List.forall₂_map_left_iff, replaceMember, List.forall₂_map_right_iff,
      List.forall₂_same]
    intro other hother
    have hlookup := Dict.lookup_set m.memberId other.memberId raw
      (stateFromVersioned r version).memberStates
    rw [hid]
    by_cases heq : other.memberId = m.memberId
    · obtain rfl := List.inj_on_of_nodup_map hmembers.nodup hother hm heq
      rw [if_pos rfl] at hlookup
      rw [if_pos rfl]
      exact (stateMember_eq hmembers.nodup hother hlookup).trans hraw
    · rw [if_neg heq, lookup_memberStates hmembers.nodup version hother] at hlookup
      rw [if_neg heq]
      refine (stateMember_eq hmembers.nodup hother hlookup).trans ?_
      exact (memberOf_memberState (hmembers.facts hother)).mpr (h.intents other hother)
  have hrecord : ∀ errorCode, AuthorityRecord.validate u digestPayload { r with
      members := replaceMember r.members desired, errorCode := errorCode } = .ok () :=
    fun errorCode => validate_ok.mpr ⟨hfixed.changed r.phase (replaceMember r.members desired)
      errorCode, replaceMember_valid hmembers hdesired⟩
  refine ⟨errorOf (changedState r version r.phase
    (Dict.set m.memberId raw (stateFromVersioned r version).memberStates))
    (replaceMember r.members desired), ?_⟩
  rw [hstate, decoded_changedState hfixed, hdecoded, ok_bind]
  simp only [hrecord]
  rfl

/-- Members without candidates are left alone. -/
theorem dropMembers_absent {σ : Type} {service : MemberService σ} {state : AuthorityState} {s : σ} :
    ∀ {memberIds : List Str}, (∀ id ∈ memberIds, ∃ observed,
      service.observeCandidate s id state.candidateName = .ok observed ∧
        observed.present = false) →
      memberIds.foldlM (dropMember service state) s = .ok s
  | [], _ => rfl
  | id :: memberIds, h => by
    obtain ⟨⟨observed, hobserved, habsent⟩, hrest⟩ := List.forall_mem_cons.mp h
    have hdrop : dropMember service state s id = .ok s := by
      unfold dropMember
      rw [hobserved, ok_bind, habsent]
      rfl
    rw [List.foldlM_cons, hdrop, ok_bind]
    exact dropMembers_absent hrest

theorem Encodable.abort (h : Encodable r) (hvalid : r.validate u digestPayload = .ok ())
    {σ : Type} (service : MemberService σ) (s : σ) (version : ℤ)
    (hphase : r.phase ∈ [Phase.locked, .staging, .staged])
    (habsent : ∀ m ∈ r.members, ∃ observed,
      service.observeCandidate s m.memberId r.candidate = .ok observed ∧
        observed.present = false) :
    External.abort service u digestPayload s r version =
      .ok (s, some { r with phase := .aborted }) := by
  have hopen : ¬ (stateFromVersioned r version).phase = Phase.aborted.value ∧
      ¬ (stateFromVersioned r version).phase ∉
        [Phase.locked.value, Phase.staging.value, Phase.staged.value] := by
    have hvalue : (stateFromVersioned r version).phase = r.phase.value := rfl
    rw [hvalue]
    revert hphase
    cases r.phase <;> decide
  have hdrop : (stateFromVersioned r version).memberIds.foldlM
      (dropMember service (stateFromVersioned r version)) s = .ok s := by
    refine dropMembers_absent ?_
    have hids : (stateFromVersioned r version).memberIds =
        r.members.map MemberRecord.memberId := rfl
    rw [hids, List.forall_mem_map]
    exact habsent
  have hrecord := h.phase hvalid version .aborted
  unfold decoded at hrecord
  unfold External.abort
  simp only
  rw [if_neg hopen.1, (failIf_ok (x := ())).mpr hopen.2, ok_bind, hdrop, ok_bind, hrecord]
  rfl

/-- CORRECT: the codec is faithful to a valid record if and only if the record is encodable. -/
theorem faithful_iff (hvalid : r.validate u digestPayload = .ok ()) :
    Faithful u digestPayload r ↔ Encodable r := by
  obtain ⟨hfixed, hmembers⟩ := validate_ok.mp hvalid
  constructor
  · intro h
    have htrip := h.roundTrip 0
    have hstate : stateFromVersioned r 0 =
        changedState r 0 r.phase (stateFromVersioned r 0).memberStates := rfl
    rw [hstate, decoded_changedState hfixed] at htrip
    obtain ⟨members, hdecoded, htrip⟩ := bind_ok.mp htrip
    obtain ⟨_, -, heq⟩ := bind_ok.mp htrip
    have hrecord := Except.ok.inj heq
    have hsame : members = r.members := congrArg AuthorityRecord.members hrecord
    subst hsame
    refine ⟨(members_decoded hmembers 0 r.phase).mp hdecoded, ?_⟩
    exact (errorOf_eq_iff hmembers.nodup 0).mp (congrArg AuthorityRecord.errorCode hrecord)
  · intro h
    exact ⟨fun version => h.phase hvalid version r.phase, h.phase hvalid,
      fun version m hm raw desired hraw hdesired => h.member hvalid version hm hraw hdesired,
      fun service s version hphase habsent => h.abort hvalid service s version hphase habsent⟩

end Records

/-! ### A create intent -/

/-- A digest of one digit. -/
def sameDigits (c : Char) : Str := List.replicate 64 c

/-- An operation of two members that stages an artifact, with what the first one has. -/
def stagingRecord (first : MemberRecord) : AuthorityRecord where
  targetKey := sameDigits '1'
  operationId := sameDigits '2'
  fenceToken := "f".toList
  phase := .staging
  dispatchEpoch := 0
  inventoryDigest := sameDigits '3'
  planDigest := sameDigits '4'
  database := "db".toList
  target := "t".toList
  candidate := "t__dpone_ext".toList
  members := [first, { memberId := "m2".toList }]
  artifact := some ⟨sameDigits '5', 10, 1, sameDigits '6', sameDigits '7'⟩
  artifactBindingId := some "a".toList
  generationId := some (sameDigits '0')

/-- A constant in place of SHA-256. -/
def zeroDigest : GenerationDigest := fun _ _ _ _ => sameDigits '0'

/-- Two pending members come back. -/
theorem pending_members_faithful : Faithful Unicode.ascii zeroDigest
    (stagingRecord { memberId := "m1".toList }) :=
  (faithful_iff (by decide)).mpr ⟨by decide, .inl rfl⟩

/-- The record that `stage_member_once` writes before it creates the first candidate. -/
def intendingRecord : AuthorityRecord :=
  stagingRecord { memberId := "m1".toList, stageState := .createIntent,
                  candidateUuidIntent := some "u1".toList }

/-- A member with only a create intent: the record is valid, it does not come back, and while no
    candidate exists the operation cannot be aborted. -/
theorem create_intent_refused :
    intendingRecord.validate Unicode.ascii zeroDigest = .ok () ∧
    decoded Unicode.ascii zeroDigest intendingRecord (stateFromVersioned intendingRecord 1) =
      .error diverged ∧
    abort ⟨fun _ _ _ => .ok { present := false }, fun s _ _ => .ok s⟩ Unicode.ascii zeroDigest ()
      intendingRecord 1 = .error diverged := by
  decide

end Dpone.ClickHouse.External
