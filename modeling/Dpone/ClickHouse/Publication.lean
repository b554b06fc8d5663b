import Mathlib.Data.Int.Notation
import Dpone.Schemes.Run
import Dpone.Schemes.Text

/-! Full-refresh publication on a single ClickHouse node.

    The marker is a table beside the target whose comment holds the intent; the catalog decides
    every retry. A call of the service makes one catalog call after the other, so it is a `Progress`
    value that says which catalog call comes next, and any number of calls take turns. -/

namespace Dpone.ClickHouse
open Dpone.Schemes

/-! ### Contract -/

/-- `ClickHouseFullRefreshPublicationError`, its outcome-unknown kind, and what a catalog raises. -/
inductive PublicationFailure where
  | error (code detail : String)
  | outcomeUnknown (code detail : String)
  | catalog
  deriving DecidableEq

/-- `FullRefreshPublicationMarker`: immutable publication intent, stored in a table comment. -/
structure PublicationMarker where
  operationId : Str
  planSha256 : Str
  database : Str
  target : Str
  candidate : Str
  predecessorUuid : Option Str
  desiredUuid : Str
  stagedRows : ℤ
  schemaVersion : Str
  deriving DecidableEq

inductive PublicationState where
  | pending | committed | cleanupPending | unknown
  deriving DecidableEq

/-- `classify_publication`: only exact before and after UUID mappings. -/
def classifyPublication (marker : PublicationMarker) (target candidate : Option Str) :
    PublicationState :=
  match marker.predecessorUuid with
  | none =>
    if target = none ∧ candidate = some marker.desiredUuid then .pending
    else if target = some marker.desiredUuid ∧ candidate = none then .committed
    else .unknown
  | some predecessor =>
    if (target, candidate) = (some predecessor, some marker.desiredUuid) then .pending
    else if (target, candidate) = (some marker.desiredUuid, some predecessor) then .committed
    else if target = some marker.desiredUuid ∧ candidate = none then .cleanupPending
    else .unknown

def invalid (code detail : String) : PublicationFailure :=
  .error ("DPONE_CLICKHOUSE_FULL_REFRESH_" ++ code) detail

def unproven (code detail : String) : PublicationFailure :=
  .outcomeUnknown ("DPONE_CLICKHOUSE_FULL_REFRESH_" ++ code) detail

/-- JSON text and digests of markers; a text that was written is read back. `loads` refuses, with
    the reason, what is not an object with exactly the fields of a marker. -/
structure MarkerText where
  sha256 : PublicationMarker → Str
  dumps : PublicationMarker → Str
  loads : Str → Except String PublicationMarker
  loads_dumps : ∀ marker, loads (dumps marker) = .ok marker

def schemaVersionV1 : Str := "dpone.clickhouse.full-refresh-publication.v1".toList

variable (text : MarkerText)

namespace PublicationMarker

/-- `_sha256` of a marker does not cover the digest itself. -/
def digest (marker : PublicationMarker) : Str := text.sha256 { marker with planSha256 := [] }

def validate (marker : PublicationMarker) : Except PublicationFailure Unit :=
  if marker.schemaVersion ≠ schemaVersionV1 ∨ [marker.operationId, marker.planSha256,
      marker.database, marker.target, marker.candidate, marker.desiredUuid].contains [] then
    .error (invalid "MARKER_INVALID" "required identity is missing")
  else if marker.stagedRows < 0 then
    .error (invalid "MARKER_INVALID" "staged row count is invalid")
  else if marker.planSha256 ≠ marker.digest text then
    .error (invalid "MARKER_INVALID" "plan digest mismatch")
  else .ok ()

def create (operationId database target candidate : Str) (predecessorUuid : Option Str)
    (desiredUuid : Str) (stagedRows : ℤ) : PublicationMarker :=
  let unsigned : PublicationMarker := ⟨operationId, [], database, target, candidate,
    predecessorUuid, desiredUuid, stagedRows, schemaVersionV1⟩
  { unsigned with planSha256 := unsigned.digest text }

def toJson (marker : PublicationMarker) : Except PublicationFailure Str := do
  marker.validate text
  return text.dumps marker

def fromJson (raw : Str) : Except PublicationFailure PublicationMarker := do
  match text.loads raw with
  | .error detail => .error (invalid "MARKER_INVALID" detail)
  | .ok marker =>
    marker.validate text
    return marker

end PublicationMarker

/-! ### Catalog -/

/-- `ClickHousePublicationTable`, without the name it is listed under. -/
structure PublicationTable where
  uuid : Str
  engine : Str
  comment : Str
  deriving DecidableEq

/-- The tables of the database. -/
abbrev Tables := Str → Option PublicationTable

def Tables.set (tables : Tables) (name : Str) (table : Option PublicationTable) : Tables :=
  fun n => if n = name then table else tables n

def Tables.uuid (tables : Tables) (name : Str) : Option Str := (tables name).map (·.uuid)

/-- The statements of the service. -/
inductive Ddl where
  | createMarker (marker comment : Str)
  | exchange (target candidate : Str)
  | rename (candidate target : Str)
  | drop (name : Str)
  deriving DecidableEq

/-- What a statement makes of the catalog; `none` when the server refuses it. -/
def Ddl.exec (tables : Tables) (uuid : Str) : Ddl → Option Tables
  | .createMarker marker comment =>
    match tables marker with
    | none => some (tables.set marker (some ⟨uuid, "TinyLog".toList, comment⟩))
    | some _ => none
  | .exchange target candidate =>
    match tables target, tables candidate with
    | some t, some c => some ((tables.set target (some c)).set candidate (some t))
    | _, _ => none
  | .rename candidate target =>
    match tables candidate, tables target with
    | some c, none => some ((tables.set candidate none).set target (some c))
    | _, _ => none
  | .drop name =>
    match tables name with
    | some _ => some (tables.set name none)
    | none => none

/-! ### Checks -/

def zeroUuid : Str := "00000000-0000-0000-0000-000000000000".toList

/-- `_required_table`. -/
def requiredTable (tables : Tables) (name : Str) : Except PublicationFailure PublicationTable :=
  let unstable := invalid "CATALOG_INVALID"
    ("table " ++ String.ofList name ++ " has no stable UUID")
  match tables name with
  | none => .error unstable
  | some table => if table.uuid = [] ∨ table.uuid = zeroUuid then .error unstable else .ok table

/-- `_require_supported_table`. -/
def requireSupportedTable (table : PublicationTable) (role : String) :
    Except PublicationFailure Unit :=
  if table.engine = "Distributed".toList ∨ "Replicated".toList.isPrefixOf table.engine then
    .error (invalid "TOPOLOGY_UNSUPPORTED" (role ++ " engine " ++ String.ofList table.engine ++
      " requires separate topology certification"))
  else .ok ()

/-- `_parse_marker`. -/
def parseMarker (record : PublicationTable) : Except PublicationFailure PublicationMarker :=
  if record.engine ≠ "TinyLog".toList then
    .error (invalid "MARKER_INVALID" "marker table engine mismatch")
  else PublicationMarker.fromJson text record.comment

/-- `_require_exact_marker`. -/
def requireExactMarker (record : Option PublicationTable) (marker : PublicationMarker) :
    Except PublicationFailure Unit :=
  let changed := invalid "OWNERSHIP_CONFLICT" "publication marker changed"
  match record with
  | none => .error changed
  | some record => do
    let persisted ← parseMarker text record
    if persisted ≠ marker then .error changed else .ok ()

/-- `_state`. -/
def publicationState (marker : PublicationMarker) (tables : Tables) : PublicationState :=
  classifyPublication marker (tables.uuid marker.target) (tables.uuid marker.candidate)

/-! ### One call of the service -/

/-- The physical target of all calls. -/
structure PublicationTarget where
  database : Str
  target : Str
  markerTable : Str
  distinct : markerTable ≠ target

/-- The catalog call a call of the service makes next, or how it ended. -/
inductive Progress where
  | publish (operationId candidate : Str) (stagedRows : ℤ)
  | createMarker (marker : PublicationMarker)
  | rereadAfterFailure (marker : PublicationMarker) (failure : PublicationFailure)
  | rereadCreated (marker : PublicationMarker)
  | prepareAdmission (operationId : Str)
  | reconcile (marker : PublicationMarker) (initialDispatch admission : Bool)
  | queryActive (marker : PublicationMarker)
  | dispatch (marker : PublicationMarker)
  | prove (marker : PublicationMarker) (raised : Bool)
  | count (marker : PublicationMarker)
  | cleanup (marker : PublicationMarker)
  | dropCandidate (marker : PublicationMarker)
  | requireCandidateAbsent (marker : PublicationMarker) (raised : Bool)
  | requireMarker (marker : PublicationMarker)
  | dropMarker (marker : PublicationMarker)
  | requireMarkerAbsent (marker : PublicationMarker) (raised : Bool)
  | published (marker : PublicationMarker) (recovered : Bool)
  | admitted
  | cleaned
  | failed (failure : PublicationFailure)
  deriving DecidableEq

variable (site : PublicationTarget)

section Reads
variable (tables : Tables)

/-- The stored marker is the plan of this call. -/
def requirePersisted (record : PublicationTable) (marker : PublicationMarker)
    (markerCreated : Bool) : Except PublicationFailure Progress := do
  let persisted ← parseMarker text record
  if persisted ≠ marker then
    .error (invalid "OWNERSHIP_CONFLICT" "marker belongs to another publication plan")
  else return .reconcile marker markerCreated false

/-- `publish`, up to the marker. -/
def planPublication (operationId candidate : Str) (stagedRows : ℤ) :
    Except PublicationFailure Progress := do
  let desired ← requiredTable tables candidate
  requireSupportedTable desired "candidate"
  (tables site.target).elim (.ok ()) fun predecessor => requireSupportedTable predecessor "target"
  let marker := PublicationMarker.create text operationId site.database site.target candidate
    (tables.uuid site.target) desired.uuid stagedRows
  match tables site.markerTable with
  | none => return .createMarker marker
  | some record => requirePersisted text record marker false

/-- `_owned_marker`. -/
def ownedMarker (operationId : Str) (record : PublicationTable) :
    Except PublicationFailure PublicationMarker := do
  let marker ← parseMarker text record
  if marker.operationId ≠ operationId then
    .error (invalid "OWNERSHIP_CONFLICT" "another run owns unresolved publication")
  else if marker.database ≠ site.database ∨ marker.target ≠ site.target then
    .error (invalid "OWNERSHIP_CONFLICT" "marker target identity mismatch")
  else return marker

/-- `_reconcile_or_publish`, up to the statement; `prepare_admission` goes on to clean up. -/
def reconcileOrPublish (marker : PublicationMarker) (initialDispatch admission : Bool) :
    Except PublicationFailure Progress := do
  requireExactMarker text (tables site.markerTable) marker
  match publicationState marker tables with
  | .committed | .cleanupPending =>
    return if admission then .count marker else .published marker false
  | .unknown =>
    .error (unproven "OUTCOME_UNKNOWN" "catalog mapping is neither pending nor committed")
  | .pending =>
    let candidate ← requiredTable tables marker.candidate
    requireSupportedTable candidate "candidate"
    if marker.predecessorUuid ≠ none then
      let target ← requiredTable tables marker.target
      requireSupportedTable target "target"
    return if initialDispatch then .dispatch marker else .queryActive marker

/-- `_reconcile_or_publish`, after the statement. -/
def proveCommitted (marker : PublicationMarker) (raised : Bool) :
    Except PublicationFailure Progress := do
  requireExactMarker text (tables site.markerTable) marker
  if publicationState marker tables ≠ .committed then
    .error (unproven "OUTCOME_UNKNOWN" "publication DDL completion is not proven")
  else return .published marker raised

/-- `cleanup`, up to the first `DROP`. -/
def planCleanup (marker : PublicationMarker) : Except PublicationFailure Progress := do
  requireExactMarker text (tables site.markerTable) marker
  match publicationState marker tables with
  | .pending | .unknown =>
    .error (unproven "OUTCOME_UNKNOWN" "cleanup requires committed UUID mapping")
  | .cleanupPending => return .requireMarker marker
  | .committed =>
    if marker.predecessorUuid = none then return .requireMarker marker
    else
      let predecessor ← requiredTable tables marker.candidate
      if some predecessor.uuid ≠ marker.predecessorUuid then
        .error (invalid "CLEANUP_CONFLICT" "candidate UUID no longer owns predecessor")
      else return .dropCandidate marker

/-- `_drop_and_require_absent`, after the `DROP`. -/
def requireAbsent (name : Str) (raised : Bool) (next : Progress) :
    Except PublicationFailure Progress :=
  match tables name with
  | none => .ok next
  | some _ => .error (if raised then .catalog else invalid "CLEANUP_PENDING"
      ("table " ++ String.ofList name ++ " still exists after DROP"))

/-- What a call does after reading the catalog; `none` when it reads nothing here. -/
def Progress.afterRead : Progress → Option (Except PublicationFailure Progress)
  | .publish operationId candidate stagedRows =>
    some (planPublication text site tables operationId candidate stagedRows)
  | .rereadAfterFailure marker failure =>
    some ((tables site.markerTable).elim (.error failure)
      fun record => requirePersisted text record marker false)
  | .rereadCreated marker => some do
    let record ← requiredTable tables site.markerTable
    requirePersisted text record marker true
  | .prepareAdmission operationId =>
    some ((tables site.markerTable).elim (.ok .admitted) fun record => do
      let marker ← ownedMarker text site operationId record
      return .reconcile marker false true)
  | .reconcile marker initialDispatch admission =>
    some (reconcileOrPublish text site tables marker initialDispatch admission)
  | .prove marker raised => some (proveCommitted text site tables marker raised)
  | .count marker => some (.ok (.cleanup marker))
  | .cleanup marker => some (planCleanup text site tables marker)
  | .requireCandidateAbsent marker raised =>
    some (requireAbsent tables marker.candidate raised (.requireMarker marker))
  | .requireMarker marker => some do
    requireExactMarker text (tables site.markerTable) marker
    return .dropMarker marker
  | .requireMarkerAbsent _ raised => some (requireAbsent tables site.markerTable raised .cleaned)
  | _ => none

end Reads

/-- The statement a call issues next. -/
def Progress.ddl : Progress → Option Ddl
  | .createMarker marker =>
    match marker.toJson text with
    | .ok comment => some (.createMarker site.markerTable comment)
    | .error _ => none
  | .dispatch marker =>
    match marker.predecessorUuid with
    | none => some (.rename marker.candidate marker.target)
    | some _ => some (.exchange marker.target marker.candidate)
  | .dropCandidate marker => some (.drop marker.candidate)
  | .dropMarker _ => some (.drop site.markerTable)
  | _ => none

/-- Where a call goes on after its statement. -/
def Progress.afterDdl (raised : Bool) : Progress → Option Progress
  | .createMarker marker =>
    match marker.toJson text with
    | .ok _ => some (if raised then .rereadAfterFailure marker .catalog else .rereadCreated marker)
    | .error failure => some (.rereadAfterFailure marker failure)
  | .dispatch marker => some (.prove marker raised)
  | .dropCandidate marker => some (.requireCandidateAbsent marker raised)
  | .dropMarker marker => some (.requireMarkerAbsent marker raised)
  | _ => none

/-- After `publication_query_active`, which may itself fail: nothing is dispatched again. -/
def afterQuery : Option Bool → PublicationFailure
  | none => unproven "QUIESCENCE_UNKNOWN" "cannot prove the previous publication query is quiescent"
  | some true => unproven "PUBLICATION_IN_FLIGHT" "the previous publication query is still active"
  | some false =>
    unproven "REDISPATCH_FORBIDDEN" "only the atomic marker creator may dispatch publication DDL"

/-! ### Any number of calls -/

/-- The catalog, the UUID each candidate was staged with, every UUID ever given out, the calls, and
    what was done: statements issued, statements that took effect, committed markers proved. -/
structure PublicationWorld where
  tables : Tables
  staged : Str → Option Str
  used : List Str
  calls : ℕ → Option Progress
  issued : List PublicationMarker
  effected : List PublicationMarker
  proved : List (ℕ × PublicationMarker)

/-- Calls of the service as they start. -/
inductive PublicationCall where
  | publish (operationId candidate : Str) (stagedRows : ℤ)
  | prepareAdmission (operationId : Str)
  | cleanup (marker : PublicationMarker)

def PublicationCall.start : PublicationCall → Progress
  | .publish operationId candidate stagedRows => .publish operationId candidate stagedRows
  | .prepareAdmission operationId => .prepareAdmission operationId
  | .cleanup marker => .cleanup marker

/-- A candidate is published under its own name. -/
def PublicationCall.admissible : PublicationCall → Bool
  | .publish _ candidate _ => decide (candidate ≠ site.target ∧ candidate ≠ site.markerTable)
  | .prepareAdmission _ | .cleanup _ => true

/-- Attempts stage candidates and start calls; a call reads the catalog, asks for the query, issues
    its statement, with or without effect, or ends where it stands. -/
inductive PublicationLabel where
  | stage (name : Str) (table : PublicationTable)
  | start (a : ℕ) (call : PublicationCall)
  | read (a : ℕ)
  | query (a : ℕ) (reply : Option Bool)
  | ddl (a : ℕ) (effect raised : Bool) (uuid : Str)
  | crash (a : ℕ)

namespace PublicationWorld
variable (w : PublicationWorld)

def setCall (a : ℕ) (p : Progress) : PublicationWorld :=
  { w with calls := fun b => if b = a then some p else w.calls b }

/-- What a cleanup has proved once its first check let it through. -/
def noteProved (a : ℕ) : Progress → Except PublicationFailure Progress → PublicationWorld
  | .cleanup marker, .ok _ => { w with proved := (a, marker) :: w.proved }
  | _, _ => w

def noteIssued (effect : Bool) : Progress → PublicationWorld
  | .dispatch marker =>
    { w with
      issued := marker :: w.issued
      effected := if effect then marker :: w.effected else w.effected }
  | _ => w

/-- A statement has its effect when the server takes it; without one it has raised. -/
def execute (effect raised : Bool) (uuid : Str) (ddl : Option Ddl) : Option PublicationWorld :=
  if effect then
    match ddl.bind (Ddl.exec w.tables uuid) with
    | some tables => if uuid ∈ w.used then none else some { w with tables, used := uuid :: w.used }
    | none => none
  else if raised then some w else none

def next : PublicationLabel → Option PublicationWorld
  | .stage name table =>
    if name = site.target ∨ name = site.markerTable ∨ w.staged name ≠ none ∨ w.tables name ≠ none ∨
        table.uuid ∈ w.used then none
    else some { w with
      tables := w.tables.set name (some table)
      staged := fun n => if n = name then some table.uuid else w.staged n
      used := table.uuid :: w.used }
  | .start a call =>
    if w.calls a = none ∧ call.admissible site then some (w.setCall a call.start) else none
  | .read a => do
    let p ← w.calls a
    let result ← p.afterRead text site w.tables
    return (w.noteProved a p result).setCall a (match result with
      | .ok p' => p'
      | .error failure => .failed failure)
  | .query a reply =>
    match w.calls a with
    | some (.queryActive _) => some (w.setCall a (.failed (afterQuery reply)))
    | _ => none
  | .ddl a effect raised uuid => do
    let p ← w.calls a
    let p' ← p.afterDdl text raised
    let w' ← w.execute effect raised uuid (p.ddl text site)
    return (w'.noteIssued effect p).setCall a p'
  | .crash a =>
    match w.calls a with
    | some _ => some (w.setCall a (.failed .catalog))
    | none => none

end PublicationWorld

/-- One step of the service's users or of the catalog. -/
def PublicationStep (w : PublicationWorld) (l : PublicationLabel) (w' : PublicationWorld) : Prop :=
  w.next text site l = some w'

/-- A target that no publication is in progress on; the tables that stand beside it count as
    candidates staged before. -/
structure PublicationStart (w : PublicationWorld) : Prop where
  marker : w.tables site.markerTable = none
  staged : ∀ name, w.staged name = if name = site.target then none else w.tables.uuid name
  used : ∀ name table, w.tables name = some table → table.uuid ∈ w.used
  unique : ∀ name name' table table', w.tables name = some table → w.tables name' = some table' →
    table.uuid = table'.uuid → name = name'
  calls : ∀ a, w.calls a = none
  issued : w.issued = []

end Dpone.ClickHouse
