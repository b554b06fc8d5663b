import Dpone.Schemes.JsonValue
import Dpone.Schemes.PosixPath
import Dpone.Contracts.CanonicalJson
import Dpone.Schemes.ByteReader

/-! Contracts of one native stage write: `mssql_native_stage_writer.py`, and the stage identifiers
    of `mssql_native_writer.py`.

    A request is what its dataclass holds; `Valid` is what its constructor accepts. Blanks and case
    folding come from the Unicode database of the interpreter. -/

namespace Dpone.SqlClient
open Dpone.Schemes

/-! ### Texts -/

/-- A control character, or the one that deletes. -/
def control (c : CodePoint) : Bool := c.val < 32 || c.val = 127

/-- The body of a bracketed part up to its closing bracket, and what follows it. -/
def bracketBody : Bool → PyText → Option PyText
  | _, [] => none
  | nonempty, [c] => if c = cp ']' ∧ nonempty then some [] else none
  | nonempty, c :: k :: s =>
    if c = cp ']' then
      if k = cp ']' then bracketBody true s
      else if nonempty then some (k :: s) else none
    else if c.val < 32 then none
    else bracketBody true (k :: s)

/-- A bracketed part of an identifier, and what follows it. -/
def bracketedPart : PyText → Option PyText
  | [] => none
  | c :: s => if c = cp '[' then bracketBody false s else none

/-- A dot with a bracketed part, and what follows it. -/
def dottedPart : PyText → Option PyText
  | [] => none
  | c :: s => if c = cp '.' then bracketedPart s else none

/-- `is_qualified_native_stage`: two or three quoted parts. -/
def isQualifiedNativeStage (s : PyText) : Bool :=
  match (bracketedPart s).bind dottedPart with
  | none => false
  | some [] => true
  | some rest => dottedPart rest = some []

/-- `_is_sha256`. -/
def isSha256 (s : PyText) : Bool :=
  s.length = 64 && s.all fun c => (48 ≤ c.val && c.val ≤ 57) || (97 ≤ c.val && c.val ≤ 102)

def sqlclientV1Types : List PyText :=
  [pyText "bigint", pyText "float(53)", pyText "nvarchar(max)", pyText "datetime2(6)"]

def bcpStageProof : PyText := pyText "bcp-supervised-stage-barrier-v1"

def sqlclientSessionProof : PyText := pyText "sqlclient-session-applock-v1"

/-! ### Columns -/

structure NativeStageColumnMapping where
  ordinal : ℤ
  targetName : PyText
  targetType : PyText
  nullable : Bool
  deriving DecidableEq

section Contracts
variable (isSpace : CodePoint → Bool) (casefold : PyText → PyText)

/-- What the constructor of a column accepts. -/
structure NativeStageColumnMapping.Valid (c : NativeStageColumnMapping) : Prop where
  ordinal : 0 ≤ c.ordinal
  name : c.targetName ≠ [] ∧ c.targetName.all (fun x => !control x) = true
  visible : stripped isSpace c.targetName ≠ []
  length : c.targetName.length ≤ 128
  type : c.targetType ∈ sqlclientV1Types

instance (c : NativeStageColumnMapping) : Decidable (c.Valid isSpace) :=
  decidable_of_iff (0 ≤ c.ordinal ∧ (c.targetName ≠ [] ∧
    c.targetName.all (fun x => !control x) = true) ∧ stripped isSpace c.targetName ≠ [] ∧
    c.targetName.length ≤ 128 ∧ c.targetType ∈ sqlclientV1Types)
    ⟨fun ⟨h₁, h₂, h₃, h₄, h₅⟩ => ⟨h₁, h₂, h₃, h₄, h₅⟩,
      fun ⟨h₁, h₂, h₃, h₄, h₅⟩ => ⟨h₁, h₂, h₃, h₄, h₅⟩⟩

/-! ### Requests -/

structure NativeStageWriteRequest where
  attemptId : PyText
  qualifiedStage : PyText
  stageIdSha256 : PyText
  ownerBindingSha256 : PyText
  objectId : ℤ
  schemaSha256 : PyText
  filePath : PosixPath
  expectedRows : ℤ
  encodedBytes : ℤ
  maxRowBytes : ℤ
  fileSha256 : PyText
  grantTokenSha256 : PyText
  proofCapability : PyText
  wireLayoutSha256 : PyText
  columns : List NativeStageColumnMapping
  layoutVersion : ℤ
  deriving DecidableEq

namespace NativeStageWriteRequest

/-- The digests of a request. -/
def digests (r : NativeStageWriteRequest) : List PyText :=
  [r.stageIdSha256, r.ownerBindingSha256, r.schemaSha256, r.fileSha256, r.grantTokenSha256,
    r.wireLayoutSha256]

/-- What the constructors of a request and of its columns accept. -/
structure Valid (r : NativeStageWriteRequest) : Prop where
  attempt : r.attemptId ≠ []
  stage : isQualifiedNativeStage r.qualifiedStage = true
  digests : r.digests.all isSha256 = true
  object : 1 ≤ r.objectId
  counts : 0 ≤ r.expectedRows ∧ 0 ≤ r.encodedBytes ∧ 1 ≤ r.maxRowBytes
  bound : ¬ (0 < r.expectedRows ∧ r.encodedBytes < r.maxRowBytes)
  proof : r.proofCapability ∈ [bcpStageProof, sqlclientSessionProof]
  version : r.layoutVersion = 1 ∨ r.layoutVersion = 2
  versionProof : ¬ (r.layoutVersion = 2 ∧ r.proofCapability ≠ sqlclientSessionProof)
  nonempty : r.columns ≠ []
  columns : ∀ c ∈ r.columns, c.Valid isSpace
  ordinals : r.columns.map (·.ordinal) = (List.range r.columns.length).map Int.ofNat
  distinct : (r.columns.map fun c => casefold c.targetName).Nodup

instance (r : NativeStageWriteRequest) : Decidable (r.Valid isSpace casefold) :=
  decidable_of_iff (r.attemptId ≠ [] ∧ isQualifiedNativeStage r.qualifiedStage = true ∧
    r.digests.all isSha256 = true ∧ 1 ≤ r.objectId ∧
    (0 ≤ r.expectedRows ∧ 0 ≤ r.encodedBytes ∧ 1 ≤ r.maxRowBytes) ∧
    ¬ (0 < r.expectedRows ∧ r.encodedBytes < r.maxRowBytes) ∧
    r.proofCapability ∈ [bcpStageProof, sqlclientSessionProof] ∧
    (r.layoutVersion = 1 ∨ r.layoutVersion = 2) ∧
    ¬ (r.layoutVersion = 2 ∧ r.proofCapability ≠ sqlclientSessionProof) ∧ r.columns ≠ [] ∧
    (∀ c ∈ r.columns, c.Valid isSpace) ∧
    r.columns.map (·.ordinal) = (List.range r.columns.length).map Int.ofNat ∧
    (r.columns.map fun c => casefold c.targetName).Nodup)
    ⟨fun ⟨h₁, h₂, h₃, h₄, h₅, h₆, h₇, h₈, h₉, h₁₀, h₁₁, h₁₂, h₁₃⟩ =>
        ⟨h₁, h₂, h₃, h₄, h₅, h₆, h₇, h₈, h₉, h₁₀, h₁₁, h₁₂, h₁₃⟩,
      fun ⟨h₁, h₂, h₃, h₄, h₅, h₆, h₇, h₈, h₉, h₁₀, h₁₁, h₁₂, h₁₃⟩ =>
        ⟨h₁, h₂, h₃, h₄, h₅, h₆, h₇, h₈, h₉, h₁₀, h₁₁, h₁₂, h₁₃⟩⟩

end NativeStageWriteRequest
end Contracts
end Dpone.SqlClient

/-! Request frames for the SqlClient companion: `mssql_sqlclient_ipc.py`.

    A frame is the canonical JSON of a request, after its length in four bytes. The decoder takes
    the document apart again and builds the request to check it, but returns the document. -/

namespace Dpone.SqlClient
open Dpone.Schemes Dpone.Contracts JsonValue

def protocolV1 : PyText := pyText "dpone.mssql-sqlclient.ipc.v1"

def protocolV2 : PyText := pyText "dpone.mssql-sqlclient.ipc.v2"

def requestMaxBytes : ℕ := 1024 * 1024

def maxDeadlineMs : ℤ := 2147483647

/-- The text of the error that every bad frame raises. -/
def invalidRequestFrame : PyText := pyText "mssql_sqlclient.invalid_request_frame"

def requestFieldsV1 : List PyText :=
  [pyText "schema_version", pyText "protocol", pyText "attempt_id", pyText "qualified_stage",
    pyText "stage_id_sha256", pyText "owner_binding_sha256", pyText "object_id",
    pyText "schema_sha256", pyText "file_path", pyText "expected_rows", pyText "encoded_bytes",
    pyText "max_row_bytes", pyText "file_sha256", pyText "grant_token_sha256",
    pyText "proof_capability", pyText "wire_layout_sha256", pyText "deadline_budget_ms",
    pyText "columns"]

def requestFieldsV2 : List PyText := requestFieldsV1 ++ [pyText "layout_version"]

def columnFields : List PyText :=
  [pyText "ordinal", pyText "target_name", pyText "target_type", pyText "nullable"]

abbrev Fields := List (PyText × JsonValue)

/-! ### Framing -/

section Framing
variable (floatText : PyFloat → PyText)

/-- `_frame`. -/
def frame (document : Fields) (limit : ℕ) (diagnostic : PyText) : Except PyText Bytes :=
  match canonicalJsonBytes floatText (.obj document) with
  | none => .error diagnostic
  | some payload =>
    if payload = [] ∨ limit < payload.length then .error diagnostic
    else .ok (toBE 4 payload.length ++ payload)

/-- `_unframe`. -/
def unframe (bytes : Bytes) (limit : ℕ) (diagnostic : PyText) : Except PyText Fields :=
  if bytes.length < 4 then .error diagnostic
  else
    let size := ofBE (bytes.take 4)
    let payload := bytes.drop 4
    if size < 1 ∨ limit < size ∨ payload.length ≠ size then .error diagnostic
    else
      match strictJsonObject payload with
      | none => .error diagnostic
      | some document =>
        if canonicalJsonBytes floatText (.obj document) = some payload then .ok document
        else .error diagnostic

end Framing

/-! ### Encoding -/

/-- `asdict(column)`. -/
def columnDocument (c : NativeStageColumnMapping) : Fields :=
  [(pyText "ordinal", .int c.ordinal), (pyText "target_name", .str c.targetName),
    (pyText "target_type", .str c.targetType), (pyText "nullable", .bool c.nullable)]

/-- The fields that both versions have, for a text of the path. -/
def commonDocument (r : NativeStageWriteRequest) (path : PyText) (deadline : ℤ) : Fields :=
  [(pyText "schema_version", .int r.layoutVersion),
    (pyText "protocol", .str (if r.layoutVersion = 1 then protocolV1 else protocolV2)),
    (pyText "attempt_id", .str r.attemptId),
    (pyText "qualified_stage", .str r.qualifiedStage),
    (pyText "stage_id_sha256", .str r.stageIdSha256),
    (pyText "owner_binding_sha256", .str r.ownerBindingSha256),
    (pyText "object_id", .int r.objectId),
    (pyText "schema_sha256", .str r.schemaSha256),
    (pyText "file_path", .str path),
    (pyText "expected_rows", .int r.expectedRows),
    (pyText "encoded_bytes", .int r.encodedBytes),
    (pyText "max_row_bytes", .int r.maxRowBytes),
    (pyText "file_sha256", .str r.fileSha256),
    (pyText "grant_token_sha256", .str r.grantTokenSha256),
    (pyText "proof_capability", .str r.proofCapability),
    (pyText "wire_layout_sha256", .str r.wireLayoutSha256),
    (pyText "deadline_budget_ms", .int deadline),
    (pyText "columns", .arr (r.columns.map fun c => .obj (columnDocument c)))]

/-- The document of a request, for a text of its path. -/
def documentAt (r : NativeStageWriteRequest) (path : PyText) (deadline : ℤ) : Fields :=
  commonDocument r path deadline ++
    if r.layoutVersion = 2 then [(pyText "layout_version", .int 2)] else []

variable (floatText : PyFloat → PyText)

/-- `encode_request_frame`. -/
def encodeRequestFrame (r : NativeStageWriteRequest) (deadline : ℤ) : Except PyText Bytes :=
  if r.proofCapability ≠ sqlclientSessionProof ∨ ¬ (1 ≤ deadline ∧ deadline ≤ maxDeadlineMs) then
    .error invalidRequestFrame
  else
    frame floatText (documentAt r (textOf r.filePath.text) deadline) requestMaxBytes
      invalidRequestFrame

/-! ### Decoding -/

/-- `set(document) == names`. -/
def keysAre (document : Fields) (names : List PyText) : Bool :=
  (document.map Prod.fst).all (· ∈ names) && names.all (· ∈ document.map Prod.fst)

/-- `value == n`, for a value of a document. -/
def equalsInt (n : ℤ) : JsonValue → Bool
  | .int m => m = n
  | .float f => floatValue f = some (n : ℚ)
  | .bool b => (if b then 1 else 0) = n
  | _ => false

def intAt (document : Fields) (key : PyText) : Option ℤ :=
  match document.lookup key with
  | some (.int n) => some n
  | _ => none

def textAt (document : Fields) (key : PyText) : Option PyText :=
  match document.lookup key with
  | some (.str s) => some s
  | _ => none

def boolAt (document : Fields) (key : PyText) : Option Bool :=
  match document.lookup key with
  | some (.bool b) => some b
  | _ => none

def arrayAt (document : Fields) (key : PyText) : Option (List JsonValue) :=
  match document.lookup key with
  | some (.arr items) => some items
  | _ => none

/-- `Path(document[key])`, which takes texts only; one with a lone surrogate is in no frame. -/
def pathAt (document : Fields) (key : PyText) : Option PosixPath :=
  ((textAt document key).bind charsOf).map PosixPath.ofText

section Decoding
variable (isSpace : CodePoint → Bool) (casefold : PyText → PyText)

/-- `NativeStageColumnMapping(**column)`, after the check of its fields. -/
def columnOf : JsonValue → Option NativeStageColumnMapping
  | .obj fields =>
    if keysAre fields columnFields then
      (intAt fields (pyText "ordinal")).bind fun ordinal =>
      (textAt fields (pyText "target_name")).bind fun targetName =>
      (textAt fields (pyText "target_type")).bind fun targetType =>
      (boolAt fields (pyText "nullable")).bind fun nullable =>
        let c : NativeStageColumnMapping := ⟨ordinal, targetName, targetType, nullable⟩
        if c.Valid isSpace then some c else none
    else none
  | _ => none

/-- `document.get("layout_version", 1)`, an integer. -/
def layoutVersionOf (document : Fields) : Option ℤ :=
  match document.lookup (pyText "layout_version") with
  | none => some 1
  | some (.int n) => some n
  | some _ => none

/-- The request that a document denotes: `NativeStageWriteRequest(...)`. -/
def requestOf (document : Fields) (columns : List NativeStageColumnMapping) :
    Option NativeStageWriteRequest := do
  let attemptId ← textAt document (pyText "attempt_id")
  let qualifiedStage ← textAt document (pyText "qualified_stage")
  let stageIdSha256 ← textAt document (pyText "stage_id_sha256")
  let ownerBindingSha256 ← textAt document (pyText "owner_binding_sha256")
  let objectId ← intAt document (pyText "object_id")
  let schemaSha256 ← textAt document (pyText "schema_sha256")
  let filePath ← pathAt document (pyText "file_path")
  let expectedRows ← intAt document (pyText "expected_rows")
  let encodedBytes ← intAt document (pyText "encoded_bytes")
  let maxRowBytes ← intAt document (pyText "max_row_bytes")
  let fileSha256 ← textAt document (pyText "file_sha256")
  let grantTokenSha256 ← textAt document (pyText "grant_token_sha256")
  let proofCapability ← textAt document (pyText "proof_capability")
  let wireLayoutSha256 ← textAt document (pyText "wire_layout_sha256")
  let layoutVersion ← layoutVersionOf document
  let r : NativeStageWriteRequest :=
    { attemptId, qualifiedStage, stageIdSha256, ownerBindingSha256, objectId, schemaSha256,
      filePath, expectedRows, encodedBytes, maxRowBytes, fileSha256, grantTokenSha256,
      proofCapability, wireLayoutSha256, columns, layoutVersion }
  if r.Valid isSpace casefold then some r else none

/-- The checks of `decode_request_frame` on a document, before the request is built. -/
def documentChecks (document : Fields) (schemaVersion deadline : ℤ) (columns : List JsonValue) :
    Bool :=
  keysAre document (if (document.lookup (pyText "schema_version")).any (equalsInt 1) then
    requestFieldsV1 else requestFieldsV2) &&
  (schemaVersion = 1 || schemaVersion = 2) &&
  textAt document (pyText "protocol") =
    some (if schemaVersion = 1 then protocolV1 else protocolV2) &&
  (schemaVersion ≠ 2 || (document.lookup (pyText "layout_version")).any (equalsInt 2)) &&
  textAt document (pyText "proof_capability") = some sqlclientSessionProof &&
  (1 ≤ deadline && deadline ≤ maxDeadlineMs) &&
  !columns.isEmpty

/-- The request and the budget that an accepted document denotes. -/
def denoted (document : Fields) : Option (NativeStageWriteRequest × ℤ) := do
  let items ← arrayAt document (pyText "columns")
  let schemaVersion ← intAt document (pyText "schema_version")
  let deadline ← intAt document (pyText "deadline_budget_ms")
  if documentChecks document schemaVersion deadline items then
    let columns ← items.mapM (columnOf isSpace)
    let r ← requestOf isSpace casefold document columns
    return (r, deadline)
  else none

/-- `decode_request_frame`. -/
def decodeRequestFrame (bytes : Bytes) : Except PyText Fields :=
  (unframe floatText bytes requestMaxBytes invalidRequestFrame).bind fun document =>
    if (denoted isSpace casefold document).isSome then .ok document
    else .error invalidRequestFrame

end Decoding

/-- The path of a document is written as `str(Path(text))` writes it. -/
def PathIsNormal (document : Fields) : Prop :=
  (pathAt document (pyText "file_path")).map (fun p => textOf p.text) =
    textAt document (pyText "file_path")

end Dpone.SqlClient
