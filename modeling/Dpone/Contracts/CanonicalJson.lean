import Dpone.Schemes.JsonSorted

/-! Strict JSON: `strict_json.py`. Documents without duplicate keys and without floats that are not
    finite, and the canonical bytes of a document. -/

namespace Dpone.Contracts
open Dpone.Schemes JsonValue

mutual

/-- No float of the document is infinite or NaN. -/
def allFinite : JsonValue → Bool
  | .float f => double.finite f.val
  | .arr items => allFiniteItems items
  | .obj fields => allFiniteFields fields
  | _ => true

def allFiniteItems : List JsonValue → Bool
  | [] => true
  | item :: items => allFinite item && allFiniteItems items

def allFiniteFields : List (PyText × JsonValue) → Bool
  | [] => true
  | (_, value) :: fields => allFinite value && allFiniteFields fields

end

/-- `canonical_json_bytes`. -/
def canonicalJsonBytes (floatText : PyFloat → PyText) (v : JsonValue) : Option Bytes :=
  if allFinite v then utf8 (v.canonicalText floatText) else none

/-- `strict_json_object`, of bytes: the fields of the object. -/
def strictJsonObject (payload : Bytes) : Option (List (PyText × JsonValue)) :=
  match (decodeUtf8 payload).bind fun text => loads Hooks.strict (textOf text) with
  | some (.obj fields) => some fields
  | _ => none

/-! ### Fingerprints

    Fingerprints of JSON-like payloads: `canonical_fingerprint` of the Airflow deployment contract,
    without excluded fields.

    Payloads hold no tuples other than those of texts, which are taken as lists are. -/

/-- The logical `id` of an item of an artifact list. -/
def logicalId : JsonValue → Option PyText
  | .obj fields =>
    match fields.lookup (pyText "id") with
    | some (.str s) => some s
    | _ => none
  | _ => none

/-- A list of artifacts is ordered by their ids, any other list stays. -/
def orderArtifacts (items : List JsonValue) : List JsonValue :=
  if items.all fun item => (logicalId item).isSome then
    sortedBy (fun item => (logicalId item).getD []) items
  else items

mutual

/-- `_normalize`. -/
def normalize : JsonValue → JsonValue
  | .obj fields => .obj (normalizeFields fields)
  | .arr items => .arr (orderArtifacts (normalizeItems items))
  | .str s => .str (s.map fun c => if c = cp '\\' then cp '/' else c)
  | v => v

def normalizeItems : List JsonValue → List JsonValue
  | [] => []
  | item :: items => normalize item :: normalizeItems items

def normalizeFields : List (PyText × JsonValue) → List (PyText × JsonValue)
  | [] => []
  | (key, value) :: fields => (key, normalize value) :: normalizeFields fields

end

variable (sha256 : Bytes → PyText) (floatText : PyFloat → PyText)

/-- The prefixed digest of a canonical text, unless that text cannot be encoded. -/
def sha256Digest (payload : JsonValue) : Option PyText :=
  (utf8 (payload.canonicalText floatText)).map fun raw => pyText "sha256:" ++ sha256 raw

/-- `canonical_fingerprint`. -/
def canonicalFingerprint (payload : JsonValue) : Option PyText :=
  sha256Digest sha256 floatText (normalize payload)

end Dpone.Contracts
