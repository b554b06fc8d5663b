import Dpone.Schemes.Json
import Dpone.Schemes.JsonAscii
import Dpone.Schemes.Timestamp
import Dpone.BoundedWindow.RollingWindow

/-! Window plans: a frozen source version and an exact range, with its identity, and the records
    that they are stored as.

    The digest of an identity is a parameter. What the constructor is given may come from a stored
    record, so the arguments that it checks the type of are JSON values here. -/

namespace Dpone.BoundedWindow
open Dpone.Schemes

/-- `WindowContractError`, or what Python raised. -/
inductive PlanError where
  | contract (text : String)
  | python (e : PyError)
  deriving DecidableEq, Repr

/-- A function that raises Python's own exceptions. -/
def raising {α : Type} : Except PyError α → Except PlanError α
  | .ok a => .ok a
  | .error e => .error (.python e)

/-- `_timestamp`. -/
def timestampText (t : DateTime) : Except PlanError Str := do
  if t.offset = none then throw (.contract "Window timestamps must be timezone aware")
  return (← raising t.toUtc).timestamp

/-- One contiguous half-open extraction range. -/
structure PlanChunk where
  chunkId : Str
  start : DateTime
  stop : DateTime

/-- What a plan has been checked for. -/
structure WindowPlan.Valid (u : Unicode) (identities : List Str) (start stop : DateTime)
    (boundaries : List DateTime) (workers : ℕ) (windowColumn : Str) : Prop where
  identities : ∀ s ∈ identities, strip u s ≠ []
  column : isIdentifier windowColumn = true
  utc : ∀ t ∈ start :: stop :: boundaries, t.offset = some 0
  nonempty : start.instant < stop.instant
  count : 2 ≤ boundaries.length
  first : boundaries.head?.map DateTime.instant = some start.instant
  last : boundaries.getLast?.map DateTime.instant = some stop.instant
  increasing : anyOutOfOrder boundaries = false
  workers : 1 ≤ workers ∧ workers ≤ 64

instance (u : Unicode) (identities : List Str) (start stop : DateTime) (boundaries : List DateTime)
    (workers : ℕ) (windowColumn : Str) :
    Decidable (WindowPlan.Valid u identities start stop boundaries workers windowColumn) :=
  decidable_of_iff ((∀ s ∈ identities, strip u s ≠ []) ∧ isIdentifier windowColumn = true ∧
      (∀ t ∈ start :: stop :: boundaries, t.offset = some 0) ∧ start.instant < stop.instant ∧
      2 ≤ boundaries.length ∧ boundaries.head?.map DateTime.instant = some start.instant ∧
      boundaries.getLast?.map DateTime.instant = some stop.instant ∧
      anyOutOfOrder boundaries = false ∧ 1 ≤ workers ∧ workers ≤ 64)
    ⟨fun ⟨a, b, c, d, e, f, g, h, i⟩ => ⟨a, b, c, d, e, f, g, h, i⟩,
      fun ⟨a, b, c, d, e, f, g, h, i⟩ => ⟨a, b, c, d, e, f, g, h, i⟩⟩

/-- A plan; its boundaries include both endpoints. -/
structure WindowPlan (u : Unicode) where
  routeId : Str
  targetId : Str
  start : DateTime
  stop : DateTime
  boundaries : List DateTime
  schemaFingerprint : Str
  sourceVersion : Str
  parametersFingerprint : Str
  workers : ℕ
  windowColumn : Str
  valid : WindowPlan.Valid u
    [routeId, targetId, schemaFingerprint, sourceVersion, parametersFingerprint] start stop
    boundaries workers windowColumn

/-- The arguments of the constructor. -/
structure PlanArguments where
  routeId : Json
  targetId : Json
  start : DateTime
  stop : DateTime
  boundaries : List DateTime
  schemaFingerprint : Json
  sourceVersion : Json
  parametersFingerprint : Json
  workers : Json
  windowColumn : Json

section Plans
variable (u : Unicode) (iso : TimestampReader)

/-- A fingerprint: a text that is not blank. -/
def fingerprintText : Json → Except PlanError Str
  | .str s =>
    if strip u s = [] then .error (.contract "Identity fingerprints must be nonempty") else .ok s
  | _ => .error (.contract "Identity fingerprints must be nonempty")

def columnText : Json → Except PlanError Str
  | .str s =>
    if isIdentifier s then .ok s
    else .error (.contract "Window column must be one unqualified identifier")
  | _ => .error (.contract "Window column must be one unqualified identifier")

/-- `datetime.fromisoformat(_timestamp(value))`. -/
def normalize (t : DateTime) : Except PlanError DateTime := do
  raising (iso.datetime (← timestampText t))

/-- A boolean is an integer, but no number of workers. -/
def workerCount : Json → Except PlanError ℕ
  | .int n =>
    if 1 ≤ n ∧ n ≤ 64 then .ok n.toNat
    else .error (.contract "workers must be an integer between 1 and 64")
  | _ => .error (.contract "workers must be an integer between 1 and 64")

/-- The check of the boundaries. -/
def tilesWindow (start stop : DateTime) (boundaries : List DateTime) : Prop :=
  start.instant < stop.instant ∧ 2 ≤ boundaries.length ∧
    boundaries.head?.map DateTime.instant = some start.instant ∧
    boundaries.getLast?.map DateTime.instant = some stop.instant ∧ anyOutOfOrder boundaries = false

instance (start stop : DateTime) (boundaries : List DateTime) :
    Decidable (tilesWindow start stop boundaries) := inferInstanceAs (Decidable (_ ∧ _))

/-- The constructor. What it has checked holds at its end: the last branch is never taken. -/
def WindowPlan.make (a : PlanArguments) : Except PlanError (WindowPlan u) := do
  let routeId ← fingerprintText u a.routeId
  let targetId ← fingerprintText u a.targetId
  let schemaFingerprint ← fingerprintText u a.schemaFingerprint
  let sourceVersion ← fingerprintText u a.sourceVersion
  let parametersFingerprint ← fingerprintText u a.parametersFingerprint
  let windowColumn ← columnText a.windowColumn
  let _ ← (a.start :: a.stop :: a.boundaries).mapM timestampText
  let start ← normalize iso a.start
  let stop ← normalize iso a.stop
  let boundaries ← a.boundaries.mapM (normalize iso)
  if ¬ tilesWindow start stop boundaries then
    throw (.contract "Chunks must cover the nonempty window without gaps or overlap")
  let workers ← workerCount a.workers
  if h : WindowPlan.Valid u
      [routeId, targetId, schemaFingerprint, sourceVersion, parametersFingerprint] start stop
      boundaries workers windowColumn then
    return ⟨routeId, targetId, start, stop, boundaries, schemaFingerprint, sourceVersion,
      parametersFingerprint, workers, windowColumn, h⟩
  else throw (.contract "Chunks must cover the nonempty window without gaps or overlap")

end Plans

section PlanLaws
variable {u : Unicode} {iso : TimestampReader}

theorem timestampText_of_utc {t : DateTime} (h : t.offset = some 0) :
    timestampText t = .ok t.timestamp := by
  rw [timestampText, if_neg (by simp [h]), DateTime.toUtc_of_utc h]
  rfl

theorem normalize_of_utc {t : DateTime} (h : t.offset = some 0) : normalize iso t = .ok t := by
  rw [normalize, timestampText_of_utc h, ok_bind, iso.datetime_timestamp t h]
  rfl

theorem mapM_normalize_of_utc {ts : List DateTime} (h : ∀ t ∈ ts, t.offset = some 0) :
    ts.mapM (normalize iso) = .ok ts := by
  have hsame : ∀ t ∈ ts, normalize iso t = .ok (id t) := fun t ht => normalize_of_utc (h t ht)
  rw [mapM_map hsame, List.map_id]

/-- TOTAL: the constructor accepts what holds of a plan. -/
theorem WindowPlan.make_of_valid {routeId targetId schemaFingerprint sourceVersion
      parametersFingerprint windowColumn : Str} {start stop : DateTime} {boundaries : List DateTime}
    {workers : ℕ} (h : WindowPlan.Valid u
      [routeId, targetId, schemaFingerprint, sourceVersion, parametersFingerprint] start stop
      boundaries workers windowColumn) :
    WindowPlan.make u iso ⟨.str routeId, .str targetId, start, stop, boundaries,
      .str schemaFingerprint, .str sourceVersion, .str parametersFingerprint, .int workers,
      .str windowColumn⟩ = .ok ⟨routeId, targetId, start, stop, boundaries, schemaFingerprint,
        sourceVersion, parametersFingerprint, workers, windowColumn, h⟩ := by
  have hfingerprint : ∀ s ∈ [routeId, targetId, schemaFingerprint, sourceVersion,
      parametersFingerprint], fingerprintText u (.str s) = .ok s :=
    fun s hs => if_neg (h.identities s hs)
  simp only [List.forall_mem_cons] at hfingerprint
  obtain ⟨hroute, htarget, hschema, hversion, hparameters, -⟩ := hfingerprint
  have hcolumn : columnText (.str windowColumn) = .ok windowColumn := if_pos h.column
  have htimestamps : (start :: stop :: boundaries).mapM timestampText =
      .ok ((start :: stop :: boundaries).map DateTime.timestamp) :=
    mapM_map fun t ht => timestampText_of_utc (h.utc t ht)
  have hutc := h.utc
  simp only [List.forall_mem_cons] at hutc
  obtain ⟨hstart, hstop, hboundaries⟩ := hutc
  have htiles : tilesWindow start stop boundaries :=
    ⟨h.nonempty, h.count, h.first, h.last, h.increasing⟩
  have hworkers : workerCount (.int workers) = .ok workers := by
    have hrange := h.workers
    rw [workerCount, if_pos (by omega), Int.toNat_natCast]
  simp only [WindowPlan.make, hroute, htarget, hschema, hversion, hparameters, hcolumn,
    htimestamps, normalize_of_utc hstart, normalize_of_utc hstop, mapM_normalize_of_utc hboundaries,
    hworkers, ok_bind, htiles, not_true_eq_false, if_false, dif_pos h]
  rfl

end PlanLaws

/-! ### Identity -/

section Identity
variable {u : Unicode} (digest : Str → Str)

/-- One member of an identity. -/
inductive IdentityValue where
  | text (s : Str)
  | texts (ss : List Str)

def IdentityValue.dumps : IdentityValue → Str
  | .text s => JsonAscii.quoted s
  | .texts ss => JsonAscii.dumpArray (ss.map JsonAscii.quoted)

/-- What a plan is identified by, after the version. -/
def WindowPlan.identityValues (p : WindowPlan u) : List IdentityValue :=
  [.text p.routeId, .text p.targetId, .text p.windowColumn, .text p.start.timestamp,
    .text p.stop.timestamp, .texts (p.boundaries.map DateTime.timestamp),
    .text p.schemaFingerprint, .text p.sourceVersion, .text p.parametersFingerprint]

/-- What `json.dumps` writes of version one and the values. -/
def WindowPlan.identity (p : WindowPlan u) : Str :=
  JsonAscii.dumpArray (['1'] :: p.identityValues.map IdentityValue.dumps)

/-- `run_id`. -/
def WindowPlan.runId (p : WindowPlan u) : Str := digest p.identity

/-- `chunks`. -/
def WindowPlan.chunks (p : WindowPlan u) : List PlanChunk :=
  (p.boundaries.zip p.boundaries.tail).map fun pair =>
    ⟨digest (JsonAscii.dumpArray ([p.runId digest, pair.1.timestamp, pair.2.timestamp].map
      JsonAscii.quoted)), pair.1, pair.2⟩

/-! ### Records -/

def planFields : List Str :=
  ["route_id", "target_id", "start", "end", "boundaries", "schema_fingerprint", "source_version",
    "parameters_fingerprint", "workers", "window_column", "run_id"].map String.toList

/-- What a plan writes under one of its fields. -/
inductive Encoded where
  | text (s : Str)
  | number (n : ℕ)
  | texts (ss : List Str)

def Encoded.json : Encoded → Json
  | .text s => .str s
  | .number n => .int n
  | .texts ss => .arr (ss.map Json.str)

/-- `encode_window_plan`. -/
def encodeWindowPlan (p : WindowPlan u) : List (Str × Encoded) :=
  [("route_id".toList, .text p.routeId),
    ("target_id".toList, .text p.targetId),
    ("start".toList, .text p.start.timestamp),
    ("end".toList, .text p.stop.timestamp),
    ("boundaries".toList, .texts (p.boundaries.map DateTime.timestamp)),
    ("schema_fingerprint".toList, .text p.schemaFingerprint),
    ("source_version".toList, .text p.sourceVersion),
    ("parameters_fingerprint".toList, .text p.parametersFingerprint),
    ("workers".toList, .number p.workers),
    ("window_column".toList, .text p.windowColumn),
    ("run_id".toList, .text (p.runId digest))]

/-- A record as JSON. -/
def document (record : List (Str × Encoded)) : List (Str × Json) :=
  record.map fun field => (field.1, field.2.json)

/-- `==` of what a plan writes and a JSON value: `True` equals one, and an array equals a list
    member by member. -/
def Encoded.equals : Encoded → Json → Bool
  | .text s, .str t => s = t
  | .number n, .int m => (n : ℤ) = m
  | .number n, .bool b => n = b.toNat
  | .texts ss, .arr items =>
    ss.length = items.length && (ss.zip items).all fun pair =>
      match pair.2 with
      | .str t => pair.1 = t
      | _ => false
  | _, _ => false

/-- `encode_window_plan(plan) == value`, of a value with the fields of a plan. -/
def sameRecord (record : List (Str × Encoded)) (fields : List (Str × Json)) : Bool :=
  record.all fun field => field.2.equals (Json.get field.1 fields)

variable (iso : TimestampReader)

/-- `datetime.fromisoformat` of a stored value. -/
def fromIso : Json → Except PlanError DateTime
  | .str s => raising (iso.datetime s)
  | _ => .error (.python .typeError)

/-- `except (TypeError, ValueError)`. -/
def asRegistryError {α : Type} : Except PlanError α → Except PlanError α
  | .error (.python (.valueError _)) => .error (.contract "rolling_window_registry_plan_invalid")
  | .error (.python .typeError) => .error (.contract "rolling_window_registry_plan_invalid")
  | answer => answer

/-- The plan that a record spells. -/
def readPlan (u : Unicode) (fields : List (Str × Json)) (items : List Json) :
    Except PlanError (WindowPlan u) := do
  let start ← fromIso iso (Json.get "start".toList fields)
  let stop ← fromIso iso (Json.get "end".toList fields)
  let boundaries ← items.mapM (fromIso iso)
  WindowPlan.make u iso {
    routeId := Json.get "route_id".toList fields
    targetId := Json.get "target_id".toList fields
    start, stop, boundaries
    schemaFingerprint := Json.get "schema_fingerprint".toList fields
    sourceVersion := Json.get "source_version".toList fields
    parametersFingerprint := Json.get "parameters_fingerprint".toList fields
    workers := Json.get "workers".toList fields
    windowColumn := Json.get "window_column".toList fields }

/-- `decode_window_plan`. -/
def decodeWindowPlan (u : Unicode) : Json → Except PlanError (WindowPlan u)
  | .obj fields =>
    if ¬ Json.hasExactly planFields fields then
      .error (.contract "rolling_window_registry_plan_invalid")
    else
      match Json.get "boundaries".toList fields with
      | .arr items => do
        let plan ← asRegistryError (readPlan iso u fields items)
        if ¬ sameRecord (encodeWindowPlan digest plan) fields then
          throw (.contract "rolling_window_registry_identity_invalid")
        return plan
      | _ => .error (.contract "rolling_window_registry_boundaries_invalid")
  | _ => .error (.contract "rolling_window_registry_plan_invalid")

end Identity

end Dpone.BoundedWindow
