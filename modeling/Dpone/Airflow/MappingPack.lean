import Dpone.Airflow.MappingPlan
import Dpone.Schemes.Dict

/-! The provider's side of a mapping plan, `dpone_airflow_pack/mapping.py`, and the runtime's
    reading of one item: the plan that a pack carries is validated from scratch, each item becomes
    the text of an environment variable, and `parse_airflow_mapping_item_json` reads that text
    back. -/

namespace Dpone.Airflow
open Dpone.Schemes Dpone.Contracts Dpone.Backfill

/-! ### The provider's plan -/

structure ProviderMappingPlan where
  mode : MappingMode
  planFingerprint : Str
  backfillPlanHash : Option Str
  chunksTotal : ℕ
  maxItems : ℕ
  maxActive : ℕ
  pool : Str
  items : List AirflowMappingItemRange

/-- `_invalid`. -/
def invalid (message : String) : PyError :=
  .valueError ("DPONE_AIRFLOW_MAPPING_PLAN_MISMATCH: " ++ message)

def planFields : List Str :=
  ["schema".toList, "mode".toList, "plan_fingerprint".toList, "backfill_plan_hash".toList,
    "chunks_total".toList, "items_total".toList, "limits".toList, "items".toList]

def limitFields : List Str := ["max_items".toList, "max_active".toList, "pool".toList]

def itemFields : List Str :=
  ["item_index".toList, "first_chunk_index".toList, "last_chunk_index".toList,
    "chunks_count".toList]

/-- `str(value or "")` of a document; what is neither text nor empty is no name of anything. -/
def textOr : Json → Str
  | .str s => s
  | .int n => if n = 0 then [] else intText n
  | .bool true => "True".toList
  | .bool false | .null | .arr [] | .obj [] => []
  | .float | .arr _ | .obj _ => "?".toList

def nonNegativeInt (value : Json) (field : String) : Except PyError ℕ :=
  match value with
  | .int (.ofNat n) => .ok n
  | _ => .error (invalid s!"mapping plan {field} must be a non-negative integer")

def positiveInt (value : Json) (field : String) : Except PyError ℕ := do
  let parsed ← nonNegativeInt value field
  raiseIf (parsed < 1) (invalid s!"mapping plan {field} must be positive")
  return parsed

def providerBoundedInt (value : Json) (field : String) (maximum : ℕ) : Except PyError ℕ := do
  let parsed ← positiveInt value field
  raiseIf (maximum < parsed) (invalid s!"mapping plan {field} exceeds {maximum}")
  return parsed

/-- `text.removeprefix("sha256:")`. -/
def removeDigestPrefix (text : Str) : Str :=
  if "sha256:".toList.isPrefixOf text then text.drop 7 else text

/-- `_digest`. -/
def digestField (value : Json) (field : String) : Except PyError Str := do
  let digest := removeDigestPrefix (textOr value)
  raiseIf (digest.length ≠ 64 ∨ ¬ digest.all fun c => "0123456789abcdef".toList.contains c)
    (invalid s!"mapping plan {field} is not a canonical SHA-256 digest")
  return "sha256:".toList ++ digest

/-- `_mapping_item`. -/
def mappingItem : Json → Except PyError AirflowMappingItemRange
  | .obj fields => do
    raiseIf (¬ Json.hasExactly itemFields fields) (invalid "mapping plan item fields are invalid")
    let itemIndex ← nonNegativeInt (Json.get "item_index".toList fields) "item_index"
    let first ← positiveInt (Json.get "first_chunk_index".toList fields) "first_chunk_index"
    let last ← positiveInt (Json.get "last_chunk_index".toList fields) "last_chunk_index"
    let chunksCount ← positiveInt (Json.get "chunks_count".toList fields) "chunks_count"
    raiseIf (last < first) (invalid "mapping plan item range is inverted")
    raiseIf (chunksCount ≠ last - first + 1)
      (invalid "mapping plan item count does not match its range")
    return ⟨itemIndex, first, last, chunksCount⟩
  | _ => .error (invalid "mapping plan item fields are invalid")

/-- The loop of `_validate_coverage`: what is expected after the items. -/
def coverageLoop (mode : MappingMode) : ℕ → ℕ → List AirflowMappingItemRange → Except PyError ℕ
  | _, expected, [] => .ok expected
  | itemIndex, expected, item :: items => do
    raiseIf (item.itemIndex ≠ itemIndex ∨ item.firstChunkIndex ≠ expected)
      (invalid "mapping plan items are not ordered and contiguous")
    raiseIf (mode = .visible ∧ item.chunksCount ≠ 1)
      (invalid "visible mapping plan must contain one chunk per item")
    coverageLoop mode (itemIndex + 1) (item.lastChunkIndex + 1) items

/-- `_validate_coverage`. -/
def validateCoverage (mode : MappingMode) (chunksTotal : ℕ)
    (items : List AirflowMappingItemRange) : Except PyError Unit :=
  if mode = .internal then
    raiseIf (chunksTotal ≠ 0 ∨ items ≠ [])
      (invalid "internal mapping plan must not contain chunks or items")
  else do
    let expected ← coverageLoop mode 0 1 items
    raiseIf (items = [] ∨ expected - 1 ≠ chunksTotal)
      (invalid "mapping plan items do not cover every chunk exactly once")

structure ProviderLimits where
  maxItems : ℕ
  maxActive : ℕ
  pool : Str

section Pack
variable (t : Tools)

/-- The `limits` of a plan. -/
def providerLimits (mode : MappingMode) : Json → Except PyError ProviderLimits
  | .obj fields => do
    raiseIf (¬ Json.hasExactly limitFields fields) (invalid "mapping plan limits are invalid")
    let maxItems ← providerBoundedInt (Json.get "max_items".toList fields) "max_items" 200
    let maxActive ← providerBoundedInt (Json.get "max_active".toList fields) "max_active" 64
    raiseIf (maxItems < maxActive) (invalid "mapping plan max_active exceeds max_items")
    let pool := strip t.unicode (textOr (Json.get "pool".toList fields))
    raiseIf (mode.isMapped ∧ ¬ poolPattern pool)
      (invalid "mapped plan requires a valid Airflow pool")
    return ⟨maxItems, maxActive, pool⟩
  | _ => .error (invalid "mapping plan limits are invalid")

/-- The `items` of a plan. -/
def providerItems (maxItems itemsTotal : ℕ) : Json → Except PyError (List AirflowMappingItemRange)
  | .arr items => do
    raiseIf (items.length ≠ itemsTotal ∨ maxItems < itemsTotal)
      (invalid "mapping plan item count is invalid")
    items.mapM mappingItem
  | _ => .error (invalid "mapping plan item count is invalid")

/-- The `backfill_plan_hash` of a plan: a mapped mode has one and the internal mode has none. -/
def providerPlanHash (mode : MappingMode) (value : Json) : Except PyError (Option Str) :=
  if mode.isMapped then some <$> digestField value "backfill_plan_hash"
  else match value with
    | .null => .ok none
    | _ => .error (invalid "internal mapping plan cannot carry a backfill plan hash")

def schemaIs (name : Str) (fields : List (Str × Json)) : Bool :=
  match Json.get "schema".toList fields with
  | .str s => s = name
  | _ => false

/-- The plan of a pack that has one. -/
def readMappingPlan (fields : List (Str × Json)) : Except PyError ProviderMappingPlan := do
  raiseIf (¬ Json.hasExactly planFields fields)
    (invalid "mapping plan fields do not match dpone.airflow-mapping-plan.v1")
  raiseIf (¬ schemaIs "dpone.airflow-mapping-plan.v1".toList fields)
    (invalid "mapping plan schema is invalid")
  match MappingMode.ofName (textOr (Json.get "mode".toList fields)) with
  | none => .error (invalid "mapping plan mode is invalid")
  | some mode =>
    let fingerprint ← digestField (Json.get "plan_fingerprint".toList fields) "plan_fingerprint"
    let payload := fields.filter fun field => field.1 ≠ "plan_fingerprint".toList
    raiseIf (fingerprint ≠ "sha256:".toList ++ t.digest (.obj payload))
      (invalid "mapping plan fingerprint does not match its canonical payload")
    let limits ← providerLimits t mode (Json.get "limits".toList fields)
    let chunksTotal ← nonNegativeInt (Json.get "chunks_total".toList fields) "chunks_total"
    let itemsTotal ← nonNegativeInt (Json.get "items_total".toList fields) "items_total"
    let items ← providerItems limits.maxItems itemsTotal (Json.get "items".toList fields)
    validateCoverage mode chunksTotal items
    let hash ← providerPlanHash mode (Json.get "backfill_plan_hash".toList fields)
    return ⟨mode, fingerprint, hash, chunksTotal, limits.maxItems, limits.maxActive, limits.pool,
      items⟩

/-- `mapping_plan_from_pack`, of the pack's `mapping_plan`. -/
def mappingPlanFromPack : Json → Except PyError ProviderMappingPlan
  | .null | .obj [] => .ok ⟨.internal, [], none, 0, 200, 16, "dpone_backfill".toList, []⟩
  | .obj fields => readMappingPlan t fields
  | _ => .error (invalid "mapping plan fields do not match dpone.airflow-mapping-plan.v1")

end Pack

/-! ### One item as text -/

def mappingItemEnv : Str := "DPONE_AIRFLOW_MAPPING_ITEM".toList

/-- The payload of an item, its keys sorted. -/
def itemPayload (mode : MappingMode) (planFingerprint backfillPlanHash : Str)
    (item : AirflowMappingItemRange) : List (Str × JsonText.Scalar) :=
  [("backfill_plan_hash".toList, .str backfillPlanHash),
    ("chunks_count".toList, .int item.chunksCount),
    ("first_chunk_index".toList, .int item.firstChunkIndex),
    ("item_index".toList, .int item.itemIndex),
    ("last_chunk_index".toList, .int item.lastChunkIndex),
    ("mapping_plan_fingerprint".toList, .str planFingerprint),
    ("mode".toList, .str mode.name),
    ("schema".toList, .str "dpone.airflow-mapping-item.v1".toList)]

/-- `MAX_MAPPING_ITEM_BYTES`. -/
def maxMappingItemBytes : ℕ := 8 * 1024

/-- The environment of one item. -/
def itemEnvironment (baseEnv : List (Str × Str)) (mode : MappingMode)
    (planFingerprint backfillPlanHash : Str) (item : AirflowMappingItemRange) :
    Except PyError (List (Str × Str)) :=
  let encoded := JsonText.dumps (itemPayload mode planFingerprint backfillPlanHash item)
  if maxMappingItemBytes < (encodeUtf8 encoded).length then
    .error (invalid "serialized mapping item exceeds 8 KiB")
  else .ok (Dict.set mappingItemEnv encoded baseEnv)

/-- `mapped_env_vars`. -/
def mappedEnvVars (baseEnv : List (Str × Str)) (plan : ProviderMappingPlan) :
    Except PyError (List (List (Str × Str))) :=
  match plan.mode.isMapped, plan.backfillPlanHash with
  | true, some hash =>
    plan.items.mapM (itemEnvironment baseEnv plan.mode plan.planFingerprint hash)
  | _, _ => .error (invalid "mapped environments require a visible or summary plan")

/-! ### The runtime's reading -/

structure BackfillExecutionSelection where
  mode : MappingMode
  mappingPlanFingerprint : Str
  backfillPlanHash : Str
  itemIndex : ℕ
  firstChunkIndex : ℕ
  lastChunkIndex : ℕ
  chunksCount : ℕ
  deriving DecidableEq

def selectionFields : List Str :=
  ["schema".toList, "mode".toList, "mapping_plan_fingerprint".toList,
    "backfill_plan_hash".toList, "item_index".toList, "first_chunk_index".toList,
    "last_chunk_index".toList, "chunks_count".toList]

/-- `is_canonical_sha256_digest`. -/
def isCanonicalDigest : Json → Bool
  | .str s => "sha256:".toList.isPrefixOf s && (s.drop 7).length = 64 &&
      (s.drop 7).all fun c => "0123456789abcdef".toList.contains c
  | _ => false

/-- `_positive_or_zero_int`. -/
def positiveOrZeroInt (value : Json) (field : String) : Except Raised ℕ :=
  match value with
  | .int (.ofNat n) => .ok n
  | _ => .error (itemViolation s!"Airflow mapping item {field} must be a non-negative integer")

def itemSchemaInvalid : Raised := itemViolation "Airflow mapping item schema or mode is invalid"

/-- `payload.get("mode") in _MAPPED_MODES`; a list or a mapping cannot be looked up in a set. -/
def mappedModeOf : Json → Except Raised MappingMode
  | .str s =>
    match (MappingMode.ofName s).filter MappingMode.isMapped with
    | some mode => .ok mode
    | none => .error itemSchemaInvalid
  | .arr _ | .obj _ => .error (.python .typeError)
  | _ => .error itemSchemaInvalid

/-- A digest field of an item. -/
def itemDigest (name : String) (fields : List (Str × Json)) : Except Raised Str := do
  let value := Json.get name.toList fields
  raiseWhen (¬ isCanonicalDigest value)
    (itemViolation s!"Airflow mapping item {name} must be a canonical SHA-256 digest")
  return textOr value

/-- The fields of an item. -/
def readSelection (fields : List (Str × Json)) : Except Raised BackfillExecutionSelection := do
  raiseWhen (¬ Json.hasExactly selectionFields fields)
    (itemViolation "Airflow mapping item fields do not match dpone.airflow-mapping-item.v1")
  raiseWhen (¬ schemaIs "dpone.airflow-mapping-item.v1".toList fields) itemSchemaInvalid
  let mode ← mappedModeOf (Json.get "mode".toList fields)
  let fingerprint ← itemDigest "mapping_plan_fingerprint" fields
  let hash ← itemDigest "backfill_plan_hash" fields
  let itemIndex ← positiveOrZeroInt (Json.get "item_index".toList fields) "item_index"
  let first ← positiveOrZeroInt (Json.get "first_chunk_index".toList fields) "first_chunk_index"
  let last ← positiveOrZeroInt (Json.get "last_chunk_index".toList fields) "last_chunk_index"
  let count ← positiveOrZeroInt (Json.get "chunks_count".toList fields) "chunks_count"
  raiseWhen (first < 1 ∨ last < first ∨ count ≠ last - first + 1)
    (itemViolation "Airflow mapping item chunk range is invalid")
  return ⟨mode, fingerprint, hash, itemIndex, first, last, count⟩

/-- `parse_airflow_mapping_item_json`. -/
def parseAirflowMappingItemJson (t : Tools) (raw : Str) :
    Except Raised BackfillExecutionSelection := do
  raiseWhen (strip t.unicode raw = [])
    (itemViolation "Airflow mapping item must be non-empty JSON")
  raiseWhen (maxMappingItemBytes < (encodeUtf8 raw).length)
    (itemViolation "Airflow mapping item exceeds 8 KiB")
  match t.json.loads raw with
  | none => .error (itemViolation "Airflow mapping item is not valid JSON")
  | some (.obj fields) => readSelection fields
  | some _ => .error (itemViolation
      "Airflow mapping item fields do not match dpone.airflow-mapping-item.v1")

end Dpone.Airflow
