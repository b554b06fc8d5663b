import Dpone.Backfill.Planner
import Dpone.Schemes.Json

/-! The bounded mapping plan of `backfill/mapping.py`: the policy of a workload, the chunks of its
    backfill shared out over items, and the text of one item.

    The chunks come from the backfill planner, whose loops take fuel. Digests, the fields of a
    backfill declaration that a mapping does not look at, and the campaign contract of SQL Server
    are parameters. -/

namespace Dpone.Airflow
open Dpone.Schemes Dpone.Contracts Dpone.Backfill

inductive MappingMode where
  | internal | visible | summary
  deriving DecidableEq

def MappingMode.name : MappingMode → Str
  | .internal => "internal".toList
  | .visible => "visible".toList
  | .summary => "summary".toList

def MappingMode.ofName (s : Str) : Option MappingMode :=
  [MappingMode.internal, .visible, .summary].find? fun mode => mode.name = s

/-- `mode in _MAPPED_MODES`. -/
def MappingMode.isMapped (mode : MappingMode) : Bool := mode ≠ .internal

/-- `AirflowBackfillMappingViolation`, or another exception. -/
inductive Raised where
  | violation (code message : String)
  | python (e : PyError)
  deriving DecidableEq

def policyViolation (message : String) : Raised :=
  .violation "DPONE_AIRFLOW_MAPPING_POLICY_INVALID" message

def itemViolation (message : String) : Raised :=
  .violation "DPONE_AIRFLOW_MAPPING_ITEM_INVALID" message

def requiresChunkedBackfill (message : String) : Raised :=
  .violation "DPONE_AIRFLOW_MAPPING_REQUIRES_CHUNKED_BACKFILL" message

def raiseWhen (p : Prop) [Decidable p] (e : Raised) : Except Raised Unit :=
  if p then .error e else .ok ()

/-- A declared value; what is neither null, boolean, integer nor text counts by its truth value and
    its text. -/
inductive MappingValue where
  | null
  | bool (b : Bool)
  | int (n : ℤ)
  | text (s : Str)
  | other (truthy : Bool) (asText : Str)

namespace MappingValue

def truthy : MappingValue → Bool
  | .null => false
  | .bool b => b
  | .int n => n ≠ 0
  | .text s => s ≠ []
  | .other truthy _ => truthy

/-- `str(value)`. -/
def str : MappingValue → Str
  | .null => "None".toList
  | .bool b => if b then "True".toList else "False".toList
  | .int n => intText n
  | .text s => s
  | .other _ asText => asText

end MappingValue

/-- The declaration of a workload; `other` is anything that is no mapping. -/
inductive RawMapping where
  | mapping (entries : List (Str × MappingValue))
  | other (truthy : Bool)

structure AirflowMappingPolicy where
  mode : MappingMode := .internal
  maxItems : ℕ := 200
  maxActive : ℕ := 16
  pool : Str := "dpone_backfill".toList

structure AirflowMappingItemRange where
  itemIndex : ℕ
  firstChunkIndex : ℕ
  lastChunkIndex : ℕ
  chunksCount : ℕ
  deriving DecidableEq

structure AirflowBackfillMappingPlan where
  mode : MappingMode
  planFingerprint : Str
  backfillPlanHash : Option Str
  chunksTotal : ℕ
  itemsTotal : ℕ
  limits : AirflowMappingPolicy
  items : List AirflowMappingItemRange

/-! ### The declared policy -/

section Policy
variable (u : Unicode)

/-- `_bounded_int`. -/
def boundedInt (value : MappingValue) (field : String) (maximum : ℕ) : Except Raised ℕ :=
  let violation := policyViolation
    s!"airflow.mapping.{field} must be an integer from 1 to {maximum}"
  match value with
  | .int n => if 1 ≤ n ∧ n ≤ maximum then .ok n.toNat else .error violation
  | _ => .error violation

def poolCharacters : Str :=
  "ABCDEFGHIJKLMNOPQRSTUVWXYZabcdefghijklmnopqrstuvwxyz0123456789_.-".toList

/-- `_POOL_PATTERN.fullmatch`. -/
def poolPattern (pool : Str) : Bool := pool ≠ [] && pool.all poolCharacters.contains

def policyFields : List Str :=
  ["mode".toList, "max_items".toList, "max_active".toList, "pool".toList]

/-- The fields that no policy has, sorted. -/
def unknownFields (entries : List (Str × MappingValue)) : List Str :=
  ((entries.map Prod.fst).filter fun key => !policyFields.contains key).dedup.mergeSort
    fun a b => !decide (b < a)

def RawMapping.entries : RawMapping → Except Raised (List (Str × MappingValue))
  | .mapping entries => .ok entries
  | .other true => .error (policyViolation "airflow.mapping must be a mapping")
  | .other false => .ok []

/-- `str(mapping.get("mode") or "internal").strip().lower()`. -/
def declaredMode (entries : List (Str × MappingValue)) : Str :=
  let value := (entries.lookup "mode".toList).getD .null
  u.lower (strip u (if value.truthy then value.str else "internal".toList))

def declaredPool (entries : List (Str × MappingValue)) : Str :=
  strip u (((entries.lookup "pool".toList).map MappingValue.str).getD "dpone_backfill".toList)

/-- `mapping_policy_from_mapping`. -/
def mappingPolicyFromMapping (raw : RawMapping) : Except Raised AirflowMappingPolicy := do
  let entries ← raw.entries
  let unknown := unknownFields entries
  raiseWhen (unknown ≠ []) (policyViolation ("airflow.mapping contains unsupported fields: " ++
    ", ".intercalate (unknown.map String.ofList)))
  match MappingMode.ofName (declaredMode u entries) with
  | none => .error (policyViolation
      "airflow.mapping.mode must be one of: internal, summary, visible")
  | some mode =>
    let maxItems ← boundedInt ((entries.lookup "max_items".toList).getD (.int 200)) "max_items" 200
    let maxActive ← boundedInt ((entries.lookup "max_active".toList).getD (.int 16)) "max_active" 64
    raiseWhen (maxItems < maxActive)
      (policyViolation "airflow.mapping.max_active must be <= max_items")
    let pool := declaredPool u entries
    raiseWhen (mode.isMapped ∧ ¬ poolPattern pool) (.violation "DPONE_AIRFLOW_MAPPING_POOL_REQUIRED"
      ("airflow.mapping.pool must be a non-empty Airflow identifier " ++
        "for visible or summary mode"))
    raiseWhen (pool ≠ [] ∧ ¬ poolPattern pool) (policyViolation
      "airflow.mapping.pool must contain only letters, numbers, dot, dash or underscore")
    return ⟨mode, maxItems, maxActive, pool⟩

end Policy

/-! ### Ranges of chunks -/

/-- `_visible_ranges`. -/
def visibleRanges (chunksTotal : ℕ) : List AirflowMappingItemRange :=
  (List.range chunksTotal).map fun i => ⟨i, i + 1, i + 1, 1⟩

/-- The loop of `_summary_ranges`, from an item and a cursor on. -/
def summaryLoop (size remainder : ℕ) : ℕ → ℕ → ℕ → List AirflowMappingItemRange
  | 0, _, _ => []
  | items + 1, itemIndex, cursor =>
    let chunksCount := size + if itemIndex < remainder then 1 else 0
    let last := cursor + chunksCount - 1
    ⟨itemIndex, cursor, last, chunksCount⟩ ::
      summaryLoop size remainder items (itemIndex + 1) (last + 1)

/-- `_summary_ranges`; `divmod` by no items raises. -/
def summaryRanges (chunksTotal maxItems : ℕ) : Except Raised (List AirflowMappingItemRange) := do
  let itemsTotal := min chunksTotal maxItems
  raiseWhen (itemsTotal = 0) (.python .zeroDivisionError)
  return summaryLoop (chunksTotal / itemsTotal) (chunksTotal % itemsTotal) itemsTotal 0 1

/-! ### The plan as a document -/

def AirflowMappingItemRange.toJsonable (item : AirflowMappingItemRange) : Json :=
  .obj [("item_index".toList, .int item.itemIndex),
    ("first_chunk_index".toList, .int item.firstChunkIndex),
    ("last_chunk_index".toList, .int item.lastChunkIndex),
    ("chunks_count".toList, .int item.chunksCount)]

def AirflowMappingPolicy.limits (policy : AirflowMappingPolicy) : Json :=
  .obj [("max_items".toList, .int policy.maxItems), ("max_active".toList, .int policy.maxActive),
    ("pool".toList, .str policy.pool)]

def hashJson : Option Str → Json
  | some hash => .str hash
  | none => .null

/-- The fields of a plan after its fingerprint. -/
def planBody (policy : AirflowMappingPolicy) (backfillPlanHash : Option Str)
    (chunksTotal itemsTotal : ℕ) (items : List AirflowMappingItemRange) : List (Str × Json) :=
  [("backfill_plan_hash".toList, hashJson backfillPlanHash),
    ("chunks_total".toList, .int chunksTotal), ("items_total".toList, .int itemsTotal),
    ("limits".toList, policy.limits),
    ("items".toList, .arr (items.map AirflowMappingItemRange.toJsonable))]

/-- The fields of a plan before its fingerprint. -/
def planHead (mode : MappingMode) : List (Str × Json) :=
  [("schema".toList, .str "dpone.airflow-mapping-plan.v1".toList), ("mode".toList, .str mode.name)]

def AirflowBackfillMappingPlan.toJsonable (plan : AirflowBackfillMappingPlan) :
    List (Str × Json) :=
  planHead plan.mode ++ ("plan_fingerprint".toList, .str plan.planFingerprint) ::
    planBody plan.limits plan.backfillPlanHash plan.chunksTotal plan.itemsTotal plan.items

/-- `item["id"]` where it is a text. -/
def textId : Json → Option Str
  | .obj fields => match Json.get "id".toList fields with
    | .str s => some s
    | _ => none
  | _ => none

/-- Lists of artifacts that all have an `id` are sorted by it. -/
def sortById (items : List Json) : List Json :=
  if items.all fun item => (textId item).isSome then
    items.mergeSort fun a b => !decide ((textId b).getD [] < (textId a).getD [])
  else items

mutual
/-- `_normalize` of the canonical fingerprint. -/
def normalize : Json → Json
  | .obj fields => .obj (normalizeFields fields)
  | .arr items => .arr (sortById (normalizeItems items))
  | .str s => .str (s.map fun c => if c = '\\' then '/' else c)
  | value => value

def normalizeFields : List (Str × Json) → List (Str × Json)
  | [] => []
  | (name, value) :: fields => (name, normalize value) :: normalizeFields fields

def normalizeItems : List Json → List Json
  | [] => []
  | item :: items => normalize item :: normalizeItems items
end

/-! ### The plan of a load -/

inductive LoadStrategy where
  | backfill | other
  deriving DecidableEq

/-- The fields of a backfill declaration that a mapping reads. -/
structure BackfillDeclaration where
  chunk : Option ChunkBlock
  maxChunks : Option OptionValue
  innerMode : Option OptionValue
  parallelWorkers : Option OptionValue
  backfillId : Option Str
  state : Option (List (Str × OptionValue))

structure LoadConfig where
  loadStrategy : LoadStrategy
  /-- `str(options.get("sink_type") or "")` -/
  sinkType : Str
  targetSchema : Str
  targetTable : Str
  /-- Nothing where there is no mapping. -/
  backfill : Option BackfillDeclaration

structure BackfillExecutionPolicy where
  innerMode : Str
  parallelWorkers : ℕ
  chunk : Option BackfillChunkSpec

/-- A SHA-256 digest in lower-case hexadecimal. -/
def HexDigest (s : Str) : Prop := s.length = 64 ∧ ∀ c ∈ s, c ∈ "0123456789abcdef".toList

/-- What the plan is made with. -/
structure Tools where
  unicode : Unicode
  iso : IsoReader
  json : JsonReader
  scopeSha256 : PortableRangeScope → Str
  /-- The digest of a document's canonical text. -/
  digest : Json → Str
  digest_hex : ∀ document, HexDigest (digest document)
  planHash : List BackfillChunk → BackfillExecutionPolicy → Str
  planHash_hex : ∀ chunks policy, HexDigest (planHash chunks policy)
  backfillRunKey : Str → BackfillChunkSpec → Str → Str
  /-- The checks of the fields that a mapping does not read. -/
  checkOtherFields : BackfillDeclaration → Except PyError Unit
  /-- `normalize_mssql_backfill_campaign_strategy`. -/
  checkCampaign : LoadConfig → Except PyError Unit

section Build
variable (t : Tools)

/-- `_bounded_integer`. -/
def boundedInteger (value : OptionValue) (field : String) (maximum : ℕ) : Except PyError ℕ :=
  match value with
  | .int n => if 1 ≤ n ∧ n ≤ maximum then .ok n.toNat
      else .error (.valueError s!"{field} must be between 1 and {maximum}")
  | _ => .error (.valueError s!"{field} must be an integer")

def supportedInnerModes : List Str :=
  ["partition_replace".toList, "replace".toList, "incremental_append".toList,
    "incremental_merge".toList, "full_refresh".toList]

/-- `inner_mode_from_options`. -/
def innerModeFromOptions (u : Unicode) : Option OptionValue → Except PyError Str
  | none => .ok "partition_replace".toList
  | some (.str s) =>
    if strip u s = [] then .error (.valueError "backfill.inner_mode must be a non-empty string")
    else if u.lower (strip u s) ∈ supportedInnerModes then .ok (u.lower (strip u s))
    else .error (.valueError ("backfill.inner_mode must be one of: full_refresh, " ++
      "incremental_append, incremental_merge, partition_replace, replace"))
  | some _ => .error (.valueError "backfill.inner_mode must be a non-empty string")

/-- `normalize_backfill_execution_policy`. -/
def normalizeBackfillExecutionPolicy (b : BackfillDeclaration) :
    Except PyError BackfillExecutionPolicy := do
  t.checkOtherFields b
  let maxChunks ← boundedInteger (b.maxChunks.getD (.int 1000)) "backfill.max_chunks" 1000000
  let innerMode ← innerModeFromOptions t.unicode b.innerMode
  let parallelWorkers ← boundedInteger (b.parallelWorkers.getD (.int 1)) "backfill.parallel_workers"
    256
  let chunk ← chunkSpecFromOptions t.unicode t.iso (.mapping b.chunk (some (.int maxChunks)))
  return ⟨innerMode, parallelWorkers, chunk⟩

def endpointTypeAliases : List (Str × Str) :=
  [("microsoft mssql".toList, "mssql".toList), ("microsoft_mssql".toList, "mssql".toList),
    ("odbc".toList, "mssql".toList), ("postgresql".toList, "postgres".toList),
    ("sqlserver".toList, "mssql".toList), ("sql_server".toList, "mssql".toList)]

/-- `canonical_connector_id`, as far as the two connectors below can be told apart from others. -/
def canonicalConnectorId (value : Str) : Str :=
  let normalized := (t.unicode.lower (strip t.unicode value)).map fun c =>
    if c = '-' then '_' else c
  (endpointTypeAliases.lookup normalized).getD normalized

def isMssqlBackfillRoute (config : LoadConfig) : Bool :=
  canonicalConnectorId t config.sinkType = "mssql".toList

/-- `_require_distributed_state`. -/
def requireDistributedState (config : LoadConfig) (b : BackfillDeclaration) : Except Raised Unit :=
  let sinkType := canonicalConnectorId t config.sinkType
  let valid : Bool := match b.state with
    | some state =>
      (match state.lookup "backend".toList with
        | some (.str backend) => backend = "audit_schema".toList
        | _ => false) &&
      (match state.lookup "require_distributed_lock".toList with
        | some (.bool required) => required
        | _ => false) &&
      (sinkType = "mssql".toList || sinkType = "postgres".toList)
    | none => false
  raiseWhen (valid = false) (.violation "DPONE_AIRFLOW_MAPPING_STATE_UNSUPPORTED"
    ("visible or summary mapping requires certified Postgres or MSSQL " ++
      "distributed audit state"))

/-- A call that may raise any exception. -/
def called {α : Type} (r : Except PyError α) : Except Raised α := r.mapError .python

/-- What is planned for a mapped mode. -/
structure Campaign where
  declaration : BackfillDeclaration
  execution : BackfillExecutionPolicy
  spec : BackfillChunkSpec

/-- The checks before the chunks of a mapped mode are planned. -/
def mappedCampaign (config : LoadConfig) : Except Raised Campaign := do
  raiseWhen (config.loadStrategy ≠ .backfill) (requiresChunkedBackfill
    "visible or summary mapping requires sink.strategy.mode: backfill")
  match config.backfill with
  | none => .error (requiresChunkedBackfill
      "visible or summary mapping requires a backfill declaration")
  | some declaration =>
    let execution ← called (normalizeBackfillExecutionPolicy t declaration)
    match execution.chunk with
    | none => .error (requiresChunkedBackfill "visible or summary mapping requires backfill.chunk")
    | some spec =>
      raiseWhen (execution.parallelWorkers ≠ 1)
        (.violation "DPONE_AIRFLOW_MAPPING_PARALLELISM_MULTIPLIER"
          "visible or summary mapping requires backfill.parallel_workers: 1")
      requireDistributedState t config declaration
      return ⟨declaration, execution, spec⟩

def Campaign.runKey (config : LoadConfig) (campaign : Campaign) : Str :=
  match campaign.declaration.backfillId with
  | some (c :: cs) => c :: cs
  | _ => t.backfillRunKey (config.targetSchema ++ '.' :: config.targetTable) campaign.spec
      campaign.execution.innerMode

def Campaign.planChunks (config : LoadConfig) (campaign : Campaign) (fuel : ℕ) :
    Option (Except PyError (List BackfillChunk)) :=
  Backfill.planChunks t.unicode t.iso t.scopeSha256 campaign.spec (campaign.runKey t config) fuel

/-- `_build_plan`. -/
def buildPlan (policy : AirflowMappingPolicy) (backfillPlanHash : Option Str) (chunksTotal : ℕ)
    (items : List AirflowMappingItemRange) : AirflowBackfillMappingPlan where
  mode := policy.mode
  planFingerprint := "sha256:".toList ++ t.digest (normalize (.obj (planHead policy.mode ++
    planBody policy backfillPlanHash chunksTotal items.length items)))
  backfillPlanHash := backfillPlanHash
  chunksTotal := chunksTotal
  itemsTotal := items.length
  limits := policy
  items := items

/-- The plan of the chunks of a mapped mode. -/
def mappedPlan (policy : AirflowMappingPolicy) (campaign : Campaign)
    (planned : Except PyError (List BackfillChunk)) :
    Except Raised AirflowBackfillMappingPlan := do
  let chunks ← called planned
  raiseWhen (campaign.execution.innerMode = "full_refresh".toList ∧ 1 < chunks.length)
    (requiresChunkedBackfill "multi-chunk backfill cannot use full_refresh as its inner mode")
  raiseWhen (policy.mode = .visible ∧ policy.maxItems < chunks.length)
    (.violation "DPONE_AIRFLOW_MAPPING_TASK_LIMIT_EXCEEDED"
      s!"visible mapping produces {chunks.length} items above max_items={policy.maxItems}")
  let ranges ← if policy.mode = .visible then .ok (visibleRanges chunks.length)
    else summaryRanges chunks.length policy.maxItems
  return buildPlan t policy (some ("sha256:".toList ++ t.planHash chunks campaign.execution))
    chunks.length ranges

/-- The policy of a call, once the campaign contract of SQL Server accepted the load. -/
def checkedPolicy (config : LoadConfig) (raw : RawMapping) :
    Except Raised AirflowMappingPolicy := do
  let policy ← mappingPolicyFromMapping t.unicode raw
  if config.loadStrategy = .backfill ∧ isMssqlBackfillRoute t config then
    called (t.checkCampaign config)
  return policy

/-- `build_airflow_mapping_plan`; nothing where the fuel does not reach. -/
def buildAirflowMappingPlan (config : LoadConfig) (raw : RawMapping) (fuel : ℕ) :
    Option (Except Raised AirflowBackfillMappingPlan) :=
  match checkedPolicy t config raw with
  | .error e => some (.error e)
  | .ok policy =>
    if policy.mode = .internal then some (.ok (buildPlan t policy none 0 []))
    else match mappedCampaign t config with
      | .error e => some (.error e)
      | .ok campaign => (campaign.planChunks t config fuel).map (mappedPlan t policy campaign)

end Build

end Dpone.Airflow
