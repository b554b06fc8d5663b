import Dpone.Airflow.MappingReaders
import Dpone.Backfill.PlanTermination

/-! The compiled plan of every load. Where the planner returns chunks, the plan splits them and both
    readers agree with it. What is left are the plans that have no chunks at all, and the planner's
    own exceptions. -/

namespace Dpone.Airflow
open Dpone.Schemes Dpone.Contracts Dpone.Backfill

/-! ### Every load -/

theorem called_ok {α : Type} {x : Except PyError α} {a : α} : called x = .ok a ↔ x = .ok a :=
  mapError_ok

theorem positiveOption_le {text : String} {n : ℤ} {m : ℕ}
    (h : positiveOption text (.int n) = .ok m) : (m : ℤ) ≤ n := by
  rw [positiveOption] at h
  split at h
  · cases h
    omega
  · cases h

theorem uuidChunkSpec_maxChunks {entries : List (Str × OptionValue)} {n : ℕ} {column : Str}
    {spec : BackfillChunkSpec} (h : uuidChunkSpec entries (some (.int n)) column = .ok spec) :
    spec.maxChunks ≤ n := by
  obtain ⟨_, -, h⟩ := bind_ok.mp h
  obtain ⟨buckets, -, h⟩ := bind_ok.mp h
  obtain ⟨limit, hlimit, h⟩ := bind_ok.mp h
  obtain ⟨_, -, h⟩ := bind_ok.mp h
  cases h
  have hle := positiveOption_le hlimit
  simpa using hle

theorem rangeChunkSpec_maxChunks {u : Unicode} {iso : IsoReader}
    {entries : List (Str × OptionValue)} {n : ℕ} {column : Str} {given : Option ChunkKind}
    {spec : BackfillChunkSpec}
    (h : rangeChunkSpec u iso entries (some (.int n)) column given = .ok spec) :
    spec.maxChunks ≤ n := by
  obtain ⟨start, -, h⟩ := bind_ok.mp h
  obtain ⟨stop, -, h⟩ := bind_ok.mp h
  obtain ⟨step, -, h⟩ := bind_ok.mp h
  obtain ⟨_, -, h⟩ := bind_ok.mp h
  split at h
  · cases h
  · obtain ⟨_, -, h⟩ := bind_ok.mp h
    obtain ⟨_, -, h⟩ := bind_ok.mp h
    obtain ⟨limit, hlimit, h⟩ := bind_ok.mp h
    cases h
    rw [maxChunksOption] at hlimit
    split at hlimit
    · cases hlimit
    · cases hlimit
      exact (Int.toNat_natCast n).le

theorem chunkSpec_maxChunks {u : Unicode} {iso : IsoReader} {chunk : Option ChunkBlock} {n : ℕ}
    {spec : BackfillChunkSpec}
    (h : chunkSpecFromOptions u iso (.mapping chunk (some (.int n))) = .ok (some spec)) :
    spec.maxChunks ≤ n := by
  match chunk with
  | none => cases h
  | some .other => cases h
  | some (.mapping []) => cases h
  | some (.mapping (entry :: entries)) =>
    obtain ⟨column, -, h⟩ := bind_ok.mp h
    obtain ⟨kind, -, h⟩ := bind_ok.mp h
    split at h
    · obtain ⟨found, hfound, hspec⟩ := map_ok.mp h
      cases hspec
      exact uuidChunkSpec_maxChunks hfound
    · obtain ⟨found, hfound, hspec⟩ := map_ok.mp h
      cases hspec
      exact rangeChunkSpec_maxChunks hfound

theorem planChunks_length {u : Unicode} {iso : IsoReader} {scopeSha256 : PortableRangeScope → Str}
    {spec : BackfillChunkSpec} {runKey : Str} {fuel : ℕ} {chunks : List BackfillChunk}
    (h : planChunks u iso scopeSha256 spec runKey fuel = some (.ok chunks)) :
    chunks.length ≤ spec.maxChunks := by
  obtain ⟨r, -, hr⟩ := Option.map_eq_some_iff.mp h
  obtain ⟨unlimited, -, hlimited⟩ := bind_ok.mp hr
  rw [limitChunks] at hlimited
  split at hlimited
  · cases hlimited
  · cases hlimited
    omega

/-- A backfill whose options are accepted by the execution contract and the campaign contract. -/
structure Accepted (t : Tools) (config : LoadConfig) : Prop where
  campaign : config.loadStrategy = .backfill ∧ isMssqlBackfillRoute t config →
    t.checkCampaign config = .ok ()
  execution : ∀ b, config.backfill = some b → ∃ p, normalizeBackfillExecutionPolicy t b = .ok p

/-- An environment whose item is read back as this range. -/
def Carries (t : Tools) (env : List (Str × Str)) (item : AirflowMappingItemRange) : Prop :=
  ∃ text selection, env.lookup mappingItemEnv = some text ∧
    parseAirflowMappingItemJson t text = .ok selection ∧
    selection.firstChunkIndex = item.firstChunkIndex ∧
    selection.lastChunkIndex = item.lastChunkIndex ∧ selection.itemIndex = item.itemIndex

/-- A plan that splits its chunks and that both readers agree with. -/
structure PlanSound (t : Tools) (plan : AirflowBackfillMappingPlan) : Prop where
  consecutive : Consecutive AirflowMappingItemRange.firstChunkIndex
    AirflowMappingItemRange.lastChunkIndex 1 plan.items (plan.chunksTotal + 1)
  counted : ∀ item ∈ plan.items, item.chunksCount = item.lastChunkIndex - item.firstChunkIndex + 1
  bounded : plan.items.length ≤ plan.limits.maxItems
  even : Even plan.items
  accepted : ∃ pack, mappingPlanFromPack t (.obj plan.toJsonable) = .ok pack ∧
    pack.items = plan.items ∧ pack.mode = plan.mode ∧ (plan.mode.isMapped → ∀ baseEnv, ∃ envs,
      mappedEnvVars baseEnv pack = .ok envs ∧ List.Forall₂ (Carries t) envs plan.items)

/-- A plan that is sound, or the documented violation. -/
def OutcomeSound (t : Tools) : Except Raised AirflowBackfillMappingPlan → Prop
  | .ok plan => PlanSound t plan
  | .error (.violation _ _) => True
  | .error (.python _) => False

theorem itemEnvironment_carries {t : Tools} {mode : MappingMode} {fingerprint hash : Str}
    {item : AirflowMappingItemRange} (hmode : mode.isMapped) (hfingerprint : Sha256 fingerprint)
    (hhash : Sha256 hash) (baseEnv : List (Str × Str)) (hitem : SmallItem item) :
    ∃ env, itemEnvironment baseEnv mode fingerprint hash item = .ok env ∧ Carries t env item := by
  refine ⟨_, if_neg (not_lt.mpr (item_length_le hfingerprint hhash hitem)), _, _, ?_,
    parse_item t hmode hfingerprint hhash hitem, rfl, rfl, rfl⟩
  rw [Dict.lookup_set, if_pos rfl]

/-- SOUND: a plan of at least one chunk, in a mapped mode. -/
theorem mapped_sound {t : Tools} {policy : AirflowMappingPolicy} {hash : Str} {chunksTotal : ℕ}
    {items : List AirflowMappingItemRange} (hvalid : ValidPolicy t.unicode policy)
    (hmode : policy.mode.isMapped) (hhash : Sha256 hash) (hchunks : 0 < chunksTotal)
    (hsmall : chunksTotal ≤ 1000000) (hcovers : Covers 0 1 items (chunksTotal + 1))
    (hlength : items.length ≤ policy.maxItems) (heven : Even items)
    (hvisible : policy.mode = .visible → ∀ item ∈ items, item.chunksCount = 1) :
    PlanSound t (buildPlan t policy (some hash) chunksTotal items) := by
  have hne : items ≠ [] := by
    rintro rfl
    have hle := hcovers.consecutive
    cases hle
    omega
  have hinternal : policy.mode ≠ .internal := by
    intro h
    rw [h] at hmode
    cases hmode
  have hcoverage : validateCoverage policy.mode chunksTotal items = .ok () := by
    rw [validateCoverage, if_neg hinternal, coverageLoop_ok hcovers hvisible, ok_bind,
      raiseIf_neg (by simp [hne])]
  have hwithin := hcovers.consecutive.within
  have hfit : HashFits policy.mode (some hash) := by
    rw [HashFits, if_pos hmode]
    exact ⟨hash, rfl, hhash⟩
  have hpack := pack_reads (t := t) chunksTotal hvalid hfit hlength fun item hitem =>
    ⟨(hwithin item hitem).1, (hwithin item hitem).2.1, hcovers.counted item hitem⟩
  rw [hcoverage, ok_bind] at hpack
  have hfingerprint : Sha256 (buildPlan t policy (some hash) chunksTotal items).planFingerprint :=
    ⟨_, t.digest_hex _, rfl⟩
  have hindex : ∀ item ∈ items, item.itemIndex < items.length := by
    intro item hitem
    have hmem := List.mem_map_of_mem (f := AirflowMappingItemRange.itemIndex) hitem
    rw [hcovers.numbered] at hmem
    have := (List.mem_range'_1.mp hmem).2
    omega
  have hitems : ∀ item ∈ items, SmallItem item := by
    intro item hitem
    obtain ⟨hlo, hordered, hhi⟩ := hwithin item hitem
    have hmax := hvalid.items.2
    have hi := hindex item hitem
    exact ⟨by omega, hlo, hordered, by omega, hcovers.counted item hitem⟩
  refine ⟨hcovers.consecutive, hcovers.counted, hlength, heven, _, hpack, rfl, rfl,
    fun _ baseEnv => ?_⟩
  obtain ⟨envs, henvs, hcarry⟩ := mapM_ok_iff.mpr fun item hitem =>
    itemEnvironment_carries (t := t) hmode hfingerprint hhash baseEnv (hitems item hitem)
  refine ⟨envs, ?_, hcarry⟩
  rw [mappedEnvVars, hmode]
  exact henvs

theorem boundedInteger_le {value : OptionValue} {field : String} {maximum n : ℕ}
    (h : boundedInteger value field maximum = .ok n) : n ≤ maximum := by
  cases value with
  | int m =>
    rw [boundedInteger] at h
    by_cases hm : 1 ≤ m ∧ m ≤ maximum
    · rw [if_pos hm] at h
      cases h
      omega
    · rw [if_neg hm] at h
      cases h
  | _ => cases h

/-- What a mapped mode plans with: a spec that the options give, and the limit of its chunks. -/
theorem mappedCampaign_ok {t : Tools} {config : LoadConfig} {campaign : Campaign}
    (h : mappedCampaign t config = .ok campaign) : ∃ options,
      chunkSpecFromOptions t.unicode t.iso options = .ok (some campaign.spec) ∧
        campaign.spec.maxChunks ≤ 1000000 := by
  obtain ⟨_, -, h⟩ := bind_ok.mp h
  split at h
  · cases h
  · rename_i declaration
    obtain ⟨execution, hexecution, h⟩ := bind_ok.mp h
    split at h
    · cases h
    · rename_i spec hspec
      obtain ⟨_, -, h⟩ := bind_ok.mp h
      obtain ⟨_, -, h⟩ := bind_ok.mp h
      cases h
      obtain ⟨_, -, hexecution⟩ := bind_ok.mp (called_ok.mp hexecution)
      obtain ⟨maxChunks, hmax, hexecution⟩ := bind_ok.mp hexecution
      obtain ⟨innerMode, -, hexecution⟩ := bind_ok.mp hexecution
      obtain ⟨workers, -, hexecution⟩ := bind_ok.mp hexecution
      obtain ⟨chunk, hchunk, hexecution⟩ := bind_ok.mp hexecution
      cases hexecution
      cases hspec
      exact ⟨_, hchunk, (chunkSpec_maxChunks hchunk).trans (boundedInteger_le hmax)⟩

/-! ### Which exceptions a call may raise -/

/-- Only the documented violation. -/
structure Documented {α : Type} (x : Except Raised α) : Prop where
  violation : ∀ e, x = .error e → ∃ code message, e = .violation code message

section Documented
variable {α β : Type} {code message : String}

theorem documented_ok (a : α) : Documented (.ok a) := ⟨nofun⟩

theorem documented_violation : Documented (.error (.violation code message) : Except Raised α) := by
  refine ⟨fun e h => ?_⟩
  cases h
  exact ⟨code, message, rfl⟩

theorem documented_raiseWhen {p : Prop} [Decidable p] :
    Documented (raiseWhen p (.violation code message)) := by
  rw [raiseWhen]
  split
  · exact documented_violation
  · exact documented_ok _

theorem Documented.bind {x : Except Raised α} {f : α → Except Raised β} (hx : Documented x)
    (hf : ∀ a, x = .ok a → Documented (f a)) : Documented (x >>= f) := by
  refine ⟨fun e h => ?_⟩
  rcases bind_error.mp h with h | ⟨a, ha, h⟩
  · exact hx.violation e h
  · exact (hf a ha).violation e h

end Documented

theorem boundedInt_documented (value : MappingValue) (field : String) (maximum : ℕ) :
    Documented (boundedInt value field maximum) := by
  cases value with
  | int n =>
    rw [boundedInt]
    split
    · exact documented_ok _
    · exact documented_violation
  | _ => exact documented_violation

theorem mappingPolicy_documented (u : Unicode) (raw : RawMapping) :
    Documented (mappingPolicyFromMapping u raw) := by
  have hentries : Documented raw.entries := by
    match raw with
    | .mapping entries => exact documented_ok _
    | .other true => exact documented_violation
    | .other false => exact documented_ok _
  refine hentries.bind fun entries _ => documented_raiseWhen.bind fun _ _ => ?_
  split
  · exact documented_violation
  · exact (boundedInt_documented ..).bind fun _ _ => (boundedInt_documented ..).bind fun _ _ =>
      documented_raiseWhen.bind fun _ _ => documented_raiseWhen.bind fun _ _ =>
        documented_raiseWhen.bind fun _ _ => documented_ok _

theorem checkedPolicy_documented {t : Tools} {config : LoadConfig} (raw : RawMapping)
    (h : Accepted t config) : Documented (checkedPolicy t config raw) := by
  refine (mappingPolicy_documented ..).bind fun policy _ => ?_
  split
  · rename_i hcampaign
    rw [h.campaign hcampaign]
    exact documented_ok _
  · exact documented_ok _

theorem mappedCampaign_documented {t : Tools} {config : LoadConfig} (h : Accepted t config) :
    Documented (mappedCampaign t config) := by
  refine documented_raiseWhen.bind fun _ _ => ?_
  split
  · exact documented_violation
  · rename_i declaration hdeclaration
    obtain ⟨execution, hexecution⟩ := h.execution declaration hdeclaration
    rw [hexecution]
    refine Documented.bind (documented_ok execution) fun accepted haccepted => ?_
    split
    · exact documented_violation
    · exact documented_raiseWhen.bind fun _ _ => documented_raiseWhen.bind fun _ _ =>
        documented_ok _

theorem policy_of_checked {t : Tools} {config : LoadConfig} {raw : RawMapping}
    {policy : AirflowMappingPolicy} (h : checkedPolicy t config raw = .ok policy) :
    ValidPolicy t.unicode policy := by
  obtain ⟨declared, hdeclared, h⟩ := bind_ok.mp h
  have hsame : declared = policy := by
    split at h
    · obtain ⟨_, -, h⟩ := bind_ok.mp h
      exact Except.ok.inj h
    · exact Except.ok.inj h
  exact hsame ▸ policy_valid hdeclared

/-- The plan of the internal mode. -/
theorem internal_sound {t : Tools} {policy : AirflowMappingPolicy}
    (hvalid : ValidPolicy t.unicode policy) (hmode : policy.mode = .internal) :
    PlanSound t (buildPlan t policy none 0 []) := by
  have hunmapped : ¬ policy.mode.isMapped := by simp [hmode, MappingMode.isMapped]
  have hfit : HashFits policy.mode none := by rw [HashFits, if_neg hunmapped]
  have hnone : ([] : List AirflowMappingItemRange).length ≤ policy.maxItems := Nat.zero_le _
  have hpack := pack_reads (t := t) 0 hvalid hfit hnone (List.forall_mem_nil _)
  rw [validateCoverage, if_pos hmode, raiseIf_neg (by simp), ok_bind] at hpack
  exact ⟨.nil 1, List.forall_mem_nil _, Nat.zero_le _, fun _ h => absurd h List.not_mem_nil, _,
    hpack, rfl, rfl, fun hmapped => absurd hmapped hunmapped⟩

section Mapped
variable {t : Tools} {policy : AirflowMappingPolicy} {campaign : Campaign}

/-- The planner's own exception is passed on. -/
theorem mappedPlan_error (e : PyError) :
    ¬ OutcomeSound t (mappedPlan t policy campaign (.error e)) := id

theorem planHash_fits (hmode : policy.mode.isMapped) (chunks : List BackfillChunk)
    (execution : BackfillExecutionPolicy) :
    HashFits policy.mode (some ("sha256:".toList ++ t.planHash chunks execution)) := by
  rw [HashFits, if_pos hmode]
  exact ⟨_, rfl, _, t.planHash_hex _ _, rfl⟩

/-- Without chunks the summary divides by no items, and the provider refuses the visible plan. -/
theorem mappedPlan_empty (hvalid : ValidPolicy t.unicode policy) (hmode : policy.mode.isMapped) :
    ¬ OutcomeSound t (mappedPlan t policy campaign (.ok [])) := by
  have hnone : ([] : List AirflowMappingItemRange).length ≤ policy.maxItems := Nat.zero_le _
  have hpack := pack_reads (t := t) 0 hvalid (planHash_fits (t := t) hmode [] campaign.execution)
    hnone (List.forall_mem_nil _)
  have hinternal : policy.mode ≠ .internal := by simpa [MappingMode.isMapped] using hmode
  rw [validateCoverage, if_neg hinternal, coverageLoop, ok_bind, raiseIf_pos (.inl rfl)] at hpack
  have hcalled : called (.ok [] : Except PyError (List BackfillChunk)) = .ok [] := rfl
  rw [mappedPlan, hcalled, ok_bind, raiseWhen_neg (by simp), raiseWhen_neg (by simp)]
  by_cases hvisible : policy.mode = .visible
  · rw [if_pos hvisible]
    intro hsound
    obtain ⟨pack, haccepted, -⟩ := PlanSound.accepted hsound
    cases hpack.symm.trans haccepted
  · rw [if_neg hvisible]
    exact id

/-- A mapped plan of at least one chunk. -/
theorem mappedPlan_sound (hvalid : ValidPolicy t.unicode policy) (hmode : policy.mode.isMapped)
    {chunks : List BackfillChunk} (hchunks : 0 < chunks.length)
    (hsmall : chunks.length ≤ 1000000) :
    OutcomeSound t (mappedPlan t policy campaign (.ok chunks)) := by
  have hhash : Sha256 ("sha256:".toList ++ t.planHash chunks campaign.execution) :=
    ⟨_, t.planHash_hex _ _, rfl⟩
  have hcalled : called (.ok chunks : Except PyError (List BackfillChunk)) = .ok chunks := rfl
  rw [mappedPlan, hcalled, ok_bind]
  by_cases hfull : campaign.execution.innerMode = "full_refresh".toList ∧ 1 < chunks.length
  · rw [raiseWhen, if_pos hfull]
    trivial
  rw [raiseWhen_neg hfull, ok_bind]
  by_cases hlimit : policy.mode = .visible ∧ policy.maxItems < chunks.length
  · rw [raiseWhen, if_pos hlimit]
    trivial
  rw [raiseWhen_neg hlimit, ok_bind]
  by_cases hvisible : policy.mode = .visible
  · rw [if_pos hvisible]
    have hone : ∀ item ∈ visibleRanges chunks.length, item.chunksCount = 1 := by
      intro item hitem
      obtain ⟨i, -, rfl⟩ := List.mem_map.mp hitem
      rfl
    have hlength : (visibleRanges chunks.length).length ≤ policy.maxItems := by
      rw [visibleRanges, List.length_map, List.length_range]
      exact not_lt.mp fun hlt => hlimit ⟨hvisible, hlt⟩
    have heven : Even (visibleRanges chunks.length) := by
      intro a ha b hb
      rw [hone a ha, hone b hb]
      exact Nat.le_succ 1
    exact mapped_sound hvalid hmode hhash hchunks hsmall (visible_covers _) hlength heven
      fun _ => hone
  · rw [if_neg hvisible]
    obtain ⟨items, hitems, hcovers, hlength, heven⟩ := summary_covers hchunks hvalid.items.1
    rw [hitems]
    exact mapped_sound hvalid hmode hhash hchunks hsmall hcovers
      (hlength.trans_le (Nat.min_le_right ..)) heven fun h => absurd h hvisible

end Mapped

/-! ### A backfill by the hour -/

theorem zeros_hex : HexDigest (List.replicate 64 '0') := by
  refine ⟨List.length_replicate, fun c hc => ?_⟩
  rw [List.eq_of_mem_replicate hc]
  exact List.mem_cons_self ..

/-- Tools whose digests are all zeros. -/
def zeroTools : Tools where
  unicode := .ascii
  iso := .extended
  json := .flat
  scopeSha256 _ := []
  digest _ := List.replicate 64 '0'
  digest_hex _ := zeros_hex
  planHash _ _ := List.replicate 64 '0'
  planHash_hex _ _ := zeros_hex
  backfillRunKey table _ _ := table
  checkOtherFields _ := .ok ()
  checkCampaign _ := .ok ()

/-- The backfill of a timestamp column by the hour, with distributed state. -/
def hourly (start stop : String) : LoadConfig where
  loadStrategy := .backfill
  sinkType := "postgres".toList
  targetSchema := "public".toList
  targetTable := "events".toList
  backfill := some {
    chunk := some (.mapping [("column".toList, .str "at".toList),
      ("kind".toList, .str "timestamp".toList), ("from".toList, .str start.toList),
      ("to".toList, .str stop.toList), ("step".toList, .str "1h".toList)])
    maxChunks := none
    innerMode := none
    parallelWorkers := none
    backfillId := none
    state := some [("backend".toList, .str "audit_schema".toList),
      ("require_distributed_lock".toList, .bool true)] }

def summaryMapping : RawMapping := .mapping [("mode".toList, .text "summary".toList)]

def hourlySpec (start stop : String) : BackfillChunkSpec :=
  ⟨"at".toList, start.toList, stop.toList, "1h".toList, .timestamp, 1000, none⟩

def hourlyCampaign (start stop : String) : Campaign where
  declaration := (hourly start stop).backfill.get rfl
  execution := ⟨"partition_replace".toList, 1, some (hourlySpec start stop)⟩
  spec := hourlySpec start stop

theorem hourly_accepted {start stop : String}
    (h : normalizeBackfillExecutionPolicy zeroTools ((hourly start stop).backfill.get rfl) =
      .ok (hourlyCampaign start stop).execution) : Accepted zeroTools (hourly start stop) := by
  refine ⟨fun _ => rfl, fun b hb => ⟨(hourlyCampaign start stop).execution, ?_⟩⟩
  obtain rfl := Option.some.inj hb
  exact h

theorem summary_checked (start stop : String) :
    checkedPolicy zeroTools (hourly start stop) summaryMapping = .ok { mode := .summary } := by
  have hentries : summaryMapping.entries = .ok [("mode".toList, .text "summary".toList)] := rfl
  have hnone : ([("mode".toList, MappingValue.text "summary".toList)].map Prod.fst).filter
      (fun key => !policyFields.contains key) = [] := by rfl
  have hknown : unknownFields [("mode".toList, .text "summary".toList)] = [] := by
    rw [unknownFields, hnone]
    exact List.mergeSort_nil
  have hpolicy : mappingPolicyFromMapping zeroTools.unicode summaryMapping =
      .ok { mode := .summary } := by
    rw [mappingPolicyFromMapping, hentries, ok_bind, hknown]
    rfl
  rw [checkedPolicy, hpolicy]
  rfl

/-- AGREED: a load whose backfill options are accepted is compiled, with fuel enough, to the
    documented violation or to a plan that splits its chunks and that both readers agree with,
    exactly when the planner, where it is asked, returns at least one chunk. -/
theorem mapping_sound_iff {t : Tools} {config : LoadConfig} (raw : RawMapping)
    (haccepted : Accepted t config) :
    (∃ fuel, (buildAirflowMappingPlan t config raw fuel).isSome) ∧ ∀ fuel outcome,
      buildAirflowMappingPlan t config raw fuel = some outcome →
        (OutcomeSound t outcome ↔ ∀ policy campaign planned,
          checkedPolicy t config raw = .ok policy → policy.mode.isMapped →
          mappedCampaign t config = .ok campaign →
          campaign.planChunks t config fuel = some planned →
          ∃ chunk chunks, planned = .ok (chunk :: chunks)) := by
  cases hpolicy : checkedPolicy t config raw with
  | error e =>
    have hbuild : ∀ fuel, buildAirflowMappingPlan t config raw fuel = some (.error e) := by
      intro fuel
      rw [buildAirflowMappingPlan, hpolicy]
    obtain ⟨code, message, rfl⟩ := (checkedPolicy_documented raw haccepted).violation e hpolicy
    refine ⟨⟨0, by rw [hbuild]; rfl⟩, fun fuel outcome h => ?_⟩
    rw [hbuild] at h
    cases h
    exact ⟨fun _ _ _ _ h => (nomatch h), fun _ => trivial⟩
  | ok policy =>
    have hvalid := policy_of_checked hpolicy
    by_cases hmode : policy.mode = .internal
    · have hbuild : ∀ fuel, buildAirflowMappingPlan t config raw fuel =
          some (.ok (buildPlan t policy none 0 [])) := by
        intro fuel
        rw [buildAirflowMappingPlan, hpolicy]
        exact if_pos hmode
      refine ⟨⟨0, by rw [hbuild]; rfl⟩, fun fuel outcome h => ?_⟩
      rw [hbuild] at h
      cases h
      refine ⟨fun _ => ?_, fun _ => internal_sound hvalid hmode⟩
      rintro _ _ _ ⟨⟩ hmapped
      rw [hmode] at hmapped
      cases hmapped
    · have hmapped : policy.mode.isMapped := decide_eq_true hmode
      cases hcampaign : mappedCampaign t config with
      | error e =>
        have hbuild : ∀ fuel, buildAirflowMappingPlan t config raw fuel = some (.error e) := by
          intro fuel
          simp only [buildAirflowMappingPlan, hpolicy, if_neg hmode, hcampaign]
        obtain ⟨code, message, rfl⟩ := (mappedCampaign_documented haccepted).violation e hcampaign
        refine ⟨⟨0, by rw [hbuild]; rfl⟩, fun fuel outcome h => ?_⟩
        rw [hbuild] at h
        cases h
        exact ⟨fun _ _ _ _ _ _ h => (nomatch h), fun _ => trivial⟩
      | ok campaign =>
        have hbuild : ∀ fuel, buildAirflowMappingPlan t config raw fuel =
            (campaign.planChunks t config fuel).map (mappedPlan t policy campaign) := by
          intro fuel
          simp only [buildAirflowMappingPlan, hpolicy, if_neg hmode, hcampaign]
        obtain ⟨options, hspec, hlimit⟩ := mappedCampaign_ok hcampaign
        constructor
        · obtain ⟨fuel, planned, hplanned, -⟩ :=
            accepted_plan_stops t.scopeSha256 (campaign.runKey t config) hspec
          have hcall : campaign.planChunks t config fuel = some planned := hplanned fuel le_rfl
          exact ⟨fuel, by rw [hbuild, hcall]; rfl⟩
        · intro fuel outcome h
          rw [hbuild] at h
          obtain ⟨planned, hplanned, rfl⟩ := Option.map_eq_some_iff.mp h
          have hcondition : (∀ p c q, Except.ok policy = Except.ok (ε := Raised) p →
              p.mode.isMapped → Except.ok campaign = Except.ok (ε := Raised) c →
              c.planChunks t config fuel = some q → ∃ chunk chunks, q = .ok (chunk :: chunks)) ↔
              ∃ chunk chunks, planned = .ok (chunk :: chunks) := by
            refine ⟨fun h => h policy campaign planned rfl hmapped rfl hplanned, ?_⟩
            rintro h _ _ q ⟨⟩ - ⟨⟩ hq
            rw [hplanned] at hq
            cases hq
            exact h
          refine Iff.trans ?_ hcondition.symm
          cases planned with
          | error e => exact ⟨fun h => absurd h (mappedPlan_error e), fun ⟨_, _, h⟩ => (nomatch h)⟩
          | ok chunks =>
            cases chunks with
            | nil =>
              refine ⟨fun h => absurd h (mappedPlan_empty hvalid hmapped), ?_⟩
              exact fun ⟨_, _, h⟩ => nomatch h
            | cons chunk chunks =>
              have hlength := planChunks_length hplanned
              exact ⟨fun _ => ⟨chunk, chunks, rfl⟩, fun _ =>
                mappedPlan_sound hvalid hmapped (Nat.succ_pos _) (hlength.trans hlimit)⟩

theorem three_hours_agree :
    (∃ fuel, (buildAirflowMappingPlan zeroTools
      (hourly "2025-01-01T00:00:00" "2025-01-01T03:00:00") summaryMapping fuel).isSome) ∧
    ∀ fuel outcome, buildAirflowMappingPlan zeroTools
        (hourly "2025-01-01T00:00:00" "2025-01-01T03:00:00") summaryMapping fuel = some outcome →
      (OutcomeSound zeroTools outcome ↔ ∀ policy campaign planned,
        checkedPolicy zeroTools (hourly "2025-01-01T00:00:00" "2025-01-01T03:00:00")
          summaryMapping = .ok policy → policy.mode.isMapped →
        mappedCampaign zeroTools (hourly "2025-01-01T00:00:00" "2025-01-01T03:00:00") =
          .ok campaign →
        campaign.planChunks zeroTools (hourly "2025-01-01T00:00:00" "2025-01-01T03:00:00") fuel =
          some planned →
        ∃ chunk chunks, planned = .ok (chunk :: chunks)) :=
  mapping_sound_iff summaryMapping (hourly_accepted (by rfl))

/-- A window from a time to that time is accepted, and its summary divides by no items. -/
theorem summary_of_nothing_divides :
    Accepted zeroTools (hourly "2025-01-01T00:00:00" "2025-01-01T00:00:00") ∧
    buildAirflowMappingPlan zeroTools (hourly "2025-01-01T00:00:00" "2025-01-01T00:00:00")
      summaryMapping 1 = some (.error (.python .zeroDivisionError)) ∧
    ¬ OutcomeSound zeroTools (.error (.python .zeroDivisionError)) := by
  refine ⟨hourly_accepted (by rfl), ?_, id⟩
  have hcampaign : mappedCampaign zeroTools (hourly "2025-01-01T00:00:00" "2025-01-01T00:00:00") =
      .ok (hourlyCampaign "2025-01-01T00:00:00" "2025-01-01T00:00:00") := by rfl
  have hmode : ({ mode := .summary } : AirflowMappingPolicy).mode ≠ .internal := by decide
  rw [buildAirflowMappingPlan, summary_checked, hcampaign]
  simp only [if_neg hmode]
  rfl

end Dpone.Airflow
