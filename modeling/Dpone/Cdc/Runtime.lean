import Dpone.Schemes.Python
import Dpone.Schemes.Saga
import Dpone.Cdc.Poison

/-! One bounded CDC tick: read, classify, quarantine, apply, commit the offset, report.

    The tick is written over any reader and any world behind it. Every call may raise or be cut
    off by the process stopping, and nothing catches either, so the world a later tick finds is
    whatever the calls so far have left: the source, the stored offset, the sink and the quarantine
    artifacts are advanced at four different moments. -/

namespace Dpone.Cdc
open Dpone.Schemes Dpone.Schemes.Program

inductive PoisonMode where
  | failClosed | quarantineAndContinue
  deriving DecidableEq, Repr

structure CdcRuntimePolicy where
  maxChanges : ℤ := 10000
  requireIdempotent : Bool := true
  commitEmptyBatches : Bool := false
  poisonMode : PoisonMode := .failClosed

structure CdcApplyReceipt where
  passed : Bool
  durable : Bool
  rowsApplied : ℕ
  rowsDeleted : ℕ
  blockers : List String
  warnings : List String
  metrics : List (String × ℤ)

structure CdcRuntimeRunReport (V : Type) where
  startOffset : Option Str
  nextOffset : Option Str
  highWatermark : Option Str
  rowsRead : ℕ
  rowsApplied : ℕ
  rowsDeleted : ℕ
  committed : Bool
  passed : Bool
  blockers : List String
  warnings : List String
  metrics : List (String × ℤ)
  sinkReceipt : Option CdcApplyReceipt
  poisonQuarantine : Option (List (CdcPoisonRecord V))

/-- The durable states a tick advances, with a source `S` behind the reader. The quarantine maps
    an output directory to the records of the artifact in it. -/
structure CdcWorld (S V : Type) where
  source : S
  offset : Option Str
  landed : List (CDCChange V)
  quarantine : Str → Option (List (CdcPoisonRecord V))

structure CDCReader (S V : Type) where
  setup : Program S PyError Unit
  readBatch : Option Str → ℤ → Program S PyError (CDCBatch V)

/-- What a write that failed has left in the file. -/
inductive FileEffect where
  | kept | torn | written
  deriving DecidableEq, Repr

/-- How the calls of one tick end. A receipt that is durable, passed and without blockers is the
    sink's word that the batch is in it. -/
structure TickEnv (V : Type) where
  loadOffset : Answer PyError Unit
  classify : Answer PyError Unit
  quarantine : Answer PyError Unit
  quarantineFile : FileEffect
  evaluate : Answer PyError Unit
  apply : CDCBatch V → Answer PyError CdcApplyReceipt
  landed : CDCBatch V → List (CDCChange V)
  durable : ∀ b r, apply b = .returns r → r.passed → r.durable → r.blockers = [] →
    ∀ c ∈ b.changes, c ∈ landed b
  saveOffset : Answer PyError Unit
  savedOnFailure : Bool
  report : Answer PyError Unit

abbrev Tick (S V α : Type) := Program (CdcWorld S V) PyError α

variable {S V α : Type}

/-- A program of the reader. -/
def onSource (x : Program S PyError α) : Tick S V α := fun w =>
  ((x w.source).1, { w with source := (x w.source).2 })

theorem onSource_bind {β : Type} (x : Program S PyError α) (f : α → Program S PyError β) :
    (onSource (x >>= f) : Tick S V β) = onSource x >>= fun a => onSource (f a) := by
  funext w
  simp only [onSource, bind_apply]
  rcases x w.source with ⟨a | e | _, s⟩ <;> rfl

theorem onSource_triple {P E : S → Prop} {Q : α → S → Prop} {x : Program S PyError α}
    (h : Triple P x Q E) : Triple (fun w : CdcWorld S V => P w.source) (onSource x)
      (fun a w => Q a w.source) (fun w => E w.source) := by
  intro w hw
  have := h w.source hw
  unfold onSource
  rcases hx : x w.source with ⟨a | e | _, s⟩ <;> rw [hx] at this <;> exact this

/-- A call that leaves nothing behind. -/
def quiet (answer : Answer PyError Unit) : Tick S V Unit := ask answer id id

/-- `offset_store.load_offset`. -/
def loadOffset (env : TickEnv V) : Tick S V (Option Str) := do
  quiet env.loadOffset
  fun w => (.returned w.offset, w)

/-- `FileCdcPoisonQuarantine.write`: the artifact of the directory is replaced. -/
def writeQuarantine (env : TickEnv V) (outputDir : Str) (records : List (CdcPoisonRecord V)) :
    Tick S V Unit :=
  let put (file : Option (List (CdcPoisonRecord V))) (w : CdcWorld S V) : CdcWorld S V :=
    { w with quarantine := Function.update w.quarantine outputDir file }
  ask env.quarantine (put (some records)) <|
    match env.quarantineFile with
    | .kept => id
    | .torn => put none
    | .written => put (some records)

/-- Only poison is quarantined. -/
def quarantinePoison (env : TickEnv V) (outputDir : Str) (records : List (CdcPoisonRecord V)) :
    Tick S V Unit :=
  if records ≠ [] then writeQuarantine env outputDir records else pure ()

/-- `sink_applier.apply`. -/
def sinkApply (env : TickEnv V) (batch : CDCBatch V) : Tick S V CdcApplyReceipt :=
  let land (w : CdcWorld S V) := { w with landed := w.landed ++ env.landed batch }
  ask (env.apply batch) land land

/-- `offset_store.save_offset`. -/
def saveOffset (env : TickEnv V) (offset : Str) : Tick S V Unit :=
  let save (w : CdcWorld S V) := { w with offset := some offset }
  ask env.saveOffset save (if env.savedOnFailure then save else id)

/-- `_sink_blockers`. -/
def sinkBlockers (receipt : CdcApplyReceipt) : List String :=
  (if receipt.passed = false ∧ receipt.blockers = [] then ["cdc_runtime.sink_apply_failed"]
    else receipt.blockers) ++
  if receipt.durable then [] else ["cdc_runtime.sink_not_durable"]

/-- The batch a policy lets through to the sink. -/
def applyBatch (policy : CdcRuntimePolicy) (poison : CdcPoisonDecision V) (batch : CDCBatch V) :
    CDCBatch V :=
  if poison.records = [] then batch
  else match policy.poisonMode with
    | .quarantineAndContinue => { batch with changes := poison.cleanChanges }
    | .failClosed => { batch with changes := [] }

/-- Blockers known before the sink is asked. -/
def policyBlockers (policy : CdcRuntimePolicy) (poison : CdcPoisonDecision V)
    (idempotency : CDCIdempotencyReport) : List String :=
  (if poison.records ≠ [] ∧ policy.poisonMode = .failClosed then ["cdc_runtime.poison_events"]
    else []) ++
  (if policy.poisonMode = .failClosed ∧ ∃ r ∈ poison.records, r.reason = .duplicateEvent
    then ["cdc_runtime.duplicate_events"] else []) ++
  if policy.requireIdempotent ∧ idempotency.passed = false then ["cdc_runtime.duplicate_events"]
  else []

/-- Warnings known before the sink is asked. -/
def policyWarnings (policy : CdcRuntimePolicy) (poison : CdcPoisonDecision V)
    (batch : CDCBatch V) : List String :=
  (if poison.records ≠ [] ∧ policy.poisonMode = .quarantineAndContinue
    then ["cdc_runtime.poison_events_quarantined"] else []) ++
  if batch.rowCount = 0 ∧ policy.commitEmptyBatches = false then ["cdc_runtime.empty_batch"] else []

/-- What a tick knows once the sink has been asked, or passed over. -/
structure TickState (V : Type) where
  startOffset : Option Str
  batch : CDCBatch V
  poison : CdcPoisonDecision V
  applied : CDCBatch V
  idempotency : CDCIdempotencyReport
  receipt : Option CdcApplyReceipt
  blockers : List String
  warnings : List String

section Tick
variable (identity : IdentityPayload V → Str) (reader : CDCReader S V) (env : TickEnv V)
  (stream : CdcRuntimeStream) (policy : CdcRuntimePolicy) (outputDir : Str)

/-- The head of `run_once`, up to the batch. -/
def fetchBatch : Tick S V (Option Str × CDCBatch V) := do
  onSource reader.setup
  let start ← loadOffset env
  let batch ← onSource (reader.readBatch start policy.maxChanges)
  return (start, batch)

/-- The middle of `run_once`: classification, quarantine and the sink. -/
def settleBatch (start : Option Str) (batch : CDCBatch V) : Tick S V (TickState V) := do
  quiet env.classify
  let poison := classify identity stream batch.changes
  quarantinePoison env outputDir poison.records
  let applied := applyBatch policy poison batch
  quiet env.evaluate
  let idempotency := evaluate identity stream.uniqueKey applied.changes
  let blockers := policyBlockers policy poison idempotency
  let warnings := policyWarnings policy poison batch
  let state : TickState V :=
    { startOffset := start, batch := batch, poison := poison, applied := applied,
      idempotency := evaluate identity stream.uniqueKey batch.changes,
      receipt := none, blockers := blockers, warnings := warnings }
  if blockers = [] ∧ (0 < applied.rowCount ∨ policy.commitEmptyBatches) then do
    let receipt ← sinkApply env applied
    return { state with
      receipt := some receipt
      blockers := blockers ++ sinkBlockers receipt ++
        if batch.nextOffset = none then ["cdc_runtime.next_offset_missing"] else []
      warnings := warnings ++ receipt.warnings }
  else
    return state

/-- Poison alone may move the offset. -/
def poisonOnlyCommit (state : TickState V) : Bool :=
  state.poison.records ≠ [] ∧ policy.poisonMode = .quarantineAndContinue ∧
    state.applied.rowCount = 0 ∧ 0 < state.batch.rowCount

/-- The offset save of `run_once`. -/
def commitOffset (state : TickState V) : Tick S V Bool :=
  match state.batch.nextOffset with
  | some offset =>
    if state.blockers = [] ∧ (state.receipt.isSome ∨ poisonOnlyCommit policy state) then do
      saveOffset env offset
      return true
    else
      return false
  | none => return false

/-- `{**own, **receipt.metrics}`. -/
def tickMetrics (state : TickState V) : List (String × ℤ) :=
  let own : List (String × ℤ) :=
    [("total_events", state.idempotency.totalEvents),
     ("unique_events", state.idempotency.uniqueEvents),
     ("duplicate_events", state.idempotency.duplicateCount),
     ("max_changes", policy.maxChanges),
     ("poison_events", state.poison.records.length),
     ("clean_events", state.poison.cleanChanges.length)]
  let given := (state.receipt.map (·.metrics)).getD []
  own.filter (fun m => m.1 ∉ given.map Prod.fst) ++ given

def tickReport (state : TickState V) (committed : Bool) : CdcRuntimeRunReport V where
  startOffset := state.startOffset
  nextOffset := state.batch.nextOffset
  highWatermark := state.batch.highWatermark
  rowsRead := state.batch.rowCount
  rowsApplied := (state.receipt.map (·.rowsApplied)).getD 0
  rowsDeleted := (state.receipt.map (·.rowsDeleted)).getD 0
  committed := committed
  passed := state.blockers = []
  blockers := state.blockers.eraseDups
  warnings := state.warnings.eraseDups
  metrics := tickMetrics policy state
  sinkReceipt := state.receipt
  poisonQuarantine := if state.poison.records = [] then none else some state.poison.records

/-- `run_once` up to the sink's answer. -/
def settleTick : Tick S V (TickState V) := do
  let (start, batch) ← fetchBatch reader env policy
  settleBatch identity env stream policy outputDir start batch

/-- `run_once`. -/
def runOnce : Tick S V (CdcRuntimeRunReport V) := do
  let state ← settleTick identity reader env stream policy outputDir
  let committed ← commitOffset env policy state
  quiet env.report
  return tickReport policy state committed

end Tick

/-! ### What a tick does to the sink and the artifacts -/

/-- FRAME: the sink only gains, and the source is where it was. -/
def Keeps (w w' : CdcWorld S V) : Prop := w'.source = w.source ∧ ∀ c ∈ w.landed, c ∈ w'.landed

instance : IsTrans (CdcWorld S V) Keeps where
  trans _ _ _ h k := ⟨k.1.trans h.1, fun c hc => k.2 c (h.2 c hc)⟩

instance : Std.Refl (Keeps (S := S) (V := V)) where
  refl _ := ⟨rfl, fun _ hc => hc⟩

variable {identity : IdentityPayload V → Str} {env : TickEnv V} {stream : CdcRuntimeStream}
  {policy : CdcRuntimePolicy} {outputDir : Str} {start : Option Str} {batch : CDCBatch V}

theorem quiet_keeps (answer : Answer PyError Unit) :
    Always Keeps (quiet answer : Tick S V Unit) :=
  Always.ask (fun _ => Std.Refl.refl _) fun _ => Std.Refl.refl _

theorem writeQuarantine_keeps (records : List (CdcPoisonRecord V)) :
    Always Keeps (writeQuarantine env outputDir records : Tick S V Unit) := by
  refine Always.ask (fun _ => ⟨rfl, fun _ hc => hc⟩) fun w => ?_
  cases env.quarantineFile
  · exact Std.Refl.refl w
  · exact ⟨rfl, fun _ hc => hc⟩
  · exact ⟨rfl, fun _ hc => hc⟩

theorem sinkApply_keeps : Always Keeps (sinkApply env batch : Tick S V CdcApplyReceipt) :=
  Always.ask (fun _ => ⟨rfl, fun _ hc => List.mem_append_left _ hc⟩)
    fun _ => ⟨rfl, fun _ hc => List.mem_append_left _ hc⟩

theorem settleBatch_keeps :
    Always Keeps (settleBatch identity env stream policy outputDir start batch :
      Tick S V (TickState V)) := by
  refine Always.bind (quiet_keeps _) fun _ => Always.bind ?_ fun _ =>
    Always.bind (quiet_keeps _) fun _ => ?_
  · exact Always.ite (writeQuarantine_keeps _) Always.pure
  · exact Always.ite (Always.bind sinkApply_keeps fun _ => Always.pure) Always.pure

/-- FRAME: nothing but the offset, and that only to the next offset of a batch without a blocker. -/
def OffsetMoves (state : TickState V) (w w' : CdcWorld S V) : Prop :=
  w' = w ∨ state.blockers = [] ∧ ∃ next, state.batch.nextOffset = some next ∧
    w' = { w with offset := some next }

instance (state : TickState V) : IsTrans (CdcWorld S V) (OffsetMoves state) where
  trans := by
    rintro w _ _ (rfl | ⟨hb, next, hnext, rfl⟩) (rfl | ⟨hb', next', hnext', rfl⟩)
    · exact .inl rfl
    · exact .inr ⟨hb', next', hnext', rfl⟩
    · exact .inr ⟨hb, next, hnext, rfl⟩
    · exact .inr ⟨hb', next', hnext', rfl⟩

instance (state : TickState V) : Std.Refl (OffsetMoves (S := S) state) where
  refl _ := .inl rfl

theorem commitOffset_moves (state : TickState V) :
    Always (OffsetMoves state) (commitOffset env policy state : Tick S V Bool) := by
  unfold commitOffset
  cases hnext : state.batch.nextOffset with
  | none => exact Always.pure
  | some offset =>
    dsimp only
    split
    case isTrue hcommit =>
      have hsave : ∀ w : CdcWorld S V, OffsetMoves state w { w with offset := some offset } :=
        fun w => .inr ⟨hcommit.1, offset, hnext, rfl⟩
      refine Always.bind (Always.ask hsave fun w => ?_) fun _ => Always.pure
      cases env.savedOnFailure
      · exact Std.Refl.refl w
      · exact hsave w
    case isFalse => exact Always.pure

/-- The end of a tick moves nothing but the offset. -/
theorem finish_moves (env : TickEnv V) (policy : CdcRuntimePolicy) (state : TickState V) :
    Always (OffsetMoves state) (do
      let committed ← commitOffset env policy state
      quiet env.report
      return tickReport policy state committed : Tick S V (CdcRuntimeRunReport V)) :=
  Always.bind (commitOffset_moves state) fun _ => Always.bind
    (Always.ask (fun _ => Std.Refl.refl _) fun _ => Std.Refl.refl _) fun _ => Always.pure

/-- FRAME: nothing but the offset. -/
def OnlyOffset (w w' : CdcWorld S V) : Prop := ∃ offset, w' = { w with offset := offset }

theorem finish_only (env : TickEnv V) (policy : CdcRuntimePolicy) (state : TickState V) :
    Always OnlyOffset (do
      let committed ← commitOffset env policy state
      quiet env.report
      return tickReport policy state committed : Tick S V (CdcRuntimeRunReport V)) := by
  refine (finish_moves env policy state).mono ?_
  rintro w _ (rfl | ⟨-, next, -, rfl⟩)
  · exact ⟨_, rfl⟩
  · exact ⟨_, rfl⟩

/-- A change has a record in an artifact. -/
def QuarantinedIn (file : Option (List (CdcPoisonRecord V))) (c : CDCChange V) : Prop :=
  ∃ records, file = some records ∧ ∃ r ∈ records, r.change = c

/-- A receipt that adds no blocker passed, is durable and has none of its own. -/
theorem receipt_of_sinkBlockers {receipt : CdcApplyReceipt} (h : sinkBlockers receipt = []) :
    receipt.passed ∧ receipt.durable ∧ receipt.blockers = [] := by
  obtain ⟨hpassed, hdurable⟩ := List.append_eq_nil_iff.mp h
  by_cases hfailed : receipt.passed = false ∧ receipt.blockers = []
  · simp [hfailed] at hpassed
  · rw [if_neg hfailed] at hpassed
    refine ⟨?_, ?_, hpassed⟩
    · by_contra hp
      exact hfailed ⟨by simpa using hp, hpassed⟩
    · by_contra hd
      simp [hd] at hdurable

/-- The changes a tick has a durable receipt for. -/
def TickState.acknowledged (state : TickState V) : List (CDCChange V) :=
  match state.receipt with
  | some receipt => if receipt.passed ∧ receipt.durable then state.applied.changes else []
  | none => []

theorem TickState.acknowledged_of_receipt {state : TickState V} {receipt : CdcApplyReceipt}
    (hpassed : receipt.passed) (hdurable : receipt.durable) (h : state.receipt = some receipt) :
    state.acknowledged = state.applied.changes := by
  simp [acknowledged, h, hpassed, hdurable]

/-- LOSSLESS: what a policy lets through and the artifact of the poison are the whole batch. -/
theorem applyBatch_covers {file : Option (List (CdcPoisonRecord V))}
    {idempotency : CDCIdempotencyReport}
    (hfile : (classify identity stream batch.changes).records ≠ [] →
      file = some (classify identity stream batch.changes).records)
    (hblockers : policyBlockers policy (classify identity stream batch.changes) idempotency = []) :
    ∀ c ∈ batch.changes,
      c ∈ (applyBatch policy (classify identity stream batch.changes) batch).changes ∨
        QuarantinedIn file c := by
  intro c hc
  by_cases hrecords : (classify identity stream batch.changes).records = []
  · exact .inl (by rw [applyBatch, if_pos hrecords]; exact hc)
  · rcases mem_classify identity stream hc with hclean | ⟨r, hr, hrc⟩
    · cases hmode : policy.poisonMode with
      | failClosed => simp [policyBlockers, hrecords, hmode] at hblockers
      | quarantineAndContinue =>
        refine .inl ?_
        rw [applyBatch, if_neg hrecords, hmode]
        exact hclean
    · exact .inr ⟨_, hfile hrecords, r, hr, hrc⟩

/-- CORRECT: a batch that is settled without a blocker is acknowledged or in the artifact, and the
    acknowledged part is in the sink. -/
theorem settleBatch_spec : Triple (fun _ => True)
    (settleBatch identity env stream policy outputDir start batch : Tick S V (TickState V))
    (fun state w => state.batch = batch ∧ (state.blockers = [] →
      (∀ c ∈ batch.changes, c ∈ state.acknowledged ∨ QuarantinedIn (w.quarantine outputDir) c) ∧
        ∀ c ∈ state.acknowledged, c ∈ w.landed)) fun _ => True := by
  -- the artifact is written before anything else is decided, and stays
  let Written (w : CdcWorld S V) : Prop :=
    (classify identity stream batch.changes).records ≠ [] →
      w.quarantine outputDir = some (classify identity stream batch.changes).records
  refine Triple.bind (Q := fun _ _ => True) (Triple.ask (fun _ _ _ h => h) fun _ h => h)
    fun _ => ?_
  refine Triple.bind (Q := fun _ => Written) ?_ fun _ => ?_
  · refine Triple.ite (fun _ => ?_) fun hnone => Triple.pure fun w _ h => absurd h hnone
    exact Triple.ask (fun _ w _ _ _ => Function.update_self ..) fun _ _ => trivial
  refine Triple.bind (Q := fun _ => Written) (Triple.ask (fun _ _ _ h => h) fun _ _ => trivial)
    fun _ => Triple.ite (fun h => ?_) fun h => ?_
  · set applied := applyBatch policy (classify identity stream batch.changes) batch
    refine Triple.bind (Q := fun receipt w => Written w ∧
        (env.apply applied = .returns receipt ∧ ∀ c ∈ env.landed applied, c ∈ w.landed))
      (Triple.ask (fun receipt w happly hw => ⟨hw, happly, fun c hc =>
        List.mem_append_right _ hc⟩) fun _ _ => trivial)
      fun receipt => Triple.pure ?_
    rintro w ⟨hw, happly, hlanded⟩
    refine ⟨rfl, fun hblockers => ?_⟩
    obtain ⟨hsink, -⟩ := List.append_eq_nil_iff.mp hblockers
    obtain ⟨hpassed, hdurable, hnone⟩ :=
      receipt_of_sinkBlockers (List.append_eq_nil_iff.mp hsink).2
    rw [TickState.acknowledged_of_receipt hpassed hdurable rfl]
    exact ⟨applyBatch_covers hw h.1, fun c hc =>
      hlanded c (env.durable _ _ happly hpassed hdurable hnone c hc)⟩
  · refine Triple.pure fun w hw => ⟨rfl, fun hblockers => ⟨fun c hc => ?_, nofun⟩⟩
    rcases applyBatch_covers hw hblockers c hc with hin | hin
    · exact absurd ⟨hblockers, .inl (List.length_pos_of_mem hin)⟩ h
    · exact .inr hin

/-- A settled tick keeps the batch it was given. -/
theorem settleBatch_batch {w w' : CdcWorld S V} {state : TickState V}
    (h : settleBatch identity env stream policy outputDir start batch w = (.returned state, w')) :
    state.batch = batch := by
  have hspec := (settleBatch_spec : Triple _
    (settleBatch identity env stream policy outputDir start batch) _ _) w trivial
  rw [h] at hspec
  exact hspec.1

variable {reader : CDCReader S V}

/-- CORRECT: a tick that gets through its apply without a blocker, however it ends, has its batch
    in the sink and the artifact. -/
theorem runOnce_settles {w w₁ : CdcWorld S V} {state : TickState V}
    (hsettle : settleTick identity reader env stream policy outputDir w = (.returned state, w₁))
    (hblockers : state.blockers = []) : ∀ c ∈ state.batch.changes,
      c ∈ (runOnce identity reader env stream policy outputDir w).2.landed ∨
        QuarantinedIn ((runOnce identity reader env stream policy outputDir w).2.quarantine
          outputDir) c := by
  have hspec : Triple (fun _ => True) (settleTick identity reader env stream policy outputDir)
      (fun state w => state.blockers = [] → ∀ c ∈ state.batch.changes,
        c ∈ w.landed ∨ QuarantinedIn (w.quarantine outputDir) c) fun _ => True :=
    Triple.bind (Q := fun _ _ => True) (fun s _ => by split <;> trivial) fun r =>
      settleBatch_spec.weaken (fun _ h => h) (fun state _ h hb c hc => by
        rw [h.1] at hc
        exact ((h.2 hb).1 c hc).imp_left ((h.2 hb).2 c)) fun _ h => h
  have hdone := hspec w trivial
  rw [hsettle] at hdone
  obtain ⟨offset, hfinish⟩ := finish_only env policy state w₁
  have hrun : (runOnce identity reader env stream policy outputDir w).2 =
      { w₁ with offset := offset } := by
    rw [← hfinish, runOnce, bind_apply, hsettle]
  rw [hrun]
  exact hdone hblockers

/-- The sink only gains. -/
theorem runOnce_landed : Always (fun w w' : CdcWorld S V => ∀ c ∈ w.landed, c ∈ w'.landed)
    (runOnce identity reader env stream policy outputDir) := by
  have : IsTrans (CdcWorld S V) fun w w' => ∀ c ∈ w.landed, c ∈ w'.landed :=
    ⟨fun _ _ _ h k c hc => k c (h c hc)⟩
  have : Std.Refl fun w w' : CdcWorld S V => ∀ c ∈ w.landed, c ∈ w'.landed := ⟨fun _ _ hc => hc⟩
  refine Always.bind (Always.bind (Always.bind (fun _ _ hc => hc) fun _ => Always.bind ?_ fun _ =>
    Always.bind (fun _ _ hc => hc) fun _ => Always.pure) fun _ =>
      settleBatch_keeps.mono fun h => h.2) fun state => (finish_only env policy state).mono ?_
  · exact Always.bind (quiet_keeps _ |>.mono fun h => h.2) fun _ _ _ hc => hc
  · rintro _ _ ⟨_, rfl⟩
    exact fun _ hc => hc

end Dpone.Cdc
