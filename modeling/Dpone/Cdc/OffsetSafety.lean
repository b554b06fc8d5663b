import Dpone.Schemes.Run
import Dpone.Cdc.Runtime

/-! Offset safety of one stream, over any sequence of ticks.

    An offset may move past a change once the change is in the sink or in a quarantine artifact. The
    sink keeps what it has taken. An artifact is kept only until a poisoned batch is quarantined in
    the same directory: then it is replaced, and the offset stands past changes that are nowhere. A
    tick `Spares` what lies behind the offset when it replaces no record of the kind. -/

namespace Dpone.Cdc
open Dpone.Schemes Dpone.Schemes.Program

/-- The durable state of a stream, with the changes a receipt that passed and was durable has been
    given for. -/
structure StreamHistory (S V : Type) where
  world : CdcWorld S V
  applied : List (CDCChange V)

/-- What one tick is given, and how its calls end. -/
structure TickCall (V : Type) where
  env : TickEnv V
  policy : CdcRuntimePolicy
  outputDir : Str

/-- A tick of the stream, or the source moving under it. -/
inductive StreamEvent (S V : Type) where
  | tick (call : TickCall V)
  | sourceMoves (source : S)

variable {S V : Type}

section Stream
variable (identity : IdentityPayload V → Str) (reader : CDCReader S V) (stream : CdcRuntimeStream)

/-- The changes one tick obtains a durable receipt for. -/
def tickAcknowledged (call : TickCall V) (w : CdcWorld S V) : List (CDCChange V) :=
  match (settleTick identity reader call.env stream call.policy call.outputDir w).1 with
  | .returned state => state.acknowledged
  | _ => []

def StreamHistory.after (h : StreamHistory S V) : StreamEvent S V → StreamHistory S V
  | .tick call =>
    { world := (runOnce identity reader call.env stream call.policy call.outputDir h.world).2
      applied := h.applied ++ tickAcknowledged identity reader stream call h.world }
  | .sourceMoves source => { h with world := { h.world with source := source } }

/-- The stream takes any event. -/
def StreamStep (h : StreamHistory S V) (event : StreamEvent S V) (h' : StreamHistory S V) : Prop :=
  h.after identity reader stream event = h'

end Stream

/-- An offset-driven reader, with the changes at or before each offset: none before the first, and
    a batch holds every change after its start up to its next offset. -/
structure OffsetDriven (reader : CDCReader S V) (upTo : Option Str → CDCChange V → Prop) :
    Prop where
  unstarted : ∀ c, ¬ upTo none c
  contiguous : ∀ {start limit s batch s'}, reader.readBatch start limit s = (.returned batch, s') →
    ∀ {next}, batch.nextOffset = some next →
      ∀ c, upTo (some next) c → upTo start c ∨ c ∈ batch.changes

/-- INVARIANT: every change at or before the stored offset was applied under a durable receipt or
    is in an artifact. -/
def OffsetSafe (upTo : Option Str → CDCChange V → Prop) (h : StreamHistory S V) : Prop :=
  ∀ c, upTo h.world.offset c →
    c ∈ h.applied ∨ ∃ dir, QuarantinedIn (h.world.quarantine dir) c

/-- The calls of a tick that decide whether a poisoned batch touches the artifact. -/
def TickEnv.rewrites (env : TickEnv V) : Bool :=
  match env.classify, env.quarantine, env.quarantineFile with
  | .returns _, .returns _, _ => true
  | .returns _, _, file => file ≠ .kept
  | _, _, _ => false

/-- A tick that quarantines a poisoned batch spares what is behind the stored offset: each of these
    changes that the artifact of its directory records is also applied, or recorded elsewhere. -/
def Spares (identity : IdentityPayload V → Str) (reader : CDCReader S V)
    (stream : CdcRuntimeStream) (upTo : Option Str → CDCChange V → Prop) (h : StreamHistory S V)
    (call : TickCall V) : Prop :=
  ∀ {start batch w}, fetchBatch reader call.env call.policy h.world =
      (.returned (start, batch), w) →
    (classify identity stream batch.changes).records ≠ [] → call.env.rewrites →
      ∀ c, upTo h.world.offset c → QuarantinedIn (h.world.quarantine call.outputDir) c →
        c ∈ h.applied ∨ ∃ dir ≠ call.outputDir, QuarantinedIn (h.world.quarantine dir) c

/-! ### What a tick may touch -/

/-- FRAME: nothing but the source. -/
def OnlySource (w w' : CdcWorld S V) : Prop := ∃ source, w' = { w with source := source }

instance : IsTrans (CdcWorld S V) OnlySource where
  trans := by
    rintro w _ _ ⟨_, rfl⟩ ⟨source, rfl⟩
    exact ⟨source, rfl⟩

instance : Std.Refl (OnlySource (S := S) (V := V)) where
  refl w := ⟨w.source, rfl⟩

/-- FRAME: the offset stays, and of the artifacts at most the one of `dir` is touched. -/
structure OnlyArtifact (dir : Str) (touched : Prop) (w w' : CdcWorld S V) : Prop where
  offset : w'.offset = w.offset
  others : ∀ d ≠ dir, w'.quarantine d = w.quarantine d
  untouched : ¬ touched → w'.quarantine = w.quarantine

variable {dir : Str} {touched : Prop}

instance : IsTrans (CdcWorld S V) (OnlyArtifact dir touched) where
  trans _ _ _ h k :=
    { offset := k.offset.trans h.offset
      others := fun d hd => (k.others d hd).trans (h.others d hd)
      untouched := fun ht => (k.untouched ht).trans (h.untouched ht) }

instance : Std.Refl (OnlyArtifact (S := S) (V := V) dir touched) where
  refl _ := ⟨rfl, fun _ _ => rfl, fun _ => rfl⟩

variable {identity : IdentityPayload V → Str} {reader : CDCReader S V} {env : TickEnv V}
  {stream : CdcRuntimeStream} {policy : CdcRuntimePolicy} {outputDir : Str} {start : Option Str}
  {batch : CDCBatch V} {upTo : Option Str → CDCChange V → Prop}

theorem onSource_only {α : Type} (x : Program S PyError α) :
    Always OnlySource (onSource x : Tick S V α) := fun w => ⟨(x w.source).2, rfl⟩

theorem fetchBatch_only : Always OnlySource (fetchBatch reader env policy : Tick S V _) := by
  refine Always.bind (onSource_only _) fun _ => Always.bind ?_ fun _ =>
    Always.bind (onSource_only _) fun _ => Always.pure
  exact Always.bind (Always.ask (fun w => Std.Refl.refl w) fun w => Std.Refl.refl w)
    fun _ w => Std.Refl.refl w

/-- CORRECT: a batch is read from the stored offset. -/
theorem fetchBatch_read {w w' : CdcWorld S V}
    (h : fetchBatch reader env policy w = (.returned (start, batch), w')) :
    ∃ s s', reader.readBatch w.offset policy.maxChanges s = (.returned batch, s') := by
  obtain ⟨⟨⟩, w₁, hsetup, h⟩ := returned_of_bind h
  obtain ⟨source, rfl⟩ : OnlySource w w₁ := by
    have := onSource_only reader.setup w
    rwa [hsetup] at this
  obtain ⟨offset, w₂, hload, h⟩ := returned_of_bind h
  obtain ⟨⟨⟩, w₃, hquiet, hload⟩ := returned_of_bind hload
  obtain ⟨given, w₄, hread, h⟩ := returned_of_bind h
  cases h
  cases hload
  unfold quiet ask at hquiet
  cases hanswer : env.loadOffset <;> rw [hanswer] at hquiet <;> cases hquiet
  obtain ⟨hbatch, -⟩ := Prod.ext_iff.mp hread
  exact ⟨_, _, Prod.ext hbatch rfl⟩

/-- FRAME: settling a batch touches the artifact of its directory only, and only for poison. -/
theorem settleBatch_only : Always (OnlyArtifact outputDir
      ((classify identity stream batch.changes).records ≠ [] ∧ env.rewrites))
    (settleBatch identity env stream policy outputDir start batch : Tick S V _) := by
  intro w
  unfold settleBatch
  rw [bind_apply]
  cases hclassify : env.classify with
  | raises e => simpa [quiet, ask, hclassify] using Std.Refl.refl w
  | stops => simpa [quiet, ask, hclassify] using Std.Refl.refl w
  | returns _ =>
    refine Always.bind (x := quarantinePoison env outputDir _) ?_ (fun _ => Always.bind
      (Always.ask (fun w => Std.Refl.refl w) fun w => Std.Refl.refl w) fun _ => Always.ite
        (Always.bind (Always.ask (fun w => ?_) fun w => ?_) fun _ => Always.pure) Always.pure) w
    · unfold quarantinePoison
      by_cases hrecords : (classify identity stream batch.changes).records = []
      · rw [if_neg (not_not.mpr hrecords)]
        exact Always.pure
      · rw [if_pos hrecords]
        intro w
        unfold writeQuarantine ask
        cases hquarantine : env.quarantine <;> cases hfile : env.quarantineFile <;>
          constructor <;> simp_all [TickEnv.rewrites, Function.update_of_ne]
    · exact ⟨rfl, fun _ _ => rfl, fun _ => rfl⟩
    · exact ⟨rfl, fun _ _ => rfl, fun _ => rfl⟩

/-- What is behind the offset survives the settling of a batch. -/
theorem survives_settle {h : StreamHistory S V} {call : TickCall V} {w₀ w₁ : CdcWorld S V}
    (hsafe : OffsetSafe upTo h) (hspares : Spares identity reader stream upTo h call)
    (hfetch : fetchBatch reader call.env call.policy h.world = (.returned (start, batch), w₀))
    (hquarantine : w₀.quarantine = h.world.quarantine)
    (honly : OnlyArtifact call.outputDir
      ((classify identity stream batch.changes).records ≠ [] ∧ call.env.rewrites) w₀ w₁) :
    ∀ c, upTo h.world.offset c → c ∈ h.applied ∨ ∃ dir, QuarantinedIn (w₁.quarantine dir) c := by
  intro c hc
  rcases hsafe c hc with happlied | ⟨dir, hdir⟩
  · exact .inl happlied
  by_cases htouched : (classify identity stream batch.changes).records ≠ [] ∧ call.env.rewrites
  · -- another artifact than the one of this tick records the change
    have helsewhere : c ∈ h.applied ∨
        ∃ dir ≠ call.outputDir, QuarantinedIn (h.world.quarantine dir) c := by
      by_cases hhere : dir = call.outputDir
      · exact hspares hfetch htouched.1 htouched.2 c hc (hhere ▸ hdir)
      · exact .inr ⟨dir, hhere, hdir⟩
    refine helsewhere.imp_right fun ⟨d, hd, hrecorded⟩ => ⟨d, ?_⟩
    rwa [honly.others d hd, hquarantine]
  · refine .inr ⟨dir, ?_⟩
    rwa [honly.untouched htouched, hquarantine]

/-- A tick that is cut off before the sink's answer leaves what it has reached. -/
theorem after_unsettled {h : StreamHistory S V} {call : TickCall V} {w₁ : CdcWorld S V}
    {o : Outcome PyError (TickState V)}
    (hsettle : settleTick identity reader call.env stream call.policy call.outputDir h.world =
      (o, w₁)) (ho : ∀ state, o ≠ .returned state) :
    h.after identity reader stream (.tick call) = { world := w₁, applied := h.applied } := by
  cases o with
  | returned state => exact absurd rfl (ho state)
  | raised e => simp [StreamHistory.after, tickAcknowledged, runOnce, bind_apply, hsettle]
  | stopped => simp [StreamHistory.after, tickAcknowledged, runOnce, bind_apply, hsettle]

theorem after_settled {h : StreamHistory S V} {call : TickCall V} {w₁ : CdcWorld S V}
    {state : TickState V}
    (hsettle : settleTick identity reader call.env stream call.policy call.outputDir h.world =
      (.returned state, w₁)) :
    ∃ w₂, OffsetMoves state w₁ w₂ ∧ h.after identity reader stream (.tick call) =
      { world := w₂, applied := h.applied ++ state.acknowledged } := by
  refine ⟨_, finish_moves call.env call.policy state w₁, congrArg₂ StreamHistory.mk ?_ ?_⟩
  · rw [runOnce, bind_apply, hsettle]
  · rw [tickAcknowledged, hsettle]

/-- STEP: a tick that spares what is behind the offset keeps it accounted for, however it ends. -/
theorem offset_safe_tick (hreader : OffsetDriven reader upTo) {h : StreamHistory S V}
    {call : TickCall V} (hsafe : OffsetSafe upTo h)
    (hspares : Spares identity reader stream upTo h call) :
    OffsetSafe upTo (h.after identity reader stream (.tick call)) := by
  have hsource : OnlySource h.world (fetchBatch reader call.env call.policy h.world).2 :=
    fetchBatch_only h.world
  rcases hfetch : fetchBatch reader call.env call.policy h.world with
    ⟨⟨start, batch⟩ | e | _, w₀⟩ <;> rw [hfetch] at hsource <;> obtain ⟨source, rfl⟩ := hsource
  · have honly : OnlyArtifact call.outputDir _ { h.world with source := source }
        (settleBatch identity call.env stream call.policy call.outputDir start batch
          { h.world with source := source }).2 := settleBatch_only _
    have hspec := (settleBatch_spec : Triple (fun _ => True)
      (settleBatch identity call.env stream call.policy call.outputDir start batch) _ _)
      { h.world with source := source } trivial
    have hsurvives := survives_settle hsafe hspares hfetch rfl honly
    have hsettleTick : settleTick identity reader call.env stream call.policy call.outputDir
        h.world = settleBatch identity call.env stream call.policy call.outputDir start batch
          { h.world with source := source } := by
      rw [settleTick, bind_apply, hfetch]
    rcases hsettle : settleBatch identity call.env stream call.policy call.outputDir start batch
      { h.world with source := source } with ⟨state | e | _, w₁⟩ <;>
      rw [hsettle] at honly hspec hsurvives hsettleTick
    · obtain ⟨w₂, hmoves, hafter⟩ := after_settled hsettleTick
      rw [hafter]
      rcases hmoves with rfl | ⟨hblockers, next, hnext, rfl⟩
      · intro c hc
        rw [honly.offset] at hc
        exact (hsurvives c hc).imp_left (List.mem_append_left _)
      · -- the offset has moved: what lies in between is in the batch
        intro c hc
        obtain ⟨s, s', hread⟩ := fetchBatch_read hfetch
        rw [hspec.1] at hnext
        rcases hreader.contiguous hread hnext c hc with hold | hnew
        · exact (hsurvives c hold).imp_left (List.mem_append_left _)
        · exact ((hspec.2 hblockers).1 c hnew).imp (List.mem_append_right _)
            fun hquarantined => ⟨_, hquarantined⟩
    · rw [after_unsettled hsettleTick nofun]
      intro c hc
      rw [honly.offset] at hc
      exact hsurvives c hc
    · rw [after_unsettled hsettleTick nofun]
      intro c hc
      rw [honly.offset] at hc
      exact hsurvives c hc
  · rw [after_unsettled (o := .raised e) (by rw [settleTick, bind_apply, hfetch]) nofun]
    exact hsafe
  · rw [after_unsettled (o := .stopped) (by rw [settleTick, bind_apply, hfetch]) nofun]
    exact hsafe

/-- RUN: from no offset, over any ticks and source moves, every change at or before the stored
    offset was applied under a durable receipt or is in an artifact, in every state the stream goes
    through, as long as each tick spares what is behind the offset. -/
theorem offset_safe_of_spared (hreader : OffsetDriven reader upTo) {w₀ : CdcWorld S V}
    (hstart : w₀.offset = none) {τ : List (StreamHistory S V × StreamEvent S V)}
    {h : StreamHistory S V}
    (hrun : Run (StreamStep identity reader stream) { world := w₀, applied := [] } τ h)
    (hspares : ∀ p ∈ τ, ∀ call, p.2 = .tick call →
      Spares identity reader stream upTo p.1 call) :
    (∀ p ∈ τ, OffsetSafe upTo p.1) ∧ OffsetSafe upTo h := by
  let Sparing (h : StreamHistory S V) (event : StreamEvent S V) : Prop :=
    ∀ call, event = .tick call → Spares identity reader stream upTo h call
  have hsparing : ∀ p ∈ τ, Sparing p.1 p.2 := hspares
  refine Run.invariant_while ?_ ?_ hrun hsparing
  · intro c hc
    rw [hstart] at hc
    exact absurd hc (hreader.unstarted c)
  · rintro h event _ hsafe hspares rfl
    cases event with
    | tick call => exact offset_safe_tick hreader hsafe (hspares call rfl)
    | sourceMoves source => exact hsafe

/-! ### Two poisoned ticks -/

/-- An insert at a position, without a key. -/
def keylessInsert (position : Str) : CDCChange ℕ where
  operation := .insert
  data := []
  position := position
  sourceSchema := []
  sourceTable := []

/-- A log of two events, read one a batch. -/
def twoEventReader : CDCReader Unit ℕ where
  setup := pure ()
  readBatch start _ := pure <|
    match start with
    | none => ⟨[keylessInsert ['1']], some ['1'], none⟩
    | some position =>
      if position = ['1'] then ⟨[keylessInsert ['2']], some ['2'], none⟩
      else ⟨[], some position, none⟩

def twoEventsUpTo : Option Str → CDCChange ℕ → Prop
  | none, _ => False
  | some position, c => c = keylessInsert ['1'] ∨ position ≠ ['1'] ∧ c = keylessInsert ['2']

theorem twoEventReader_driven : OffsetDriven twoEventReader twoEventsUpTo where
  unstarted _ h := h
  contiguous := by
    intro start limit s batch s' hread next hnext c hc
    cases start with
    | none =>
      cases hread
      cases hnext
      exact .inr (by simpa [twoEventsUpTo] using hc)
    | some position =>
      by_cases hfirst : position = ['1']
      · subst hfirst
        cases hread
        cases hnext
        rcases hc with hc | ⟨-, hc⟩
        · exact .inl (.inl hc)
        · exact .inr (by simpa using hc)
      · simp only [twoEventReader, hfirst, if_false] at hread
        cases hread
        cases hnext
        exact .inl hc

def keylessStream : CdcRuntimeStream := ⟨['s'], ['r'], ['p'], []⟩

/-- A tick whose poison is quarantined in a directory and committed. -/
def keylessTick (dir : Str) : StreamEvent Unit ℕ := .tick
  { env :=
      { loadOffset := .returns (), classify := .returns (), quarantine := .returns ()
        quarantineFile := .written, evaluate := .returns (), apply := fun _ => .stops
        landed := fun _ => [], durable := nofun, saveOffset := .returns ()
        savedOnFailure := false, report := .returns () }
    policy := { poisonMode := .quarantineAndContinue }
    outputDir := dir }

def keylessStart : StreamHistory Unit ℕ := ⟨⟨(), none, [], fun _ => none⟩, []⟩

def afterTick (dir : Str) (h : StreamHistory Unit ℕ) : StreamHistory Unit ℕ :=
  h.after (·.position) twoEventReader keylessStream (keylessTick dir)

/-- Ticks of the two events, each into a directory. -/
theorem two_ticks_run (first second : Str) :
    Run (StreamStep (·.position) twoEventReader keylessStream) keylessStart
      [(keylessStart, keylessTick first), (afterTick first keylessStart, keylessTick second)]
      (afterTick second (afterTick first keylessStart)) :=
  .snoc (.snoc .nil rfl) rfl

theorem offset_safe_of_spared_two_directories :
    OffsetSafe twoEventsUpTo (afterTick ['b'] (afterTick ['a'] keylessStart)) := by
  refine (offset_safe_of_spared twoEventReader_driven rfl (two_ticks_run ['a'] ['b']) ?_).2
  intro p hp call hcall start batch w _ _ _ c _ ⟨records, hfile, _⟩
  -- neither directory holds an artifact yet
  rcases List.mem_cons.mp hp with rfl | hp
  · cases hcall
    cases hfile
  · rw [List.mem_singleton.mp hp] at hcall hfile
    cases hcall
    have hnone : (afterTick ['a'] keylessStart).world.quarantine ['b'] = none := rfl
    rw [hnone] at hfile
    cases hfile

/-- The second poisoned tick of a directory replaces the only record of the first. -/
theorem second_quarantine_loses_first : OffsetDriven twoEventReader twoEventsUpTo ∧
    ∃ τ h, Run (StreamStep (·.position) twoEventReader keylessStream) keylessStart τ h ∧
      ¬ OffsetSafe twoEventsUpTo h := by
  refine ⟨twoEventReader_driven, _, _, two_ticks_run ['a'] ['a'], fun hsafe => ?_⟩
  rcases hsafe (keylessInsert ['1']) (.inl rfl) with
    happlied | ⟨dir, records, hfile, r, hr, hchange⟩
  · cases happlied
  · have hartifacts : (afterTick ['a'] (afterTick ['a'] keylessStart)).world.quarantine =
        Function.update (afterTick ['a'] keylessStart).world.quarantine ['a']
          (some (classify (·.position) keylessStream [keylessInsert ['2']]).records) := rfl
    rw [hartifacts] at hfile
    by_cases hdir : dir = ['a']
    · rw [hdir, Function.update_self] at hfile
      cases hfile
      cases List.mem_singleton.mp hr
      revert hchange
      decide
    · rw [Function.update_of_ne hdir] at hfile
      have hnone : (afterTick ['a'] keylessStart).world.quarantine dir = none :=
        Function.update_of_ne hdir ..
      rw [hnone] at hfile
      cases hfile

end Dpone.Cdc
