import Dpone.Cdc.LogicalSlot

/-! Where every change of a logical slot is.

    A get function consumes what it returns, so a tick that does not get through its apply loses
    what it read. That is the only way a change can go missing, apart from a setup that is told to
    drop the slot: every other change is pending, in the sink, or in the artifact of its tick. -/

namespace Dpone.Cdc
open Dpone.Schemes Dpone.Schemes.Program

variable {P σ V : Type}

/-! ### What a tick reads -/

section Definitions
variable (identity : IdentityPayload V → Str) (parsers : MessageParsers P σ V)

/-- The head of the tick: setup, start offset and the slot read. -/
def SlotTick.fetchRows (t : SlotTick P V) :
    Tick (SlotState P σ) V (Option Str × List (SlotMessage P)) := do
  onSource (setupSlot t.config t.calls)
  let start ← loadOffset t.env
  let rows ← onSource (readRows t.config t.calls t.policy.maxChanges)
  return (start, rows)

/-- The tick up to the sink's answer. -/
def SlotTick.settle (t : SlotTick P V) : Tick (SlotState P σ) V (TickState V) :=
  settleTick identity (logicalReader parsers t.config t.calls) t.env t.stream t.policy t.outputDir

/-- The messages a tick's get function returned to it. -/
def SlotTick.received (t : SlotTick P V) (w : SlotWorld P σ V) : List (SlotMessage P) :=
  match (t.fetchRows w).1 with
  | .returned (_, rows) => rows
  | _ => []

/-- The parser's state after some rows. -/
def parserAfter (config : PostgresLogicalCDCReaderConfig) (p : σ) (rows : List (SlotMessage P)) :
    σ :=
  rows.foldl (fun p row => (parseRow parsers config p row).2) p

/-- The change that a received message is parsed as. -/
def SlotTick.ReadsAs (t : SlotTick P V) (w : SlotWorld P σ V) (m : SlotMessage P)
    (c : CDCChange V) : Prop :=
  ∃ before after, t.received w = before ++ m :: after ∧
    (parseRow parsers t.config (parserAfter parsers t.config w.source.parser before) m).1 =
      .ok (some c)

/-- The tick got an answer from the sink, or had no need of one, and nothing blocks it. -/
def SlotTick.GetsThroughApply (t : SlotTick P V) (w : SlotWorld P σ V) : Prop :=
  ∃ state, (t.settle identity parsers w).1 = .returned state ∧ state.blockers = []

/-- The change is in the sink, or in the artifact the tick left. -/
def SlotTick.Settles (t : SlotTick P V) (w now : SlotWorld P σ V) (c : CDCChange V) : Prop :=
  c ∈ now.landed ∨ QuarantinedIn ((t.run identity parsers w).2.quarantine t.outputDir) c

/-- Where a produced message is, after a history. -/
def Accounted (τ : List (SlotWorld P σ V × SlotEvent P V)) (now : SlotWorld P σ V)
    (m : SlotMessage P) : Prop :=
  now.source.StillReturned m ∨ ∃ w t, (w, .tick t) ∈ τ ∧
    ((t.config.dropExistingSlot ∧ m ∈ w.source.pending) ∨
      m ∈ t.received w ∧ (t.GetsThroughApply identity parsers w →
        ∀ c, t.ReadsAs parsers w m c → t.Settles identity parsers w now c))

end Definitions

/-! ### Step lemmas of the calls -/

/-- STEP: setup keeps the parser and the log, and what is pending unless it drops the slot. -/
def SetupKeeps (drops : Prop) (s s' : SlotState P σ) : Prop :=
  s'.parser = s.parser ∧ s'.produced = s.produced ∧ (drops ∨ ∀ m ∈ s.pending, m ∈ s'.pending)

variable {drops : Prop}

instance : IsTrans (SlotState P σ) (SetupKeeps drops) where
  trans _ _ _ h k := by
    refine ⟨k.1.trans h.1, k.2.1.trans h.2.1, ?_⟩
    rcases h.2.2, k.2.2 with ⟨hd | h, hd | k⟩
    · exact .inl hd
    · exact .inl hd
    · exact .inl hd
    · exact .inr fun m hm => k m (h m hm)

instance : Std.Refl (SetupKeeps (P := P) (σ := σ) drops) where
  refl _ := ⟨rfl, rfl, .inr fun _ hm => hm⟩

theorem Always.peek {R : SlotState P σ → SlotState P σ → Prop} [Std.Refl R] {α : Type}
    (f : SlotState P σ → α) : Always R (fun s => (.returned (f s), s) : SlotProgram P σ α) :=
  fun s => Std.Refl.refl s

variable {config : PostgresLogicalCDCReaderConfig} {calls : SlotCalls P}

theorem dropSlot_keeps (h : drops) :
    Always (SetupKeeps drops) (dropSlot calls : SlotProgram P σ Unit) := by
  refine Always.ask (fun _ => ⟨rfl, rfl, .inl h⟩) fun s => ?_
  split
  · exact ⟨rfl, rfl, .inl h⟩
  · exact Std.Refl.refl s

theorem createPublicationIfMissing_keeps :
    Always (SetupKeeps drops) (createPublicationIfMissing calls : SlotProgram P σ Unit) := by
  refine Always.bind (Always.ask (fun _ => Std.Refl.refl _) fun _ => Std.Refl.refl _) fun _ =>
    Always.bind (Always.peek _) fun _ => Always.ite Always.pure ?_
  refine Always.ask (fun _ => ⟨rfl, rfl, .inr fun _ hm => hm⟩) fun s => ?_
  split
  · exact ⟨rfl, rfl, .inr fun _ hm => hm⟩
  · exact Std.Refl.refl s

theorem createSlotIfMissing_keeps :
    Always (SetupKeeps drops) (createSlotIfMissing calls : SlotProgram P σ Unit) := by
  refine Always.bind (Always.ask (fun _ => Std.Refl.refl _) fun _ => Std.Refl.refl _) fun _ =>
    Always.bind (Always.peek _) fun _ => Always.ite Always.pure ?_
  refine Always.ask (fun _ => ⟨rfl, rfl, .inr fun _ hm => hm⟩) fun s => ?_
  split
  · exact ⟨rfl, rfl, .inr fun _ hm => hm⟩
  · exact Std.Refl.refl s

theorem setupSlot_keeps : Always (SetupKeeps (config.dropExistingSlot = true))
    (setupSlot config calls : SlotProgram P σ Unit) := by
  refine Always.bind ?_ fun _ => Always.bind (Always.ite createPublicationIfMissing_keeps
    Always.pure) fun _ => Always.ite createSlotIfMissing_keeps Always.pure
  by_cases h : config.dropExistingSlot
  · rw [if_pos h]; exact dropSlot_keeps h
  · rw [if_neg h]; exact Always.pure

/-- STEP: of what is pending or newly produced, everything is pending afterwards or in `rows`,
    except for what is dropped. -/
structure Covers (drops : Prop) (rows : List (SlotMessage P)) (s s' : SlotState P σ) : Prop where
  parser : s'.parser = s.parser
  pending : ∀ m ∈ s.pending, drops ∨ m ∈ s'.pending ∨ m ∈ rows
  produced : ∀ m ∈ s'.produced, m ∈ s.produced ∨ m ∈ s'.pending ∨ m ∈ rows

theorem Covers.refl (s : SlotState P σ) : Covers False [] s s :=
  ⟨rfl, fun _ hm => .inr (.inl hm), fun _ hm => .inl hm⟩

/-- Setup, then calls that drop nothing. -/
theorem Covers.after_setup {rows : List (SlotMessage P)} {s s₁ s' : SlotState P σ}
    (h : SetupKeeps drops s s₁) (k : Covers False rows s₁ s') : Covers drops rows s s' := by
  refine ⟨k.parser.trans h.1, fun m hm => ?_, fun m hm => ?_⟩
  · rcases h.2.2 with hd | h
    · exact .inl hd
    · exact .inr ((k.pending m (h m hm)).resolve_left id)
  · rw [← h.2.1]; exact k.produced m hm

theorem commit_covers (s : SlotState P σ) (transaction : List (SlotMessage P)) :
    Covers False [] s (s.commit transaction) := by
  unfold SlotState.commit
  cases hs : s.slot with
  | none => exact Covers.refl s
  | some pending =>
    refine ⟨rfl, fun m hm => .inr (.inl ?_), fun m hm => ?_⟩
    · rw [SlotState.pending, hs] at hm
      rw [SlotState.pending, Option.getD_some, List.flatten_append]
      exact List.mem_append_left _ hm
    · refine (List.mem_append.mp hm).imp_right fun hm => .inl ?_
      rw [SlotState.pending, Option.getD_some, List.flatten_append]
      exact List.mem_append_right _ (by simpa using hm)

theorem commits_cover : ∀ (transactions : List (List (SlotMessage P))) (s : SlotState P σ),
    Covers False [] s (transactions.foldl SlotState.commit s)
  | [], s => Covers.refl s
  | t :: ts, s => by
      have h := commit_covers s t
      have k := commits_cover ts (s.commit t)
      refine ⟨k.parser.trans h.parser, fun m hm => ?_, fun m hm => ?_⟩
      · rcases h.pending m hm with hd | hm | hm
        · exact .inl hd
        · exact k.pending m hm
        · cases hm
      · rcases k.produced m hm with hm | hm
        · rcases h.produced m hm with hm | hm | hm
          · exact .inl hm
          · exact .inr ((k.pending m hm).resolve_left id)
          · cases hm
        · exact .inr hm

/-- STEP: a get function that returns has consumed what it returns, and nothing else. -/
theorem getChanges_covers (maxChanges : ℤ) (u : SlotState P σ) :
    Triple (· = u) (getChanges calls maxChanges) (fun rows s' => Covers False rows u s')
      (fun s' => Covers False [] u s') := by
  rintro s rfl
  have hcommits := commits_cover calls.committed s
  unfold getChanges
  generalize calls.committed.foldl SlotState.commit s = now at hcommits
  cases hnow : now.slot with
  | none => cases calls.getChanges <;> simpa [hnow] using hcommits
  | some pending =>
    cases calls.getChanges with
    | raises e => simpa [hnow] using hcommits
    | stops => simpa [hnow] using hcommits
    | returns a =>
      have hsplit : ∀ m ∈ now.pending, m ∈ (takeTransactions maxChanges 0 pending).2.flatten ∨
          m ∈ (takeTransactions maxChanges 0 pending).1.flatten := by
        intro m hm
        rw [SlotState.pending, hnow] at hm
        exact (mem_takeTransactions.mp hm).symm
      simp only [hnow]
      refine ⟨hcommits.parser, fun m hm => ?_, fun m hm => ?_⟩
      · rcases hcommits.pending m hm with hd | hm | hm
        · exact hd.elim
        · exact .inr (hsplit m hm)
        · cases hm
      · rcases hcommits.produced m hm with hm | hm | hm
        · exact .inl hm
        · exact .inr (hsplit m hm)
        · cases hm

theorem readRows_covers (maxChanges : ℤ) (u : SlotState P σ) :
    Triple (· = u) (readRows config calls maxChanges) (fun rows s' => Covers False rows u s')
      (fun s' => Covers False [] u s') := by
  refine Triple.ite (fun _ => getChanges_covers maxChanges u) fun _ => Triple.raise ?_
  rintro s rfl
  exact Covers.refl s

/-- STEP: what the head of a tick does to the slot. -/
theorem SlotTick.fetchRows_covers (t : SlotTick P V) (u : SlotWorld P σ V) :
    Triple (· = u) t.fetchRows
      (fun r w => Covers (t.config.dropExistingSlot = true) r.2 u.source w.source)
      (fun w => Covers (t.config.dropExistingSlot = true) [] u.source w.source) := by
  have hsetup : Triple (· = u) (onSource (setupSlot t.config t.calls))
      (fun _ w => SetupKeeps (t.config.dropExistingSlot = true) u.source w.source)
      (fun w => Covers (t.config.dropExistingSlot = true) [] u.source w.source) :=
    (onSource_triple (Triple.of_always setupSlot_keeps u.source)).weaken
      (fun _ h => congrArg _ h) (fun _ _ h => h) fun _ h => Covers.after_setup h (Covers.refl _)
  refine hsetup.bind fun _ => Triple.bind (Q := fun _ w =>
    SetupKeeps (t.config.dropExistingSlot = true) u.source w.source) ?_ fun start => ?_
  · refine Triple.bind (Q := fun _ w => SetupKeeps _ u.source w.source)
      (Triple.ask (fun _ _ _ h => h) fun _ h => Covers.after_setup h (Covers.refl _)) fun _ _ h => h
  · refine Triple.bind (Q := fun rows w => Covers _ rows u.source w.source) ?_
      fun rows => Triple.pure fun _ h => h
    refine Triple.of_forall fun w hw => (onSource_triple (readRows_covers _ w.source)).weaken
      (fun _ h => congrArg _ h) (fun _ _ h => ?_) fun _ h => ?_
    · exact Covers.after_setup hw h
    · exact Covers.after_setup hw h

/-! ### Step lemmas of the tick -/

variable {parsers : MessageParsers P σ V} {identity : IdentityPayload V → Str}

/-- FRAME: the slot and its log. -/
def SlotKept (s s' : SlotState P σ) : Prop := s'.slot = s.slot ∧ s'.produced = s.produced

instance : IsTrans (SlotState P σ) SlotKept where
  trans _ _ _ h k := ⟨k.1.trans h.1, k.2.trans h.2⟩

instance : Std.Refl (SlotKept (P := P) (σ := σ)) where
  refl _ := ⟨rfl, rfl⟩

theorem decodeRows_kept : ∀ (rows : List (SlotMessage P)) (changes : List (CDCChange V))
    (highWatermark : Option Str), Always SlotKept (decodeRows parsers config rows changes highWatermark)
  | [], _, _ => fun _ => ⟨rfl, rfl⟩
  | row :: rows, changes, _ => fun s => by
      unfold decodeRows
      rcases parseRow parsers config s.parser row with ⟨e | change, p⟩
      · exact ⟨rfl, rfl⟩
      · exact decodeRows_kept rows _ _ { s with parser := p }

/-- LOSSLESS: a loop that returns has every change its rows are parsed as. -/
theorem decodeRows_collects : ∀ (rows : List (SlotMessage P)) {changes : List (CDCChange V)}
    {highWatermark : Option Str} {s s' : SlotState P σ} {batch : CDCBatch V},
    decodeRows parsers config rows changes highWatermark s = (.returned batch, s') →
    (∀ c ∈ changes, c ∈ batch.changes) ∧ ∀ before m after c, rows = before ++ m :: after →
      (parseRow parsers config (parserAfter parsers config s.parser before) m).1 = .ok (some c) →
      c ∈ batch.changes
  | [], _, _, _, _, _, h => by
      cases h
      exact ⟨fun _ hc => hc, fun before _ _ _ hrows => by simp at hrows⟩
  | row :: rows, changes, _, s, _, batch, h => by
      unfold decodeRows at h
      cases hparse : parseRow parsers config s.parser row with
      | mk result p =>
        rw [hparse] at h
        cases result with
        | error e => cases h
        | ok change =>
          obtain ⟨hkept, hrest⟩ := decodeRows_collects rows h
          refine ⟨fun c hc => hkept c (List.mem_append_left _ hc), ?_⟩
          rintro (_ | ⟨_, before⟩) m after c hrows hm
          · cases hrows
            rw [parserAfter, List.foldl_nil, hparse] at hm
            cases hm
            exact hkept c (by simp)
          · cases hrows
            refine hrest before m after c rfl ?_
            rw [parserAfter, List.foldl_cons, hparse] at hm
            exact hm

theorem SlotTick.fetchBatch_eq (t : SlotTick P V) :
    (fetchBatch (logicalReader parsers t.config t.calls) t.env t.policy :
      Tick (SlotState P σ) V (Option Str × CDCBatch V)) = (do
        let (start, rows) ← t.fetchRows
        let batch ← onSource (decodeRows parsers t.config rows [] none)
        return (start, batch)) := by
  simp [fetchBatch, SlotTick.fetchRows, logicalReader, readSlotBatch, onSource_bind]

/-- What the tick reads is in the batch it settles. -/
theorem SlotTick.settle_reads {t : SlotTick P V} {w w₁ : SlotWorld P σ V} {state : TickState V}
    (h : t.settle identity parsers w = (.returned state, w₁)) {m : SlotMessage P} {c : CDCChange V}
    (hc : t.ReadsAs parsers w m c) : c ∈ state.batch.changes := by
  obtain ⟨before, after, hrows, hparse⟩ := hc
  have hcovers := t.fetchRows_covers w w rfl
  unfold SlotTick.received at hrows
  rw [SlotTick.settle, settleTick, t.fetchBatch_eq, bind_apply, bind_apply] at h
  rcases hfetch : t.fetchRows w with ⟨⟨start, rows⟩ | e | _, u⟩ <;> rw [hfetch] at h hcovers hrows
  · change rows = before ++ m :: after at hrows
    simp only [bind_apply, onSource] at h
    cases hdecode : decodeRows parsers t.config rows [] none u.source with
    | mk result s =>
      rw [hdecode] at h
      cases result with
      | raised e => cases h
      | stopped => cases h
      | returned batch =>
        have hbatch : state.batch = batch := by
          change settleBatch identity t.env t.stream t.policy t.outputDir start batch
            { u with source := s } = _ at h
          exact settleBatch_batch h
        rw [hbatch]
        rw [← hcovers.parser] at hparse
        exact (decodeRows_collects rows hdecode).2 before m after c hrows hparse
  · cases h
  · cases h

/-- CORRECT: what a tick reads, and gets through its apply, it settles. -/
theorem SlotTick.settles {t : SlotTick P V} {w : SlotWorld P σ V} {m : SlotMessage P}
    {c : CDCChange V} (h : t.GetsThroughApply identity parsers w) (hc : t.ReadsAs parsers w m c) :
    t.Settles identity parsers w (t.run identity parsers w).2 c := by
  obtain ⟨state, hstate, hblockers⟩ := h
  have hsettle : t.settle identity parsers w =
      (.returned state, (t.settle identity parsers w).2) := Prod.ext hstate rfl
  exact runOnce_settles hsettle hblockers c (SlotTick.settle_reads hsettle hc)

/-- The rest of a tick leaves the slot alone. -/
theorem SlotTick.run_slot (t : SlotTick P V) (identity : IdentityPayload V → Str)
    (parsers : MessageParsers P σ V) (w : SlotWorld P σ V) :
    SlotKept (t.fetchRows w).2.source (t.run identity parsers w).2.source := by
  let Kept (w w' : SlotWorld P σ V) : Prop := SlotKept w.source w'.source
  have : IsTrans (SlotWorld P σ V) Kept := ⟨fun _ _ _ h k => IsTrans.trans _ _ _ h k⟩
  have : Std.Refl Kept := ⟨fun _ => ⟨rfl, rfl⟩⟩
  rw [SlotTick.run, runOnce, settleTick, t.fetchBatch_eq]
  simp only [bind_assoc]
  refine Always.after (R := Kept) (fun r => Always.bind ?_ fun batch => Always.bind ?_ fun state =>
    (finish_only _ _ state).mono ?_) w
  · exact fun w => decodeRows_kept r.2 [] none w.source
  · exact settleBatch_keeps.mono fun h => ⟨by rw [h.1], by rw [h.1]⟩
  · rintro _ _ ⟨_, rfl⟩
    exact ⟨rfl, rfl⟩

theorem SlotTick.received_covers (t : SlotTick P V) (w : SlotWorld P σ V) :
    Covers (t.config.dropExistingSlot = true) (t.received w) w.source (t.fetchRows w).2.source := by
  have hcovers := t.fetchRows_covers w w rfl
  unfold SlotTick.received
  rcases hfetch : t.fetchRows w with ⟨⟨start, rows⟩ | e | _, u⟩ <;> rw [hfetch] at hcovers <;>
    exact hcovers

/-- STEP: what a tick does to the slot. -/
theorem SlotTick.run_covers (t : SlotTick P V) (identity : IdentityPayload V → Str)
    (parsers : MessageParsers P σ V) (w : SlotWorld P σ V) :
    (∀ m ∈ w.source.pending, t.config.dropExistingSlot = true ∨
      m ∈ (t.run identity parsers w).2.source.pending ∨ m ∈ t.received w) ∧
    (∀ m ∈ (t.run identity parsers w).2.source.produced, m ∈ w.source.produced ∨
      m ∈ (t.run identity parsers w).2.source.pending ∨ m ∈ t.received w) := by
  obtain ⟨hslot, hproduced⟩ := t.run_slot identity parsers w
  have hcovers := t.received_covers w
  have hpending : (t.run identity parsers w).2.source.pending =
      (t.fetchRows w).2.source.pending := congrArg (fun slot => (slot.getD []).flatten) hslot
  rw [hpending, hproduced]
  exact ⟨hcovers.pending, hcovers.produced⟩

/-! ### Every history -/

variable {τ : List (SlotWorld P σ V × SlotEvent P V)} {w w' : SlotWorld P σ V} {m : SlotMessage P}

/-- Where a message was, it is after one more step, unless the step is a tick that takes it. -/
theorem Accounted.later {e : SlotEvent P V} (h : Accounted identity parsers τ w m)
    (hpending : m ∈ w.source.pending → Accounted identity parsers (τ ++ [(w, e)]) w' m)
    (hlanded : ∀ c ∈ w.landed, c ∈ w'.landed) :
    Accounted identity parsers (τ ++ [(w, e)]) w' m := by
  rcases h with h | ⟨u, t, ht, h⟩
  · exact hpending (stillReturned_iff.mp h)
  · refine .inr ⟨u, t, List.mem_append_left _ ht, h.imp_right fun ⟨hm, hsettled⟩ => ⟨hm, ?_⟩⟩
    exact fun hthrough c hc => (hsettled hthrough c hc).imp_left (hlanded c)

/-- A commit leaves every message accounted for. -/
theorem Accounted.commit {transaction : List (SlotMessage P)}
    (h : ∀ m ∈ w.source.produced, Accounted identity parsers τ w m)
    (hm : m ∈ (w.source.commit transaction).produced) :
    Accounted identity parsers (τ ++ [(w, .commit transaction)])
      { w with source := w.source.commit transaction } m := by
  have hcovers := commit_covers w.source transaction
  have hnow : ∀ m ∈ (w.source.commit transaction).pending,
      Accounted identity parsers (τ ++ [(w, .commit transaction)])
        { w with source := w.source.commit transaction } m :=
    fun m hm => .inl (stillReturned_iff.mpr hm)
  rcases hcovers.produced m hm with hm | hm | hm
  · refine (h m hm).later (fun hm => ?_) fun _ hc => hc
    rcases hcovers.pending m hm with hd | hm | hm
    · exact hd.elim
    · exact hnow m hm
    · cases hm
  · exact hnow m hm
  · cases hm

/-- So does a tick. -/
theorem Accounted.tick {t : SlotTick P V}
    (h : ∀ m ∈ w.source.produced, Accounted identity parsers τ w m)
    (hm : m ∈ (t.run identity parsers w).2.source.produced) :
    Accounted identity parsers (τ ++ [(w, .tick t)]) (t.run identity parsers w).2 m := by
  have hcovers := t.run_covers identity parsers w
  have hreceived : m ∈ t.received w →
      Accounted identity parsers (τ ++ [(w, .tick t)]) (t.run identity parsers w).2 m :=
    fun hm => .inr ⟨w, t, by simp, .inr ⟨hm, fun hthrough c hc => t.settles hthrough hc⟩⟩
  rcases hcovers.2 m hm with hm | hm | hm
  · refine (h m hm).later (fun hm => ?_) (runOnce_landed w)
    rcases hcovers.1 m hm with hd | hm' | hm'
    · exact .inr ⟨w, t, by simp, .inl ⟨hd, hm⟩⟩
    · exact .inl (stillReturned_iff.mpr hm')
    · exact hreceived hm'
  · exact .inl (stillReturned_iff.mpr hm)
  · exact hreceived hm

/-- LOSSLESS: after any history of commits, restarts and ticks with failures anywhere, every message
    the slot has produced is still returned by a later read, or was returned to a tick; and if that
    tick got through its apply without a blocker, the change it read the message as is in the sink
    or in the artifact the tick wrote. Only a setup that drops the slot takes anything else. -/
theorem slot_messages_accounted
    (h : Run (SlotEvent.step identity parsers) (SlotWorld.start parsers) τ w) :
    ∀ m ∈ w.source.produced, Accounted identity parsers τ w m := by
  induction h with
  | nil => intro m hm; cases hm
  | @snoc τ w w' e hrun hstep ih =>
    intro m hm
    cases e with
    | commit transaction => cases hstep; exact Accounted.commit ih hm
    | tick t => cases hstep; exact Accounted.tick ih hm
    | restart =>
      cases hstep
      exact (ih m hm).later (fun hm => .inl (stillReturned_iff.mpr hm)) fun _ hc => hc

/-! One order is inserted and read as text; the sink accepts it, or is not there. -/

def orderMessage : SlotMessage Str where
  lsn := "0/16B3748".toList
  xid := some "731".toList
  data := some "table public.orders: INSERT: id[integer]:7".toList

def orderChange : CDCChange ℕ where
  operation := .insert
  data := [("id".toList, some 7)]
  position := orderMessage.lsn
  sourceSchema := "public".toList
  sourceTable := "orders".toList
  transactionId := orderMessage.xid
  metadata := [("plugin".toList, "test_decoding".toList)]

def orderParsers : MessageParsers Str Unit ℕ where
  fresh := ()
  pgoutput _ _ _ _ := (.ok none, ())
  testDecoding _ _ data := .ok (if data = orderMessage.data then some orderChange else none)

def orderIdentity (p : IdentityPayload ℕ) : Str := p.position

/-- A tick in which every call returns, but for the sink's. -/
def orderTick (sink : Answer PyError CdcApplyReceipt) : SlotTick Str ℕ where
  config := { plugin := "test_decoding".toList }
  calls :=
    { dropSlot := .returns (), droppedOnFailure := false, selectPublication := .returns (),
      createPublication := .returns (), publishedOnFailure := false, selectSlot := .returns (),
      createSlot := .returns (), createdOnFailure := false, committed := [],
      getChanges := .returns () }
  env :=
    { loadOffset := .returns (), classify := .returns (), quarantine := .returns (),
      quarantineFile := .kept, evaluate := .returns (), apply := fun _ => sink,
      landed := fun b => match sink with | .returns _ => b.changes | _ => []
      durable := fun b r h _ _ _ c hc => by rw [h]; exact hc
      saveOffset := .returns (), savedOnFailure := false, report := .returns () }
  stream := { streamId := [], routeId := [], pipelineName := [], uniqueKey := ["id".toList] }
  policy := {}
  outputDir := "out".toList

def orderReceipt : CdcApplyReceipt where
  passed := true
  durable := true
  rowsApplied := 1
  rowsDeleted := 0
  blockers := []
  warnings := []
  metrics := []

section Order
variable (sink : Answer PyError CdcApplyReceipt)

/-- The slot is created. -/
def orderCreated : SlotWorld Str Unit ℕ :=
  ((orderTick sink).run orderIdentity orderParsers (SlotWorld.start orderParsers)).2

/-- The order commits. -/
def orderCommitted : SlotWorld Str Unit ℕ :=
  { orderCreated sink with source := (orderCreated sink).source.commit [orderMessage] }

/-- A tick reads it. -/
def orderRead : SlotWorld Str Unit ℕ :=
  ((orderTick sink).run orderIdentity orderParsers (orderCommitted sink)).2

def orderHistory : List (SlotWorld Str Unit ℕ × SlotEvent Str ℕ) :=
  [(SlotWorld.start orderParsers, .tick (orderTick sink)),
    (orderCreated sink, .commit [orderMessage]), (orderCommitted sink, .tick (orderTick sink))]

theorem orderHistory_run : Run (SlotEvent.step orderIdentity orderParsers)
    (SlotWorld.start orderParsers) (orderHistory sink) (orderRead sink) :=
  Run.cons rfl (Run.cons rfl (Run.cons rfl .nil))

end Order

theorem applied_order_is_accounted :
    (orderRead (.returns orderReceipt)).landed = [orderChange] ∧
      Accounted orderIdentity orderParsers (orderHistory (.returns orderReceipt))
        (orderRead (.returns orderReceipt)) orderMessage :=
  ⟨by decide, slot_messages_accounted (orderHistory_run _) orderMessage (by decide)⟩

/-- A tick whose sink raises has consumed what it read. -/
theorem failed_apply_loses_order :
    ∃ τ w, Run (SlotEvent.step orderIdentity orderParsers) (SlotWorld.start orderParsers) τ w ∧
      orderMessage ∈ w.source.produced ∧ ¬ w.source.StillReturned orderMessage ∧
      orderChange ∉ w.landed ∧ ∀ outputDir, ¬ QuarantinedIn (w.quarantine outputDir) orderChange :=
  ⟨_, _, orderHistory_run (.raises .databaseError), by decide,
    fun h => absurd (stillReturned_iff.mp h) (by decide), by decide,
    fun outputDir ⟨_, h, _⟩ => nomatch h⟩

end Dpone.Cdc
