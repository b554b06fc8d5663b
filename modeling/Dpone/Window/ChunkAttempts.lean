import Dpone.Window.ChunkStaging

/-! Every attempt of a chunk is staged at most once, after the older ones are gone.

    The record bounds the attempts whose staging may have begun, and the worker only stages a number
    above it. So the attempts on a chunk's trace grow, whatever calls fail and wherever processes
    stop: the record is written before the staging begins, and losing that write loses nothing. -/

namespace Dpone.Window
open Dpone.Schemes Program

/-- Attempt `j` was confirmed removed, and its staging has not begun since. -/
def DiscardedSince (j : ℕ) : List StagingEvent → Prop
  | [] => False
  | .discarded i :: older => i = j ∨ DiscardedSince j older
  | .staged i :: older => i ≠ j ∧ DiscardedSince j older

/-- Every staging has a number above all older ones, which were all discarded before it. -/
def StagedInOrder : List StagingEvent → Prop
  | [] => True
  | .discarded _ :: older => StagedInOrder older
  | .staged k :: older =>
      (∀ j, .staged j ∈ older → j < k ∧ DiscardedSince j older) ∧ StagedInOrder older

/-- The record bounds the attempts whose staging began. -/
structure ChunkSafe (w : ChunkWorld) : Prop where
  ordered : StagedInOrder w.trace
  recorded : ∀ j, .staged j ∈ w.trace → ∃ r, w.record = some r ∧ j ≤ r.attempt

/-- Attempt `a` is on record, and no later one was staged. -/
structure Held (a : ℕ) (w : ChunkWorld) : Prop where
  ordered : StagedInOrder w.trace
  onRecord : ∃ r, w.record = some r ∧ r.attempt = a
  bounded : ∀ j, .staged j ∈ w.trace → j ≤ a

/-- Attempt `a` may be staged next. -/
def Ready (a : ℕ) (trace : List StagingEvent) : Prop :=
  ∀ j, .staged j ∈ trace → j < a ∧ DiscardedSince j trace

/-- A receipt of attempt `k` of the chunk. -/
def ReceiptOf (chunk : WindowChunk) (k : ℕ) (r : ChunkReceipt) : Prop :=
  r.chunkId = chunk.chunkId ∧ r.attemptId = attemptId chunk.chunkId k

theorem Held.safe {a : ℕ} {w : ChunkWorld} (h : Held a w) : ChunkSafe w := by
  obtain ⟨r, hr, rfl⟩ := h.onRecord
  exact ⟨h.ordered, fun j hj => ⟨r, hr, h.bounded j hj⟩⟩

/-! ### One external call -/

section Calls
variable {env : ChunkEnvironment} {α : Type} {P E : ChunkWorld → Prop}

theorem call_spec {replies : ℕ → Answer WindowError α} {asked returned : List StagingEvent}
    {Q : α → ChunkWorld → Prop}
    (hQ : ∀ a w n, P w → Q a { w with calls := n, trace := returned ++ asked ++ w.trace })
    (hE : ∀ w n, P w → E { w with calls := n, trace := asked ++ w.trace }) :
    Triple P (call replies asked returned) Q E := by
  intro w hw
  unfold call Program.ask
  cases replies w.calls with
  | returns a => exact hQ a w _ hw
  | raises e => exact hE w _ hw
  | stops => exact hE w _ hw

/-- A condition that does not look at the call counter. -/
def Uncounted (P : ChunkWorld → Prop) : Prop := ∀ w n, P w → P { w with calls := n }

theorem uncounted_held (a : ℕ) : Uncounted (Held a) := fun _ _ h => ⟨h.1, h.2, h.3⟩

theorem uncounted_safe : Uncounted ChunkSafe := fun _ _ h => ⟨h.1, h.2⟩

/-- FRAME: a call without events keeps what does not look at the counter. -/
theorem noEvent_spec {replies : ℕ → Answer WindowError α} (hP : Uncounted P)
    (hE : ∀ w, P w → E w) : Triple P (call replies [] []) (fun _ => P) E :=
  call_spec (fun _ w n hw => hP w n hw) fun w n hw => hE _ (hP w n hw)

theorem silently_spec (hP : Uncounted P) (hE : ∀ w, P w → E w) :
    Triple P (silently env) (fun _ => P) E :=
  noEvent_spec hP hE

/-- STEP: a record that bounds the stagings may be written, and losing the write is harmless. -/
theorem writeRecord_spec {a : ℕ} (phase : ChunkPhase) {F : List StagingEvent → Prop}
    (hP : ∀ w, P w → ChunkSafe w ∧ (∀ j, .staged j ∈ w.trace → j ≤ a) ∧ F w.trace) :
    Triple P (writeRecord env a phase) (fun _ w => Held a w ∧ F w.trace) ChunkSafe := by
  intro w hw
  obtain ⟨hsafe, hbound, hframe⟩ := hP w hw
  unfold writeRecord
  by_cases h : a ≤ 2
  · have hheld : ∀ n, Held a { w with record := some ⟨a, phase, h⟩, calls := n } :=
      fun n => ⟨hsafe.ordered, ⟨_, rfl, rfl⟩, hbound⟩
    have hfailed : ∀ n, ChunkSafe (if env.takesEffect w.calls
        then { w with record := some ⟨a, phase, h⟩, calls := n } else { w with calls := n }) := by
      intro n
      split
      · exact (hheld n).safe
      · exact uncounted_safe w n hsafe
    rw [dif_pos h]
    unfold Program.ask
    cases env.reply w.calls with
    | returns _ => exact ⟨hheld _, hframe⟩
    | raises e => exact hfailed _
    | stops => exact hfailed _
  · rw [dif_neg h]
    exact hsafe

theorem writeHeld_spec {a : ℕ} (phase : ChunkPhase) :
    Triple (Held a) (writeRecord env a phase) (fun _ => Held a) ChunkSafe :=
  (writeRecord_spec phase (F := fun _ => True)
    fun _ hw => ⟨hw.safe, hw.bounded, trivial⟩).weaken (fun _ h => h) (fun _ _ h => h.1) fun _ h => h

end Calls

/-! ### One attempt -/

variable {env : ChunkEnvironment} {chunk : WindowChunk}

theorem verifiedReceipt_spec {P E : ChunkWorld → Prop} (receipt : ChunkReceipt) (a : ℕ)
    (hE : ∀ w, P w → E w) :
    Triple P (verifiedReceipt chunk receipt a) (fun r w => P w ∧ r = receipt ∧ ReceiptOf chunk a r)
      E := by
  refine Triple.bind (Q := fun _ w => P w ∧ ReceiptOf chunk a receipt)
    (Triple.raiseWhen (fun w hw _ => hE w hw) fun w hw hn => ⟨hw, ?_⟩) fun _ => ?_
  · simp only [not_or, not_not] at hn
    exact hn
  · exact Triple.pure fun w hw => ⟨hw.1, rfl, hw.2⟩

/-- What a staging leaves behind: the attempt on record, and its receipt if there is one. -/
def StagedAs (chunk : WindowChunk) (a : ℕ) (staged : Option ChunkReceipt) (w : ChunkWorld) : Prop :=
  Held a w ∧ ∀ r, staged = some r → ReceiptOf chunk a r

theorem stageOnce_spec (a : ℕ) :
    Triple (fun w => Held a w ∧ Ready a w.trace) (stageOnce env chunk a) (StagedAs chunk a) (Held a) := by
  have hbegin : ∀ w n, Held a w ∧ Ready a w.trace →
      Held a { w with calls := n, trace := .staged a :: w.trace } := by
    rintro w n ⟨hheld, hready⟩
    refine ⟨⟨hready, hheld.ordered⟩, hheld.onRecord, fun j hj => ?_⟩
    rcases List.mem_cons.mp hj with heq | hj
    · cases heq
      exact le_rfl
    · exact hheld.bounded j hj
  refine Triple.bind (Q := fun _ => Held a)
    (call_spec (fun _ w n hw => hbegin w n hw) fun w n hw => hbegin w n hw) fun receipt => ?_
  refine Triple.bind (verifiedReceipt_spec receipt a fun _ h => h) fun r => ?_
  refine Triple.bind (Q := fun _ w => Held a w ∧ ReceiptOf chunk a r)
    (call_spec (fun _ w n hw => ⟨uncounted_held a w n hw.1, hw.2.2⟩)
      fun w n hw => uncounted_held a w n hw.1) fun observed => ?_
  refine Triple.bind (Q := fun _ w => Held a w ∧ ReceiptOf chunk a r)
    (Triple.raiseWhen (fun w hw _ => hw.1) fun w hw _ => hw) fun _ => ?_
  refine Triple.pure fun w hw => ⟨hw.1, fun r' hr' => ?_⟩
  obtain rfl := Option.some.inj hr'
  exact hw.2

theorem failAttempt_spec (a : ℕ) (e : WindowError) :
    Triple (Held a) (failAttempt env a e) (StagedAs chunk a) ChunkSafe :=
  Triple.bind (writeHeld_spec _) fun _ => Triple.raise fun _ hw => hw.safe

theorem reconcileTransient_spec (a : ℕ) (e : WindowError) :
    Triple (Held a) (reconcileTransient env chunk a e) (StagedAs chunk a) ChunkSafe := by
  have hsafe : ∀ w, Held a w → ChunkSafe w := fun _ hw => hw.safe
  refine Triple.bind (silently_spec (uncounted_held a) hsafe) fun _ => ?_
  refine Triple.bind (noEvent_spec (uncounted_held a) hsafe) fun observed => ?_
  cases observed with
  | some r =>
    refine Triple.bind (verifiedReceipt_spec r a hsafe) fun r => ?_
    refine Triple.pure fun w hw => ⟨hw.1, fun r' hr' => ?_⟩
    obtain rfl := Option.some.inj hr'
    exact hw.2.2
  | none =>
    refine Triple.ite (fun _ => failAttempt_spec a e) fun _ => ?_
    refine Triple.bind (silently_spec (uncounted_held a) hsafe) fun _ => ?_
    exact Triple.pure fun w hw => ⟨hw, fun r hr => nomatch hr⟩

theorem handleStaging_spec (a : ℕ) (e : WindowError) :
    Triple (Held a) (handleStaging env chunk a e) (StagedAs chunk a) ChunkSafe := by
  cases e with
  | transient => exact reconcileTransient_spec a _
  | contract text => exact failAttempt_spec a _
  | outcomeUnknown text => exact failAttempt_spec a _
  | other => exact Triple.raise fun _ hw => hw.safe

theorem uncounted_stagedAs (a : ℕ) (staged : Option ChunkReceipt) :
    Uncounted (StagedAs chunk a staged) :=
  fun w n h => ⟨uncounted_held a w n h.1, h.2⟩

/-- STEP: an attempt that may be staged is on record before and after, whatever its staging does. -/
theorem stageAttempt_spec (a : ℕ) :
    Triple (fun w => ChunkSafe w ∧ Ready a w.trace) (stageAttempt env chunk a) (StagedAs chunk a)
      ChunkSafe := by
  refine Triple.bind (writeRecord_spec .staging (F := Ready a)
    fun w hw => ⟨hw.1, fun j hj => (hw.2 j hj).1.le, hw.2⟩) fun _ => ?_
  refine Triple.bind (Q := StagedAs chunk a) ?_ fun staged => ?_
  · refine Triple.finallyDo (Triple.exceptFrom (stageOnce_spec a) (fun _ h => h.safe)
      (handleStaging_spec a)) (fun staged => ?_) ?_
    · exact silently_spec (uncounted_stagedAs a staged) fun _ h => h.1.safe
    · exact silently_spec uncounted_safe fun _ h => h
  · cases staged with
    | some r =>
      refine Triple.bind (Q := fun _ w => Held a w ∧ ReceiptOf chunk a r) ?_ fun _ => ?_
      · exact writeRecord_spec _ (F := fun _ => ReceiptOf chunk a r)
          fun w hw => ⟨hw.1.safe, hw.1.bounded, hw.2 r rfl⟩
      · refine Triple.pure fun w hw => ⟨hw.1, fun r' hr' => ?_⟩
        obtain rfl := Option.some.inj hr'
        exact hw.2
    | none => exact Triple.pure fun w hw => hw

theorem DiscardedSince.cons {i j : ℕ} {trace : List StagingEvent} (h : DiscardedSince j trace) :
    DiscardedSince j (.discarded i :: trace) :=
  .inr h

/-- STEP: the discards before an attempt leave every older attempt removed. -/
theorem discardPrior_spec {a : ℕ} {G : ℕ → Prop} : ∀ prior : List ℕ,
    Triple (fun w => Held a w ∧ (∀ j, .staged j ∈ w.trace → G j ∧ (j ∉ prior → DiscardedSince j w.trace)))
      (discardPrior env prior)
      (fun _ w => Held a w ∧ ∀ j, .staged j ∈ w.trace → G j ∧ DiscardedSince j w.trace) ChunkSafe
  | [] => Triple.pure fun w hw =>
      ⟨hw.1, fun j hj => ⟨(hw.2 j hj).1, (hw.2 j hj).2 List.not_mem_nil⟩⟩
  | p :: rest => by
      refine Triple.bind (silently_spec (fun w n h => ⟨uncounted_held a w n h.1, h.2⟩)
        fun _ h => h.1.safe) fun _ => ?_
      refine Triple.bind (call_spec ?_ fun w n hw => uncounted_safe w n hw.1.safe) fun _ =>
        discardPrior_spec rest
      rintro - w n ⟨hheld, hprior⟩
      have hmem : ∀ j, .staged j ∈ StagingEvent.discarded p :: w.trace → .staged j ∈ w.trace :=
        fun j hj => (List.mem_cons.mp hj).resolve_left (by simp)
      refine ⟨⟨hheld.ordered, hheld.onRecord, fun j hj => hheld.bounded j (hmem j hj)⟩, ?_⟩
      refine fun j hj => ⟨(hprior j (hmem j hj)).1, fun hout => ?_⟩
      by_cases hp : p = j
      · exact .inl hp
      · exact ((hprior j (hmem j hj)).2 (by simp [Ne.symm hp, hout])).cons

/-- STEP: the next attempt is on record and may be staged. -/
theorem openAttempt_spec (a : ℕ) :
    Triple (Held a) (openAttempt env (a + 1)) (fun _ w => ChunkSafe w ∧ Ready (a + 1) w.trace)
      ChunkSafe := by
  refine Triple.bind (writeRecord_spec .staging (F := fun trace => ∀ j, .staged j ∈ trace → j ≤ a)
    fun w hw => ⟨hw.safe, fun j hj => Nat.le_succ_of_le (hw.bounded j hj), hw.bounded⟩) fun _ => ?_
  refine Triple.bind (silently_spec (fun w n h => ⟨uncounted_held _ w n h.1, h.2⟩)
    fun _ h => h.1.safe) fun _ => ?_
  refine (discardPrior_spec (a := a + 1) (G := (· < a + 1)) (List.range (a + 1))).weaken
    (fun w hw => ⟨hw.1, fun j hj => ?_⟩) (fun _ w hw => ⟨hw.1.safe, hw.2⟩) fun _ h => h
  have hlt : j < a + 1 := Nat.lt_succ_of_le (hw.2 j hj)
  exact ⟨hlt, fun hout => absurd (List.mem_range.mpr hlt) hout⟩

/-! ### One worker -/

/-- A receipt of one of the three attempts of the chunk. -/
def ReceiptFor (chunk : WindowChunk) (r : ChunkReceipt) : Prop := ∃ k ≤ 2, ReceiptOf chunk k r

/-- What the loop starts from: a chunk never staged, or an attempt on record. -/
def LoopStart (a : ℕ) : Option ChunkPhase → ChunkWorld → Prop
  | none, w => ChunkSafe w ∧ Ready a w.trace
  | some _, w => Held a w

theorem adoptReceipt_spec {a : ℕ} (ha : a ≤ 2) (previous : ChunkPhase) (observed : ChunkReceipt) :
    Triple (Held a) (adoptReceipt env chunk a previous observed)
      (fun r w => ChunkSafe w ∧ ReceiptFor chunk r) ChunkSafe := by
  refine Triple.bind (verifiedReceipt_spec observed a fun _ h => h.safe) fun r => ?_
  refine Triple.bind (Q := fun _ w => Held a w ∧ ReceiptOf chunk a r)
    (Triple.raiseWhen (fun w hw _ => hw.1.safe) fun w hw _ => ⟨hw.1, hw.2.2⟩) fun _ => ?_
  refine Triple.bind (writeRecord_spec _ (F := fun _ => ReceiptOf chunk a r)
    fun w hw => ⟨hw.1.safe, hw.1.bounded, hw.2⟩) fun _ => ?_
  exact Triple.pure fun w hw => ⟨hw.1.safe, a, ha, hw.2⟩

theorem chunkLoop_spec : ∀ (a : ℕ) (previous : Option ChunkPhase),
    Triple (LoopStart a previous) (chunkLoop env chunk a previous)
      (fun r w => ChunkSafe w ∧ ReceiptFor chunk r) ChunkSafe
  | a, none => by
      rw [chunkLoop]
      refine Triple.ite (fun ha => ?_) fun _ => Triple.raise fun _ hw => hw.1
      refine Triple.bind (silently_spec (fun w n h => ⟨uncounted_safe w n h.1, h.2⟩)
        fun _ h => h.1) fun _ => ?_
      refine Triple.bind (stageAttempt_spec a) fun staged => ?_
      cases staged with
      | some r => exact Triple.pure fun w hw => ⟨hw.1.safe, a, ha, hw.2 r rfl⟩
      | none =>
        exact (chunkLoop_spec a (some .staging)).weaken
          (fun w (h : StagedAs chunk a none w) => h.1) (fun _ _ h => h) fun _ h => h
  | a, some previous => by
      rw [chunkLoop]
      have hsafe : ∀ w, Held a w → ChunkSafe w := fun _ hw => hw.safe
      split
      · next ha =>
        refine Triple.bind (silently_spec (uncounted_held a) hsafe) fun _ => ?_
        refine Triple.bind (noEvent_spec (uncounted_held a) hsafe) fun observed => ?_
        cases observed with
        | some r => exact adoptReceipt_spec ha previous r
        | none =>
          refine Triple.bind (Q := fun _ => Held a)
            (Triple.raiseWhen (fun w hw _ => hw.safe) fun w hw _ => hw) fun _ => ?_
          split
          · exact Triple.bind (writeHeld_spec _) fun _ => Triple.raise hsafe
          · next hlast =>
            refine Triple.bind (openAttempt_spec a) fun _ => ?_
            refine Triple.bind (stageAttempt_spec (a + 1)) fun staged => ?_
            cases staged with
            | some r => exact Triple.pure fun w hw => ⟨hw.1.safe, a + 1, by omega, hw.2 r rfl⟩
            | none =>
              exact (chunkLoop_spec (a + 1) (some .staging)).weaken
                (fun w (h : StagedAs chunk (a + 1) none w) => h.1) (fun _ _ h => h) fun _ h => h
      · exact Triple.raise hsafe
termination_by a previous => 2 * (3 - a) + (if previous.isSome then 0 else 1)
decreasing_by
  · simp
  · simp; omega

/-- What a worker finds: the record of its chunk, or none. -/
def Read (record : Option ChunkRecord) (w : ChunkWorld) : Prop := ChunkSafe w ∧ w.record = record

theorem Read.loopStart {r : ChunkRecord} {w : ChunkWorld} (h : Read (some r) w) :
    Held r.attempt w := by
  refine ⟨h.1.ordered, ⟨r, h.2, rfl⟩, fun j hj => ?_⟩
  obtain ⟨r', hr', hle⟩ := h.1.recorded j hj
  obtain rfl := Option.some.inj (h.2.symm.trans hr')
  exact hle

/-- STEP: a worker keeps its chunk safe, and returns a receipt of it. -/
theorem chunkWorker_spec :
    Triple ChunkSafe (chunkWorker env chunk) (fun r w => ChunkSafe w ∧ ReceiptFor chunk r)
      ChunkSafe := by
  refine Triple.bind (Q := Read) ?_ fun record => ?_
  · exact Triple.bind (silently_spec uncounted_safe fun _ h => h) fun _ => fun w hw => ⟨hw, rfl⟩
  · cases record with
    | none =>
      refine (chunkLoop_spec 0 none).weaken (fun w hw => ⟨hw.1, fun j hj => ?_⟩)
        (fun _ _ h => h) fun _ h => h
      obtain ⟨r, hr, -⟩ := hw.1.recorded j hj
      exact nomatch hw.2.symm.trans hr
    | some r =>
      obtain ⟨a, phase, ha⟩ := r
      cases phase with
      | failed => exact Triple.raise fun w hw => hw.1
      | staging =>
        exact (chunkLoop_spec a _).weaken (fun w hw => Read.loopStart hw) (fun _ _ h => h)
          fun _ h => h
      | verified receipt =>
        exact (chunkLoop_spec a _).weaken (fun w hw => Read.loopStart hw) (fun _ _ h => h)
          fun _ h => h

/-! ### All chunks, over all executions -/

theorem onChunk_spec {α : Type} {x : Staging α} {Q : α → Prop} (chunkId : Str)
    (hx : Triple ChunkSafe x (fun r w => ChunkSafe w ∧ Q r) ChunkSafe) :
    Triple (fun w => ∀ id, ChunkSafe (w id)) (onChunk chunkId x)
      (fun r w => (∀ id, ChunkSafe (w id)) ∧ Q r) (fun w => ∀ id, ChunkSafe (w id)) := by
  intro w hw
  have hupdate : ∀ c, ChunkSafe c → ∀ id, ChunkSafe (Function.update w chunkId c id) := by
    intro c hc id
    rcases eq_or_ne id chunkId with rfl | hne
    · rwa [Function.update_self]
    · rw [Function.update_of_ne hne]
      exact hw id
  have h := hx (w chunkId) (hw chunkId)
  unfold onChunk
  rcases hxs : x (w chunkId) with ⟨r | e | _, c⟩ <;> rw [hxs] at h
  · exact ⟨hupdate c h.1, h.2⟩
  · exact hupdate c h
  · exact hupdate c h

theorem stageChunks_spec (envs : Str → ChunkEnvironment) {chunks : List WindowChunk}
    (e : StagingExecution chunks) :
    Triple (fun w => ∀ id, ChunkSafe (w id)) (stageChunks envs e.schedule e.plan)
      (fun rs w => (∀ id, ChunkSafe (w id)) ∧ List.Forall₂ ReceiptFor chunks rs)
      (fun w => ∀ id, ChunkSafe (w id)) := by
  have hwork : ∀ chunk : WindowChunk, Triple (fun w => ∀ id, ChunkSafe (w id))
      (onChunk chunk.chunkId (chunkWorker (envs chunk.chunkId) chunk))
      (fun r w => (∀ id, ChunkSafe (w id)) ∧ ReceiptFor chunk r)
      (fun w => ∀ id, ChunkSafe (w id)) :=
    fun chunk => onChunk_spec chunk.chunkId chunkWorker_spec
  have h := runPool_spec hwork e.schedule .other e.workers_pos e.plan.chunks
  rw [e.sameChunks] at h
  unfold stageChunks
  rwa [e.sameChunks]

/-- INVARIANT: every chunk is safe after any sequence of executions. -/
theorem afterStaging_safe (envs : Str → ChunkEnvironment) {chunks : List WindowChunk}
    (executions : List (StagingExecution chunks)) (id : Str) :
    ChunkSafe (afterStaging envs executions id) := by
  have hinit : ∀ id, ChunkSafe (StagingWorld.initial id) :=
    fun _ => ⟨trivial, fun _ hj => nomatch hj⟩
  exact Triple.runs (fun e => (stageChunks_spec envs e).weaken (fun _ h => h)
    (fun _ _ h => h.1) fun _ h => h) executions _ hinit id

/-- The attempts on a trace, newest first. -/
def stagings : List StagingEvent → List ℕ
  | [] => []
  | .discarded _ :: older => stagings older
  | .staged k :: older => k :: stagings older

theorem mem_stagings {k : ℕ} : ∀ {trace : List StagingEvent},
    k ∈ stagings trace ↔ .staged k ∈ trace
  | [] => by simp [stagings]
  | .discarded _ :: _ => by simp [stagings, mem_stagings]
  | .staged _ :: _ => by simp [stagings, mem_stagings]

/-- The attempts of a trace grow. -/
theorem stagings_pairwise : ∀ trace, StagedInOrder trace → (stagings trace).Pairwise (· > ·)
  | [], _ => .nil
  | .discarded _ :: older, h => stagings_pairwise older h
  | .staged _ :: older, h =>
      .cons (fun j hj => (h.1 j (mem_stagings.mp hj)).1) (stagings_pairwise older h.2)

/-- What is older than a staging on a trace. -/
theorem stagedInOrder_at {older : List StagingEvent} {k : ℕ} : ∀ newer,
    StagedInOrder (newer ++ .staged k :: older) →
    ∀ j, .staged j ∈ older → j < k ∧ DiscardedSince j older
  | [], h => h.1
  | .discarded _ :: newer, h => stagedInOrder_at newer h
  | .staged _ :: newer, h => stagedInOrder_at newer h.2

theorem ChunkSafe.stagings_lt {w : ChunkWorld} (h : ChunkSafe w) : ∀ k ∈ stagings w.trace, k < 3 := by
  intro k hk
  obtain ⟨r, -, hle⟩ := h.recorded k (mem_stagings.mp hk)
  have := r.ordinal
  omega

/-- Attempts of different chunks, or of different numbers, have different identities. -/
theorem attemptId_inj {c c' : Str} {k k' : ℕ} (h : attemptId c k = attemptId c' k') :
    c = c' ∧ k = k' := by
  have hdash : ∀ n, '-' ∉ decimalText n := by
    intro n hn
    obtain ⟨d, hd, heq⟩ := mem_numeral _ _ hn
    exact (digitChar_isDigit d hd).2.2.1 heq.symm
  obtain ⟨hc, hk⟩ := cut_at_last (hdash k) (hdash k') h
  refine ⟨hc, Option.some.inj ?_⟩
  rw [← decimalValue_decimalText k, hk, decimalValue_decimalText]

theorem ChunkSafe.stagings_nodup {w : ChunkWorld} (h : ChunkSafe w) : (stagings w.trace).Nodup :=
  (stagings_pairwise w.trace h.ordered).imp fun hgt => Nat.ne_of_gt hgt

theorem ChunkSafe.stagings_length {w : ChunkWorld} (h : ChunkSafe w) :
    (stagings w.trace).length ≤ 3 := by
  have hsub : stagings w.trace ⊆ List.range 3 := fun k hk =>
    List.mem_range.mpr (h.stagings_lt k hk)
  simpa using (List.subperm_of_subset h.stagings_nodup hsub).length_le

theorem receipts_of_chunks {chunks : List WindowChunk} {rs : List ChunkReceipt}
    (h : List.Forall₂ ReceiptFor chunks rs) : rs.map (·.chunkId) = chunks.map (·.chunkId) := by
  induction h with
  | nil => rfl
  | cons hr _ ih =>
    obtain ⟨_, _, hid, _⟩ := hr
    rw [List.map_cons, List.map_cons, hid, ih]

/-- CORRECT: after any executions, whatever failed and wherever processes stopped, every attempt of a
    chunk was staged at most once, at most three were, and each only after all older ones were
    discarded; attempts of different chunks never share an identity; and an execution that stages
    all chunks returns one receipt for each chunk of the plan, in the order of the plan. -/
theorem chunk_attempts_accounted (envs : Str → ChunkEnvironment) {chunks : List WindowChunk}
    (executions : List (StagingExecution chunks)) :
    (∀ id, (stagings (afterStaging envs executions id).trace).Nodup ∧
      (stagings (afterStaging envs executions id).trace).length ≤ 3) ∧
    (∀ c c' k k', attemptId c k = attemptId c' k' → c = c' ∧ k = k') ∧
    (∀ id newer older k, (afterStaging envs executions id).trace = newer ++ .staged k :: older →
      ∀ j, .staged j ∈ older → j < k ∧ DiscardedSince j older) ∧
    ∀ (e : StagingExecution chunks) (rs : List ChunkReceipt) (w : StagingWorld),
      stageChunks envs e.schedule e.plan (afterStaging envs executions) = (.returned rs, w) →
      List.Forall₂ ReceiptFor e.plan.chunks rs ∧
        rs.map (·.chunkId) = e.plan.chunks.map (·.chunkId) ∧ (rs.map (·.chunkId)).Nodup := by
  have hsafe := afterStaging_safe envs executions
  refine ⟨fun id => ⟨(hsafe id).stagings_nodup, (hsafe id).stagings_length⟩,
    fun _ _ _ _ => attemptId_inj, fun id newer older k htrace => ?_, fun e rs w hreturn => ?_⟩
  · have hordered := (hsafe id).ordered
    rw [htrace] at hordered
    exact stagedInOrder_at newer hordered
  · have h := stageChunks_spec envs e (afterStaging envs executions) hsafe
    rw [hreturn] at h
    have hids := receipts_of_chunks h.2
    rw [e.sameChunks]
    exact ⟨h.2, hids, by rw [hids]; exact e.distinct⟩

end Dpone.Window
