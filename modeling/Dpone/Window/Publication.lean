import Dpone.Window.Execution

/-! At most one publication, and nothing recorded before it is proven.

    The journal record decides what an execution may do, so the invariant ties the record to the
    trace: while the record is absent or `planned` nothing was published, and a `succeeded` record
    means that evidence and cursor were both recorded. Publishing happens in one place, right after
    the record has left `planned`; no later execution finds it there again. -/

namespace Dpone.Window
open Dpone.Schemes Program

/-- What must already have happened for an event to be in order. -/
def Justified : Event → List Event → Prop
  | .publish _, older => ∀ g, .publish g ∉ older
  | .evidence g, older => .proven g ∈ older
  | .evidenceRecorded g, older => .evidence g ∈ older
  | .advance g, older => .proven g ∈ older ∧ .evidenceRecorded g ∈ older
  | .advanced g, older => .advance g ∈ older
  | .succeeded g, older => .proven g ∈ older ∧ .evidenceRecorded g ∈ older ∧ .advanced g ∈ older ∧
      ∃ rs, .journaled (.later .published g rs) ∈ older
  | _, _ => True

/-- Every event of a trace, newest first, is justified by what is older. -/
def Ordered : List Event → Prop
  | [] => True
  | e :: older => Justified e older ∧ Ordered older

/-- A run that is over: published, evidenced and advanced, each on record. -/
def Settled (g : Str) (t : List Event) : Prop :=
  .evidenceRecorded g ∈ t ∧ .advanced g ∈ t ∧ ∃ rs, .journaled (.later .published g rs) ∈ t

/-- What the journal record says about the trace. -/
def Consistent : Option RunRecord → List Event → Prop
  | none, t | some .planned, t => ∀ g, .publish g ∉ t
  | some (.later .succeeded g _), t => Settled g t
  | some (.later _ _ _), _ => True

def Safe (w : World) : Prop := Ordered w.trace ∧ Consistent w.journal w.trace

theorem Settled.cons {g : Str} {t : List Event} (h : Settled g t) (e : Event) :
    Settled g (e :: t) := by
  obtain ⟨h1, h2, rs, h3⟩ := h
  exact ⟨.tail _ h1, .tail _ h2, rs, .tail _ h3⟩

theorem Consistent.cons {j : Option RunRecord} {t : List Event} (h : Consistent j t) {e : Event}
    (he : ∀ g, e ≠ .publish g) : Consistent j (e :: t) := by
  rcases j with _ | _ | ⟨phase, g, rs⟩
  · exact fun g hm => (List.mem_cons.mp hm).elim (fun h' => he g h'.symm) (h g)
  · exact fun g hm => (List.mem_cons.mp hm).elim (fun h' => he g h'.symm) (h g)
  · cases phase
    case succeeded => exact Settled.cons h e
    all_goals trivial

theorem Safe.cons {w : World} (h : Safe w) (e : Event) (he : ∀ g, e ≠ .publish g)
    (hj : Justified e w.trace) (n : ℕ) : Safe { w with calls := n, trace := e :: w.trace } :=
  ⟨⟨hj, h.1⟩, Consistent.cons h.2 he⟩

/-! ### One external call -/

section Calls
variable {env : Environment} {α : Type} {P E : World → Prop}

theorem ask_spec {replies : ℕ → Reply α} {asked : List Event} {answered : α → List Event}
    {Q : α → World → Prop}
    (hQ : ∀ a w n, P w → Q a { w with calls := n, trace := answered a ++ asked ++ w.trace })
    (hE : ∀ w n, P w → E { w with calls := n, trace := asked ++ w.trace }) :
    Triple P (ask replies asked answered) Q E := by
  intro w hw
  unfold ask
  cases replies w.calls with
  | returns a => exact hQ a w _ hw
  | raises e => exact hE w _ hw
  | stops => exact hE w _ hw

/-- A condition that does not look at the call counter. -/
def Timeless (P : World → Prop) : Prop := ∀ w n, P w → P { w with calls := n }

theorem silent_spec {replies : ℕ → Reply α} (hP : Timeless P) :
    Triple P (ask replies [] fun _ => []) (fun _ => P) P :=
  ask_spec (fun _ w n hw => hP w n hw) (fun w n hw => hP w n hw)

theorem quiet_spec (hP : Timeless P) : Triple P (quiet env) (fun _ => P) P := silent_spec hP

theorem journalWrite_spec {record : RunRecord} {Q : Unit → World → Prop}
    (hkeep : ∀ w n, P w → E { w with calls := n })
    (hQ : ∀ w n, P w → Q () { w with
      journal := some record, calls := n, trace := .journaled record :: w.trace })
    (hE : ∀ w n, P w → E { w with
      journal := some record, calls := n, trace := .journaled record :: w.trace }) :
    Triple P (journalWrite env record) Q E := by
  refine Triple.bind (Q := fun _ => P)
    (Triple.raiseWhen (fun w hw _ => hkeep w w.calls hw) fun _ hw _ => hw) fun _ => ?_
  intro w hw
  dsimp only
  cases env.reply w.calls with
  | returns a => exact hQ w _ hw
  | raises e =>
    cases env.takesEffect w.calls
    · exact hkeep w _ hw
    · exact hE w _ hw
  | stops =>
    cases env.takesEffect w.calls
    · exact hkeep w _ hw
    · exact hE w _ hw

theorem timeless_safe : Timeless Safe := fun _ _ h => h

end Calls

/-! ### The parts of an execution -/

variable {env : Environment}

/-- Safe, and the generation's publication has been proven. -/
def Proven (g : Str) (w : World) : Prop := Safe w ∧ .proven g ∈ w.trace

theorem timeless_proven (g : Str) : Timeless (Proven g) := fun _ _ h => h

/-- Reconciliation returns only with the proof on the trace, and forgets nothing. -/
theorem recoverPublication_spec (g : Str) {F : List Event → Prop}
    (hF : ∀ t e, F t → F (e :: t)) :
    Triple (fun w => Safe w ∧ F w.trace) (recoverPublication env g)
      (fun _ w => Proven g w ∧ F w.trace) Safe := by
  refine Triple.bind
    (Q := fun s w => Safe w ∧ (s = .published → .proven g ∈ w.trace) ∧ F w.trace)
    (ask_spec ?_ fun _ _ hw => hw.1) fun s => ?_
  · rintro s w n ⟨hw, hf⟩
    by_cases hs : s = .published
    · rw [if_pos hs]
      exact ⟨hw.cons (.proven g) (by simp) trivial n,
        fun _ => List.mem_cons_self .., hF _ _ hf⟩
    · rw [if_neg hs]
      exact ⟨hw, fun h => absurd h hs, hf⟩
  · exact Triple.raiseWhen (fun w hw _ => hw.1)
      fun w hw hs => ⟨⟨hw.1, hw.2.1 (not_not.mp hs)⟩, hw.2.2⟩

theorem recoverPublication_proves (g : Str) :
    Triple Safe (recoverPublication env g) (fun _ => Proven g) Safe :=
  (recoverPublication_spec g (F := fun _ => True) fun _ _ _ => trivial).weaken
    (fun _ h => ⟨h, trivial⟩) (fun _ _ h => h.1) fun _ h => h

/-- The record has just left `planned`: nothing was published yet, and nothing bars it. -/
def Intent (g : Str) (w : World) : Prop :=
  Safe w ∧ (∀ g', .publish g' ∉ w.trace) ∧ ∃ rs, w.journal = some (.later .publishing g rs)

def Unpublished (w : World) : Prop := Safe w ∧ ∀ g, .publish g ∉ w.trace

/-- A `publishing` record keeps any trace in order that was in order before. -/
theorem safe_write {w : World} {record : RunRecord} (h : Ordered w.trace) (n : ℕ)
    (hc : Consistent (some record) (.journaled record :: w.trace)) :
    Safe { w with journal := some record, calls := n, trace := .journaled record :: w.trace } :=
  ⟨⟨trivial, h⟩, hc⟩

theorem publishPlanned_spec :
    Triple Unpublished (publishPlanned env) (fun r => Proven r.1) Safe := by
  have hstay : Timeless Unpublished := fun _ _ h => h
  have hout : ∀ w, Unpublished w → Safe w := fun _ h => h.1
  refine Triple.bind ((quiet_spec hstay).weaken (fun _ h => h) (fun _ _ h => h) hout) fun _ => ?_
  refine Triple.bind ((silent_spec hstay).weaken (fun _ h => h) (fun _ _ h => h) hout)
    fun receipts => ?_
  refine Triple.bind ((quiet_spec hstay).weaken (fun _ h => h) (fun _ _ h => h) hout) fun _ => ?_
  refine Triple.bind ((silent_spec hstay).weaken (fun _ h => h) (fun _ _ h => h) hout)
    fun generation => ?_
  refine Triple.bind (Triple.raiseWhen (Q := fun _ => Unpublished) (fun w hw _ => hw.1)
    fun w hw _ => hw) fun _ => ?_
  -- the intent is on record before the exchange, so every exception and restart reconciles only
  refine Triple.bind (Q := fun _ => Intent (generation.getD [])) (journalWrite_spec
    (fun w n hw => hw.1) (fun w n hw => ?_) fun w n hw => safe_write hw.1.1 n trivial) fun _ => ?_
  · refine ⟨safe_write hw.1.1 n trivial, fun g hg => ?_, receipts, rfl⟩
    rcases List.mem_cons.mp hg with h | h
    · cases h
    · exact hw.2 g h
  refine Triple.bind ((quiet_spec (P := Intent (generation.getD [])) fun _ _ h => h).weaken
    (fun _ h => h) (fun _ _ h => h) fun _ h => h.1) fun _ => ?_
  have hpublish : ∀ w n, Intent (generation.getD []) w →
      Safe { w with calls := n, trace := .publish (generation.getD []) :: w.trace } := by
    rintro w n ⟨hsafe, hnew, rs, hj⟩
    exact ⟨⟨hnew, hsafe.1⟩, by rw [hj]; trivial⟩
  refine Triple.bind (Q := fun _ => Safe) (Triple.exceptDo (ask_spec (fun _ w n hw => hpublish w n hw)
    fun w n hw => hpublish w n hw) fun e => ?_) fun _ => ?_
  · exact (recoverPublication_proves _).weaken (fun _ h => h) (fun _ _ h => h.1) fun _ h => h
  refine Triple.bind (recoverPublication_proves _) fun _ => ?_
  exact Triple.pure fun _ h => h

/-- What a journaled phase says: a `succeeded` one settles its generation. -/
def Reached (phase : Phase) (g : Str) (w : World) : Prop :=
  Safe w ∧ (phase = .succeeded → Settled g w.trace)

theorem reconcileLater_spec (plan : WindowPlan) (phase : Phase) (g : Str)
    (records : List ChunkReceipt) :
    Triple (Reached phase g) (reconcileLater env plan g records)
      (fun r w => r.1 = g ∧ Proven g w ∧ (phase = .succeeded → Settled g w.trace)) Safe := by
  refine Triple.bind (Q := fun _ => Reached phase g)
    (Triple.raiseWhen (fun w hw _ => hw.1) fun w hw _ => hw) fun _ => ?_
  refine Triple.bind (Q := fun _ => Reached phase g) ?_ fun receipts => ?_
  · refine Triple.bind (Q := fun _ => Reached phase g)
      (Triple.raiseWhen (fun w hw _ => hw.1) fun w hw _ => hw) fun _ => ?_
    refine Triple.bind (Q := fun _ => Reached phase g)
      (Triple.raiseWhen (fun w hw _ => hw.1) fun w hw _ => hw) fun _ => ?_
    exact Triple.pure fun _ h => h
  refine Triple.bind (recoverPublication_spec g (F := fun t => phase = .succeeded → Settled g t)
    fun t e h hp => (h hp).cons e) fun _ => ?_
  exact Triple.pure fun _ h => ⟨rfl, h⟩

theorem complete_spec (g : Str) (receipts : List ChunkReceipt) :
    Triple (Proven g) (complete env g receipts) (fun _ w => Proven g w ∧ Settled g w.trace)
      Safe := by
  -- the facts collected on the way, all of them about a growing trace
  let Recorded (w : World) := Proven g w ∧ .journaled (.later .published g receipts) ∈ w.trace
  let Evidenced (w : World) := Recorded w ∧ .evidenceRecorded g ∈ w.trace
  let Advanced (w : World) := Evidenced w ∧ .advanced g ∈ w.trace
  refine Triple.bind (Q := fun _ => Recorded) (journalWrite_spec (fun _ _ h => h.1)
    (fun w n h => ⟨⟨safe_write h.1.1 n trivial, .tail _ h.2⟩, List.mem_cons_self ..⟩)
    fun w n h => safe_write h.1.1 n trivial) fun _ => ?_
  refine Triple.bind ((quiet_spec (P := Recorded) fun _ _ h => h).weaken (fun _ h => h)
    (fun _ _ h => h) fun _ h => h.1.1) fun _ => ?_
  refine Triple.bind (Q := fun _ => Evidenced) (ask_spec (fun _ w n h => ?_) fun w n h =>
    h.1.1.cons (.evidence g) (by simp) h.1.2 n) fun _ => ?_
  · have hcalled : Safe { w with calls := n, trace := .evidence g :: w.trace } :=
      h.1.1.cons (.evidence g) (by simp) h.1.2 n
    exact ⟨⟨⟨hcalled.cons (.evidenceRecorded g) (by simp) (List.mem_cons_self ..) n,
      .tail _ (.tail _ h.1.2)⟩, .tail _ (.tail _ h.2)⟩, List.mem_cons_self ..⟩
  refine Triple.bind (Q := fun _ => Evidenced) (journalWrite_spec (fun _ _ h => h.1.1.1)
    (fun w n h => ⟨⟨⟨safe_write h.1.1.1.1 n trivial, .tail _ h.1.1.2⟩, .tail _ h.1.2⟩, .tail _ h.2⟩)
    fun w n h => safe_write h.1.1.1.1 n trivial) fun _ => ?_
  refine Triple.bind ((quiet_spec (P := Evidenced) fun _ _ h => h).weaken (fun _ h => h)
    (fun _ _ h => h) fun _ h => h.1.1.1) fun _ => ?_
  refine Triple.bind (Q := fun _ => Advanced) (ask_spec (fun _ w n h => ?_) fun w n h =>
    h.1.1.1.cons (.advance g) (by simp) ⟨h.1.1.2, h.2⟩ n) fun _ => ?_
  · have hcalled : Safe { w with calls := n, trace := .advance g :: w.trace } :=
      h.1.1.1.cons (.advance g) (by simp) ⟨h.1.1.2, h.2⟩ n
    exact ⟨⟨⟨⟨hcalled.cons (.advanced g) (by simp) (List.mem_cons_self ..) n,
      .tail _ (.tail _ h.1.1.2)⟩, .tail _ (.tail _ h.1.2)⟩, .tail _ (.tail _ h.2)⟩,
      List.mem_cons_self ..⟩
  have hsettled : ∀ w, Advanced w → Settled g w.trace :=
    fun w h => ⟨h.1.2, h.2, receipts, h.1.1.2⟩
  exact journalWrite_spec (fun _ _ h => h.1.1.1.1)
    (fun w n h => ⟨⟨safe_write h.1.1.1.1.1 n ((hsettled w h).cons _), .tail _ h.1.1.1.2⟩,
      (hsettled w h).cons _⟩)
    fun w n h => safe_write h.1.1.1.1.1 n ((hsettled w h).cons _)

theorem openRun_spec :
    Triple Safe (openRun env) (fun r w => Safe w ∧ w.journal = some r) Safe := by
  refine Triple.bind (Q := fun j w => Safe w ∧ w.journal = j) ?_ fun j => ?_
  · exact Triple.bind (quiet_spec timeless_safe) fun _ w hw => ⟨hw, rfl⟩
  cases j with
  | some record => exact Triple.pure fun w hw => hw
  | none =>
    refine Triple.bind ((quiet_spec (P := fun w => Safe w ∧ w.journal = none)
      fun _ _ h => h).weaken (fun _ h => h) (fun _ _ h => h) fun _ h => h.1) fun _ => ?_
    have hplanned : ∀ (w : World) (n : ℕ), Safe w ∧ w.journal = none → Safe { w with
        journal := some .planned, calls := n, trace := .journaled .planned :: w.trace } := by
      rintro w n ⟨hw, hj⟩
      have hnew : Consistent none w.trace := hj ▸ hw.2
      exact safe_write hw.1 n (Consistent.cons (j := none) hnew fun g => by simp)
    refine Triple.bind (Q := fun _ w => Safe w ∧ w.journal = some .planned)
      (journalWrite_spec (fun _ _ h => h.1) (fun w n h => ⟨hplanned w n h, rfl⟩) hplanned)
      fun _ => ?_
    exact Triple.pure fun w hw => hw

/-- STEP: one execution keeps the invariant however it ends, and returns only when settled. -/
theorem run_spec (plan : WindowPlan) :
    Triple Safe (run env plan)
      (fun r w => Proven r.generation w ∧ Settled r.generation w.trace) Safe := by
  refine Triple.bind openRun_spec fun record => ?_
  cases record with
  | planned =>
    refine Triple.bind (publishPlanned_spec.weaken ?_ (fun _ _ h => h) fun _ h => h) fun r => ?_
    · rintro w ⟨hw, hj⟩
      have hnew : Consistent (some .planned) w.trace := hj ▸ hw.2
      exact ⟨hw, hnew⟩
    refine Triple.bind ((quiet_spec (timeless_proven r.1)).weaken (fun _ h => h) (fun _ _ h => h)
      fun _ h => h.1) fun _ => ?_
    refine Triple.bind (complete_spec r.1 r.2) fun _ => ?_
    exact Triple.pure fun _ h => h
  | later phase g records =>
    refine Triple.bind ((reconcileLater_spec plan phase g records).weaken ?_ (fun _ _ h => h)
      fun _ h => h) fun r => ?_
    · rintro w ⟨hw, hj⟩
      refine ⟨hw, ?_⟩
      rintro rfl
      have hset : Consistent (some (.later .succeeded g records)) w.trace := hj ▸ hw.2
      exact hset
    refine Triple.bind ((quiet_spec (P := fun w => r.1 = g ∧ Proven g w ∧
      (phase = .succeeded → Settled g w.trace)) fun _ _ h => h).weaken (fun _ h => h)
      (fun _ _ h => h) fun _ h => h.2.1.1) fun _ => ?_
    have hret : Triple (fun w => Proven r.1 w ∧ Settled r.1 w.trace)
        (pure { runId := plan.runId, generation := r.1, receipts := r.2 } : Exec WindowResult)
        (fun r w => Proven r.generation w ∧ Settled r.generation w.trace) Safe :=
      Triple.pure fun _ h => h
    by_cases hphase : phase = .succeeded
    · rw [if_neg (not_not.mpr hphase)]
      refine hret.weaken ?_ (fun _ _ h => h) fun _ h => h
      rintro w ⟨rfl, hproven, hset⟩
      exact ⟨hproven, hset hphase⟩
    · rw [if_pos hphase]
      refine Triple.bind ((complete_spec r.1 r.2).weaken ?_ (fun _ _ h => h) fun _ h => h)
        fun _ => hret
      rintro w ⟨rfl, hproven, -⟩
      exact hproven

/-! ### Whole executions -/

/-- Safe, and everything a success claims is on record. -/
def Complete (r : WindowResult) (w : World) : Prop :=
  Proven r.generation w ∧ Settled r.generation w.trace

theorem executeLeased_spec (plan : WindowPlan) (leaseTarget : Str) :
    Triple Safe (executeLeased env plan leaseTarget) Complete Safe := by
  refine Triple.bind (Q := fun _ => Safe) (Triple.raiseWhen (fun w hw _ => hw) fun w hw _ => hw)
    fun _ => ?_
  refine Triple.bind (quiet_spec timeless_safe) fun _ => ?_
  refine Triple.bind (quiet_spec timeless_safe) fun _ => ?_
  refine Triple.finallyDo (run_spec plan) (fun r => ?_) (quiet_spec timeless_safe)
  exact (quiet_spec (P := Complete r) fun _ _ h => h).weaken (fun _ h => h) (fun _ _ h => h)
    fun _ h => h.1.1

theorem execute_spec (plan : WindowPlan) : Triple Safe (execute env plan) Complete Safe := by
  refine Triple.bind (quiet_spec timeless_safe) fun _ => ?_
  refine Triple.bind (quiet_spec timeless_safe) fun _ => ?_
  refine Triple.finallyDo (executeLeased_spec plan _) (fun r => ?_) (quiet_spec timeless_safe)
  exact (quiet_spec (P := Complete r) fun _ _ h => h).weaken (fun _ h => h) (fun _ _ h => h)
    fun _ h => h.1.1

theorem attempt_spec {runId : Str} (e : Execution runId) :
    Triple Safe (attempt env e) (fun _ => Safe) Safe := by
  have hreport : ∀ r : WindowResult, Triple (Complete r)
      (fun w => (.returned (), { w with trace := .succeeded r.generation :: w.trace }) : Exec Unit)
      (fun _ => Safe) Safe := by
    rintro r w ⟨⟨hsafe, hproven⟩, hev, hadv, hpub⟩
    exact hsafe.cons (.succeeded r.generation) (by simp) ⟨hproven, hev, hadv, hpub⟩ w.calls
  unfold attempt
  cases e.callerLease with
  | none => exact Triple.bind (execute_spec e.plan) hreport
  | some leaseTarget => exact Triple.bind (executeLeased_spec e.plan leaseTarget) hreport

/-- RUN: the invariant holds after any sequence of executions. -/
theorem afterRuns_safe {runId : Str} (executions : List (Execution runId)) :
    Safe (afterRuns env executions) :=
  Triple.runs (fun e => attempt_spec e) executions World.initial ⟨trivial, fun _ h => nomatch h⟩

def Event.isPublish : Event → Bool
  | .publish _ => true
  | _ => false

theorem Ordered.split : ∀ (newer : List Event) {e : Event} {older : List Event},
    Ordered (newer ++ e :: older) → Justified e older
  | [], _, _, h => h.1
  | _ :: newer, _, _, h => Ordered.split newer h.2

theorem Ordered.publish_once : ∀ {t : List Event}, Ordered t → t.countP Event.isPublish ≤ 1
  | [], _ => by simp
  | e :: older, h => by
      have ih := Ordered.publish_once h.2
      cases e with
      | publish g =>
        have hnone : older.countP Event.isPublish = 0 := by
          refine List.countP_eq_zero.mpr fun e he => ?_
          cases e with
          | publish g' => exact absurd he (h.1 g')
          | _ => simp [Event.isPublish]
        rw [List.countP_cons, hnone]; simp [Event.isPublish]
      | _ => simpa [List.countP_cons, Event.isPublish] using ih

/-- CORRECT (at most once, in order): over every sequence of executions of a run, whatever call
    fails and wherever the process stops, `publish` is invoked at most once; evidence is written
    and the cursor advanced only after the publication of that generation has been proven; and a
    success is reported only when publication, evidence and advance are all on record. -/
theorem publish_once_proven_before_recorded {runId : Str} (executions : List (Execution runId)) :
    (afterRuns env executions).trace.countP Event.isPublish ≤ 1 ∧
    (∀ newer older g, (afterRuns env executions).trace = newer ++ .evidence g :: older →
      .proven g ∈ older) ∧
    (∀ newer older g, (afterRuns env executions).trace = newer ++ .advance g :: older →
      .proven g ∈ older) ∧
    (∀ newer older g, (afterRuns env executions).trace = newer ++ .succeeded g :: older →
      .proven g ∈ older ∧ (∃ rs, .journaled (.later .published g rs) ∈ older) ∧
        .evidenceRecorded g ∈ older ∧ .advanced g ∈ older) := by
  have hord : Ordered (afterRuns env executions).trace := (afterRuns_safe executions).1
  refine ⟨hord.publish_once, fun newer older g h => ?_, fun newer older g h => ?_,
    fun newer older g h => ?_⟩
  · exact Ordered.split newer (h ▸ hord)
  · obtain ⟨hproven, _⟩ := Ordered.split newer (h ▸ hord)
    exact hproven
  · obtain ⟨hproven, hev, hadv, hpub⟩ := Ordered.split newer (h ▸ hord)
    exact ⟨hproven, hpub, hev, hadv⟩

/-- Everything answers well, but the process stops inside `publish`, call 13. -/
def stoppedPublish : Environment where
  reply n := if n = 13 then .stops else .returns ()
  receipts _ := .returns []
  generation _ := .returns (some ['g'])
  status _ := .returns .published
  takesEffect _ := false

def emptyExecution : Execution ['r'] :=
  { plan := { runId := ['r'], targetId := ['t'], chunks := [], workers := 1 }
    sameRun := rfl, callerLease := none }

/-- The next execution finds the intent and completes the run without publishing again. -/
example : (afterRuns stoppedPublish [emptyExecution, emptyExecution]).trace =
    [.succeeded ['g'], .journaled (.later .succeeded ['g'] []), .advanced ['g'], .advance ['g'],
      .journaled (.later .evidenceComplete ['g'] []), .evidenceRecorded ['g'], .evidence ['g'],
      .journaled (.later .published ['g'] []), .proven ['g'], .publish ['g'],
      .journaled (.later .publishing ['g'] []), .journaled .planned] := by decide

end Dpone.Window
