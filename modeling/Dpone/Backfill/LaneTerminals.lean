import Mathlib.Data.List.Basic
import Dpone.Backfill.LaneMessages

/-! Each dispatch has at most one terminal transition.

    A lane is cleared right after the ledger accepted a transition of its dispatch, and only a running
    dispatch is taken to the ledger. So after an accepted call there is no other for the same claim.
    A lane may also become idle without a transition: the ledger said that the claim is no longer
    owned, the failure could not be written, or the process tree could not be stopped. -/

namespace Dpone.Backfill
open Dpone.Schemes Program

/-! ### Invariant -/

/-- Why a lane may give up a claim. -/
def Released (c : LaneClaim) (w : ParentWorld) : Prop :=
  (∃ call, .answered call c .accepted ∈ w.trace) ∨
  .answered .complete c .refused ∈ w.trace ∨
  (.answered .fail c .raised ∈ w.trace ∧ ledgerFailureWriteError ∈ w.errors) ∨
  (.unstopped c ∈ w.trace ∧ processTreeSignalError ∈ w.errors)

/-- A later call for a claim comes only when the earlier one was not accepted. -/
def FollowsNoAcceptance (newer older : LaneEvent) : Prop :=
  ∀ call call' c outcome, newer = .answered call c outcome → older ≠ .answered call' c .accepted

/-- A dispatch of a lane. -/
def Runs (w : ParentWorld) (lane : LaneId) (d : ProcessLaneDispatch) : Prop :=
  (w.lanes lane).running = some d

/-- INVARIANT: running dispatches are open on the ledger, idle lanes have released theirs. Between
    an accepted call and its clearing, the lane is the one that is closing. -/
structure ExclusiveBut (closing : Option LaneId) (w : ParentWorld) : Prop where
  known : ∀ lane d, Runs w lane d → d.toLaneClaim ∈ w.published
  single : ∀ lane lane' d d', Runs w lane d → Runs w lane' d' →
    d.toLaneClaim = d'.toLaneClaim → lane = lane'
  unsettled : ∀ lane d, Runs w lane d → closing ≠ some lane →
    ∀ call, .answered call d.toLaneClaim .accepted ∉ w.trace
  issued : ∀ call c outcome, .answered call c outcome ∈ w.trace → c ∈ w.published
  final : w.trace.Pairwise FollowsNoAcceptance
  released : ∀ c ∈ w.published, (∃ lane d, Runs w lane d ∧ d.toLaneClaim = c) ∨ Released c w

abbrev Exclusive (w : ParentWorld) : Prop := ExclusiveBut none w

variable {env : ParentEnvironment} {w w' : ParentWorld} {closing : Option LaneId} {lane : LaneId}
  {d : ProcessLaneDispatch}

theorem Released.mono {c : LaneClaim} (h : Released c w) (htrace : w.trace ⊆ w'.trace)
    (herrors : w.errors ⊆ w'.errors) : Released c w' := by
  rcases h with ⟨call, h⟩ | h | h | h
  · exact .inl ⟨call, htrace h⟩
  · exact .inr (.inl (htrace h))
  · exact .inr (.inr (.inl ⟨htrace h.1, herrors h.2⟩))
  · exact .inr (.inr (.inr ⟨htrace h.1, herrors h.2⟩))

/-- FRAME: what a lane runs, what was published and what the ledger answered. -/
theorem ExclusiveBut.frame (h : ExclusiveBut closing w)
    (hlanes : ∀ lane, (w'.lanes lane).running = (w.lanes lane).running)
    (hpublished : w'.published = w.published) (htrace : w'.trace = w.trace)
    (herrors : w.errors ⊆ w'.errors) : ExclusiveBut closing w' := by
  have hruns : ∀ lane d, Runs w' lane d ↔ Runs w lane d := fun lane d => by
    rw [Runs, Runs, hlanes lane]
  refine ⟨fun lane d hd => ?_, fun lane lane' d d' hd hd' => ?_, fun lane d hd => ?_, ?_, ?_,
    fun c hc => ?_⟩
  · exact hpublished ▸ h.known lane d ((hruns lane d).mp hd)
  · exact h.single lane lane' d d' ((hruns lane d).mp hd) ((hruns lane' d').mp hd')
  · exact htrace ▸ h.unsettled lane d ((hruns lane d).mp hd)
  · rw [htrace, hpublished]
    exact h.issued
  · rw [htrace]
    exact h.final
  · rcases h.released c (hpublished ▸ hc) with ⟨lane, d, hd, hclaim⟩ | hreleased
    · exact .inl ⟨lane, d, (hruns lane d).mpr hd, hclaim⟩
    · exact .inr (hreleased.mono (htrace ▸ List.Subset.refl _) herrors)

theorem runs_updateLane {f : ProcessLaneHandle → ProcessLaneHandle} {l : LaneId} :
    Runs (updateLane lane f w) l d ↔
      (l = lane ∧ (f (w.lanes lane)).running = some d) ∨ (l ≠ lane ∧ Runs w l d) := by
  unfold Runs updateLane
  by_cases hl : l = lane
  · subst hl
    simp
  · simp [hl]

theorem running_updateLane {f : ProcessLaneHandle → ProcessLaneHandle}
    (hf : ∀ h, (f h).running = h.running) (l : LaneId) :
    ((updateLane lane f w).lanes l).running = (w.lanes l).running := by
  unfold updateLane
  by_cases hl : l = lane
  · subst hl
    simp [hf]
  · simp [hl]

/-- STEP: an event of a running dispatch, after which its lane may be closing. -/
theorem Exclusive.event (h : Exclusive w) (hrun : Runs w lane d) (event : LaneEvent)
    (closing : Option LaneId) (hevent : ∀ call c outcome, event = .answered call c outcome →
      c = d.toLaneClaim ∧ (outcome = .accepted → closing = some lane)) :
    ExclusiveBut closing { w with trace := event :: w.trace } := by
  refine ⟨h.known, h.single, fun l d' hd' hopen call hmem => ?_, fun call c outcome hmem => ?_,
    List.pairwise_cons.mpr ⟨?_, h.final⟩, fun c hc => ?_⟩
  · rcases List.mem_cons.mp hmem with heq | hmem
    · obtain ⟨hclaim, haccepted⟩ := hevent call _ _ heq.symm
      exact hopen (h.single l lane d' d hd' hrun hclaim ▸ haccepted rfl)
    · exact h.unsettled l d' hd' (by simp) call hmem
  · rcases List.mem_cons.mp hmem with heq | hmem
    · exact (hevent call c outcome heq.symm).1 ▸ h.known lane d hrun
    · exact h.issued call c outcome hmem
  · rintro older holder call call' c outcome rfl rfl
    obtain rfl := (hevent call c outcome rfl).1
    exact h.unsettled lane d hrun (by simp) call' holder
  · exact (h.released c hc).imp_right fun hr =>
      hr.mono (List.subset_cons_self _ _) (List.Subset.refl _)

/-- STEP: a closing lane is cleared when its dispatch is released. -/
theorem ExclusiveBut.clear (h : ExclusiveBut (some lane) w) (hrun : Runs w lane d)
    (hreleased : Released d.toLaneClaim w) : Exclusive (clearedLane lane w) := by
  have hruns : ∀ l d', Runs (clearedLane lane w) l d' → l ≠ lane ∧ Runs w l d' := fun l d' hd' => by
    rcases runs_updateLane.mp hd' with ⟨_, hnone⟩ | hother
    · cases hnone
    · exact hother
  refine ⟨fun l d' hd' => h.known l d' (hruns l d' hd').2,
    fun l l' d₁ d₂ h₁ h₂ => h.single l l' d₁ d₂ (hruns l d₁ h₁).2 (hruns l' d₂ h₂).2,
    fun l d' hd' _ => ?_, h.issued, h.final, fun c hc => ?_⟩
  · obtain ⟨hne, hd'⟩ := hruns l d' hd'
    exact h.unsettled l d' hd' fun heq => hne (Option.some_inj.mp heq).symm
  · rcases h.released c hc with ⟨l, d', hd', rfl⟩ | hr
    · by_cases hl : l = lane
      · rw [hl] at hd'
        obtain rfl : d' = d := Option.some_inj.mp (hd'.symm.trans hrun)
        exact .inr hreleased
      · exact .inl ⟨l, d', runs_updateLane.mpr (.inr ⟨hl, hd'⟩), rfl⟩
    · exact .inr hr

/-! ### One dispatch -/

/-- A lane runs a dispatch that is open on the ledger. -/
def Busy (lane : LaneId) (d : ProcessLaneDispatch) (w : ParentWorld) : Prop :=
  Exclusive w ∧ Runs w lane d

/-- A lane runs a dispatch that is to be cleared. -/
def Closing (lane : LaneId) (d : ProcessLaneDispatch) (w : ParentWorld) : Prop :=
  ExclusiveBut (some lane) w ∧ Runs w lane d ∧ Released d.toLaneClaim w

theorem Busy.frame (h : Busy lane d w)
    (hlanes : ∀ l, (w'.lanes l).running = (w.lanes l).running)
    (hpublished : w'.published = w.published) (htrace : w'.trace = w.trace)
    (herrors : w.errors ⊆ w'.errors) : Busy lane d w' :=
  ⟨h.1.frame hlanes hpublished htrace herrors, (hlanes lane).trans h.2⟩

theorem Busy.event (h : Busy lane d w) (event : LaneEvent)
    (hevent : ∀ call c outcome, event = .answered call c outcome →
      c = d.toLaneClaim ∧ outcome ≠ .accepted) :
    Busy lane d { w with trace := event :: w.trace } :=
  ⟨h.1.event h.2 event none fun call c outcome he =>
    ⟨(hevent call c outcome he).1, fun ha => absurd ha (hevent call c outcome he).2⟩, h.2⟩

theorem Busy.toClosing (h : Busy lane d w) (hreleased : Released d.toLaneClaim w) :
    Closing lane d w :=
  ⟨{ h.1 with unsettled := fun l d' hd' _ => h.1.unsettled l d' hd' (by simp) }, h.2, hreleased⟩

theorem clearRunning_spec :
    Triple (Closing lane d) (clearRunning lane) (fun _ => Exclusive) Exclusive :=
  Triple.modify fun _ h => h.1.clear h.2.1 h.2.2

/-- The ledger's word on a running dispatch. -/
theorem terminalCall_spec (kind : Terminal) (replies : ℕ → Except Raised Bool) :
    Triple (Busy lane d) (terminalCall kind d.toLaneClaim replies)
      (fun accepted w => if accepted then Closing lane d w else
        Busy lane d w ∧ .answered kind d.toLaneClaim .refused ∈ w.trace)
      (fun w => Busy lane d w ∧ .answered kind d.toLaneClaim .raised ∈ w.trace) := by
  rintro w hbusy
  have hcalled : ∀ outcome, outcome ≠ .accepted → Busy lane d { w with
      calls := w.calls + 1, trace := .answered kind d.toLaneClaim outcome :: w.trace } := by
    intro outcome hne
    have h := hbusy.event (.answered kind d.toLaneClaim outcome) fun call c o he => by
      cases he
      exact ⟨rfl, hne⟩
    exact h.frame (fun _ => rfl) rfl rfl (List.Subset.refl _)
  unfold terminalCall
  dsimp only
  rcases replies w.calls with e | _ | _
  · exact ⟨hcalled .raised (by simp), List.mem_cons_self⟩
  · exact ⟨hcalled .refused (by simp), List.mem_cons_self⟩
  · refine ⟨?_, hbusy.2, .inl ⟨kind, List.mem_cons_self⟩⟩
    have h := hbusy.1.event hbusy.2 (.answered kind d.toLaneClaim .accepted) (some lane)
      fun call c o he => by
        cases he
        exact ⟨rfl, fun _ => rfl⟩
    exact h.frame (fun _ => rfl) rfl rfl (List.Subset.refl _)

theorem call_spec {α : Type} {P E : ParentWorld → Prop} {replies : ℕ → Except Raised α}
    {Q : α → ParentWorld → Prop} (hQ : ∀ a w, P w → Q a { w with calls := w.calls + 1 })
    (hE : ∀ w, P w → E { w with calls := w.calls + 1 }) : Triple P (call replies) Q E :=
  Triple.answered (fun a w _ hw => hQ a w hw) fun _ w _ hw => hE w hw

theorem busy_calls (h : Busy lane d w) : Busy lane d { w with calls := w.calls + 1 } :=
  h.frame (fun _ => rfl) rfl rfl (List.Subset.refl _)

theorem busy_errors (h : Busy lane d w) (error : String) :
    Busy lane d { w with errors := w.errors ++ [error] } :=
  h.frame (fun _ => rfl) rfl rfl (List.subset_append_left _ _)

theorem busy_updateLane (h : Busy lane d w) {l : LaneId}
    {f : ProcessLaneHandle → ProcessLaneHandle} (hf : ∀ h, (f h).running = h.running) :
    Busy lane d (updateLane l f w) :=
  h.frame (running_updateLane hf) rfl rfl (List.Subset.refl _)

theorem terminateLane_spec :
    Triple (Busy lane d) (terminateLane env lane) (fun _ => Busy lane d) (Busy lane d) := by
  refine Triple.bind (Q := fun _ => Busy lane d)
    (Triple.modify fun w hw => busy_updateLane hw fun _ => rfl) fun _ => ?_
  refine Triple.bind (Q := fun _ => Busy lane d) (call_spec (fun _ _ => busy_calls)
    fun _ => busy_calls) fun gone => ?_
  exact Triple.bind (Q := fun _ => Busy lane d)
    (Triple.modify fun w hw => busy_updateLane hw fun _ => rfl) fun _ => Triple.pure fun _ h => h

theorem quiesceLaneProcessTree_spec :
    Triple (Busy lane d) (quiesceLaneProcessTree env lane) (fun _ => Busy lane d) (Busy lane d) := by
  intro w hw
  unfold quiesceLaneProcessTree
  by_cases hgone : (w.lanes lane).treeQuiesced
  · rw [if_pos hgone]
    exact hw
  · rw [if_neg hgone]
    exact terminateLane_spec w hw

theorem treeQuiesced_spec (prequiesced : Bool) :
    Triple (Busy lane d) (treeQuiesced env lane prequiesced) (fun _ => Busy lane d)
      (Busy lane d) :=
  Triple.ite (fun _ _ hw => hw) fun _ => quiesceLaneProcessTree_spec

theorem recoverReceipt_spec :
    Triple (Busy lane d) (recoverReceipt env lane d)
      (fun recovered w => if recovered then Closing lane d w else Busy lane d w) Exclusive := by
  intro w hw
  unfold recoverReceipt
  by_cases hgiven : env.recoveryGiven ∧ (env.operationFor w.calls lane d.commandId).isSome
  · rw [if_pos hgiven]
    refine Triple.exceptFrom (F := Busy lane d) ?_ (fun _ h => h.1) (fun _ => ?_) w hw
    · refine (terminalCall_spec .recover _).weaken (fun _ h => h) (fun recovered w h => ?_)
        fun _ h => h.1
      cases recovered
      · exact h.1
      · exact h
    · exact Triple.bind (Q := fun _ => Busy lane d) (fun w hw => busy_errors hw _)
        fun _ => Triple.pure fun _ h => h
  · rw [if_neg hgiven]
    exact hw

/-- A dispatch that cannot be failed on the ledger is released with an error. -/
theorem failRunning_spec :
    Triple (Busy lane d) (failRunning env d) (fun _ => Closing lane d) Exclusive := by
  refine Triple.exceptFrom
    (F := fun w => Busy lane d w ∧ .answered .fail d.toLaneClaim .raised ∈ w.trace) ?_
    (fun _ h => h.1.1) fun _ => ?_
  · intro w hw
    have h := terminalCall_spec .fail (fun n => (env.failChunk n).map fun _ => true) w hw
    unfold terminalCall at h ⊢
    dsimp only at h ⊢
    cases hreply : env.failChunk w.calls with
    | ok _ =>
      rw [hreply] at h
      exact h
    | error e =>
      rw [hreply] at h
      exact h
  · refine Triple.bind (Q := fun _ => Closing lane d) (fun w hw => ?_) fun _ =>
      Triple.pure fun _ h => h
    obtain ⟨hbusy, hraised⟩ := hw
    exact (busy_errors hbusy _).toClosing (.inr (.inr (.inl ⟨hraised, by simp⟩)))

theorem leaveUnstopped_spec :
    Triple (Busy lane d) (leaveUnstopped lane d) (fun _ => Exclusive) Exclusive := by
  refine Triple.bind (Q := fun _ w => Busy lane d w ∧ .unstopped d.toLaneClaim ∈ w.trace)
    (Triple.modify fun w hw => ⟨hw.event _ (fun _ _ _ he => nomatch he), List.mem_cons_self⟩)
    fun _ => ?_
  refine Triple.bind (Q := fun _ => Closing lane d) (Triple.modify fun w hw => ?_) fun _ => ?_
  · by_cases hlisted : processTreeSignalError ∈ w.errors
    · rw [if_pos hlisted]
      exact hw.1.toClosing (.inr (.inr (.inr ⟨hw.2, hlisted⟩)))
    · rw [if_neg hlisted]
      exact (busy_errors hw.1 _).toClosing (.inr (.inr (.inr ⟨hw.2, by simp⟩)))
  · exact Triple.bind clearRunning_spec fun _ => Triple.pure fun _ h => h

theorem resolveRunning_spec (prequiesced : Bool) :
    Triple (Busy lane d) (resolveRunning env lane prequiesced d) (fun _ => Exclusive)
      Exclusive := by
  refine Triple.bind ((treeQuiesced_spec prequiesced).weaken (fun _ h => h) (fun _ _ h => h)
    fun _ h => h.1) fun quiesced => ?_
  refine Triple.ite (fun _ => ?_) fun _ => leaveUnstopped_spec
  refine Triple.bind recoverReceipt_spec fun recovered => ?_
  refine Triple.bind (Q := fun _ => Closing lane d) ?_ fun _ => ?_
  · cases recovered
    · exact failRunning_spec
    · exact Triple.pure fun _ h => h
  · exact Triple.bind clearRunning_spec fun _ => Triple.pure fun _ h => h

/-- RUN: a failure is resolved by at most one transition. -/
theorem resolveAmbiguousFailure_spec (lane : LaneId) (prequiesced : Bool) :
    Triple Exclusive (resolveAmbiguousFailure env lane prequiesced) (fun _ => Exclusive)
      Exclusive := by
  intro w hw
  unfold resolveAmbiguousFailure
  cases hrun : (w.lanes lane).running with
  | none => exact hw
  | some d => exact resolveRunning_spec prequiesced w ⟨hw, hrun⟩

/-! ### Messages and exits -/

theorem exclusive_calls (h : Exclusive w) : Exclusive { w with calls := w.calls + 1 } :=
  h.frame (fun _ => rfl) rfl rfl (List.Subset.refl _)

theorem call_exclusive {α : Type} {replies : ℕ → Except Raised α} :
    Triple Exclusive (call replies) (fun _ => Exclusive) Exclusive :=
  call_spec (fun _ _ => exclusive_calls) fun _ => exclusive_calls

theorem appendError_spec (error : String) :
    Triple Exclusive (appendError error) (fun _ => Exclusive) Exclusive :=
  Triple.modify fun _ hw => hw.frame (fun _ => rfl) rfl rfl (List.subset_append_left _ _)

theorem updateLane_spec {f : ProcessLaneHandle → ProcessLaneHandle}
    (hf : ∀ h, (f h).running = h.running) :
    Triple Exclusive (modify (updateLane lane f) : Parenting Unit) (fun _ => Exclusive)
      Exclusive :=
  Triple.modify fun _ hw => hw.frame (running_updateLane hf) rfl rfl (List.Subset.refl _)

theorem stoppingLane_spec (lane : LaneId) :
    Triple Exclusive (stoppingLane lane) (fun _ => Exclusive) Exclusive :=
  updateLane_spec fun _ => rfl

theorem failLane_spec (lane : LaneId) (error : String) :
    Triple Exclusive (failLane env lane error) (fun _ => Exclusive) Exclusive := by
  refine Triple.bind (appendError_spec error) fun _ => ?_
  exact Triple.bind (resolveAmbiguousFailure_spec lane false) fun _ => Triple.pure fun _ h => h

theorem stopLane_spec (lane : LaneId) :
    Triple Exclusive (stopLane env lane) (fun _ => Exclusive) Exclusive := by
  intro w hw
  unfold stopLane
  by_cases hstop : (w.lanes lane).stopping ∨ (env.exitcode w.calls lane).isSome
  · rw [if_pos hstop]
    exact hw
  · rw [if_neg hstop]
    exact Triple.bind (P := Exclusive) call_exclusive (fun _ => stoppingLane_spec lane) w hw

/-- A completion is accepted, refused (the claim is lost) or raises. -/
theorem completeCall_spec :
    Triple (Busy lane d) (completeCall env d)
      (fun answer w => if answer.isSome then Closing lane d w else Exclusive w) Exclusive := by
  refine Triple.exceptFrom (F := Busy lane d) ?_ (fun _ h => h.1) fun e => ?_
  · rw [map_eq_pure_bind]
    refine Triple.bind ((terminalCall_spec .complete _).weaken (fun _ h => h) (fun _ _ h => h)
      fun _ h => h.1) fun accepted => Triple.pure fun w h => ?_
    cases accepted
    · exact h.1.toClosing (.inr (.inl h.2))
    · exact h
  · cases e with
    | exception => exact Triple.pure fun _ h => h.1
    | interrupt => exact Triple.raise fun _ h => h.1

theorem completeRunning_spec (stopDispatch : Bool) :
    Triple (Busy lane d) (completeRunning env lane stopDispatch d) (fun _ => Exclusive)
      Exclusive := by
  refine Triple.bind completeCall_spec fun answer => ?_
  cases answer with
  | none => exact failLane_spec lane ledgerCompletionError
  | some keepRunning =>
    refine Triple.bind clearRunning_spec fun _ => ?_
    refine Triple.ite (fun _ => ?_) fun _ => Triple.pure fun _ h => h
    exact Triple.bind (stopLane_spec lane) fun _ => Triple.pure fun _ h => h

theorem validateRunning_spec (stopDispatch : Bool) :
    Triple (Busy lane d) (validateRunning env lane stopDispatch d) (fun _ => Exclusive)
      Exclusive := by
  refine Triple.bind (Q := fun _ => Busy lane d)
    (call_spec (fun _ _ => busy_calls) fun _ h => exclusive_calls h.1) fun valid => ?_
  refine Triple.ite (fun _ => completeRunning_spec stopDispatch) fun _ => ?_
  exact (failLane_spec lane _).weaken (fun _ h => h.1) (fun _ _ h => h) fun _ h => h

theorem resolveControlError_spec (lane : LaneId) :
    Triple Exclusive (resolveControlError env lane) (fun _ => Exclusive) Exclusive :=
  Triple.bind (resolveAmbiguousFailure_spec lane false) fun _ => Triple.pure fun _ h => h

theorem succeedLane_spec (stopDispatch : Bool) :
    Triple (Busy lane d) (succeedLane env lane stopDispatch d) (fun _ => Exclusive)
      Exclusive := by
  intro w hw
  unfold succeedLane
  by_cases herror : (w.lanes lane).controlError.isSome
  · rw [if_pos herror]
    exact resolveControlError_spec lane w hw.1
  · rw [if_neg herror]
    exact validateRunning_spec stopDispatch w hw

theorem rejectMessage_spec (lane : LaneId) :
    Triple Exclusive (rejectMessage lane) (fun _ => Exclusive) Exclusive := by
  refine Triple.bind (appendError_spec _) fun _ => ?_
  exact Triple.bind (updateLane_spec fun _ => rfl) fun _ => Triple.pure fun _ h => h

theorem handleResult_spec (stopDispatch : Bool) : ∀ message,
    Triple (Busy lane d) (handleResult env lane stopDispatch d message) (fun _ => Exclusive)
      Exclusive := by
  have hreject : Triple (Busy lane d) (rejectMessage lane) (fun _ => Exclusive) Exclusive :=
    (rejectMessage_spec lane).weaken (fun _ h => h.1) (fun _ _ h => h) fun _ h => h
  intro message
  cases message with
  | succeeded workerId commandId result =>
    exact Triple.ite (fun _ => succeedLane_spec stopDispatch) fun _ => hreject
  | failed workerId commandId error =>
    refine Triple.ite (fun _ => ?_) fun _ => hreject
    exact (failLane_spec lane error).weaken (fun _ h => h.1) (fun _ _ h => h) fun _ h => h
  | operationLease workerId commandId binding => exact hreject
  | receiptProbe workerId commandId binding => exact hreject
  | other => exact hreject

theorem answerRequest_spec (stopDispatch : Bool) (replies : ℕ → Except Raised Bool) :
    Triple Exclusive (answerRequest stopDispatch replies) (fun _ => Exclusive) Exclusive :=
  Triple.bind call_exclusive fun _ => Triple.pure fun _ h => h

theorem unexpectedMessage_spec :
    Triple Exclusive unexpectedMessage (fun _ => Exclusive) Exclusive :=
  Triple.bind (appendError_spec _) fun _ => Triple.pure fun _ h => h

/-- A result for a lane: the lane may be idle. -/
theorem handleResult_idle (lane : LaneId) (stopDispatch : Bool) (message : LaneMessage) :
    Triple Exclusive (fun w =>
      match (w.lanes lane).running with
      | none => unexpectedMessage w
      | some running => handleResult env lane stopDispatch running message w)
      (fun _ => Exclusive) Exclusive := by
  intro w hw
  dsimp only
  cases hrun : (w.lanes lane).running with
  | none => exact unexpectedMessage_spec w hw
  | some d => exact handleResult_spec stopDispatch message w ⟨hw, hrun⟩

theorem handleMessage_spec (lane : LaneId) (stopDispatch : Bool) : ∀ message,
    Triple Exclusive (handleMessage env lane stopDispatch message) (fun _ => Exclusive) Exclusive
  | .operationLease _ _ _ => answerRequest_spec stopDispatch env.operationRequest
  | .receiptProbe _ _ _ => answerRequest_spec stopDispatch env.receiptRequest
  | .succeeded _ _ _ => handleResult_idle lane stopDispatch _
  | .failed _ _ _ => handleResult_idle lane stopDispatch _
  | .other => handleResult_idle lane stopDispatch _

theorem handleLaneMessage_spec (lane : LaneId) (stopDispatch : Bool) :
    Triple Exclusive (handleLaneMessage env lane stopDispatch) (fun _ => Exclusive) Exclusive := by
  refine Triple.bind call_exclusive fun received => ?_
  cases received with
  | error error => exact failLane_spec lane error
  | ok message => exact handleMessage_spec lane stopDispatch message

theorem resolveExit_spec (lane : LaneId) :
    Triple Exclusive (resolveExit env lane) (fun _ => Exclusive) Exclusive := by
  refine Triple.bind (Q := fun _ => Exclusive) (Triple.read fun _ h => h) fun error => ?_
  refine Triple.bind (appendError_spec error) fun _ => ?_
  refine Triple.bind (stoppingLane_spec lane) fun _ => ?_
  exact Triple.bind (resolveAmbiguousFailure_spec lane false) fun _ => Triple.pure fun _ h => h

theorem handleNativeExits_spec (ready : LaneId → Bool) : ∀ (lanes : List LaneId) (found : Bool),
    Triple Exclusive (handleNativeExits env ready lanes found) (fun _ => Exclusive) Exclusive
  | [], _ => Triple.pure fun _ h => h
  | lane :: lanes, found => by
      intro w hw
      unfold handleNativeExits
      by_cases hskip : (w.lanes lane).running.isNone ∨
          (ready lane = false ∧ (env.exitcode w.calls lane).isNone)
      · rw [if_pos hskip]
        exact handleNativeExits_spec ready lanes found w hw
      rw [if_neg hskip]
      refine Triple.bind (P := Exclusive) call_exclusive (fun _ => ?_) w hw
      refine Triple.bind (Q := fun _ => Exclusive) (Triple.read fun _ h => h) fun exited => ?_
      refine Triple.ite (fun _ => ?_) fun _ => handleNativeExits_spec ready lanes found
      exact Triple.bind (resolveExit_spec lane) fun _ => handleNativeExits_spec ready lanes true

/-! ### Runs -/

theorem runs_publish (hok : (w.lanes lane).running.isNone ∧ d.toLaneClaim ∉ w.published)
    {l : LaneId} {d' : ProcessLaneDispatch} :
    Runs (publish lane d w) l d' ↔ (l = lane ∧ d = d') ∨ (l ≠ lane ∧ Runs w l d') := by
  have hupdate : (publish lane d w).lanes = (updateLane lane (fun h =>
      { h with running := some d, controlError := none }) w).lanes := by
    rw [publish, if_pos hok]
  rw [Runs, hupdate]
  exact runs_updateLane.trans (by simp)

/-- STEP: an idle lane gets a dispatch that was never published. -/
theorem exclusive_publish (h : Exclusive w) (lane : LaneId) (d : ProcessLaneDispatch) :
    Exclusive (publish lane d w) := by
  by_cases hok : (w.lanes lane).running.isNone ∧ d.toLaneClaim ∉ w.published
  · have htrace : (publish lane d w).trace = w.trace := by rw [publish, if_pos hok]; rfl
    have herrors : (publish lane d w).errors = w.errors := by rw [publish, if_pos hok]; rfl
    have hpublished : (publish lane d w).published = w.published ++ [d.toLaneClaim] := by
      rw [publish, if_pos hok]
    have hnew := hok.2
    refine ⟨fun l d' hd' => ?_, fun l l' d₁ d₂ h₁ h₂ hclaim => ?_, fun l d' hd' _ call hmem => ?_,
      fun call c outcome hmem => ?_, htrace ▸ h.final, fun c hc => ?_⟩
    · rw [hpublished]
      rcases (runs_publish hok).mp hd' with ⟨_, rfl⟩ | ⟨_, hd'⟩
      · exact List.mem_append_right _ (List.mem_singleton_self _)
      · exact List.mem_append_left _ (h.known l d' hd')
    · rcases (runs_publish hok).mp h₁ with ⟨hl, rfl⟩ | ⟨_, h₁⟩ <;>
        rcases (runs_publish hok).mp h₂ with ⟨hl', rfl⟩ | ⟨_, h₂⟩
      · rw [hl, hl']
      · exact absurd (hclaim ▸ h.known l' d₂ h₂) hnew
      · exact absurd (hclaim ▸ h.known l d₁ h₁) hnew
      · exact h.single l l' d₁ d₂ h₁ h₂ hclaim
    · rw [htrace] at hmem
      rcases (runs_publish hok).mp hd' with ⟨_, rfl⟩ | ⟨_, hd'⟩
      · exact hnew (h.issued call _ _ hmem)
      · exact h.unsettled l d' hd' (by simp) call hmem
    · rw [hpublished]
      exact List.mem_append_left _ (h.issued call c outcome (htrace ▸ hmem))
    · rw [hpublished] at hc
      rcases List.mem_append.mp hc with hc | hc
      · rcases h.released c hc with ⟨l, d', hd', rfl⟩ | hr
        · have hl : l ≠ lane := fun hl => by
            have hidle := hok.1
            rw [← hl, hd'] at hidle
            cases hidle
          exact .inl ⟨l, d', (runs_publish hok).mpr (.inr ⟨hl, hd'⟩), rfl⟩
        · refine .inr (hr.mono ?_ ?_)
          · rw [htrace]
            exact List.Subset.refl _
          · rw [herrors]
            exact List.Subset.refl _
      · exact .inl ⟨lane, d, (runs_publish hok).mpr (.inl ⟨rfl, rfl⟩),
          (List.mem_singleton.mp hc).symm⟩
  · rw [publish, if_neg hok]
    exact h

theorem parentStep_spec : ∀ e : ParentEvent,
    Triple Exclusive (parentStep env e) (fun _ => Exclusive) Exclusive
  | .publish lane d => Triple.modify fun _ h => exclusive_publish h lane d
  | .message lane stopDispatch =>
    Triple.bind (handleLaneMessage_spec lane stopDispatch) fun _ => Triple.pure fun _ h => h
  | .nativeExits lanes ready =>
    Triple.bind (handleNativeExits_spec ready lanes false) fun _ => Triple.pure fun _ h => h
  | .terminated gone =>
    Triple.modify fun _ h => h.frame (fun _ => rfl) rfl rfl (List.Subset.refl _)
  | .resolve lane prequiesced =>
    Triple.bind (resolveAmbiguousFailure_spec lane prequiesced) fun _ => Triple.pure fun _ h => h
  | .latch lane error => updateLane_spec fun h => by split <;> rfl

/-- No lane runs a dispatch, and nothing was asked of the ledger. -/
structure ParentWorld.Fresh (w : ParentWorld) : Prop where
  idle : ∀ lane, (w.lanes lane).running = none
  published : w.published = []
  trace : w.trace = []

theorem ParentWorld.Fresh.exclusive (h : w.Fresh) : Exclusive w where
  known lane d hd := by rw [Runs, h.idle lane] at hd; cases hd
  single lane _ d _ hd := by rw [Runs, h.idle lane] at hd; cases hd
  unsettled lane d hd := by rw [Runs, h.idle lane] at hd; cases hd
  issued := by simp [h.trace]
  final := by simp [h.trace]
  released := by simp [h.published]

/-- RUN: the invariant holds after any events, however each of them ends. -/
theorem parentRun_exclusive (events : List ParentEvent) (h : w.Fresh) :
    Exclusive (parentRun env events w) :=
  Triple.runs parentStep_spec events w h.exclusive

/-! ### Messages of other commands -/

/-- A message whose command or binding is not that of the running dispatch. -/
def Foreign (d : ProcessLaneDispatch) : LaneMessage → Prop
  | .operationLease _ commandId binding => commandId ≠ d.commandId ∨ binding ≠ d.binding
  | .receiptProbe _ commandId binding => commandId ≠ d.commandId ∨ binding ≠ d.binding
  | .succeeded _ commandId _ => commandId ≠ d.commandId
  | .failed _ commandId _ => commandId ≠ d.commandId
  | .other => True

/-- The lane still runs the dispatch, and the ledger was not asked anything. -/
def Untouched (lane : LaneId) (d : ProcessLaneDispatch) (trace : List LaneEvent)
    (w : ParentWorld) : Prop :=
  Runs w lane d ∧ w.trace = trace

theorem rejectMessage_untouched (trace : List LaneEvent) :
    Triple (Untouched lane d trace) (rejectMessage lane) (fun _ => Untouched lane d trace)
      (Untouched lane d trace) := by
  refine Triple.bind (Q := fun _ => Untouched lane d trace) (Triple.modify fun _ h => h) fun _ => ?_
  refine Triple.bind (Q := fun _ => Untouched lane d trace) (Triple.modify fun w h => ?_)
    fun _ => Triple.pure fun _ h => h
  refine ⟨Eq.trans (running_updateLane ?_ lane) h.1, h.2⟩
  exact fun _ => rfl

theorem call_untouched {α : Type} (trace : List LaneEvent) {replies : ℕ → Except Raised α} :
    Triple (Untouched lane d trace) (call replies) (fun _ => Untouched lane d trace)
      (Untouched lane d trace) :=
  call_spec (fun _ _ h => h) fun _ h => h

theorem handleResult_foreign {message : LaneMessage} (hforeign : Foreign d message)
    (stopDispatch : Bool) :
    handleResult env lane stopDispatch d message = rejectMessage lane := by
  cases message with
  | succeeded workerId commandId result => exact if_neg fun hmatch => hforeign hmatch.2
  | failed workerId commandId error => exact if_neg fun hmatch => hforeign hmatch.2
  | operationLease workerId commandId binding => rfl
  | receiptProbe workerId commandId binding => rfl
  | other => rfl

/-- STEP: a foreign message neither completes nor fails the running dispatch. -/
theorem handleMessage_foreign (env : ParentEnvironment) (lane : LaneId) (stopDispatch : Bool) {message : LaneMessage}
    (hforeign : Foreign d message) (trace : List LaneEvent) :
    Triple (Untouched lane d trace) (handleMessage env lane stopDispatch message)
      (fun _ => Untouched lane d trace) (Untouched lane d trace) := by
  have hrequest : ∀ replies : ℕ → Except Raised Bool, Triple (Untouched lane d trace)
      (answerRequest stopDispatch replies) (fun _ => Untouched lane d trace)
      (Untouched lane d trace) :=
    fun _ => Triple.bind (call_untouched trace) fun _ => Triple.pure fun _ h => h
  have hresult : Triple (Untouched lane d trace) (fun w =>
      match (w.lanes lane).running with
      | none => unexpectedMessage w
      | some running => handleResult env lane stopDispatch running message w)
      (fun _ => Untouched lane d trace) (Untouched lane d trace) := by
    intro w hw
    have hrun : (w.lanes lane).running = some d := hw.1
    simp only [hrun, handleResult_foreign hforeign]
    exact rejectMessage_untouched trace w hw
  cases message with
  | operationLease workerId commandId binding => exact hrequest _
  | receiptProbe workerId commandId binding => exact hrequest _
  | succeeded workerId commandId result => exact hresult
  | failed workerId commandId error => exact hresult
  | other => exact hresult

theorem handleLaneMessage_foreign {message : LaneMessage} (hrun : Runs w lane d)
    (hreceived : env.receive w.calls = .ok (.ok message)) (hforeign : Foreign d message)
    (stopDispatch : Bool) :
    Untouched lane d w.trace (handleLaneMessage env lane stopDispatch w).2 := by
  have hreceive : handleLaneMessage env lane stopDispatch w =
      handleMessage env lane stopDispatch message { w with calls := w.calls + 1 } := by
    rw [handleLaneMessage, bind_apply, call, answered, hreceived]
  have h := handleMessage_foreign env lane stopDispatch hforeign w.trace
    { w with calls := w.calls + 1 } ⟨hrun, rfl⟩
  rw [hreceive]
  rcases hresult : handleMessage env lane stopDispatch message { w with calls := w.calls + 1 }
    with ⟨_ | _ | _, w'⟩ <;>
    · rw [hresult] at h
      exact h

/-! ### Transitions -/

/-- The transition of a claim that the ledger accepted. -/
def acceptedFor (c : LaneClaim) : LaneEvent → Bool
  | .answered _ c' .accepted => c' = c
  | _ => false

/-- How many transitions the ledger accepted for a claim. -/
def transitions (c : LaneClaim) (trace : List LaneEvent) : ℕ := trace.countP (acceptedFor c)

theorem acceptedFor_iff {c : LaneClaim} {event : LaneEvent} :
    acceptedFor c event ↔ ∃ call, event = .answered call c .accepted := by
  rcases event with ⟨call, c', _ | _ | _⟩ | c' <;> simp [acceptedFor, eq_comm]

theorem transitions_le_one (c : LaneClaim) : ∀ {trace : List LaneEvent},
    trace.Pairwise FollowsNoAcceptance → transitions c trace ≤ 1
  | [], _ => by simp [transitions]
  | event :: older, h => by
      rw [List.pairwise_cons] at h
      rw [transitions, List.countP_cons]
      by_cases haccepted : acceptedFor c event
      · obtain ⟨call, rfl⟩ := acceptedFor_iff.mp haccepted
        have hnone : older.countP (acceptedFor c) = 0 := List.countP_eq_zero.mpr fun e he hacc => by
          obtain ⟨call', rfl⟩ := acceptedFor_iff.mp hacc
          exact h.1 _ he call call' c .accepted rfl rfl
        rw [if_pos haccepted, hnone]
      · rw [if_neg haccepted]
        exact transitions_le_one c h.2

/-- CORRECT: at most one transition per dispatch, none by foreign messages, and no lane goes idle
    before its dispatch had one or was released with a recorded reason. -/
theorem lane_terminal_transitions (env : ParentEnvironment) (events : List ParentEvent)
    (w : ParentWorld) (hfresh : w.Fresh) :
    let w' := parentRun env events w
    (∀ c, transitions c w'.trace ≤ 1) ∧
      (∀ c ∈ w'.published, (∃ lane d, Runs w' lane d ∧ d.toLaneClaim = c) ∨ Released c w') ∧
      ∀ lane d message stopDispatch, Runs w' lane d → env.receive w'.calls = .ok (.ok message) →
        Foreign d message →
        Untouched lane d w'.trace (handleLaneMessage env lane stopDispatch w').2 := by
  have h : Exclusive (parentRun env events w) := parentRun_exclusive events hfresh
  exact ⟨fun c => transitions_le_one c h.final, h.released,
    fun lane d message stopDispatch hrun hreceived hforeign =>
      handleLaneMessage_foreign hrun hreceived hforeign stopDispatch⟩

/-- A child that reports success, while its claim is no longer owned. -/
def lostClaimEnvironment : ParentEnvironment where
  receive _ := .ok (.ok (.succeeded 0 "command".toList 0))
  operationRequest _ := .ok true
  receiptRequest _ := .ok true
  operationFor _ _ _ := none
  validateSuccess _ := .ok true
  completeChunk _ := .ok false
  failChunk _ := .ok ()
  recoveryGiven := false
  recoverCommittedReceipt _ := .ok false
  terminateLaneTree _ := .ok true
  sendStop _ := .ok ()
  join _ := .ok ()
  exitcode _ _ := none
  exitMessage _ _ := ""

def idleParent : ParentWorld where
  lanes _ := {}
  errors := []
  calls := 0
  published := []
  trace := []

/-- A lane goes idle although the ledger refused the completion. -/
theorem idle_without_transition :
    let w' := parentRun lostClaimEnvironment [.publish 0 (dispatchOfChunk 0 0), .message 0 false]
      idleParent
    w'.published = [(dispatchOfChunk 0 0).toLaneClaim] ∧ (w'.lanes 0).running.isNone ∧
      transitions (dispatchOfChunk 0 0).toLaneClaim w'.trace = 0 := by
  decide

theorem lane_terminal_transitions_of_lost_claim :
    let w' := parentRun lostClaimEnvironment [.publish 0 (dispatchOfChunk 0 0), .message 0 false]
      idleParent
    ∀ c ∈ w'.published, transitions c w'.trace ≤ 1 :=
  fun c _ => (lane_terminal_transitions lostClaimEnvironment
    [.publish 0 (dispatchOfChunk 0 0), .message 0 false] idleParent
    ⟨fun _ => rfl, rfl, rfl⟩).1 c

end Dpone.Backfill
