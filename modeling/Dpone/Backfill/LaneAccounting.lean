import Dpone.Backfill.LaneCustody

/-! No claimed dispatch is lost or failed twice.

    A lane owns a claim from before its write begins, so what tells a published claim of the cell
    from an unsent one is whether its lane runs it. With custody kept at every exit, each claim is
    published, was failed by one call, or is retained for the next attempt. -/

namespace Dpone.Backfill
open Dpone.Schemes Program

variable {env : DispatchEnvironment} {w : DispatchWorld}

/-! ### Sending -/

/-- A claim that its own lane runs. -/
def Published (i : PreparedLaneDispatch) (w : DispatchWorld) : Prop :=
  ∃ d, w.running i.lane = some d ∧ d.toLaneClaim = i.claim

/-- INVARIANT of the send phase: every claim of the cell is to be sent or runs. -/
structure Sending (env : DispatchEnvironment) (rest : List PreparedLaneDispatch)
    (w : DispatchWorld) : Prop where
  custody : Custody env w
  pending : Pending rest w
  published : ∀ h ∈ w.handoff, (∃ i ∈ rest, i.key = h.key) ∨ Published h w
  shown : ∀ c ∈ w.claimed.map (·.claim), Shown c w.trace

theorem Pending.tail {item : PreparedLaneDispatch} {rest : List PreparedLaneDispatch}
    (h : Pending (item :: rest) w) : Pending rest w :=
  ⟨h.distinct.of_cons, fun i hi => h.inCell i (.tail _ hi)⟩

/-- A claim of the cell was not failed. -/
theorem Custody.not_failed (h : Custody env w) {item : PreparedLaneDispatch}
    (hcell : ∃ i ∈ w.handoff, i.key = item.key) : item.claim ∉ w.failed := by
  obtain ⟨i, hi, hkey⟩ := hcell
  have hin : 0 < (w.handoff.map (·.claim)).count item.claim :=
    List.count_pos_iff.mpr (List.mem_map.mpr ⟨i, hi, (key_eq hkey).2⟩)
  have hle := h.count_le item.claim
  rw [h.accounted] at hle
  intro hfailed
  have := List.count_pos_iff.mpr hfailed
  omega

theorem Distinct.eq_of_lane (h : Distinct env w) {i i' : PreparedLaneDispatch}
    (hi : i ∈ w.claimed) (hi' : i' ∈ w.claimed) (heq : i.lane = i'.lane) : i = i' :=
  List.inj_on_of_nodup_map h.lanes hi hi' heq

/-- STEP: a claim of the cell is given to its lane. -/
theorem custody_run (h : Custody env w) {item : PreparedLaneDispatch}
    (hcell : ∃ i ∈ w.handoff, i.key = item.key) (controlError : LaneId → Option String) :
    Custody env { w with
      running := Function.update w.running item.lane (some item.dispatch)
      controlError := controlError } := by
  refine ⟨⟨h.distinct.lanes, h.distinct.claims, h.distinct.issued⟩, h.accounted, h.own,
    fun j hj d hd => ?_, h.justified⟩
  by_cases hlane : j.lane = item.lane
  · obtain ⟨i, hi, hkey⟩ := h.behind hcell
    have hsame : j = i := h.distinct.eq_of_lane hj hi (hlane.trans (key_eq hkey).1.symm)
    have hclaim : j.claim = item.claim := hsame ▸ (key_eq hkey).2
    dsimp only at hd
    rw [hlane, Function.update_self, Option.some_inj] at hd
    rw [hclaim]
    exact ⟨hd ▸ rfl, h.not_failed hcell⟩
  · dsimp only at hd
    rw [Function.update_of_ne hlane] at hd
    exact h.running j hj d hd

theorem publishOne_spec {rest : List PreparedLaneDispatch} (item : PreparedLaneDispatch) :
    Triple (Sending env (item :: rest)) (publishOne env item) (fun _ => Sending env rest)
      (fun w => Custody env w ∧ Pending rest w) := by
  refine Triple.bind (Q := fun _ => Sending env rest) (fun w hw => ?_) fun _ => ?_
  · have hcell := hw.pending.inCell item List.mem_cons_self
    refine ⟨custody_run hw.custody hcell _, ⟨hw.pending.tail.distinct, hw.pending.tail.inCell⟩,
      fun h hh => ?_, hw.shown⟩
    by_cases hlane : h.lane = item.lane
    · obtain ⟨i, hi, hkey⟩ := hw.custody.own h hh
      obtain ⟨i', hi', hkey'⟩ := hw.custody.behind hcell
      have hsame : i = i' := hw.custody.distinct.eq_of_lane hi hi'
        ((key_eq hkey).1.trans (hlane.trans (key_eq hkey').1.symm))
      refine .inr ⟨item.dispatch, ?_, ?_⟩
      · dsimp only
        rw [hlane, Function.update_self]
      · exact (key_eq hkey').2.symm.trans (hsame ▸ (key_eq hkey).2)
    · rcases hw.published h hh with ⟨i, hi, hkey⟩ | ⟨d, hd⟩
      · rcases List.mem_cons.mp hi with rfl | hi
        · exact absurd (key_eq hkey).1.symm hlane
        · exact .inl ⟨i, hi, hkey⟩
      · refine .inr ⟨d, ?_, hd.2⟩
        dsimp only
        rw [Function.update_of_ne hlane]
        exact hd.1
  refine Triple.bind (Q := fun _ => Sending env rest)
    (Triple.raiseWhen (fun _ h _ => ⟨h.custody, h.pending⟩) fun _ h _ => h) fun _ => ?_
  refine Triple.bind (Q := fun _ => Sending env rest) (fun w hw => ?_) fun _ => ?_
  · obtain ⟨⟨⟨hl, hc, hi⟩, ha, ho, hr, hj⟩, ⟨hd, hp⟩, hpub, hshown⟩ := hw
    exact ⟨⟨⟨hl, hc, hi⟩, ha, ho, hr, hshown, hj⟩, ⟨hd, hp⟩, hpub,
      fun c hc => (hshown c hc).cons (by simp)⟩
  · have hcalled : ∀ w, Sending env rest w → Sending env rest { w with calls := w.calls + 1 } :=
      fun w h => ⟨custody_calls h.custody, ⟨h.pending.distinct, h.pending.inCell⟩, h.published,
        h.shown⟩
    exact invoke_spec (fun _ w h => hcalled w h) fun w h =>
      ⟨(hcalled w h).custody, (hcalled w h).pending⟩

theorem sendFailed_ends {rest : List PreparedLaneDispatch} (item : PreparedLaneDispatch)
    (e : Raised) :
    Triple (fun w => Custody env w ∧ Pending rest w) (sendFailed env item rest e) (Ends env)
      (Custody env) := by
  refine Triple.bind (Q := fun _ w => Custody env w ∧ Pending rest w)
    (invoke_spec (fun _ w h => ⟨custody_calls h.1, h.2.distinct, h.2.inCell⟩)
      fun w h => custody_calls h.1) fun error => ?_
  refine Triple.bind (Q := fun _ w => Custody env w ∧ Pending rest w) (fun w h =>
    ⟨custody_frame h.1 rfl rfl rfl rfl rfl le_rfl, h.2.distinct, h.2.inCell⟩) fun _ => ?_
  refine Triple.bind (Q := fun _ w => Custody env w ∧ Pending rest w)
    (appendOnce_spec fun w errors h => ⟨custody_errors h.1 errors, h.2.distinct, h.2.inCell⟩)
    fun _ => ?_
  cases e with
  | exception => exact Triple.bind (abandonClaims_spec rest) fun _ => Triple.pure fun _ h => h
  | interrupt => exact Triple.raise fun _ h => h.1

/-- RUN: every claim of the cell runs when the last one was sent. -/
theorem sendClaims_ends : ∀ rest : List PreparedLaneDispatch,
    Triple (Sending env rest) (sendClaims env rest) (Ends env) (Custody env)
  | [] => Triple.pure fun w hw => ⟨hw.custody, rfl, fun h hh =>
      (hw.published h hh).elim (fun ⟨_, hi, _⟩ => absurd hi List.not_mem_nil) id⟩
  | item :: rest => by
      intro w hw
      unfold sendClaims
      by_cases hexit : (env.exitcode w.calls item.lane).isSome
      · rw [if_pos hexit]
        exact abandon_ends _ (P := Sending env (item :: rest))
          (fun _ h => ⟨h.custody, h.pending⟩) w hw
      rw [if_neg hexit]
      have hone := publishOne_spec item w hw
      rcases hresult : publishOne env item w with ⟨_ | e | _, w'⟩ <;> rw [hresult] at hone
      · exact sendClaims_ends rest w' hone
      · exact sendFailed_ends item e w' hone
      · exact hone.1

theorem finalChecks_ends (refreshed : List PreparedLaneDispatch) :
    Triple (Phase env refreshed refreshed) (finalChecks env refreshed) (Ends env)
      (Custody env) := by
  have hstable : Stable (Phase env refreshed refreshed) := Phase.stable _ _
  have habandon : ∀ w, Phase env refreshed refreshed w →
      Custody env w ∧ Pending (refreshed ++ []) w := fun w hw => by
    rw [List.append_nil]
    exact hw.abandonable
  have hcall : ∀ {α : Type} (replies : ℕ → Except Raised α),
      Triple (Phase env refreshed refreshed) (invoke replies)
        (fun _ => Phase env refreshed refreshed) (Custody env) := fun _ =>
    (invoke_stable hstable).weaken (fun _ h => h) (fun _ _ h => h) fun w h => h.held.custody
  refine abortAfterService_ends hstable habandon ?_
  refine Triple.bind (hcall _) fun controlError => abortPrepared_ends habandon ?_ controlError
  refine stageThen_ends (invoke_stable hstable) hstable (fun w hw => hw.abandonable)
    fun deferred => ?_
  refine Triple.ite (fun _ => Triple.pure fun w hw => ⟨hw.held, hw.keys⟩) fun _ => ?_
  have hexit : Triple (Phase env refreshed refreshed) (preparedLaneExitError env refreshed)
      (fun _ => Phase env refreshed refreshed) (Custody env) :=
    Triple.bind (hcall _) fun _ w hw => hw
  refine Triple.bind hexit fun exitError => abortPrepared_ends habandon ?_ exitError
  refine (sendClaims_ends refreshed).weaken (fun w hw => ?_) (fun _ _ h => h) fun _ h => h
  refine ⟨hw.held.custody, hw.held.pending hw.keys, fun h hh => .inl ?_, fun c hc => ?_⟩
  · exact exists_of_keys (hw.held.kept.trans hw.keys.symm) hh
  · rw [← claims_of_keys hw.keys] at hc
    obtain ⟨i, hi, rfl⟩ := List.mem_map.mp hc
    exact hw.shown i hi

theorem dispatchClaims_ends (prepared : List PreparedLaneDispatch) :
    Triple (fun w => Held env w ∧ w.handoff = prepared) (dispatchClaims env prepared) (Ends env)
      (Custody env) := by
  refine Triple.ite (fun hnil => Triple.pure fun w hw => ?_) fun _ => ?_
  · exact ⟨hw.1.custody, rfl, fun h hh => by rw [hw.2, hnil] at hh; cases hh⟩
  · refine (refreshClaims_ends finalChecks_ends prepared [] rfl).weaken (fun w hw => ?_)
      (fun _ _ h => h) fun _ h => h
    exact ⟨hw.1, hw.2 ▸ hw.1.kept, fun i hi => absurd hi List.not_mem_nil⟩

theorem dispatchPreparedLifecycle_ends {lanes : List LaneId} (hlanes : lanes.Nodup) :
    Triple (Held env) (dispatchPreparedLifecycle env lanes) (Ends env) (Custody env) := by
  refine Triple.bind (Q := fun _ => Held env) (fun w hw => hw.record (by simp)) fun _ => ?_
  refine Triple.bind (Q := fun prepared w => Held env w ∧ w.handoff = prepared)
    (fun w hw => ⟨hw, rfl⟩) fun prepared => ?_
  refine Triple.ite (fun hnil => ?_) fun _ => dispatchClaims_ends prepared
  refine (claimLanes_ends dispatchClaims_ends lanes hlanes []).weaken (fun w hw => ?_)
    (fun _ _ h => h) fun _ h => h
  have hclaimed : w.claimed = [] := by simpa [hw.2, hnil] using hw.1.kept.symm
  exact ⟨⟨hw.1, by simp [hclaimed]⟩, hw.2.trans hnil⟩

/-! ### Where claims end up -/

/-- A claim in the unsent set of the cell. -/
def Retained (i : PreparedLaneDispatch) (w : DispatchWorld) : Prop := ∃ u ∈ unsent w, u.key = i.key

/-- Published, failed by one successful call, or retained: one of the three, and only one. -/
def Fate (i : PreparedLaneDispatch) (w : DispatchWorld) : Prop :=
  (Published i w ∧ w.failed.count i.claim = 0 ∧ ¬ Retained i w) ∨
  (¬ Published i w ∧ w.failed.count i.claim = 1 ∧ ¬ Retained i w) ∨
  (¬ Published i w ∧ w.failed.count i.claim = 0 ∧ Retained i w)

structure Settled (w : DispatchWorld) : Prop where
  fates : ∀ i ∈ w.claimed, Fate i w
  justified : SendsJustified (w.claimed.map (·.claim)) w.trace

theorem mem_unsent {h : PreparedLaneDispatch} : h ∈ unsent w ↔ h ∈ w.handoff ∧ ¬ Published h w := by
  have hall : (w.running h.lane).all (·.toLaneClaim ≠ h.claim) ↔ ¬ Published h w := by
    unfold Published
    cases w.running h.lane <;> simp
  rw [unsent, List.mem_filter, hall]

theorem published_key {i h : PreparedLaneDispatch} (hkey : h.key = i.key) :
    Published h w ↔ Published i w := by
  rw [Published, Published, (key_eq hkey).1, (key_eq hkey).2]

/-- A claim is retained when it is in the cell and its lane does not run it. -/
theorem retained_iff {i : PreparedLaneDispatch} :
    Retained i w ↔ (∃ h ∈ w.handoff, h.key = i.key) ∧ ¬ Published i w := by
  constructor
  · rintro ⟨u, hu, hkey⟩
    rw [mem_unsent] at hu
    exact ⟨⟨u, hu.1, hkey⟩, fun hp => hu.2 ((published_key hkey).mpr hp)⟩
  · rintro ⟨⟨h, hh, hkey⟩, hp⟩
    exact ⟨h, mem_unsent.mpr ⟨hh, fun hq => hp ((published_key hkey).mp hq)⟩, hkey⟩

theorem Custody.settled (h : Custody env w) : Settled w where
  justified := h.justified
  fates i hi := by
    have hone : (w.claimed.map (·.claim)).count i.claim = 1 :=
      List.count_eq_one_of_mem h.distinct.claims (List.mem_map_of_mem hi)
    have hsum := h.accounted i.claim
    by_cases hfailed : i.claim ∈ w.failed
    · -- failed once, so it left the cell
      have hpos := List.count_pos_iff.mpr hfailed
      have hgone : ¬ ∃ c ∈ w.handoff, c.key = i.key := fun hcell => h.not_failed hcell hfailed
      refine .inr (.inl ⟨fun ⟨d, hd, _⟩ => (h.running i hi d hd).2 hfailed, by omega, fun hr => ?_⟩)
      exact hgone (retained_iff.mp hr).1
    · have hzero : w.failed.count i.claim = 0 := List.count_eq_zero.mpr hfailed
      have hin : i.claim ∈ w.handoff.map (·.claim) := List.count_pos_iff.mp (by omega)
      obtain ⟨c, hc, hclaim⟩ := List.mem_map.mp hin
      obtain ⟨i', hi', hkey⟩ := h.own c hc
      have hsame : i' = i := h.distinct.eq_of_claim hi' hi ((key_eq hkey).2.trans hclaim)
      by_cases hp : Published i w
      · exact .inl ⟨hp, hzero, fun hr => (retained_iff.mp hr).2 hp⟩
      · exact .inr (.inr ⟨hp, hzero, retained_iff.mpr ⟨⟨c, hc, hsame ▸ hkey.symm⟩, hp⟩⟩)

/-- FRAME: of the cell, fates depend on the unsent claims only. -/
theorem Settled.of_unsent {handoff : List PreparedLaneDispatch} (h : Settled w)
    (hunsent : unsent { w with handoff := handoff } = unsent w) :
    Settled { w with handoff := handoff } := by
  refine ⟨fun i hi => ?_, h.justified⟩
  have hfate := h.fates i hi
  unfold Fate Retained at hfate ⊢
  rw [hunsent]
  exact hfate

theorem unsent_idem : unsent { w with handoff := unsent w } = unsent w := by
  unfold unsent
  exact List.filter_eq_self.mpr fun h hh => (List.mem_filter.mp hh).2

/-- STEP: the cell is left with the claims that the result does not account for. -/
theorem settleHandoff_spec (result : DispatchBatchResult) :
    Triple (Ends env result) (settleHandoff result)
      (fun _ w => Settled w ∧ (result.outcome = .deferred → Held env w)) Settled := by
  refine modifyWorld_spec fun w hw => ?_
  unfold Ends at hw
  cases houtcome : result.outcome with
  | failed =>
    rw [houtcome] at hw
    exact ⟨hw.settled.of_unsent unsent_idem, (fun h => nomatch h)⟩
  | published =>
    rw [houtcome] at hw
    obtain ⟨hcustody, hnil, hall⟩ := hw
    have hsent : unsent w = [] := List.eq_nil_iff_forall_not_mem.mpr fun h hh =>
      (mem_unsent.mp hh).2 (hall h (mem_unsent.mp hh).1)
    refine ⟨hcustody.settled.of_unsent ?_, (fun h => nomatch h)⟩
    rw [if_neg (by simp), hnil, hsent]
    rfl
  | deferred =>
    rw [houtcome] at hw
    have hheld : Held env { w with handoff := result.prepared } :=
      ⟨⟨hw.1.distinct.lanes, hw.1.distinct.claims, hw.1.distinct.issued⟩, hw.2, hw.1.idle,
        hw.1.healthy, hw.1.quiet⟩
    rw [if_neg (by simp)]
    exact ⟨hheld.custody.settled, fun _ => hheld⟩

/-- RUN: one attempt settles every claim, whatever it returns or raises. -/
theorem dispatchPreparedBatch_spec {lanes : List LaneId} (hlanes : lanes.Nodup) :
    Triple (Held env) (dispatchPreparedBatch env lanes)
      (fun result w => Settled w ∧ (result.outcome = .deferred → Held env w)) Settled := by
  refine Triple.exceptFrom (F := Settled) ?_ (fun _ h => h) fun e => ?_
  · refine Triple.bind ((dispatchPreparedLifecycle_ends hlanes).weaken (fun _ h => h)
      (fun _ _ h => h) fun _ h => h.settled) fun result => ?_
    exact Triple.bind (settleHandoff_spec result) fun _ => Triple.pure fun _ h => h
  · have hcall : ∀ w, Settled w → Settled { w with calls := w.calls + 1 } :=
      fun w h => ⟨h.fates, h.justified⟩
    refine Triple.bind (Q := fun _ => Settled) ?_ fun error => ?_
    · exact Triple.exceptDo (invoke_spec (fun _ => hcall) hcall) fun _ => Triple.pure fun _ h => h
    refine Triple.bind (Q := fun _ => Settled)
      (appendOnce_spec fun w errors h => ⟨h.fates, h.justified⟩) fun _ => ?_
    exact Triple.raise fun _ h => h

/-- RUN: attempts settle every claim; in between the cell holds them all. -/
theorem dispatchAttempts_spec : ∀ attempts : List (List LaneId), (∀ lanes ∈ attempts, lanes.Nodup) →
    Triple (Held env) (dispatchAttempts env attempts) (fun _ => Settled) Settled
  | [], _ => Triple.pure fun _ h => h.custody.settled
  | lanes :: more, hnodup => by
      refine Triple.bind (dispatchPreparedBatch_spec (hnodup lanes List.mem_cons_self))
        fun result => ?_
      cases houtcome : result.outcome with
      | published => exact Triple.pure fun _ h => h.1
      | failed => exact Triple.pure fun _ h => h.1
      | deferred =>
        refine Triple.bind (Q := fun _ => Held env) (fun w hw => ?_) fun _ =>
          dispatchAttempts_spec more fun lanes h => hnodup lanes (.tail _ h)
        exact (hw.2 rfl).undisturbed (undisturbed_ended _ _ (Nat.le_succ _))

theorem SendsJustified.before {claims : List LaneClaim} {older : List DispatchEvent}
    {c : LaneClaim} : ∀ newer : List DispatchEvent,
      SendsJustified claims (newer ++ .sent c :: older) → ∀ c' ∈ claims, Shown c' older
  | [], h => h.1
  | .began :: newer, h => SendsJustified.before newer h
  | .refreshed _ :: newer, h => SendsJustified.before newer h
  | .proven _ :: newer, h => SendsJustified.before newer h
  | .sent _ :: newer, h => SendsJustified.before newer h.2

/-- A world with an empty cell, before any claim. -/
structure DispatchWorld.Fresh (w : DispatchWorld) : Prop where
  claimed : w.claimed = []
  handoff : w.handoff = []
  failed : w.failed = []
  quiet : ∀ c, .sent c ∉ w.trace

theorem DispatchWorld.Fresh.held (h : w.Fresh) : Held env w where
  distinct := ⟨by simp [h.claimed], by simp [h.claimed], by simp [h.claimed]⟩
  kept := by rw [h.claimed, h.handoff]
  idle := by simp [h.claimed]
  healthy := h.failed
  quiet := h.quiet

/-- CORRECT: whatever the callbacks and the pipes do, every claim is published, failed once or
    retained, and nothing is sent before the whole batch is refreshed and proven. -/
theorem lane_dispatches_accounted (env : DispatchEnvironment) (attempts : List (List LaneId))
    (hlanes : ∀ lanes ∈ attempts, lanes.Nodup) (w : DispatchWorld) (hfresh : w.Fresh) :
    let w' := (dispatchAttempts env attempts w).2
    (∀ i ∈ w'.claimed, Fate i w') ∧
      ∀ newer c older, w'.trace = newer ++ .sent c :: older →
        ∀ i ∈ w'.claimed, Shown i.claim older := by
  have hspec := dispatchAttempts_spec attempts hlanes w (show Held env w from hfresh.held)
  have hsettled : Settled (dispatchAttempts env attempts w).2 := by
    rcases hrun : dispatchAttempts env attempts w with ⟨_ | _ | _, w'⟩ <;>
      · rw [hrun] at hspec
        exact hspec
  exact ⟨hsettled.fates, fun newer c older htrace i hi =>
    SendsJustified.before newer (htrace ▸ hsettled.justified) i.claim (List.mem_map_of_mem hi)⟩

/-- Every call answers; the gate defers until the given call. -/
def deferringEnvironment (ready : ℕ) : DispatchEnvironment where
  exitcode _ _ := none
  exitMessage _ _ := ""
  stopping _ _ := false
  runtimeReady _ _ := true
  sentinelReady _ := .ok fun _ => false
  claim n := ⟨[dispatchOfChunk n 0], .ok ()⟩
  pickle _ := .ok ()
  refresh n := .ok (dispatchOfChunk 0 n)
  prove _ := .ok none
  controlTick _ := .ok none
  finalControlTick _ := .ok none
  finalControlGate n := .ok (n < ready)
  serviceGiven := true
  service _ := .ok none
  ended _ _ := false
  failChunk _ := .ok ()
  send _ := .ok ()
  render _ := .ok ""
  fresh m n d d' hd hd' h := by
    rw [List.mem_singleton.mp hd, List.mem_singleton.mp hd'] at h
    simpa [dispatchOfChunk] using h

def oneChunkQueued : DispatchWorld where
  running _ := none
  controlError _ := none
  queue := [7]
  handoff := []
  errors := []
  calls := 0
  claimed := []
  failed := []
  trace := []

theorem lane_dispatches_accounted_on_retry :
    let w' := (dispatchAttempts (deferringEnvironment 20) [[0, 1], [0, 1]] oneChunkQueued).2
    w'.claimed.length = 1 ∧ (w'.running 0).isSome ∧ ∀ i ∈ w'.claimed, Fate i w' :=
  ⟨by decide +kernel, by decide +kernel,
    (lane_dispatches_accounted (deferringEnvironment 20) [[0, 1], [0, 1]] (by decide)
      oneChunkQueued ⟨rfl, rfl, rfl, by simp [oneChunkQueued]⟩).1⟩

end Dpone.Backfill
