import Mathlib.Data.List.Count
import Mathlib.Data.List.Nodup
import Dpone.Backfill.LaneDispatch

/-! Custody of claimed dispatches up to the first write.

    Until then every claim is in the handoff cell and its lane is idle (`Held`). Abandoning fails
    claims one by one, and whatever the ledger writes do a claim is in the cell or was failed once,
    never both (`Custody`). Each exit of a batch abandons another slice of it; the rules under
    "Exits of a batch" show once for all of them that custody is kept. -/

namespace Dpone.Backfill
open Dpone.Schemes Program

/-! ### Invariants -/

/-- The events since the attempt began. -/
def thisAttempt (trace : List DispatchEvent) : List DispatchEvent := trace.takeWhile (· ≠ .began)

/-- Refreshed and proven in this attempt. -/
def Shown (c : LaneClaim) (trace : List DispatchEvent) : Prop :=
  .refreshed c ∈ thisAttempt trace ∧ .proven c ∈ thisAttempt trace

/-- Nothing is sent before all `claims` were refreshed and proven in the same attempt. -/
def SendsJustified (claims : List LaneClaim) : List DispatchEvent → Prop
  | [] => True
  | .sent _ :: older => (∀ c ∈ claims, Shown c older) ∧ SendsJustified claims older
  | _ :: older => SendsJustified claims older

variable (env : DispatchEnvironment)

/-- Claims are distinct, on lanes of their own, and each was handed over by a call. -/
structure Distinct (w : DispatchWorld) : Prop where
  lanes : (w.claimed.map (·.lane)).Nodup
  claims : (w.claimed.map (·.claim)).Nodup
  issued : ∀ i ∈ w.claimed, ∃ n < w.calls, ∃ d ∈ (env.claim n).handed, d.toLaneClaim = i.claim

/-- INVARIANT: a claim is in the cell or was failed once; only a claim of the cell runs. -/
structure Custody (w : DispatchWorld) : Prop where
  distinct : Distinct env w
  accounted : ∀ c, (w.claimed.map (·.claim)).count c =
    w.failed.count c + (w.handoff.map (·.claim)).count c
  own : ∀ h ∈ w.handoff, ∃ i ∈ w.claimed, i.key = h.key
  running : ∀ i ∈ w.claimed, ∀ d, w.running i.lane = some d →
    d.toLaneClaim = i.claim ∧ i.claim ∉ w.failed
  justified : SendsJustified (w.claimed.map (·.claim)) w.trace

/-- INVARIANT before the first write: the cell holds every claim, and their lanes are idle. -/
structure Held (w : DispatchWorld) : Prop where
  distinct : Distinct env w
  kept : w.handoff.map (·.key) = w.claimed.map (·.key)
  idle : ∀ i ∈ w.claimed, w.running i.lane = none
  healthy : w.failed = []
  quiet : ∀ c, .sent c ∉ w.trace

theorem justified_of_quiet {claims : List LaneClaim} : ∀ trace : List DispatchEvent,
    (∀ c, .sent c ∉ trace) → SendsJustified claims trace
  | [], _ => trivial
  | .began :: older, h => justified_of_quiet older fun c hc => h c (.tail _ hc)
  | .refreshed _ :: older, h => justified_of_quiet older fun c hc => h c (.tail _ hc)
  | .proven _ :: older, h => justified_of_quiet older fun c hc => h c (.tail _ hc)
  | .sent c :: _, h => absurd List.mem_cons_self (h c)

theorem claims_of_keys {items items' : List PreparedLaneDispatch}
    (h : items.map (·.key) = items'.map (·.key)) :
    items.map (·.claim) = items'.map (·.claim) := by
  have := congrArg (List.map Prod.snd) h
  simpa [List.map_map, Function.comp_def, PreparedLaneDispatch.key] using this

theorem exists_of_keys {items items' : List PreparedLaneDispatch}
    (h : items.map (·.key) = items'.map (·.key)) {i : PreparedLaneDispatch} (hi : i ∈ items) :
    ∃ i' ∈ items', i'.key = i.key := by
  have hmem : i.key ∈ items'.map (·.key) := h ▸ List.mem_map_of_mem hi
  exact List.mem_map.mp hmem

variable {env} {w : DispatchWorld}

theorem Held.custody (h : Held env w) : Custody env w where
  distinct := h.distinct
  accounted c := by rw [h.healthy, claims_of_keys h.kept, List.count_nil, Nat.zero_add]
  own _ hi := exists_of_keys h.kept hi
  running i hi d hd := by rw [h.idle i hi] at hd; cases hd
  justified := justified_of_quiet _ h.quiet

/-- Items that can be abandoned: distinct claims of the cell. -/
structure Pending (items : List PreparedLaneDispatch) (w : DispatchWorld) : Prop where
  distinct : (items.map (·.claim)).Nodup
  inCell : ∀ i ∈ items, ∃ h ∈ w.handoff, h.key = i.key

theorem Held.pending (h : Held env w) {items : List PreparedLaneDispatch}
    (hkeys : items.map (·.key) = w.claimed.map (·.key)) : Pending items w where
  distinct := claims_of_keys hkeys ▸ h.distinct.claims
  inCell _ hi := exists_of_keys (hkeys.trans h.kept.symm) hi

/-! ### Abandoning -/

theorem custody_frame {w' : DispatchWorld} (h : Custody env w) (hrunning : w'.running = w.running)
    (hhandoff : w'.handoff = w.handoff) (hclaimed : w'.claimed = w.claimed)
    (hfailed : w'.failed = w.failed) (htrace : w'.trace = w.trace) (hcalls : w.calls ≤ w'.calls) :
    Custody env w' := by
  obtain ⟨⟨hl, hc, hi⟩, ha, ho, hr, hj⟩ := h
  refine ⟨⟨by rwa [hclaimed], by rwa [hclaimed], ?_⟩, ?_, ?_, ?_, ?_⟩
  · rw [hclaimed]
    intro item hmem
    obtain ⟨n, hn, hd⟩ := hi item hmem
    exact ⟨n, hn.trans_le hcalls, hd⟩
  · rwa [hclaimed, hfailed, hhandoff]
  · rwa [hclaimed, hhandoff]
  · rwa [hclaimed, hrunning, hfailed]
  · rwa [hclaimed, htrace]

section Abandon
variable {α : Type} {P E : DispatchWorld → Prop}

/-- A call keeps what does not look at the call counter. -/
theorem invoke_spec {replies : ℕ → Except Raised α} {Q : α → DispatchWorld → Prop}
    (hQ : ∀ a w, P w → Q a { w with calls := w.calls + 1 })
    (hE : ∀ w, P w → E { w with calls := w.calls + 1 }) :
    Triple P (invoke replies) Q E :=
  Triple.answered (fun a w _ hw => hQ a w hw) fun _ w _ hw => hE w hw

theorem modifyWorld_spec {f : DispatchWorld → DispatchWorld} {Q : Unit → DispatchWorld → Prop}
    (h : ∀ w, P w → Q () (f w)) : Triple P (modifyWorld f) Q E :=
  h

theorem appendOnce_spec {Q : Unit → DispatchWorld → Prop} {error : String}
    (h : ∀ w errors, P w → Q () { w with errors := errors }) :
    Triple P (appendOnce error) Q E :=
  modifyWorld_spec fun w hw => by
    split
    · exact h w w.errors hw
    · exact h w _ hw

end Abandon

theorem custody_calls (h : Custody env w) : Custody env { w with calls := w.calls + 1 } :=
  custody_frame h rfl rfl rfl rfl rfl (Nat.le_succ _)

theorem custody_errors (h : Custody env w) (errors : List String) :
    Custody env { w with errors := errors } :=
  custody_frame h rfl rfl rfl rfl rfl le_rfl

theorem count_filter_claim (x c : LaneClaim) : ∀ items : List PreparedLaneDispatch,
    ((items.filter (·.claim ≠ x)).map (·.claim)).count c =
      if c = x then 0 else (items.map (·.claim)).count c
  | [] => by simp
  | item :: items => by
      have ih := count_filter_claim x c items
      by_cases hx : item.claim = x
      · rw [List.filter_cons_of_neg (by simpa using hx), ih, List.map_cons, List.count_cons, hx]
        by_cases hc : c = x
        · rw [if_pos hc, if_pos hc]
        · simp [hc, Ne.symm hc]
      · rw [List.filter_cons_of_pos (by simpa using hx), List.map_cons, List.map_cons,
          List.count_cons, List.count_cons, ih]
        by_cases hc : c = x
        · simp [hc, hx]
        · simp [hc]

theorem Distinct.eq_of_claim (h : Distinct env w) {i i' : PreparedLaneDispatch}
    (hi : i ∈ w.claimed) (hi' : i' ∈ w.claimed) (heq : i.claim = i'.claim) : i = i' :=
  List.inj_on_of_nodup_map h.claims hi hi' heq

/-- The claimed item behind an item of the cell. -/
theorem Custody.behind (h : Custody env w) {item : PreparedLaneDispatch}
    (hcell : ∃ i ∈ w.handoff, i.key = item.key) : ∃ i ∈ w.claimed, i.key = item.key := by
  obtain ⟨i, hi, hkey⟩ := hcell
  obtain ⟨i', hi', hkey'⟩ := h.own i hi
  exact ⟨i', hi', hkey'.trans hkey⟩

theorem key_eq {i i' : PreparedLaneDispatch} (h : i.key = i'.key) :
    i.lane = i'.lane ∧ i.claim = i'.claim :=
  Prod.mk.inj h

theorem Custody.count_le (h : Custody env w) (c : LaneClaim) :
    (w.claimed.map (·.claim)).count c ≤ 1 :=
  List.nodup_iff_count_le_one.mp h.distinct.claims c

/-- STEP: an idle claim of the cell is failed and leaves the cell. -/
theorem custody_fail (h : Custody env w) {item : PreparedLaneDispatch}
    (hcell : ∃ i ∈ w.handoff, i.key = item.key) (hidle : w.running item.lane = none) :
    Custody env { w with
      failed := w.failed ++ [item.claim]
      handoff := w.handoff.filter (·.claim ≠ item.claim) } := by
  obtain ⟨i, hi, hkey⟩ := hcell
  have hin : 0 < (w.handoff.map (·.claim)).count item.claim :=
    List.count_pos_iff.mpr (List.mem_map.mpr ⟨i, hi, (key_eq hkey).2⟩)
  refine ⟨⟨h.distinct.lanes, h.distinct.claims, h.distinct.issued⟩, fun c => ?_, fun j hj => ?_,
    fun j hj d hd => ?_, h.justified⟩
  · dsimp only
    rw [count_filter_claim, List.count_append, h.accounted c]
    by_cases hc : c = item.claim
    · subst hc
      have hle := h.count_le item.claim
      have hsum := h.accounted item.claim
      rw [if_pos rfl, List.count_singleton_self]
      omega
    · rw [if_neg hc, List.count_singleton, if_neg (by simpa using Ne.symm hc)]
      omega
  · exact h.own j (List.mem_of_mem_filter hj)
  · obtain ⟨hclaim, hfailed⟩ := h.running j hj d hd
    refine ⟨hclaim, fun hmem => ?_⟩
    rcases List.mem_append.mp hmem with hmem | hmem
    · exact hfailed hmem
    · obtain ⟨i', hi', hkey'⟩ := h.behind ⟨i, hi, hkey⟩
      have hsame : j = i' :=
        h.distinct.eq_of_claim hj hi' ((List.mem_singleton.mp hmem).trans (key_eq hkey').2.symm)
      rw [hsame, (key_eq hkey').1, hidle] at hd
      cases hd

/-- STEP: failing a claim keeps custody, whether or not the ledger write goes through. -/
theorem failClaim_spec {items : List PreparedLaneDispatch} (item : PreparedLaneDispatch) :
    Triple (fun w => Custody env w ∧ Pending (item :: items) w ∧ w.running item.lane = none)
      (failClaim env item.dispatch) (fun _ w => Custody env w ∧ Pending items w)
      (fun w => Custody env w ∧ Pending items w) := by
  have hkeep : ∀ w, Custody env w ∧ Pending (item :: items) w ∧ w.running item.lane = none →
      Custody env { w with calls := w.calls + 1 } ∧
        Pending items { w with calls := w.calls + 1 } :=
    fun w hw => ⟨custody_calls hw.1, hw.2.1.distinct.of_cons,
      fun i hi => hw.2.1.inCell i (.tail _ hi)⟩
  refine Triple.exceptDo (E := fun w => Custody env w ∧ Pending items w) ?_ fun _ =>
    appendOnce_spec fun w errors hw => ⟨custody_errors hw.1 errors, hw.2.1, hw.2.2⟩
  refine Triple.bind (Q := fun _ w => Custody env w ∧ Pending (item :: items) w ∧
    w.running item.lane = none) (invoke_spec (fun _ w hw => ?_) hkeep) fun _ => ?_
  · exact ⟨custody_calls hw.1, ⟨hw.2.1.distinct, hw.2.1.inCell⟩, hw.2.2⟩
  · intro w hw
    have hcell := hw.2.1.inCell item List.mem_cons_self
    refine ⟨custody_fail hw.1 hcell hw.2.2, hw.2.1.distinct.of_cons, fun i hi => ?_⟩
    obtain ⟨h, hh, hkey⟩ := hw.2.1.inCell i (.tail _ hi)
    have hnodup := hw.2.1.distinct
    rw [List.map_cons, List.nodup_cons] at hnodup
    have hne : h.claim ≠ item.claim := fun heq =>
      hnodup.1 (((key_eq hkey).2.symm.trans heq) ▸ List.mem_map_of_mem hi)
    exact ⟨h, List.mem_filter.mpr ⟨hh, decide_eq_true hne⟩, hkey⟩

/-- RUN: abandoning claims of the cell keeps custody. -/
theorem abandonClaims_spec : ∀ items : List PreparedLaneDispatch,
    Triple (fun w => Custody env w ∧ Pending items w) (abandonClaims env items)
      (fun _ w => Custody env w) (Custody env)
  | [] => Triple.pure fun _ hw => hw.1
  | item :: items => by
      refine Triple.bind (Q := fun _ w => Custody env w ∧ Pending items w) ?_
        fun _ => abandonClaims_spec items
      intro w hw
      unfold abandonClaim
      by_cases hidle : (w.running item.lane).isNone
      · rw [if_pos hidle]
        exact (failClaim_spec item).weaken (fun _ h => h) (fun _ _ h => h) (fun _ h => h.1) w
          ⟨hw.1, hw.2, Option.isNone_iff_eq_none.mp hidle⟩
      · rw [if_neg hidle]
        exact ⟨hw.1, hw.2.distinct.of_cons, fun i hi => hw.2.inCell i (.tail _ hi)⟩

theorem abandonClaims_append (items items' : List PreparedLaneDispatch) :
    abandonClaims env (items ++ items') =
      (abandonClaims env items >>= fun _ => abandonClaims env items') := by
  induction items with
  | nil => rfl
  | cons item items ih =>
    rw [List.cons_append, abandonClaims, abandonClaims, ih, bind_assoc]

/-! ### Exits of a batch -/

/-- What a result says about the world it leaves. -/
def Ends (env : DispatchEnvironment) (r : DispatchBatchResult) (w : DispatchWorld) : Prop :=
  match r.outcome with
  | .failed => Custody env w
  | .published => Custody env w ∧ r.prepared = [] ∧
      ∀ h ∈ w.handoff, ∃ d, w.running h.lane = some d ∧ d.toLaneClaim = h.claim
  | .deferred => Held env w ∧ r.prepared.map (·.key) = w.claimed.map (·.key)

/-- What a callback may change: commands of running lanes end. -/
structure Undisturbed (w w' : DispatchWorld) : Prop where
  claimed : w'.claimed = w.claimed
  handoff : w'.handoff = w.handoff
  failed : w'.failed = w.failed
  trace : w'.trace = w.trace
  calls : w.calls ≤ w'.calls
  running : ∀ lane d, w'.running lane = some d → w.running lane = some d

/-- A condition that no callback disturbs. -/
def Stable (P : DispatchWorld → Prop) : Prop := ∀ w w', Undisturbed w w' → P w → P w'

theorem undisturbed_calls : Undisturbed w { w with calls := w.calls + 1 } :=
  ⟨rfl, rfl, rfl, rfl, Nat.le_succ _, fun _ _ h => h⟩

theorem undisturbed_errors (errors : List String) : Undisturbed w { w with errors := errors } :=
  ⟨rfl, rfl, rfl, rfl, le_rfl, fun _ _ h => h⟩

theorem undisturbed_ended (ended : LaneId → Bool) (calls : ℕ) (h : w.calls ≤ calls) :
    Undisturbed w { w with
      running := fun lane => if ended lane then none else w.running lane, calls := calls } := by
  refine ⟨rfl, rfl, rfl, rfl, h, fun lane d hd => ?_⟩
  dsimp only at hd
  split at hd
  · cases hd
  · exact hd

theorem Held.undisturbed {w' : DispatchWorld} (h : Held env w) (hu : Undisturbed w w') :
    Held env w' := by
  obtain ⟨⟨hlanes, hclaims, hissued⟩, hkept, hidle, hhealthy, hquiet⟩ := h
  refine ⟨⟨hu.claimed ▸ hlanes, hu.claimed ▸ hclaims, fun i hi => ?_⟩, ?_, fun i hi => ?_,
    hu.failed.trans hhealthy, hu.trace ▸ hquiet⟩
  · obtain ⟨n, hn, hd⟩ := hissued i (hu.claimed ▸ hi)
    exact ⟨n, hn.trans_le hu.calls, hd⟩
  · rw [hu.handoff, hu.claimed, hkept]
  · cases hrun : w'.running i.lane with
    | none => rfl
    | some d =>
      have := hu.running i.lane d hrun
      rw [hidle i (hu.claimed ▸ hi)] at this
      cases this

section Exits
variable {P : DispatchWorld → Prop} {prepared remaining : List PreparedLaneDispatch}
  {next : Dispatching DispatchBatchResult}

theorem invoke_stable {α : Type} {replies : ℕ → Except Raised α} (hP : Stable P) :
    Triple P (invoke replies) (fun _ => P) P :=
  invoke_spec (fun _ _ hw => hP _ _ undisturbed_calls hw) fun _ hw => hP _ _ undisturbed_calls hw

theorem abandon_ends (error : String) (hP : ∀ w, P w → Custody env w ∧ Pending prepared w) :
    Triple P (failBatch env error prepared) (Ends env) (Custody env) := by
  refine Triple.bind (Q := fun _ w => Custody env w ∧ Pending prepared w)
    (appendOnce_spec fun w errors hw => ?_) fun _ => ?_
  · obtain ⟨hc, hp⟩ := hP w hw
    exact ⟨custody_errors hc errors, hp.distinct, hp.inCell⟩
  · exact Triple.bind (abandonClaims_spec prepared) fun _ => Triple.pure fun _ h => h

theorem abortPrepared_ends (hP : ∀ w, P w → Custody env w ∧ Pending (prepared ++ remaining) w)
    (hnext : Triple P next (Ends env) (Custody env)) (error : Option String) :
    Triple P (abortPrepared env error prepared remaining next) (Ends env) (Custody env) := by
  cases error with
  | none => exact hnext
  | some error =>
    have h := abandon_ends error hP
    unfold failBatch at h
    rw [abandonClaims_append] at h
    simpa only [abortPrepared, bind_assoc] using h

theorem serviceControl_stable (hP : Stable P) :
    Triple P (serviceControl env) (fun _ => P) P := by
  refine Triple.bind (Q := fun _ => P)
    (modifyWorld_spec fun w hw => hP _ _ (undisturbed_ended _ _ le_rfl) hw) fun _ => ?_
  refine Triple.exceptDo (invoke_stable hP) fun e => ?_
  cases e with
  | exception => exact Triple.bind (invoke_stable hP) fun _ => Triple.pure fun _ h => h
  | interrupt => exact Triple.raise fun _ h => h

theorem abortAfterService_ends (hstable : Stable P)
    (hP : ∀ w, P w → Custody env w ∧ Pending (prepared ++ remaining) w)
    (hnext : Triple P next (Ends env) (Custody env)) :
    Triple P (abortAfterService env prepared remaining next) (Ends env) (Custody env) := by
  refine Triple.ite (fun _ => ?_) fun _ => hnext
  exact Triple.bind ((serviceControl_stable hstable).weaken (fun _ h => h) (fun _ _ h => h)
    fun w h => (hP w h).1) fun error => abortPrepared_ends hP hnext error

theorem betweenStages_ends (hstable : Stable P)
    (hP : ∀ w, P w → Custody env w ∧ Pending (prepared ++ remaining) w)
    (hnext : Triple P next (Ends env) (Custody env)) :
    Triple P (betweenStages env prepared remaining next) (Ends env) (Custody env) := by
  refine abortAfterService_ends hstable hP ?_
  refine Triple.bind ((invoke_stable hstable).weaken (fun _ h => h) (fun _ _ h => h)
    fun w h => (hP w h).1) fun error => ?_
  exact abortPrepared_ends hP (abortAfterService_ends hstable hP hnext) error

/-- A stage that may raise anywhere, from what it keeps until then. -/
theorem stageThen_ends {α : Type} {stage : Dispatching α} {Q : α → DispatchWorld → Prop}
    {R : DispatchWorld → Prop} {items : DispatchWorld → List PreparedLaneDispatch}
    {next : α → Dispatching DispatchBatchResult} (hstage : Triple P stage Q R) (hstable : Stable R)
    (hR : ∀ w, R w → Custody env w ∧ Pending (items w) w)
    (hnext : ∀ a, Triple (Q a) (next a) (Ends env) (Custody env)) :
    Triple P (stageThen env stage items next) (Ends env) (Custody env) := by
  refine Triple.bind (Q := fun r w => r.elim (R w) fun a => Q a w) ?_ fun r => ?_
  · refine Triple.exceptFrom (F := R) ?_ (fun w h => (hR w h).1) fun e => ?_
    · rw [map_eq_pure_bind]
      exact Triple.bind hstage fun a => Triple.pure fun _ h => h
    · cases e with
      | exception => exact Triple.pure fun _ h => h
      | interrupt => exact Triple.raise fun w h => (hR w h).1
  · cases r with
    | some a => exact hnext a
    | none =>
      refine Triple.bind ((invoke_stable hstable).weaken (fun _ h => h) (fun _ _ h => h)
        fun w h => (hR w h).1) fun error => ?_
      refine Triple.bind (Q := fun is w => R w ∧ is = items w) (fun w hw => ⟨hw, rfl⟩) fun is => ?_
      exact abandon_ends error fun w hw => hw.2 ▸ hR w hw.1

end Exits

/-! ### Claiming -/

/-- A dispatch captured for a lane. -/
def captured (lane chunk : ℕ) (dispatch : ProcessLaneDispatch) (w : DispatchWorld) :
    DispatchWorld :=
  let item : PreparedLaneDispatch := { lane := lane, chunk := chunk, dispatch := dispatch }
  { w with handoff := w.handoff ++ [item], claimed := w.claimed ++ [item] }

theorem captureAll_refused {lane chunk : ℕ} (h : (capturedDispatch lane chunk w).isSome) :
    ∀ handed, captureAll lane chunk handed w = (.returned (), w)
  | [] => rfl
  | dispatch :: rest => by
      have hrefused : captureClaim lane chunk dispatch w = (.returned (), w) := by
        unfold captureClaim modifyWorld Program.modify
        dsimp only
        rw [if_pos h]
      rw [captureAll, bind_apply, hrefused]
      exact captureAll_refused h rest

theorem capturedDispatch_captured (lane chunk : ℕ) (dispatch : ProcessLaneDispatch) :
    (capturedDispatch lane chunk (captured lane chunk dispatch w)).isSome := by
  simp [capturedDispatch, captured]

/-- The first dispatch handed over is captured, the others are refused. -/
theorem captureAll_first {lane chunk : ℕ} (h : capturedDispatch lane chunk w = none) :
    ∀ handed, captureAll lane chunk handed w = (.returned (),
      match handed with
      | [] => w
      | dispatch :: _ => captured lane chunk dispatch w)
  | [] => rfl
  | dispatch :: rest => by
      have hfirst : captureClaim lane chunk dispatch w =
          (.returned (), captured lane chunk dispatch w) := by
        unfold captureClaim modifyWorld Program.modify
        dsimp only
        rw [if_neg (by simp [h])]
        rfl
      rw [captureAll, bind_apply, hfirst]
      exact captureAll_refused (capturedDispatch_captured lane chunk dispatch) rest

/-- The lanes still to be visited have no claim. -/
structure Claiming (env : DispatchEnvironment) (lanes : List LaneId) (w : DispatchWorld) : Prop where
  held : Held env w
  unvisited : ∀ lane ∈ lanes, lane ∉ w.claimed.map (·.lane)

theorem Claiming.stable (lanes : List LaneId) : Stable (Claiming env lanes) :=
  fun _ _ hu h => ⟨h.held.undisturbed hu, fun lane hl => hu.claimed ▸ h.unvisited lane hl⟩

theorem Claiming.tail {lane : LaneId} {lanes : List LaneId} (h : Claiming env (lane :: lanes) w) :
    Claiming env lanes w :=
  ⟨h.held, fun l hl => h.unvisited l (.tail _ hl)⟩

theorem Held.pending_cell (h : Held env w) : Pending w.handoff w := h.pending h.kept

theorem Held.not_captured (h : Held env w) {lane : LaneId} (chunk : ℕ)
    (hlane : lane ∉ w.claimed.map (·.lane)) : capturedDispatch lane chunk w = none := by
  unfold capturedDispatch
  rw [Option.map_eq_none_iff, List.find?_eq_none]
  intro item hitem hmatch
  obtain ⟨i, hi, hkey⟩ := exists_of_keys h.kept (List.mem_reverse.mp hitem)
  have hsame : item.lane = lane := (of_decide_eq_true hmatch).1
  exact hlane (hsame ▸ (key_eq hkey).1 ▸ List.mem_map_of_mem hi)

/-- STEP: a captured dispatch is a new claim on a lane of its own. -/
theorem held_captured (h : Held env w) {lane chunk : ℕ} {dispatch : ProcessLaneDispatch}
    (hlane : lane ∉ w.claimed.map (·.lane)) (hidle : w.running lane = none)
    (hhanded : dispatch ∈ (env.claim w.calls).handed) :
    Held env { captured lane chunk dispatch w with calls := w.calls + 1 } := by
  obtain ⟨⟨hlanes, hclaims, hissued⟩, hkept, hidles, hhealthy, hquiet⟩ := h
  have hnew : dispatch.toLaneClaim ∉ w.claimed.map (·.claim) := by
    intro hmem
    obtain ⟨i, hi, heq⟩ := List.mem_map.mp hmem
    obtain ⟨n, hn, d, hd, hclaim⟩ := hissued i hi
    exact hn.ne (env.fresh n w.calls d dispatch hd hhanded (hclaim.trans heq))
  refine ⟨⟨?_, ?_, fun i hi => ?_⟩, ?_, fun i hi => ?_, hhealthy, hquiet⟩
  · simpa [captured, List.nodup_append] using ⟨hlanes, fun i hi heq =>
      hlane (heq ▸ List.mem_map_of_mem hi)⟩
  · simpa [captured, List.nodup_append, PreparedLaneDispatch.claim] using ⟨hclaims, fun i hi heq =>
      hnew (heq ▸ List.mem_map_of_mem hi)⟩
  · rcases List.mem_append.mp hi with hi | hi
    · obtain ⟨n, hn, hd⟩ := hissued i hi
      exact ⟨n, Nat.lt_succ_of_lt hn, hd⟩
    · rw [List.mem_singleton.mp hi]
      exact ⟨w.calls, Nat.lt_succ_self _, dispatch, hhanded, rfl⟩
  · simp [captured, hkept]
  · rcases List.mem_append.mp hi with hi | hi
    · exact hidles i hi
    · rw [List.mem_singleton.mp hi]
      exact hidle

theorem claimChunk_spec {lane chunk : ℕ} {lanes : List LaneId} (hnodup : (lane :: lanes).Nodup) :
    Triple (fun w => Claiming env (lane :: lanes) w ∧ w.running lane = none)
      (claimChunk env lane chunk) (fun _ => Claiming env lanes) (Claiming env lanes) := by
  rintro w ⟨hclaiming, hidle⟩
  have hlane := hclaiming.unvisited lane List.mem_cons_self
  have hafter : Claiming env lanes { (match (env.claim w.calls).handed with
      | [] => w
      | dispatch :: _ => captured lane chunk dispatch w) with calls := w.calls + 1 } := by
    cases hhanded : (env.claim w.calls).handed with
    | nil => exact hclaiming.tail.stable lanes _ _ undisturbed_calls
    | cons dispatch rest =>
      refine ⟨held_captured hclaiming.held hlane hidle (by simp [hhanded]), fun l hl hmem => ?_⟩
      have hcases : l ∈ w.claimed.map (·.lane) ∨ l = lane := by simpa [captured] using hmem
      rcases hcases with hold | rfl
      · exact hclaiming.unvisited l (.tail _ hl) hold
      · exact (List.nodup_cons.mp hnodup).1 hl
  have hcalls : (match (env.claim w.calls).handed with
      | [] => w
      | dispatch :: _ => captured lane chunk dispatch w).calls = w.calls := by
    split <;> rfl
  unfold claimChunk
  rw [bind_apply, captureAll_first (hclaiming.held.not_captured chunk hlane)]
  unfold invoke answered
  dsimp only
  rw [hcalls]
  cases (env.claim w.calls).result with
  | ok _ => exact hafter
  | error e => exact hafter

theorem claimStage_spec {lane chunk : ℕ} {lanes : List LaneId} (hnodup : (lane :: lanes).Nodup) :
    Triple (fun w => Claiming env (lane :: lanes) w ∧ w.running lane = none)
      (claimStage env lane chunk) (fun _ => Claiming env lanes) (Claiming env lanes) := by
  refine Triple.bind (claimChunk_spec hnodup) fun _ => ?_
  refine Triple.bind (Q := fun _ => Claiming env lanes) (fun w hw => hw) fun dispatch => ?_
  refine Triple.bind (Q := fun _ => Claiming env lanes)
    (Triple.raiseWhen (fun _ h _ => h) fun _ h _ => h) fun _ => ?_
  exact invoke_stable (Claiming.stable lanes)

/-- RUN: the claim phase ends a batch with custody, or hands all its claims on. -/
theorem claimLanes_ends {next : List PreparedLaneDispatch → Dispatching DispatchBatchResult}
    (hnext : ∀ prepared, Triple (fun w => Held env w ∧ w.handoff = prepared) (next prepared)
      (Ends env) (Custody env)) :
    ∀ (lanes : List LaneId), lanes.Nodup → ∀ prepared,
      Triple (fun w => Claiming env lanes w ∧ w.handoff = prepared)
        (claimLanes env next lanes prepared) (Ends env) (Custody env)
  | [], _, prepared => (hnext prepared).weaken (fun _ h => ⟨h.1.held, h.2⟩) (fun _ _ h => h)
      fun _ h => h
  | lane :: lanes, hnodup, prepared => by
      have hrest := claimLanes_ends hnext lanes hnodup.of_cons
      rintro w ⟨hclaiming, rfl⟩
      unfold claimLanes
      cases hqueue : w.queue with
      | nil => exact hnext _ w ⟨hclaiming.held, rfl⟩
      | cons chunk queue =>
        dsimp only
        by_cases hbusy : (w.running lane).isSome ∨ env.stopping w.calls lane ∨
            ¬ env.runtimeReady w.calls lane
        · rw [if_pos hbusy]
          exact hrest _ w ⟨hclaiming.tail, rfl⟩
        rw [if_neg hbusy]
        by_cases hexit : (env.exitcode w.calls lane).isSome
        · rw [if_pos hexit]
          exact abandon_ends _ (P := fun w' => Held env w' ∧ w'.handoff = w.handoff)
            (fun w' hw' => ⟨hw'.1.custody, hw'.2 ▸ hw'.1.pending_cell⟩) w ⟨hclaiming.held, rfl⟩
        rw [if_neg hexit]
        have hidle : w.running lane = none := by
          push Not at hbusy
          simpa using hbusy.1
        have hpopped : Claiming env (lane :: lanes) { w with queue := queue } :=
          Claiming.stable _ w _ ⟨rfl, rfl, rfl, rfl, le_rfl, fun _ _ h => h⟩ hclaiming
        refine stageThen_ends (claimStage_spec hnodup) (Claiming.stable lanes)
          (fun u hu => ⟨hu.held.custody, hu.held.pending_cell⟩) (fun _ => ?_) _ ⟨hpopped, hidle⟩
        refine Triple.bind (Q := fun handoff u => Claiming env lanes u ∧ u.handoff = handoff)
          (fun u hu => ⟨hu, rfl⟩) fun handoff => ?_
        refine betweenStages_ends (fun u u' hu h => ?_) (fun u hu => ?_) (hrest handoff)
        · exact ⟨Claiming.stable lanes u u' hu h.1, hu.handoff.trans h.2⟩
        · rw [List.append_nil]
          exact ⟨hu.1.held.custody, hu.2 ▸ hu.1.held.pending_cell⟩

/-! ### Refreshing and proving -/

theorem thisAttempt_cons {e : DispatchEvent} (he : e ≠ .began) (trace : List DispatchEvent) :
    thisAttempt (e :: trace) = e :: thisAttempt trace :=
  List.takeWhile_cons_of_pos (by simpa using he)

theorem Shown.cons {c : LaneClaim} {trace : List DispatchEvent} (h : Shown c trace)
    {e : DispatchEvent} (he : e ≠ .began) : Shown c (e :: trace) := by
  unfold Shown
  rw [thisAttempt_cons he]
  exact ⟨.tail _ h.1, .tail _ h.2⟩

/-- Before the first write: `items` are the claims of the batch, `shown` those already proven. -/
structure Phase (env : DispatchEnvironment) (items shown : List PreparedLaneDispatch)
    (w : DispatchWorld) : Prop where
  held : Held env w
  keys : items.map (·.key) = w.claimed.map (·.key)
  shown : ∀ i ∈ shown, Shown i.claim w.trace

theorem Phase.stable (items shown : List PreparedLaneDispatch) : Stable (Phase env items shown) :=
  fun _ _ hu h => ⟨h.held.undisturbed hu, hu.claimed ▸ h.keys, hu.trace ▸ h.shown⟩

theorem Phase.abandonable {items shown : List PreparedLaneDispatch} (h : Phase env items shown w) :
    Custody env w ∧ Pending items w :=
  ⟨h.held.custody, h.held.pending h.keys⟩

theorem Held.record (h : Held env w) {e : DispatchEvent} (he : ∀ c, e ≠ .sent c) :
    Held env { w with trace := e :: w.trace } :=
  ⟨⟨h.distinct.lanes, h.distinct.claims, h.distinct.issued⟩, h.kept, h.idle, h.healthy,
    fun c hc => (List.mem_cons.mp hc).elim (fun heq => he c heq.symm) (h.quiet c)⟩

theorem Phase.record {items shown : List PreparedLaneDispatch} (h : Phase env items shown w)
    {e : DispatchEvent} (he : ∀ c, e ≠ .sent c) (hbegan : e ≠ .began) :
    Phase env items shown { w with trace := e :: w.trace } :=
  ⟨h.held.record he, h.keys, fun i hi => (h.shown i hi).cons hbegan⟩

theorem keys_replace {a b : List PreparedLaneDispatch} {i i' : PreparedLaneDispatch}
    (h : i'.key = i.key) :
    ((a ++ [i']) ++ b).map (·.key) = (a ++ i :: b).map (·.key) := by
  simp [h]

/-- What a refreshed item keeps, and what is on record for it. -/
def Refreshed (env : DispatchEnvironment) (refreshed remaining : List PreparedLaneDispatch)
    (item : PreparedLaneDispatch) (w : DispatchWorld) : Prop :=
  Phase env ((refreshed ++ [item]) ++ remaining) refreshed w ∧
    .refreshed item.claim ∈ thisAttempt w.trace

theorem refreshStage_spec {refreshed remaining : List PreparedLaneDispatch}
    (item : PreparedLaneDispatch) :
    Triple (Phase env (refreshed ++ item :: remaining) refreshed) (refreshStage env item)
      (fun item' w => item'.key = item.key ∧ Refreshed env refreshed remaining item' w)
      (Phase env (refreshed ++ item :: remaining) refreshed) := by
  have hstable : Stable (Phase env (refreshed ++ item :: remaining) refreshed) :=
    Phase.stable _ _
  refine Triple.bind (invoke_stable hstable) fun dispatch => ?_
  refine Triple.bind (Q := fun _ w => Phase env (refreshed ++ item :: remaining) refreshed w ∧
      item.claim = dispatch.toLaneClaim)
    (Triple.raiseWhen (fun _ h _ => h) fun _ h hne => ⟨h, not_not.mp hne⟩) fun _ => ?_
  refine Triple.bind (Q := fun _ w => Phase env (refreshed ++ item :: remaining) refreshed w ∧
      item.claim = dispatch.toLaneClaim) (invoke_spec (fun _ w h =>
        ⟨hstable _ _ undisturbed_calls h.1, h.2⟩) fun w h => hstable _ _ undisturbed_calls h.1)
    fun _ => ?_
  rintro w ⟨hphase, hclaim⟩
  have hkeys := hphase.record (e := .refreshed dispatch.toLaneClaim) (by simp) (by simp)
  have hkey : ∀ message, ({ item with dispatch := dispatch, message := message } :
      PreparedLaneDispatch).key = item.key := fun _ => Prod.ext rfl hclaim.symm
  refine ⟨hkey _, ⟨hkeys.held, (keys_replace (hkey _)).trans hkeys.keys, hkeys.shown⟩, ?_⟩
  · dsimp only
    rw [thisAttempt_cons (by simp)]
    exact List.mem_cons_self

/-- RUN: a batch is handed on when all its claims were refreshed and proven. -/
theorem refreshClaims_ends {prepared : List PreparedLaneDispatch}
    {next : List PreparedLaneDispatch → Dispatching DispatchBatchResult}
    (hnext : ∀ refreshed, Triple (Phase env refreshed refreshed) (next refreshed)
      (Ends env) (Custody env)) :
    ∀ remaining refreshed, prepared.map (·.key) = (refreshed ++ remaining).map (·.key) →
      Triple (Phase env (refreshed ++ remaining) refreshed)
        (refreshClaims env prepared next remaining refreshed) (Ends env) (Custody env)
  | [], refreshed, _ => by
      rw [List.append_nil]
      exact hnext refreshed
  | item :: remaining, refreshed, hprepared => by
      refine stageThen_ends (refreshStage_spec item) (Phase.stable _ _)
        (fun w hw => ⟨hw.held.custody, hw.held.pending (hprepared.trans hw.keys)⟩) fun item' => ?_
      refine Triple.of_fact fun hkey => ?_
      have hstable : Stable (Refreshed env refreshed remaining item') := fun w w' hu h =>
        ⟨Phase.stable _ _ w w' hu h.1, hu.trace ▸ h.2⟩
      have habandon : ∀ w, Refreshed env refreshed remaining item' w →
          Custody env w ∧ Pending ((refreshed ++ [item']) ++ remaining) w :=
        fun w hw => hw.1.abandonable
      refine betweenStages_ends hstable habandon ?_
      refine Triple.bind ((invoke_stable hstable).weaken (fun _ h => h) (fun _ _ h => h)
        fun w h => (habandon w h).1) fun proofError => ?_
      refine abortPrepared_ends habandon ?_ proofError
      refine Triple.bind (Q := fun _ =>
        Phase env ((refreshed ++ [item']) ++ remaining) (refreshed ++ [item'])) ?_ fun _ => ?_
      · rintro w ⟨hphase, hrefreshed⟩
        have hnew := hphase.record (e := .proven item'.claim) (by simp) (by simp)
        refine ⟨hnew.held, hnew.keys, fun i hi => ?_⟩
        rcases List.mem_append.mp hi with hi | hi
        · exact hnew.shown i hi
        · rw [List.mem_singleton.mp hi]
          unfold Shown
          dsimp only
          rw [thisAttempt_cons (by simp)]
          exact ⟨.tail _ hrefreshed, List.mem_cons_self⟩
      · refine abortAfterService_ends (Phase.stable _ _) (fun w hw => hw.abandonable) ?_
        exact refreshClaims_ends hnext remaining _ (hprepared.trans (keys_replace hkey).symm)

end Dpone.Backfill
