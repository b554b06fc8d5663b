import Dpone.Schemes.Saga
import Dpone.Backfill.CampaignLock

/-! One holder of the campaign lock, and phases that run under it.

    The two lock fields track the log of what owners were promised; that gives one unexpired holder
    in every interleaving. A cancellation stays: nothing publishes a cancelled campaign, and nothing
    acquires one that is not published. A fenced phase is enclosed by two renewals of one owner, so
    its result is only accepted if both found the owner in the ledger, unexpired. -/

namespace Dpone.Backfill
open Dpone.Schemes Dpone.Schemes.LeaseEvent Program

/-- INVARIANT: the lock fields are set together and track the log. -/
structure LockInv (w : LockWorld) : Prop where
  paired : w.ledger.lockOwner.isSome → w.ledger.lockExpiresAt.isSome
  named : ∀ o, w.ledger.lockOwner = some o → o ≠ []
  tracks : Tracks w.ledger.slot w.time w.log

theorem slot_none {l : CampaignLedger} (h : l.lockOwner = none) : l.slot = none := by
  unfold CampaignLedger.slot
  rw [h]

theorem lockInv_created {w : LockWorld} (h : w.Created) : LockInv w := by
  refine ⟨fun hsome => ?_, fun o ho => ?_, ?_⟩
  · rw [h.unlocked] at hsome
    cases hsome
  · rw [h.unlocked] at ho
    cases ho
  · rw [slot_none h.unlocked, h.unlogged]
    exact Tracks.start w.time

/-- STEP: a call keeps the lock fields in step with the log. -/
theorem lockInv_step {w w' : LockWorld} {l : LockOp × LockAnswer} (h : LockInv w)
    (hstep : w.Step l w') : LockInv w' := by
  obtain ⟨hle, event, hlog, hmove⟩ := step_makes hstep
  have htracks := h.tracks.later hle
  obtain ⟨op, a⟩ := l
  obtain ⟨ledger, time, log⟩ := w'
  dsimp only at hlog hmove htracks
  subst hlog
  cases hmove with
  | refuse => exact ⟨h.paired, h.named, htracks⟩
  | raise => exact ⟨h.paired, h.named, htracks⟩
  | ignore => exact ⟨h.paired, h.named, htracks⟩
  | @acquire owner expiry _ _ hfree =>
    refine ⟨fun _ => rfl, fun o ho => ?_, htracks.grant (fun o e hslot => ?_) owner.1 expiry⟩
    · obtain rfl := Option.some.inj ho
      exact owner.ne_nil
    · exact hfree o e hslot (h.named o (slot_eq_some.mp hslot).1)
  | @renew owner current expiry _ _ howner hcurrent =>
    rw [slot_eq_some.mpr ⟨howner, hcurrent⟩] at htracks
    refine ⟨fun _ => rfl, h.named, ?_⟩
    have hslot : ∀ t, (CampaignLedger.save
        { w.ledger with lockExpiresAt := some (max current expiry) } t).slot =
          some (owner.1, max current expiry) :=
      fun t => slot_eq_some.mpr ⟨howner, rfl⟩
    rw [hslot]
    exact htracks.extend expiry
  | @keep owner current expiry _ howner hcurrent hshort =>
    rw [slot_eq_some.mpr ⟨howner, hcurrent⟩] at htracks
    refine ⟨h.paired, h.named, ?_⟩
    have hextend := htracks.extend expiry
    rw [max_eq_left hshort] at hextend
    rwa [slot_eq_some.mpr ⟨howner, hcurrent⟩]
  | @release owner _ howner =>
    refine ⟨fun hsome => (nomatch hsome), fun o ho => (nomatch ho), ?_⟩
    obtain ⟨current, hcurrent⟩ := Option.isSome_iff_exists.mp (h.paired (by simp [howner]))
    rw [slot_eq_some.mpr ⟨howner, hcurrent⟩] at htracks
    exact htracks.finish
  | cancel => exact ⟨h.paired, h.named, htracks⟩
  | publish => exact ⟨h.paired, h.named, htracks⟩

/-- FRAME: a cancelled campaign that is not published stays so. -/
theorem stopped_step {w w' : LockWorld} {l : LockOp × LockAnswer} (h : w.ledger.stopped)
    (hstep : w.Step l w') : w'.ledger.stopped := by
  obtain ⟨-, event, -, hmove⟩ := step_makes hstep
  obtain ⟨op, a⟩ := l
  generalize w'.ledger = l' at hmove ⊢
  cases hmove with
  | refuse => exact h
  | raise => exact h
  | ignore => exact h
  | acquire hopen => exact absurd h hopen
  | renew hopen => exact absurd h hopen
  | keep hopen => exact absurd h hopen
  | release => exact h
  | cancel => exact ⟨rfl, h.2⟩
  | publish _ hactive => exact absurd h.1 hactive

/-- An accepted cancellation stops a campaign. -/
theorem stopped_of_cancel {w w' : LockWorld} {reason requestedBy : Str}
    (h : w.Step (.cancel reason requestedBy, .ok none) w') : w'.ledger.stopped := by
  obtain ⟨-, event, -, hmove⟩ := step_makes h
  generalize w'.ledger = l' at hmove ⊢
  cases hmove with
  | cancel hunpublished => exact ⟨rfl, hunpublished⟩

theorem stopped_refuses_acquire {w w' : LockWorld} (h : w.ledger.stopped) {owner : LeaseOwner}
    {expiry : Instant} {a : LockAnswer} (hstep : w.Step (.acquire owner expiry, a) w') :
    a ≠ .ok (some true) ∧ w'.ledger = w.ledger := by
  obtain ⟨-, event, -, hmove⟩ := step_makes hstep
  generalize w'.ledger = l' at hmove ⊢
  cases hmove with
  | refuse => exact ⟨by simp, rfl⟩
  | raise => exact ⟨by simp, rfl⟩
  | acquire hopen => exact absurd h hopen

theorem stopped_refuses_renew {w w' : LockWorld} (h : w.ledger.stopped) {owner : LeaseOwner}
    {expiry : Instant} {a : LockAnswer} (hstep : w.Step (.renew owner expiry, a) w') :
    a ≠ .ok (some true) ∧ w'.ledger = w.ledger := by
  obtain ⟨-, event, -, hmove⟩ := step_makes hstep
  generalize w'.ledger = l' at hmove ⊢
  cases hmove with
  | refuse => exact ⟨by simp, rfl⟩
  | raise => exact ⟨by simp, rfl⟩
  | renew hopen => exact absurd h hopen
  | keep hopen => exact absurd h hopen

/-- MONOTONE: no renewal shortens the lock. -/
theorem renew_keeps_expiry {w w' : LockWorld} {owner : LeaseOwner} {expiry e : Instant}
    {a : LockAnswer} (hstep : w.Step (.renew owner expiry, a) w')
    (he : w.ledger.lockExpiresAt = some e) :
    ∃ e', w'.ledger.lockExpiresAt = some e' ∧ e ≤ e' := by
  obtain ⟨-, event, -, hmove⟩ := step_makes hstep
  generalize w'.ledger = l' at hmove ⊢
  cases hmove with
  | refuse => exact ⟨e, he, le_rfl⟩
  | raise => exact ⟨e, he, le_rfl⟩
  | @renew _ current _ _ _ _ hcurrent =>
    obtain rfl := Option.some.inj (he.symm.trans hcurrent)
    exact ⟨_, rfl, le_max_left _ _⟩
  | keep => exact ⟨e, he, le_rfl⟩

theorem published_refuses_cancel {w w' : LockWorld} (h : w.ledger.published = true)
    {reason requestedBy : Str} {a : LockAnswer}
    (hstep : w.Step (.cancel reason requestedBy, a) w') : w'.ledger = w.ledger ∧
      a = .error (.runtimeError "backfill cancellation is closed after target publication") := by
  obtain ⟨now, -, -, -, hcall⟩ := hstep
  rw [LockWorld.call, requestCancel, if_pos h] at hcall
  obtain ⟨ha, hw⟩ := Prod.mk.inj hcall
  refine ⟨?_, ha.symm⟩
  rw [← hw]

/-! ### The lease object -/

/-- The identity and the times of a `BackfillCampaignLease`. -/
structure CampaignLease where
  owner : LeaseOwner
  ttl : ℤ
  renewInterval : ℤ
  interval_pos : 0 < renewInterval
  interval_lt : renewInterval < ttl

/-- What a lease remembers. -/
structure LeaseState where
  nextRenewal : Option Instant := none
  acquired : Bool := false
  healthy : Bool := true

structure FencedWorld where
  campaign : LockWorld
  lease : LeaseState

abbrev Fenced (α : Type) := Program FencedWorld CampaignError α

/-- One tick's clock readings, its own and those of the store, and whether the store fails. -/
structure StoreCall where
  seen : Instant
  now : ℕ → Instant
  later : Instant
  failure : Option CampaignError

variable (lease : CampaignLease)

/-- `assert_healthy`. -/
def assertHealthy : Fenced Unit := fun w =>
  if w.lease.healthy then (.returned (), w) else (.raised .leaseLost, w)

/-- The renewal of `tick`. -/
def renewLease (call : StoreCall) : Fenced Unit := fun w =>
  match call.failure with
  | some e => (.raised e, w)
  | none =>
    match w.campaign.call call.now call.later (.renew lease.owner (call.seen + lease.ttl)) with
    | (.ok (some true), campaign) =>
      (.returned (), ⟨campaign, { w.lease with nextRenewal := some (call.seen + lease.renewInterval) }⟩)
    | (.ok _, campaign) => (.raised .leaseLost, ⟨campaign, { w.lease with healthy := false }⟩)
    | (.error e, campaign) => (.raised e, ⟨campaign, w.lease⟩)

/-- `tick`. -/
def tick (call : StoreCall) (force : Bool) : Fenced Unit := do
  assertHealthy
  fun w =>
    match w.lease.acquired, w.lease.nextRenewal with
    | true, some next =>
      if force = false ∧ call.seen < next then (.returned (), w) else renewLease lease call w
    | _, _ => (.raised .leaseLost, w)

/-- `run_fenced`. Whatever other processes do meanwhile happens in `operation`. -/
def runFenced {α : Type} (before after : StoreCall) (operation : Fenced α) : Fenced α := do
  tick lease before true
  let result ← operation
  tick lease after true
  assertHealthy
  return result

/-- The owner is in the ledger, unexpired at the instant. -/
def Holds (ledger : CampaignLedger) (owner : LeaseOwner) (t : Instant) : Prop :=
  ledger.lockOwner = some owner.1 ∧ ∃ e, ledger.lockExpiresAt = some e ∧ t < e

/-- An accepted renewal found its owner in the ledger. -/
theorem holds_of_renewed {l : CampaignLedger} {owner : LeaseOwner} {expiry : Instant}
    {now : ℕ → Instant} (h : (renewCampaignLock l owner.1 expiry now).1 = true) :
    Holds l owner (now 0) := by
  unfold renewCampaignLock renewCampaignLockIfOwned at h
  split_ifs at h with hrefused hlonger
  all_goals
    push Not at hrefused
    obtain ⟨-, howner, hlive, -⟩ := hrefused
    refine ⟨howner, ?_⟩
    cases hexpiry : l.lockExpiresAt with
    | none => exact absurd (hlive rfl) (by simp [hexpiry, expired])
    | some e => exact ⟨e, rfl, by simpa [hexpiry, expired] using hlive rfl⟩

variable {lease}

theorem holds_of_renewLease {call : StoreCall} {w w' : FencedWorld}
    (h : renewLease lease call w = (.returned (), w')) :
    Holds w.campaign.ledger lease.owner (call.now 0) := by
  unfold renewLease at h
  split at h
  · cases h
  · rw [LockWorld.call] at h
    cases hrenew : renewCampaignLock w.campaign.ledger lease.owner.1 (call.seen + lease.ttl)
        call.now with
    | mk renewed ledger =>
      rw [hrenew] at h
      cases renewed with
      | false => simp [LockWorld.settle] at h
      | true => exact holds_of_renewed (by rw [hrenew])

/-- A forced tick returns only from a renewal. -/
theorem holds_of_tick {call : StoreCall} {w w' : FencedWorld}
    (h : tick lease call true w = (.returned (), w')) :
    Holds w.campaign.ledger lease.owner (call.now 0) := by
  obtain ⟨_, w₁, hhealthy, h⟩ := returned_of_bind h
  obtain rfl : w = w₁ := by
    unfold assertHealthy at hhealthy
    split at hhealthy <;> cases hhealthy
    rfl
  split at h
  · rw [if_neg (by simp)] at h
    exact holds_of_renewLease h
  · cases h

/-- STEP: a fenced phase whose result is accepted ran between two renewals of its owner. -/
theorem runFenced_spec {α : Type} {before after : StoreCall} {operation : Fenced α}
    {w w' : FencedWorld} {r : α} (h : runFenced lease before after operation w = (.returned r, w')) :
    ∃ w₁ w₂, operation w₁ = (.returned r, w₂) ∧
      Holds w.campaign.ledger lease.owner (before.now 0) ∧
      Holds w₂.campaign.ledger lease.owner (after.now 0) := by
  obtain ⟨_, w₁, hbefore, h⟩ := returned_of_bind h
  obtain ⟨result, w₂, hoperation, h⟩ := returned_of_bind h
  obtain ⟨_, w₃, hafter, h⟩ := returned_of_bind h
  obtain ⟨_, w₄, _, h⟩ := returned_of_bind h
  obtain rfl : result = r := by
    cases h
    rfl
  exact ⟨w₁, w₂, hoperation, holds_of_tick hbefore, holds_of_tick hafter⟩

/-- CORRECT (campaign lock), for every order of calls by any number of owners under a clock that
    never goes back: unexpired promises of the lock have one owner; a renewal never shortens the
    lock; once a campaign is cancelled before its publication, no acquisition or renewal succeeds
    any more; a published campaign cannot be cancelled; and a fenced phase yields a result only if
    its owner held the lock both before and after it. -/
theorem campaign_lock_safe {w₀ w : LockWorld} (hcreated : w₀.Created)
    {τ : List (LockWorld × LockOp × LockAnswer)} (hrun : Run LockWorld.Step w₀ τ w) :
    (∀ o o' t t', Promised o t w.log → w.time < t → Promised o' t' w.log → w.time < t' → o = o') ∧
    (∀ owner expiry a w', w.Step (.renew owner expiry, a) w' → ∀ e,
      w.ledger.lockExpiresAt = some e → ∃ e', w'.ledger.lockExpiresAt = some e' ∧ e ≤ e') ∧
    (∀ reason requestedBy w₁, w.Step (.cancel reason requestedBy, .ok none) w₁ →
      ∀ τ' w₂, Run LockWorld.Step w₁ τ' w₂ → ∀ owner expiry a w₃,
        w₂.Step (.acquire owner expiry, a) w₃ ∨ w₂.Step (.renew owner expiry, a) w₃ →
        a ≠ .ok (some true) ∧ w₃.ledger = w₂.ledger) ∧
    (∀ reason requestedBy a w', w.Step (.cancel reason requestedBy, a) w' →
      w.ledger.published = true → w'.ledger = w.ledger ∧ a =
        .error (.runtimeError "backfill cancellation is closed after target publication")) ∧
    (∀ (α : Type) (lease : CampaignLease) (before after : StoreCall) (operation : Fenced α)
      (s s' : FencedWorld) (r : α), runFenced lease before after operation s = (.returned r, s') →
      ∃ s₁ s₂, operation s₁ = (.returned r, s₂) ∧
        Holds s.campaign.ledger lease.owner (before.now 0) ∧
        Holds s₂.campaign.ledger lease.owner (after.now 0)) := by
  have hinv := Run.invariant (lockInv_created hcreated) lockInv_step hrun
  refine ⟨fun o o' t t' hp ht hp' ht' => hinv.tracks.exclusive hp ht hp' ht',
    fun owner expiry a w' hstep e he => renew_keeps_expiry hstep he,
    fun reason requestedBy w₁ hcancel τ' w₂ hlater owner expiry a w₃ hcall => ?_,
    fun reason requestedBy a w' hstep hpublished => published_refuses_cancel hpublished hstep,
    fun α lease before after operation s s' r h => runFenced_spec h⟩
  have hstopped : w₂.ledger.stopped :=
    Run.invariant (I := fun w => w.ledger.stopped) (stopped_of_cancel hcancel) stopped_step hlater
  rcases hcall with hacquire | hrenew
  · exact stopped_refuses_acquire hstopped hacquire
  · exact stopped_refuses_renew hstopped hrenew

/-- A campaign, one owner who locks it, an operator who cancels it, and another owner. -/
def newCampaign : LockWorld where
  ledger := {
    runKey := "campaign", dataset := "analytics.orders".toList, innerMode := "merge".toList
    chunkConfig := ⟨"id".toList, "1".toList, "9".toList, "3".toList, "int".toList⟩ }
  time := 0
  log := []

def workerOwner (name : Str) : LeaseOwner :=
  ⟨recoverableCampaignOwnerPrefix ++ name, List.prefix_append _ _⟩

def lockOp : LockOp := .acquire (workerOwner ['a']) 90

def cancelOp : LockOp := .cancel "source maintenance".toList "data-ops".toList

def takeoverOp : LockOp := .acquire (workerOwner ['b']) 500

def locked : LockWorld := (newCampaign.call (fun _ => 0) 0 lockOp).2

def cancelled : LockWorld := (locked.call (fun _ => 1) 1 cancelOp).2

/-- The lock of the first owner has run out, yet the campaign stays closed. -/
theorem campaign_lock_safe_on_cancel :
    (cancelled.call (fun _ => 100) 100 takeoverOp).1 ≠ .ok (some true) := by
  have hlock : newCampaign.Step (lockOp, .ok (some true)) locked :=
    ⟨fun _ => 0, monotone_const, le_rfl, fun _ => le_rfl, rfl⟩
  have hcancel : locked.Step (cancelOp, .ok none) cancelled :=
    ⟨fun _ => 1, monotone_const, by decide, fun _ => le_rfl, rfl⟩
  have htakeover : cancelled.Step (takeoverOp, (cancelled.call (fun _ => 100) 100 takeoverOp).1)
      (cancelled.call (fun _ => 100) 100 takeoverOp).2 :=
    ⟨fun _ => 100, monotone_const, by decide, fun _ => le_rfl, rfl⟩
  have hcreated : newCampaign.Created := ⟨rfl, rfl⟩
  obtain ⟨-, -, hclosed, -⟩ := campaign_lock_safe hcreated (Run.nil.snoc hlock)
  exact (hclosed _ _ _ hcancel [] _ .nil _ _ _ _ (.inl htakeover)).1

end Dpone.Backfill
