import Mathlib.Data.Int.ConditionallyCompleteOrder
import Mathlib.Data.List.Infix
import Mathlib.Order.Monotone.Basic
import Dpone.Schemes.Lease
import Dpone.Schemes.Run
import Dpone.Backfill.ChunkLease

/-! The campaign lock of the backfill ledger.

    The lock is two fields of the ledger, an owner and an expiry; cancellation is its status, and
    publication a record of its own. Each operation tests some of the three and saves the ledger
    under the store's lock. `Move` lists what a call can do, and everything else is derived from it.
    Publishing is the fenced transaction of the SQL store: it takes the publication record of the
    caller and everything else from the ledger it reads. -/

namespace Dpone.Backfill
open Dpone.Schemes Dpone.Schemes.LeaseEvent

inductive PublicationPhase where
  | planned | prepared | published
  deriving DecidableEq, Repr

structure BackfillPublicationRecord where
  phase : PublicationPhase := .planned
  deriving DecidableEq

/-- `chunk_config`, under the keys it is planned with. -/
structure ChunkConfig where
  column : Str
  start : Str
  stop : Str
  step : Str
  kind : Str
  deriving DecidableEq

/-- The ledger with the fields the campaign operations read. -/
structure CampaignLedger extends BackfillLedger where
  dataset : Str
  innerMode : Str
  chunkConfig : ChunkConfig
  planHash : Option Str := none
  configHash : Option Str := none
  cancelReason : Option Str := none
  cancelRequestedBy : Option Str := none
  lockOwner : Option Str := none
  lockExpiresAt : Option Instant := none
  publication : Option BackfillPublicationRecord := none

inductive CampaignError where
  | runtimeError (text : String)
  | leaseLost
  | other
  deriving DecidableEq, Repr

def recoverableCampaignOwnerPrefix : Str := "dpone-backfill-campaign-lease-v2:".toList

/-- `BackfillCampaignLease` takes no other owner. -/
def LeaseOwner := { owner : Str // recoverableCampaignOwnerPrefix <+: owner }

theorem LeaseOwner.ne_nil (owner : LeaseOwner) : owner.1 ≠ [] := by
  obtain ⟨rest, hrest⟩ := owner.2
  rw [← hrest]
  exact List.cons_ne_nil _ _

namespace CampaignLedger

/-- `save`. -/
def save (ledger : CampaignLedger) (now : Instant) : CampaignLedger :=
  { ledger with toBackfillLedger := Backfill.save ledger.toBackfillLedger now }

/-- `_published`. -/
def published (ledger : CampaignLedger) : Bool :=
  ledger.publication.any (·.phase = .published)

/-- Cancelled, with nothing at the target to be finished. -/
def stopped (ledger : CampaignLedger) : Prop :=
  ledger.status = .cancelRequested ∧ ledger.published = false

instance (ledger : CampaignLedger) : Decidable ledger.stopped :=
  inferInstanceAs (Decidable (_ ∧ _))

/-- `_campaign_identity`. -/
def identity (ledger : CampaignLedger) :
    String × Str × Str × Option Str × Option Str × ChunkConfig :=
  (ledger.runKey, ledger.dataset, ledger.innerMode, ledger.planHash, ledger.configHash,
    ledger.chunkConfig)

/-- A cancellation that came with a publication is dropped by the next acquisition. -/
def reopened (ledger : CampaignLedger) : CampaignLedger :=
  if ledger.status = .cancelRequested then
    { ledger with status := .active, cancelReason := none, cancelRequestedBy := none }
  else ledger

/-- The lease the ledger stands for. -/
def slot (ledger : CampaignLedger) : Option (Str × Instant) :=
  match ledger.lockOwner, ledger.lockExpiresAt with
  | some owner, some expiry => some (owner, expiry)
  | _, _ => none

end CampaignLedger

/-- `acquire_campaign_lock`: an empty owner holds nothing. -/
def acquireCampaignLock (ledger : CampaignLedger) (owner : Str) (leaseExpiresAt : Instant)
    (now : ℕ → Instant) : Bool × CampaignLedger :=
  if ledger.stopped then (false, ledger)
  else if ledger.lockOwner.any (· ≠ []) ∧ ¬ expired ledger.lockExpiresAt (now 0) then
    (false, ledger)
  else (true, CampaignLedger.save
    { ledger.reopened with lockOwner := some owner, lockExpiresAt := some leaseExpiresAt } (now 1))

def releaseCampaignLock (ledger : CampaignLedger) (owner : Str) (now : ℕ → Instant) :
    CampaignLedger :=
  if ledger.lockOwner = some owner then
    CampaignLedger.save { ledger with lockOwner := none, lockExpiresAt := none } (now 0)
  else ledger

/-- `_renew_campaign_lock_if_owned`. -/
def renewCampaignLockIfOwned (ledger : CampaignLedger) (owner : Str) (leaseExpiresAt : Instant)
    (allowExpired : Bool) (now : ℕ → Instant) : Bool × CampaignLedger :=
  if ledger.stopped ∨ ledger.lockOwner ≠ some owner ∨
      (allowExpired = false ∧ expired ledger.lockExpiresAt (now 0)) ∨ leaseExpiresAt ≤ now 1 then
    (false, ledger)
  else if ledger.lockExpiresAt.all (· < leaseExpiresAt) then
    (true, CampaignLedger.save { ledger with lockExpiresAt := some leaseExpiresAt } (now 2))
  else (true, ledger)

def renewCampaignLock (ledger : CampaignLedger) (owner : Str) (leaseExpiresAt : Instant)
    (now : ℕ → Instant) : Bool × CampaignLedger :=
  renewCampaignLockIfOwned ledger owner leaseExpiresAt false now

def requestCancel (ledger : CampaignLedger) (reason requestedBy : Str) (now : ℕ → Instant) :
    Except CampaignError CampaignLedger :=
  if ledger.published then
    .error (.runtimeError "backfill cancellation is closed after target publication")
  else .ok (CampaignLedger.save
    { ledger with
      status := .cancelRequested, cancelReason := some reason
      cancelRequestedBy := some requestedBy } (now 0))

/-- `_publication_candidate_if_owned`: what a fenced publication persists. -/
def publicationCandidateIfOwned (current ledger : CampaignLedger) (campaignOwner : Str) :
    Except CampaignError CampaignLedger :=
  if campaignOwner = [] then
    .error (.runtimeError "mssql_backfill_publication.campaign_fence_required")
  else if current.lockOwner ≠ some campaignOwner ∨ current.status = .cancelRequested then
    .error (.runtimeError "mssql_backfill_publication.campaign_fence_lost")
  else if current.identity ≠ ledger.identity then
    .error (.runtimeError "mssql_backfill_publication.campaign_identity_mismatch")
  else .ok { current with publication := ledger.publication }

/-! ### Calls -/

inductive LockOp where
  | acquire (owner : LeaseOwner) (leaseExpiresAt : Instant)
  | renew (owner : LeaseOwner) (leaseExpiresAt : Instant)
  | release (owner : LeaseOwner)
  | cancel (reason requestedBy : Str)
  | publish (owner : LeaseOwner) (ledger : CampaignLedger)

/-- What a call returns, `none` being Python's. -/
abbrev LockAnswer := Except CampaignError (Option Bool)

/-- The ledger of a campaign, the clock, and who was promised the lock. -/
structure LockWorld where
  ledger : CampaignLedger
  time : Instant
  log : List (LeaseEvent Str Instant)

namespace LockWorld

/-- A call that answers with a flag and logs its event if that is set. -/
def settle (w : LockWorld) (later : Instant) (event : LeaseEvent Str Instant) :
    Bool × CampaignLedger → LockAnswer × LockWorld
  | (true, ledger) => (.ok (some true), ⟨ledger, later, event :: w.log⟩)
  | (false, ledger) => (.ok (some false), ⟨ledger, later, w.log⟩)

/-- A call that saves a ledger or raises. -/
def store (w : LockWorld) (later : Instant) :
    Except CampaignError CampaignLedger → LockAnswer × LockWorld
  | .ok ledger => (.ok none, ⟨ledger, later, w.log⟩)
  | .error e => (.error e, { w with time := later })

def call (w : LockWorld) (now : ℕ → Instant) (later : Instant) : LockOp → LockAnswer × LockWorld
  | .acquire owner expiry => w.settle later (.granted owner.1 expiry)
      (acquireCampaignLock w.ledger owner.1 expiry now)
  | .renew owner expiry => w.settle later (.extended owner.1 expiry)
      (renewCampaignLock w.ledger owner.1 expiry now)
  | .release owner =>
      (.ok none, ⟨releaseCampaignLock w.ledger owner.1 now, later,
        if w.ledger.lockOwner = some owner.1 then .ended owner.1 :: w.log else w.log⟩)
  | .cancel reason requestedBy => w.store later (requestCancel w.ledger reason requestedBy now)
  | .publish owner ledger => w.store later (publicationCandidateIfOwned w.ledger ledger owner.1)

/-- One call, by whichever owner, at clock readings between the last call's and the next one's. -/
def Step (w : LockWorld) (l : LockOp × LockAnswer) (w' : LockWorld) : Prop :=
  ∃ now : ℕ → Instant, Monotone now ∧ w.time ≤ now 0 ∧ (∀ k, now k ≤ w'.time) ∧
    w.call now w'.time l.1 = (l.2, w')

/-- A campaign as it is created. -/
structure Created (w : LockWorld) : Prop where
  unlocked : w.ledger.lockOwner = none
  unlogged : w.log = []

end LockWorld

/-- What one call can do to the ledger, its answer, and the event it logs. -/
inductive LockMove (t' : Instant) (l : CampaignLedger) : LockOp → LockAnswer →
    Option (LeaseEvent Str Instant) → CampaignLedger → Prop
  | refuse {op : LockOp} : LockMove t' l op (.ok (some false)) none l
  | raise {op : LockOp} {e : CampaignError} : LockMove t' l op (.error e) none l
  | ignore {owner : LeaseOwner} : l.lockOwner ≠ some owner.1 →
      LockMove t' l (.release owner) (.ok none) none l
  | acquire {owner : LeaseOwner} {expiry now : Instant} : ¬ l.stopped →
      (∀ o e, l.slot = some (o, e) → o ≠ [] → e ≤ t') →
      LockMove t' l (.acquire owner expiry) (.ok (some true)) (some (.granted owner.1 expiry))
        (CampaignLedger.save
          { l.reopened with lockOwner := some owner.1, lockExpiresAt := some expiry } now)
  | renew {owner : LeaseOwner} {current expiry now : Instant} : ¬ l.stopped →
      l.lockOwner = some owner.1 → l.lockExpiresAt = some current →
      LockMove t' l (.renew owner expiry) (.ok (some true)) (some (.extended owner.1 expiry))
        (CampaignLedger.save { l with lockExpiresAt := some (max current expiry) } now)
  | keep {owner : LeaseOwner} {current expiry : Instant} : ¬ l.stopped →
      l.lockOwner = some owner.1 → l.lockExpiresAt = some current → expiry ≤ current →
      LockMove t' l (.renew owner expiry) (.ok (some true)) (some (.extended owner.1 expiry)) l
  | release {owner : LeaseOwner} {now : Instant} : l.lockOwner = some owner.1 →
      LockMove t' l (.release owner) (.ok none) (some (.ended owner.1))
        (CampaignLedger.save { l with lockOwner := none, lockExpiresAt := none } now)
  | cancel {reason requestedBy : Str} {now : Instant} : l.published = false →
      LockMove t' l (.cancel reason requestedBy) (.ok none) none (CampaignLedger.save
        { l with
          status := .cancelRequested, cancelReason := some reason
          cancelRequestedBy := some requestedBy } now)
  | publish {owner : LeaseOwner} {candidate : CampaignLedger} : l.lockOwner = some owner.1 →
      l.status ≠ .cancelRequested →
      LockMove t' l (.publish owner candidate) (.ok none) none
        { l with publication := candidate.publication }

/-! ### What one call does -/

theorem slot_eq_some {l : CampaignLedger} {o : Str} {e : Instant} :
    l.slot = some (o, e) ↔ l.lockOwner = some o ∧ l.lockExpiresAt = some e := by
  unfold CampaignLedger.slot
  split
  · next ho he => simp [ho, he]
  · next hne =>
    refine ⟨(fun h => nomatch h), ?_⟩
    rintro ⟨ho, he⟩
    exact (hne _ _ ho he).elim

/-- What a call does, by the move it makes. -/
def Makes (w : LockWorld) (later : Instant) (op : LockOp) (r : LockAnswer × LockWorld) : Prop :=
  ∃ event l', r.2 = ⟨l', later, event.toList ++ w.log⟩ ∧ LockMove later w.ledger op r.1 event l'

variable {w : LockWorld} {now : ℕ → Instant} {later : Instant}

theorem makes_refused {op : LockOp} {event : LeaseEvent Str Instant} :
    Makes w later op (w.settle later event (false, w.ledger)) :=
  ⟨none, w.ledger, rfl, .refuse⟩

theorem makes_raised {op : LockOp} {e : CampaignError} :
    Makes w later op (w.store later (.error e)) :=
  ⟨none, w.ledger, rfl, .raise⟩

theorem acquire_makes (owner : LeaseOwner) (expiry : Instant) (hnow : now 0 ≤ later) :
    Makes w later (.acquire owner expiry) (w.call now later (.acquire owner expiry)) := by
  rw [LockWorld.call, acquireCampaignLock]
  by_cases hstopped : w.ledger.stopped
  · rw [if_pos hstopped]
    exact makes_refused
  rw [if_neg hstopped]
  split_ifs with hheld
  · exact makes_refused
  · refine ⟨_, _, rfl, .acquire hstopped fun o e hslot ho => ?_⟩
    obtain ⟨howner, hexpiry⟩ := slot_eq_some.mp hslot
    have hpassed : expired (some e) (now 0) := by
      by_contra hlive
      exact hheld ⟨by simp [howner, ho], by rwa [hexpiry]⟩
    have hle : e ≤ now 0 := by simpa [expired] using hpassed
    exact hle.trans hnow

theorem renew_makes (owner : LeaseOwner) (expiry : Instant) :
    Makes w later (.renew owner expiry) (w.call now later (.renew owner expiry)) := by
  rw [LockWorld.call, renewCampaignLock, renewCampaignLockIfOwned]
  split_ifs with hrefused hlonger
  · exact makes_refused
  · push Not at hrefused
    obtain ⟨hopen, howner, hlive, -⟩ := hrefused
    cases hexpiry : w.ledger.lockExpiresAt with
    | none => exact absurd (hlive rfl) (by simp [hexpiry, expired])
    | some current =>
      have hlt : current < expiry := by simpa [hexpiry] using hlonger
      have hmove : LockMove later w.ledger (.renew owner expiry) (.ok (some true))
          (some (.extended owner.1 expiry)) (CampaignLedger.save
            { w.ledger with lockExpiresAt := some (max current expiry) } (now 2)) :=
        .renew hopen howner hexpiry
      rw [max_eq_right hlt.le] at hmove
      exact ⟨_, _, rfl, hmove⟩
  · push Not at hrefused
    obtain ⟨hopen, howner, -, -⟩ := hrefused
    cases hexpiry : w.ledger.lockExpiresAt with
    | none => exact absurd (by simp [hexpiry]) hlonger
    | some current =>
      have hle : expiry ≤ current := by simpa [hexpiry] using hlonger
      exact ⟨_, _, rfl, .keep hopen howner hexpiry hle⟩

theorem release_makes (owner : LeaseOwner) :
    Makes w later (.release owner) (w.call now later (.release owner)) := by
  rw [LockWorld.call, releaseCampaignLock]
  by_cases howner : w.ledger.lockOwner = some owner.1
  · rw [if_pos howner, if_pos howner]
    exact ⟨_, _, rfl, .release howner⟩
  · rw [if_neg howner, if_neg howner]
    exact ⟨none, _, rfl, .ignore howner⟩

theorem cancel_makes (reason requestedBy : Str) :
    Makes w later (.cancel reason requestedBy) (w.call now later (.cancel reason requestedBy)) := by
  rw [LockWorld.call, requestCancel]
  split_ifs with hpublished
  · exact makes_raised
  · exact ⟨none, _, rfl, .cancel (by simpa using hpublished)⟩

theorem publish_makes (owner : LeaseOwner) (candidate : CampaignLedger) :
    Makes w later (.publish owner candidate) (w.call now later (.publish owner candidate)) := by
  rw [LockWorld.call, publicationCandidateIfOwned]
  split_ifs with hempty hlost hidentity
  · exact makes_raised
  · exact makes_raised
  · exact makes_raised
  · push Not at hlost
    exact ⟨none, _, rfl, .publish hlost.1 hlost.2⟩

/-- STEP: every call makes one move, and time does not go back. -/
theorem step_makes {w w' : LockWorld} {l : LockOp × LockAnswer} (h : w.Step l w') :
    w.time ≤ w'.time ∧ ∃ event, w'.log = event.toList ++ w.log ∧
      LockMove w'.time w.ledger l.1 l.2 event w'.ledger := by
  obtain ⟨now, hmono, hstart, hend, hcall⟩ := h
  have hmakes : Makes w w'.time l.1 (w.call now w'.time l.1) := by
    cases hop : l.1 with
    | acquire owner expiry => exact acquire_makes owner expiry (hend 0)
    | renew owner expiry => exact renew_makes owner expiry
    | release owner => exact release_makes owner
    | cancel reason requestedBy => exact cancel_makes reason requestedBy
    | publish owner candidate => exact publish_makes owner candidate
  obtain ⟨event, l', hw', hmove⟩ := hmakes
  rw [hcall] at hw' hmove
  refine ⟨hstart.trans (hend 0), event, ?_, ?_⟩
  · rw [show w' = _ from hw']
  · rwa [show w'.ledger = l' from congrArg LockWorld.ledger hw']

end Dpone.Backfill
