import Dpone.Schemes.Run
import Dpone.Backfill.LeaseCalls

/-! Any number of owners calling the chunk lease operations in any order.

    Each record is the lease slot of its chunk, and tracks the chunk's lease log in every reachable
    campaign. The attempt counter is the one field of the lease that a completion takes from its
    caller, so it counts the grants only as long as the callers hand it back. -/

namespace Dpone.Backfill
open Dpone.Schemes Dpone.Schemes.LeaseEvent

/-- The lease a record stands for. -/
def BackfillChunkRecord.slot (r : BackfillChunkRecord) : Option (Str × Instant) :=
  match r.status, r.leaseOwner, r.leaseExpiresAt with
  | .running, some owner, some expiry => some (owner, expiry)
  | _, _, _ => none

theorem slot_of_not_running {r : BackfillChunkRecord} (h : r.status ≠ .running) :
    r.slot = none := by
  unfold BackfillChunkRecord.slot
  cases hs : r.status <;> simp_all

/-- INVARIANT: a running record names an owner and an expiry, and tracks its chunk's log. -/
structure Leased (r : BackfillChunkRecord) (now : Instant) (log : List (LeaseEvent Str Instant)) :
    Prop where
  running : r.status = .running → ∃ owner expiry, r.slot = some (owner, expiry)
  tracks : Tracks r.slot now log

theorem slot_fields {r : BackfillChunkRecord} {owner : Str} {expiry : Instant}
    (h : r.slot = some (owner, expiry)) :
    r.status = .running ∧ r.leaseOwner = some owner ∧ r.leaseExpiresAt = some expiry := by
  unfold BackfillChunkRecord.slot at h
  split at h
  · next hs ho he =>
    cases h
    exact ⟨hs, ho, he⟩
  · cases h

theorem leased_of_stopped {r : BackfillChunkRecord} {now : Instant}
    {log : List (LeaseEvent Str Instant)} (h : r.status ≠ .running) (ht : Tracks none now log) :
    Leased r now log :=
  ⟨fun hrun => absurd hrun h, (slot_of_not_running h).symm ▸ ht⟩

/-- STEP: a move of the record keeps it in step with the log. -/
theorem leased_move {r r' : BackfillChunkRecord} {t t' : Instant} {op : Op}
    {event : Option (LeaseEvent Str Instant)} {log : List (LeaseEvent Str Instant)}
    (hm : Move t' op r event r') (hle : t ≤ t') (h : Leased r t log) :
    Leased r' t' (event.toList ++ log) := by
  have htracks : Tracks r.slot t' log := h.tracks.later hle
  cases hm with
  | stay => exact ⟨h.running, htracks⟩
  | acquire _ _ owner expiry _ _ hsuccess hexpired =>
    refine ⟨fun _ => ⟨owner, expiry, rfl⟩, htracks.grant (fun o e hslot => ?_) owner expiry⟩
    obtain ⟨hrun, -, he⟩ := slot_fields hslot
    have hpassed := hexpired hrun
    rw [he] at hpassed
    simpa [expired] using hpassed
  | renew _ _ owner current expiry _ hrun howner hcurrent =>
    have hslot : r.slot = some (owner, current) := by
      simp [BackfillChunkRecord.slot, hrun, howner, hcurrent]
    have hslot' : ∀ u, BackfillChunkRecord.slot
        { r with leaseExpiresAt := some (max current expiry), updatedAt := u } =
          some (owner, max current expiry) := by
      intro u
      simp [BackfillChunkRecord.slot, hrun, howner]
    rw [hslot] at htracks
    refine ⟨fun _ => ⟨owner, _, hslot' _⟩, ?_⟩
    rw [hslot']
    exact htracks.extend expiry
  | complete _ record owner _ hrun howner _ hterminal =>
    have hstopped : record.status ≠ .running := by
      rcases hterminal with hs | hs <;> rw [hs] <;> decide
    obtain ⟨o, e, hslot⟩ := h.running hrun
    obtain rfl : o = owner :=
      Option.some.inj ((slot_fields hslot).2.1.symm.trans howner)
    rw [hslot] at htracks
    exact leased_of_stopped hstopped htracks.finish
  | recover _ seen hstale hseen =>
    have hrun : r.status = .running ∧ expired r.leaseExpiresAt seen := by
      simpa [BackfillChunkRecord.stale] using hstale
    obtain ⟨o, e, hslot⟩ := h.running hrun.1
    have hpassed : e ≤ seen := by
      have he := hrun.2
      rw [(slot_fields hslot).2.2] at he
      simpa [expired] using he
    have hstopped : (r.recover seen).status ≠ .running := by
      simp [BackfillChunkRecord.recover, hstale]
    rw [hslot] at htracks
    exact leased_of_stopped hstopped (htracks.reclaim (hpassed.trans hseen))

/-- INVARIANT of a campaign: one record an index, each in step with its log. -/
structure Inv (c : Campaign) : Prop where
  distinct : (c.ledger.chunks.map (·.index)).Nodup
  leased : ∀ i r, c.ledger.chunk i = .ok r → Leased r c.time (c.log i)

theorem planned_chunk {ledger : BackfillLedger} (h : ledger.Planned) {i : ℤ}
    {r : BackfillChunkRecord} (hr : ledger.chunk i = .ok r) : r = { index := i } := by
  have hfresh := h.fresh r (chunk_mem hr)
  rwa [chunk_index hr] at hfresh

theorem inv_planned {ledger : BackfillLedger} (h : ledger.Planned) (time : Instant) :
    Inv (Campaign.planned ledger time) := by
  refine ⟨h.distinct, fun i r hr => ?_⟩
  have hpending : r.status ≠ .running := by
    rw [planned_chunk h hr]
    intro hrun
    cases hrun
  exact leased_of_stopped hpending (Tracks.start time)

/-- A call makes up no records. -/
theorem chunk_before {c c' : Campaign}
    (hindexes : c'.ledger.chunks.map (·.index) = c.ledger.chunks.map (·.index)) {i : ℤ}
    {r' : BackfillChunkRecord} (h : c'.ledger.chunk i = .ok r') :
    ∃ r, c.ledger.chunk i = .ok r := by
  have hmem : i ∈ c.ledger.chunks.map (·.index) := by
    rw [← hindexes]
    exact List.mem_map.mpr ⟨r', chunk_mem h, chunk_index h⟩
  obtain ⟨r, hr, hi⟩ := List.mem_map.mp hmem
  obtain ⟨found, hfound⟩ : ∃ found, c.ledger.chunks.find? (·.index = i) = some found := by
    rw [← Option.isSome_iff_exists, List.find?_isSome]
    exact ⟨r, hr, by simpa using hi⟩
  exact ⟨found, chunk_ok_iff.mpr hfound⟩

theorem inv_step {c c' : Campaign} {op : Op} (hinv : Inv c) (h : Step c op c') : Inv c' := by
  obtain ⟨⟨hindexes, hmoves⟩, hle⟩ := step_moved hinv.distinct h
  refine ⟨hindexes ▸ hinv.distinct, fun i r' hr' => ?_⟩
  obtain ⟨r, hr⟩ := chunk_before hindexes hr'
  obtain ⟨event, r₁, hr₁, hmove, hlog⟩ := hmoves i r hr
  obtain rfl : r' = r₁ := Except.ok.inj (hr'.symm.trans hr₁)
  rw [hlog]
  exact leased_move hmove hle (hinv.leased i r hr)

theorem inv_run {ledger : BackfillLedger} (hplan : ledger.Planned) {time : Instant}
    {τ : List (Campaign × Op)} {s : Campaign} (hrun : Run Step (Campaign.planned ledger time) τ s) :
    Inv s :=
  Run.invariant (inv_planned hplan time) inv_step hrun

/-- FRAME: a chunk in SUCCESS does not move. -/
theorem move_of_success {r r' : BackfillChunkRecord} {t' : Instant} {op : Op}
    {event : Option (LeaseEvent Str Instant)} (hm : Move t' op r event r')
    (hsuccess : r.status = .success) : r' = r ∧ event = none := by
  have hstopped : r.status ≠ .running := by rw [hsuccess]; decide
  cases hm with
  | stay => exact ⟨rfl, rfl⟩
  | acquire _ _ _ _ _ _ h => exact absurd hsuccess h
  | renew _ _ _ _ _ _ h => exact absurd h hstopped
  | complete _ _ _ _ h => exact absurd h hstopped
  | recover _ _ hstale =>
    simp [BackfillChunkRecord.stale, hsuccess] at hstale

/-- RUN: a chunk in SUCCESS keeps its record and is never leased again. -/
theorem success_is_final {s s' : Campaign} (hinv : Inv s) {τ : List (Campaign × Op)}
    (hrun : Run Step s τ s') {i : ℤ} {r : BackfillChunkRecord} (hr : s.ledger.chunk i = .ok r)
    (hsuccess : r.status = .success) : s'.ledger.chunk i = .ok r ∧ s'.log i = s.log i := by
  have hkept := Run.invariant (I := fun c => Inv c ∧ c.ledger.chunk i = .ok r ∧ c.log i = s.log i)
    ⟨hinv, hr, rfl⟩ (fun ⟨hc, hchunk, hlog⟩ hstep => ?_) hrun
  · exact hkept.2
  · obtain ⟨⟨_, hmoves⟩, _⟩ := step_moved hc.distinct hstep
    obtain ⟨event, r', hr', hmove, hlog'⟩ := hmoves i r hchunk
    obtain ⟨rfl, rfl⟩ := move_of_success hmove hsuccess
    exact ⟨inv_step hc hstep, hr', hlog'.trans hlog⟩

/-- The callers' side of the attempt counter: an accepted completion brings back the counter of
    the running record it replaces. -/
def Op.KeepsAttempts (c : Campaign) : Op → Prop
  | .complete record owner => ∀ r, c.ledger.chunk record.index = .ok r → r.status = .running →
      r.leaseOwner = some owner → record.attempts = r.attempts
  | _ => True

/-- STEP: the counter follows the grants. -/
theorem attempts_move {c : Campaign} {t' : Instant} {op : Op} {i : ℤ}
    {r r' : BackfillChunkRecord} {event : Option (LeaseEvent Str Instant)}
    {log : List (LeaseEvent Str Instant)} (hr : c.ledger.chunk i = .ok r)
    (hm : Move t' op r event r') (hkeeps : op.KeepsAttempts c) (h : r.attempts = grants log) :
    r'.attempts = grants (event.toList ++ log) := by
  cases hm with
  | stay => exact h
  | acquire => simp [grants, h]
  | renew => exact h
  | complete _ record owner _ hrun howner hindex =>
    have hchunk : c.ledger.chunk record.index = .ok r := by
      rw [hindex, chunk_index hr]; exact hr
    exact (hkeeps r hchunk hrun howner).trans h
  | recover _ seen =>
    have hsame : (r.recover seen).attempts = r.attempts := by
      unfold BackfillChunkRecord.recover
      split <;> rfl
    rw [hsame]
    exact h

theorem attempts_count_grants {ledger : BackfillLedger} (hplan : ledger.Planned) {time : Instant}
    {τ : List (Campaign × Op)} {s : Campaign} (hrun : Run Step (Campaign.planned ledger time) τ s)
    (hkeeps : ∀ p ∈ τ, p.2.KeepsAttempts p.1) {i : ℤ} {r : BackfillChunkRecord}
    (hr : s.ledger.chunk i = .ok r) : r.attempts = grants (s.log i) := by
  induction hrun generalizing r with
  | nil => rw [planned_chunk hplan hr]; rfl
  | @snoc τ s s' op hbefore hstep ih =>
    have hinv := inv_run hplan hbefore
    obtain ⟨⟨hindexes, hmoves⟩, _⟩ := step_moved hinv.distinct hstep
    obtain ⟨r₀, hr₀⟩ := chunk_before hindexes hr
    obtain ⟨event, r₁, hr₁, hmove, hlog⟩ := hmoves i r₀ hr₀
    obtain rfl : r = r₁ := Except.ok.inj (hr.symm.trans hr₁)
    rw [hlog]
    exact attempts_move hr₀ hmove (hkeeps (s, op) (by simp))
      (ih (fun p hp => hkeeps p (by simp [hp])) hr₀)

/-- CORRECT (lease safety), for every order of calls by any number of owners under a clock that
    never goes back: SUCCESS is final; unexpired leases on a chunk have one owner; a completion is
    accepted only from the owner on the running record, and each uses up one grant; a renewal never
    shortens a lease; only chunks whose lease has expired are recovered; and the attempt counter
    counts the grants as long as every accepted completion brings the current counter. -/
theorem chunk_leases_safe {ledger : BackfillLedger} (hplan : ledger.Planned) {time : Instant}
    {τ : List (Campaign × Op)} {s : Campaign}
    (hrun : Run Step (Campaign.planned ledger time) τ s) :
    (∀ i r, s.ledger.chunk i = .ok r → r.status = .success → ∀ τ' s', Run Step s τ' s' →
      s'.ledger.chunk i = .ok r ∧ s'.log i = s.log i) ∧
    (∀ i r, s.ledger.chunk i = .ok r → ∀ o o' t t', Promised o t (s.log i) → s.time < t →
      Promised o' t' (s.log i) → s.time < t' → o = o') ∧
    (∀ record owner s', Step s (.complete record owner) s' → ∀ r,
      s.ledger.chunk record.index = .ok r → s'.log record.index ≠ s.log record.index →
      r.status = .running ∧ r.leaseOwner = some owner) ∧
    (∀ i r, s.ledger.chunk i = .ok r →
      EndsAreHeld (s.log i) ∧ ends (s.log i) ≤ grants (s.log i)) ∧
    (∀ index owner expiry s', Step s (.renew index owner expiry) s' → ∀ i r e,
      s.ledger.chunk i = .ok r → r.leaseExpiresAt = some e →
      ∃ r' e', s'.ledger.chunk i = .ok r' ∧ r'.leaseExpiresAt = some e' ∧ e ≤ e') ∧
    (∀ seen s', Step s (.recoverStale seen) s' → ∀ i r, s.ledger.chunk i = .ok r →
      s'.ledger.chunk i ≠ .ok r →
      r.status = .running ∧ expired r.leaseExpiresAt seen ∧ seen ≤ s'.time) ∧
    ((∀ p ∈ τ, p.2.KeepsAttempts p.1) → ∀ i r, s.ledger.chunk i = .ok r →
      r.attempts = grants (s.log i)) := by
  have hinv := inv_run hplan hrun
  refine ⟨fun i r hr hsuccess τ' s' hlater => success_is_final hinv hlater hr hsuccess,
    fun i r hr o o' t t' hp ht hp' ht' => (hinv.leased i r hr).tracks.exclusive hp ht hp' ht',
    fun record owner s' hstep r hr hlogged => ?_, fun i r hr => ?_,
    fun index owner expiry s' hstep i r e hr he => ?_, fun seen s' hstep i r hr hchanged => ?_,
    fun hkeeps i r hr => attempts_count_grants hplan hrun hkeeps hr⟩
  · obtain ⟨⟨_, hmoves⟩, _⟩ := step_moved hinv.distinct hstep
    obtain ⟨event, r', _, hmove, hlog⟩ := hmoves _ r hr
    cases hmove with
    | stay => exact absurd hlog hlogged
    | complete _ _ _ _ hrunning howner => exact ⟨hrunning, howner⟩
  · have hheld := (hinv.leased i r hr).tracks.held
    have hcount := ends_add_open_le_grants _ hheld
    exact ⟨hheld, by omega⟩
  · obtain ⟨⟨_, hmoves⟩, _⟩ := step_moved hinv.distinct hstep
    obtain ⟨event, r', hr', hmove, _⟩ := hmoves i r hr
    cases hmove with
    | stay => exact ⟨r, e, hr', he, le_rfl⟩
    | renew _ _ _ current _ _ _ _ hcurrent =>
      obtain rfl : e = current := Option.some.inj (he.symm.trans hcurrent)
      exact ⟨_, _, hr', rfl, le_max_left _ _⟩
  · obtain ⟨⟨_, hmoves⟩, _⟩ := step_moved hinv.distinct hstep
    obtain ⟨event, r', hr', hmove, _⟩ := hmoves i r hr
    cases hmove with
    | stay => exact absurd hr' hchanged
    | recover _ _ hstale hseen =>
      have hboth : r.status = .running ∧ expired r.leaseExpiresAt seen := by
        simpa [BackfillChunkRecord.stale] using hstale
      exact ⟨hboth.1, hboth.2, hseen⟩

/-- One planned chunk, then a worker that leases it and reports a failure with the given counter. -/
def oneChunk : Campaign := Campaign.planned { runKey := "campaign", chunks := [{ index := 1 }] } 0

def lease : Op := .acquire 1 "worker".toList 90

def failure (attempts : ℤ) : Op :=
  .complete { index := 1, status := .failed, attempts := attempts } "worker".toList

def afterFailure (attempts : ℤ) : Campaign :=
  (oneChunk.call (fun _ => 0) 0 lease).call (fun _ => 0) 0 (failure attempts)

theorem oneChunk_planned : oneChunk.ledger.Planned :=
  ⟨by decide, by decide⟩

theorem failure_run (attempts : ℤ) : Run Step oneChunk
    [(oneChunk, lease), (oneChunk.call (fun _ => 0) 0 lease, failure attempts)]
    (afterFailure attempts) := by
  have hlease : Step oneChunk lease (oneChunk.call (fun _ => 0) 0 lease) :=
    step_call monotone_const le_rfl (fun _ => le_rfl) trivial
  have hfailure : Step (oneChunk.call (fun _ => 0) 0 lease) (failure attempts)
      (afterFailure attempts) :=
    step_call monotone_const (by rw [call_time]) (fun _ => le_rfl) (.inr rfl)
  exact (Run.nil.snoc hlease).snoc hfailure

/-- A failure reported with the record from before the acquisition takes the grant out of the
    attempt counter. -/
theorem completion_resets_attempts : ∃ (ledger : BackfillLedger) (τ : List (Campaign × Op))
    (s : Campaign) (r : BackfillChunkRecord), ledger.Planned ∧
      Run Step (Campaign.planned ledger 0) τ s ∧ s.ledger.chunk 1 = .ok r ∧
      r.attempts = 0 ∧ grants (s.log 1) = 1 :=
  ⟨_, _, _, _, oneChunk_planned, failure_run 0, rfl, rfl, rfl⟩

theorem chunk_leases_safe_on_reported_failure : ∃ r, (afterFailure 1).ledger.chunk 1 = .ok r ∧
    r.status = .failed ∧ r.attempts = grants ((afterFailure 1).log 1) := by
  obtain ⟨_, _, _, _, _, _, hcount⟩ := chunk_leases_safe oneChunk_planned (failure_run 1)
  refine ⟨_, rfl, rfl, hcount (fun p hp => ?_) 1 _ rfl⟩
  rcases List.mem_cons.mp hp with rfl | hp
  · trivial
  · rw [List.mem_singleton.mp hp]
    intro r hr _ _
    cases hr
    rfl

end Dpone.Backfill
