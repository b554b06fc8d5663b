import Mathlib.Data.Int.ConditionallyCompleteOrder
import Mathlib.Data.List.Nodup
import Mathlib.Logic.Function.Basic
import Mathlib.Order.Monotone.Basic
import Dpone.Schemes.Lease
import Dpone.Schemes.Records
import Dpone.Backfill.ChunkLease

/-! What one call of a chunk lease operation does to each record.

    A call is atomic (the store's lock) and reads a clock that never goes back. `Move` lists what a
    call can do to one record and which event it logs for that chunk; `step_moved` says that every
    call moves every record once, and nothing else needs the operations' bodies. -/

namespace Dpone.Backfill
open Dpone.Schemes Dpone.Schemes.LeaseEvent

inductive Op where
  | acquire (index : ℤ) (owner : Str) (leaseExpiresAt : Instant)
  | renew (index : ℤ) (owner : Str) (leaseExpiresAt : Instant)
  | complete (record : BackfillChunkRecord) (owner : Str)
  | recoverStale (now : Instant)

/-- What callers keep to: a completion is a success or a failure, and `recover_stale_running` gets a
    clock reading. -/
def Op.Lawful (clock : Instant) : Op → Prop
  | .complete record _ => record.status = .success ∨ record.status = .failed
  | .recoverStale seen => seen ≤ clock
  | _ => True

structure Campaign where
  ledger : BackfillLedger
  time : Instant
  log : ℤ → List (LeaseEvent Str Instant)

/-- The saved ledger of a call that returns, with its event logged if the call was accepted; a call
    that raises saves nothing. -/
def Campaign.settle (c : Campaign) (later : Instant) (index : ℤ) (event : LeaseEvent Str Instant) :
    Except PyError (Bool × BackfillLedger) → Campaign
  | .error _ => { c with time := later }
  | .ok (true, ledger) => ⟨ledger, later, Function.update c.log index (event :: c.log index)⟩
  | .ok (false, ledger) => ⟨ledger, later, c.log⟩

def Campaign.call (c : Campaign) (now : ℕ → Instant) (later : Instant) : Op → Campaign
  | .acquire index owner expiry => c.settle later index (.granted owner expiry)
      (acquireChunkLease c.ledger index owner expiry now)
  | .renew index owner expiry => c.settle later index (.extended owner expiry)
      (renewChunkLease c.ledger index owner expiry now)
  | .complete record owner => c.settle later record.index (.ended owner)
      (completeChunkIfOwned c.ledger record owner now)
  | .recoverStale seen =>
    let (recovered, ledger) := recoverStaleRunning c.ledger seen (now 0)
    ⟨ledger, later, fun i => if i ∈ recovered then .reclaimed :: c.log i else c.log i⟩

/-- One call, by whichever owner, at clock readings between the last call's and the next one's. -/
def Step (c : Campaign) (op : Op) (c' : Campaign) : Prop :=
  ∃ now : ℕ → Instant, Monotone now ∧ c.time ≤ now 0 ∧ (∀ k, now k ≤ c'.time) ∧
    op.Lawful (now 0) ∧ c' = c.call now c'.time op

@[simp] theorem call_time (c : Campaign) (now : ℕ → Instant) (later : Instant) (op : Op) :
    (c.call now later op).time = later := by
  have hsettle : ∀ i e r, (c.settle later i e r).time = later := by
    intro i e r
    unfold Campaign.settle
    split <;> rfl
  cases op <;> simp [Campaign.call, hsettle]

theorem step_call {c : Campaign} {now : ℕ → Instant} {later : Instant} {op : Op}
    (hmono : Monotone now) (hstart : c.time ≤ now 0) (hend : ∀ k, now k ≤ later)
    (hlawful : op.Lawful (now 0)) : Step c op (c.call now later op) :=
  ⟨now, hmono, hstart, by simpa using hend, hlawful, by rw [call_time]⟩

/-- A ledger as `load_or_create_ledger` plans it: fresh records, one an index. -/
structure BackfillLedger.Planned (ledger : BackfillLedger) : Prop where
  distinct : (ledger.chunks.map (·.index)).Nodup
  fresh : ∀ record ∈ ledger.chunks, record = { index := record.index }

def Campaign.planned (ledger : BackfillLedger) (time : Instant) : Campaign :=
  ⟨ledger, time, fun _ => []⟩

/-- What one call can do to one record, and the event it logs for it. -/
inductive Move (t' : Instant) : Op → BackfillChunkRecord → Option (LeaseEvent Str Instant) →
    BackfillChunkRecord → Prop
  | stay (op : Op) (r : BackfillChunkRecord) : Move t' op r none r
  | acquire (r : BackfillChunkRecord) (index : ℤ) (owner : Str) (expiry : Instant)
      (started updated : Option Instant) :
      r.status ≠ .success → (r.status = .running → expired r.leaseExpiresAt t') →
      Move t' (.acquire index owner expiry) r (some (.granted owner expiry))
        { r with
          status := .running, attempts := r.attempts + 1, leaseOwner := some owner
          leaseExpiresAt := some expiry, startedAt := started, error := none, updatedAt := updated }
  | renew (r : BackfillChunkRecord) (index : ℤ) (owner : Str) (current expiry : Instant)
      (updated : Option Instant) :
      r.status = .running → r.leaseOwner = some owner → r.leaseExpiresAt = some current →
      Move t' (.renew index owner expiry) r (some (.extended owner expiry))
        { r with leaseExpiresAt := some (max current expiry), updatedAt := updated }
  | complete (r record : BackfillChunkRecord) (owner : Str) (updated : Option Instant) :
      r.status = .running → r.leaseOwner = some owner → record.index = r.index →
      record.status = .success ∨ record.status = .failed →
      Move t' (.complete record owner) r (some (.ended owner))
        { record with leaseOwner := none, leaseExpiresAt := none, updatedAt := updated }
  | recover (r : BackfillChunkRecord) (seen : Instant) :
      r.stale seen → seen ≤ t' →
      Move t' (.recoverStale seen) r (some .reclaimed) (r.recover seen)

/-! Looking records up. -/

theorem chunk_ok_iff {ledger : BackfillLedger} {i : ℤ} {r : BackfillChunkRecord} :
    ledger.chunk i = .ok r ↔ ledger.chunks.find? (·.index = i) = some r := by
  unfold BackfillLedger.chunk
  cases ledger.chunks.find? (·.index = i) <;> simp

theorem chunk_index {ledger : BackfillLedger} {i : ℤ} {r : BackfillChunkRecord}
    (h : ledger.chunk i = .ok r) : r.index = i := by
  simpa using List.find?_some (chunk_ok_iff.mp h)

theorem chunk_mem {ledger : BackfillLedger} {i : ℤ} {r : BackfillChunkRecord}
    (h : ledger.chunk i = .ok r) : r ∈ ledger.chunks :=
  List.mem_of_find?_eq_some (chunk_ok_iff.mp h)

theorem find_replaceChunk (record : BackfillChunkRecord) (i : ℤ) :
    ∀ chunks : List BackfillChunkRecord, (replaceChunk record chunks).find? (·.index = i) =
      if record.index = i then some record else chunks.find? (·.index = i)
  | [] => by simp [replaceChunk, List.find?_cons]; split <;> simp_all
  | existing :: chunks => by
      have ih := find_replaceChunk record i chunks
      rw [replaceChunk]
      by_cases hsame : existing.index = record.index
      · rw [if_pos hsame]
        by_cases hi : record.index = i
        · simp [hi]
        · simp [hi, hsame]
      · rw [if_neg hsame, List.find?_cons, ih]
        by_cases hi : record.index = i
        · subst hi; simp [hsame]
        · simp [List.find?_cons, hi]

theorem chunk_updateChunk (ledger : BackfillLedger) (record : BackfillChunkRecord)
    (now : ℕ → Instant) (k : ℕ) (i : ℤ) : (updateChunk ledger record now k).chunk i =
      if record.index = i then .ok { record with updatedAt := some (now k) }
      else ledger.chunk i := by
  unfold BackfillLedger.chunk updateChunk save
  simp only [find_replaceChunk]
  by_cases hi : record.index = i <;> simp [hi]

/-- Replacing a record that is there keeps the indexes. -/
theorem replaceChunk_indexes (record : BackfillChunkRecord) :
    ∀ {chunks : List BackfillChunkRecord}, record.index ∈ chunks.map (·.index) →
      (replaceChunk record chunks).map (·.index) = chunks.map (·.index)
  | [], h => by simp at h
  | existing :: chunks, h => by
      rw [replaceChunk]
      by_cases hsame : existing.index = record.index
      · simp [hsame]
      · have hmem : record.index ∈ chunks.map (·.index) := by
          rcases List.mem_cons.mp h with h | h
          · exact absurd h.symm hsame
          · exact h
        simp [hsame, replaceChunk_indexes record hmem]

theorem updateChunk_indexes {ledger : BackfillLedger} {record r : BackfillChunkRecord}
    (h : ledger.chunk record.index = .ok r) (now : ℕ → Instant) (k : ℕ) :
    (updateChunk ledger record now k).chunks.map (·.index) = ledger.chunks.map (·.index) :=
  replaceChunk_indexes _ (List.mem_map.mpr ⟨r, chunk_mem h, chunk_index h⟩)

theorem recoverStaleRunning_chunks (ledger : BackfillLedger) (seen saved : Instant) :
    (recoverStaleRunning ledger seen saved).2.chunks = ledger.chunks.map (·.recover seen) := by
  unfold recoverStaleRunning
  by_cases hnone : (ledger.chunks.filter (·.stale seen)).map (·.index) = []
  · have hfresh : ∀ r ∈ ledger.chunks, ¬ r.stale seen := by
      simpa [List.filter_eq_nil_iff] using hnone
    have hsame : ledger.chunks.map (·.recover seen) = ledger.chunks.map id :=
      List.map_congr_left fun r hr => BackfillChunkRecord.recover_of_not_stale (hfresh r hr)
    simp only [hnone, if_true]
    rw [hsame, List.map_id]
  · simp only [hnone, if_false]; rfl

theorem recoverStaleRunning_runKey (ledger : BackfillLedger) (seen saved : Instant) :
    (recoverStaleRunning ledger seen saved).2.runKey = ledger.runKey := by
  unfold recoverStaleRunning
  dsimp only
  split <;> rfl

theorem chunk_recoverStaleRunning (ledger : BackfillLedger) (seen saved : Instant) (i : ℤ) :
    (recoverStaleRunning ledger seen saved).2.chunk i =
      (ledger.chunk i).map (·.recover seen) := by
  have hkey : ((fun r : BackfillChunkRecord => decide (r.index = i)) ∘
      fun r : BackfillChunkRecord => r.recover seen) = fun r => decide (r.index = i) := by
    funext r; simp
  unfold BackfillLedger.chunk
  rw [recoverStaleRunning_chunks, recoverStaleRunning_runKey, List.find?_map, hkey]
  cases ledger.chunks.find? (·.index = i) <;> rfl

/-- With one record an index, an index is reported exactly when its record is stale. -/
theorem mem_recoverStaleRunning {ledger : BackfillLedger}
    (hdistinct : (ledger.chunks.map (·.index)).Nodup) {i : ℤ} {r : BackfillChunkRecord}
    (h : ledger.chunk i = .ok r) (seen saved : Instant) :
    i ∈ (recoverStaleRunning ledger seen saved).1 ↔ r.stale seen := by
  have hfst : (recoverStaleRunning ledger seen saved).1 =
      (ledger.chunks.filter (·.stale seen)).map (·.index) := by
    unfold recoverStaleRunning
    dsimp only
    split <;> rfl
  rw [hfst, List.mem_map]
  constructor
  · rintro ⟨r', hr', hi⟩
    obtain ⟨hmem, hstale⟩ := List.mem_filter.mp hr'
    have heq : r' = r := List.inj_on_of_nodup_map hdistinct hmem (chunk_mem h)
      (hi.trans (chunk_index h).symm)
    exact heq ▸ hstale
  · intro hstale
    exact ⟨r, List.mem_filter.mpr ⟨chunk_mem h, hstale⟩, chunk_index h⟩

theorem expired_mono {value : Option Instant} {now later : Instant} (hle : now ≤ later)
    (h : expired value now) : expired value later := by
  cases value with
  | none => rfl
  | some parsed =>
    have hpassed : parsed ≤ now := by simpa [expired] using h
    simpa [expired] using hpassed.trans hle

/-! What one call does. -/

/-- The records, and the logs, before and after one call. -/
def Moved (c : Campaign) (op : Op) (c' : Campaign) : Prop :=
  c'.ledger.chunks.map (·.index) = c.ledger.chunks.map (·.index) ∧
  (∀ i r, c.ledger.chunk i = .ok r → ∃ event r', c'.ledger.chunk i = .ok r' ∧
    Move c'.time op r event r' ∧ c'.log i = event.toList ++ c.log i)

theorem moved_of_same {c : Campaign} {op : Op} {later : Instant} :
    Moved c op { c with time := later } :=
  ⟨rfl, fun _ r h => ⟨none, r, h, .stay op r, rfl⟩⟩

/-- An accepted call writes one record and logs one event for it. -/
theorem moved_of_update {c : Campaign} {op : Op} {r : BackfillChunkRecord} (record : BackfillChunkRecord) {later : Instant}
    {event : LeaseEvent Str Instant} {now : ℕ → Instant} {k : ℕ}
    (hr : c.ledger.chunk record.index = .ok r)
    (hmove : Move later op r (some event) { record with updatedAt := some (now k) }) :
    Moved c op (c.settle later record.index event (.ok (true, updateChunk c.ledger record now k))) := by
  refine ⟨updateChunk_indexes hr now k, fun i r' hr' => ?_⟩
  simp only [Campaign.settle, chunk_updateChunk]
  by_cases hi : record.index = i
  · subst hi
    obtain rfl : r = r' := Except.ok.inj (hr.symm.trans hr')
    exact ⟨some event, _, if_pos rfl, hmove, by simp⟩
  · exact ⟨none, r', (if_neg hi).trans hr', .stay op r', by
      simp [Function.update_of_ne (Ne.symm hi)]⟩

theorem acquire_moved {c : Campaign} {now : ℕ → Instant} {later : Instant} (index : ℤ)
    (owner : Str) (expiry : Instant) (hnow : now 0 ≤ later) :
    Moved c (.acquire index owner expiry) (c.call now later (.acquire index owner expiry)) := by
  simp only [Campaign.call, acquireChunkLease]
  by_cases hcancel : c.ledger.status = .cancelRequested
  · rw [if_pos hcancel]; exact moved_of_same
  rw [if_neg hcancel]
  cases hr : c.ledger.chunk index with
  | error e => exact moved_of_same
  | ok r =>
    obtain rfl := chunk_index hr
    simp only [ok_bind]
    by_cases hsuccess : r.status = .success
    · rw [if_pos hsuccess]; exact moved_of_same
    rw [if_neg hsuccess]
    by_cases hlive : r.status = .running ∧ ¬ expired r.leaseExpiresAt (now 0)
    · rw [if_pos hlive]; exact moved_of_same
    rw [if_neg hlive]
    refine moved_of_update _ hr (.acquire r _ owner expiry _ _ hsuccess fun hrun => ?_)
    exact expired_mono hnow (by_contra fun hexp => hlive ⟨hrun, hexp⟩)

theorem renew_moved {c : Campaign} {now : ℕ → Instant} {later : Instant} (index : ℤ)
    (owner : Str) (expiry : Instant) :
    Moved c (.renew index owner expiry) (c.call now later (.renew index owner expiry)) := by
  simp only [Campaign.call, renewChunkLease]
  cases hr : c.ledger.chunk index with
  | error e => exact moved_of_same
  | ok r =>
    obtain rfl := chunk_index hr
    simp only [ok_bind]
    cases hcurrent : r.leaseExpiresAt with
    | none => exact moved_of_same
    | some current =>
      simp only
      split_ifs with hrefused hlonger
      · exact moved_of_same
      · push Not at hrefused
        obtain ⟨hrun, howner, -⟩ := hrefused
        have hmove : Move later _ r _ _ := .renew r r.index owner current expiry (some (now 2)) hrun
          howner hcurrent
        rw [max_eq_right hlonger.le] at hmove
        exact moved_of_update _ hr hmove
      · push Not at hrefused hlonger
        obtain ⟨hrun, howner, -⟩ := hrefused
        refine ⟨rfl, fun i r' hr' => ?_⟩
        by_cases hi : r.index = i
        · subst hi
          obtain rfl : r = r' := Except.ok.inj (hr.symm.trans hr')
          have hmove : Move later _ r _ _ := .renew r r.index owner current expiry r.updatedAt hrun
            howner hcurrent
          rw [max_eq_left hlonger, ← hcurrent] at hmove
          exact ⟨_, r, hr, hmove, by simp [Campaign.settle]⟩
        · exact ⟨none, r', hr', .stay _ r', by
            simp [Campaign.settle, Function.update_of_ne (Ne.symm hi)]⟩

theorem complete_moved {c : Campaign} {now : ℕ → Instant} {later : Instant}
    (record : BackfillChunkRecord) (owner : Str)
    (hterminal : record.status = .success ∨ record.status = .failed) :
    Moved c (.complete record owner) (c.call now later (.complete record owner)) := by
  simp only [Campaign.call, completeChunkIfOwned]
  cases hr : c.ledger.chunk record.index with
  | error e => exact moved_of_same
  | ok r =>
    simp only [ok_bind]
    split_ifs with hrefused
    · exact moved_of_same
    · push Not at hrefused
      exact moved_of_update { record with leaseOwner := none, leaseExpiresAt := none } hr
        (.complete r record owner _ hrefused.1 hrefused.2 (chunk_index hr).symm hterminal)

theorem recoverStale_moved {c : Campaign} {now : ℕ → Instant} {later seen : Instant}
    (hdistinct : (c.ledger.chunks.map (·.index)).Nodup) (hseen : seen ≤ later) :
    Moved c (.recoverStale seen) (c.call now later (.recoverStale seen)) := by
  refine ⟨?_, fun i r hr => ?_⟩
  · simp only [Campaign.call]
    rw [recoverStaleRunning_chunks, List.map_map]
    exact List.map_congr_left fun r _ => r.recover_index seen
  · have hlog := mem_recoverStaleRunning hdistinct hr seen (now 0)
    simp only [Campaign.call, chunk_recoverStaleRunning, hr, Except.map, hlog]
    by_cases hstale : r.stale seen
    · exact ⟨some .reclaimed, _, rfl, .recover r seen hstale hseen, by simp [hstale]⟩
    · rw [BackfillChunkRecord.recover_of_not_stale hstale]
      exact ⟨none, r, rfl, .stay _ r, by simp [hstale]⟩

/-- STEP: whatever the call, every record makes one move. -/
theorem step_moved {c c' : Campaign} {op : Op} (hdistinct : (c.ledger.chunks.map (·.index)).Nodup)
    (h : Step c op c') : Moved c op c' ∧ c.time ≤ c'.time := by
  obtain ⟨now, hmono, hstart, hend, hlawful, hc'⟩ := h
  refine ⟨?_, hstart.trans (hend 0)⟩
  rw [hc']
  cases op with
  | acquire index owner expiry => exact acquire_moved index owner expiry (hend 0)
  | renew index owner expiry => exact renew_moved index owner expiry
  | complete record owner => exact complete_moved record owner hlawful
  | recoverStale seen => exact recoverStale_moved hdistinct (hlawful.trans (hend 0))

end Dpone.Backfill
