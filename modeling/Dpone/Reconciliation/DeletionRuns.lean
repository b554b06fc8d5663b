import Mathlib.Data.List.Perm.Subperm
import Dpone.Reconciliation.Manager

/-! Sequences of runs.

    `LastSource` is the source of the newest run that stored a snapshot; the table's newest snapshot
    has exactly its keys. A key that was in an earlier snapshot and is not in that one has been
    deleted since it was last in a snapshot: that is what a careful run keeps. -/

namespace Dpone.Reconciliation
open Dpone.Schemes

variable {K : Type} [DecidableEq K] {rows rows' : List (SnapshotRow K)} {run : ReconciliationRun K}

/-! ### A stored snapshot -/

/-- What the newest snapshot has and the source of a run has not. -/
def Lost (rows : List (SnapshotRow K)) (run : ReconciliationRun K) (k : K) : Prop :=
  k ∈ lastKeys rows ∧ k ∉ run.source

section Stored
variable (hpast : ∀ r ∈ rows, r.loadedAt < run.now) (hne : run.source ≠ [])
  (hs : Stored run rows rows')
include hpast hne hs

omit [DecidableEq K]

theorem newest_stored : newest rows' = some run.now := by
  obtain ⟨k, hk⟩ := List.exists_mem_of_ne_nil _ hne
  refine newest_eq_some.mpr ⟨⟨⟨k, run.now⟩, (hs _).mpr (.inr ⟨rfl, hk⟩), rfl⟩, fun r hr => ?_⟩
  rcases (hs r).mp hr with hold | ⟨hnow, -⟩
  · exact (hpast r hold).le
  · exact hnow.le

theorem mem_old {r : SnapshotRow K} :
    r ∈ rows' ∧ some r.loadedAt ≠ newest rows' ↔ r ∈ rows := by
  rw [newest_stored hpast hne hs]
  constructor
  · rintro ⟨hr, hnew⟩
    exact ((hs r).mp hr).resolve_right fun h => hnew (congrArg some h.1)
  · exact fun hr => ⟨(hs r).mpr (.inl hr), fun h => (hpast r hr).ne (Option.some.inj h)⟩

theorem previous_stored : previous rows' = newest rows := by
  have hold := @mem_old _ _ _ _ hpast hne hs
  cases h : newest rows with
  | none =>
    cases h' : previous rows' with
    | none => rfl
    | some t =>
      obtain ⟨⟨r, hr, rfl⟩, hnew, -⟩ := previous_eq_some.mp h'
      have hmem := hold.mp ⟨hr, hnew⟩
      rw [newest_eq_none.mp h] at hmem
      cases hmem
  | some t =>
    obtain ⟨⟨r, hr, rfl⟩, hle⟩ := newest_eq_some.mp h
    obtain ⟨hr', hnew⟩ := hold.mpr hr
    exact previous_eq_some.mpr ⟨⟨r, hr', rfl⟩, hnew, fun s hs' hsnew => hle s (hold.mp ⟨hs', hsnew⟩)⟩

theorem lastKeys_stored {k : K} : k ∈ lastKeys rows' ↔ k ∈ run.source := by
  rw [mem_lastKeys, newest_stored hpast hne hs]
  constructor
  · rintro ⟨r, hr, rfl, hnow⟩
    exact (((hs r).mp hr).resolve_left fun hold =>
      (hpast r hold).ne (Option.some.inj hnow)).2
  · exact fun hk => ⟨⟨k, run.now⟩, (hs _).mpr (.inr ⟨rfl, hk⟩), rfl, rfl⟩

theorem lastKeys_prune {k : K} : k ∈ lastKeys (pruneOldSnapshots rows') ↔ k ∈ run.source := by
  rw [← lastKeys_stored hpast hne hs, mem_lastKeys, mem_lastKeys, newest_prune]
  constructor
  · rintro ⟨r, hr, hk, hnew⟩; exact ⟨r, (mem_prune.mp hr).1, hk, hnew⟩
  · rintro ⟨r, hr, hk, hnew⟩; exact ⟨r, mem_prune.mpr ⟨hr, .inl hnew⟩, hk, hnew⟩

theorem deletedKeys_stored [DecidableEq K] {k : K} :
    k ∈ getDeletedKeys (pruneOldSnapshots rows') ↔ Lost rows run k := by
  have hold := @mem_old _ _ _ _ hpast hne hs
  have hcurrent : (∃ r ∈ pruneOldSnapshots rows', r.key = k ∧ some r.loadedAt = newest rows') ↔
      k ∈ run.source := by
    rw [← lastKeys_prune hpast hne hs, mem_lastKeys, newest_prune]
  rw [mem_getDeletedKeys, newest_prune, previous_prune, hcurrent, previous_stored hpast hne hs]
  refine and_congr_left fun _ => ?_
  rw [mem_lastKeys]
  constructor
  · rintro ⟨r, hr, hk, hprev⟩
    obtain ⟨hr', -⟩ := mem_prune.mp hr
    refine ⟨r, hold.mp ⟨hr', fun hnew => ?_⟩, hk, hprev⟩
    rw [newest_stored hpast hne hs] at hnew
    obtain ⟨⟨s, hs', hst⟩, -⟩ := newest_eq_some.mp (hprev.symm.trans hnew)
    exact (hpast s hs').ne hst
  · rintro ⟨r, hr, hk, hprev⟩
    refine ⟨r, mem_prune.mpr ⟨(hold.mpr hr).1, .inr ?_⟩, hk, hprev⟩
    rw [previous_stored hpast hne hs, hprev]

/-- One snapshot in the table: there was none before. -/
theorem not_lost_of_count (hcount : snapshotCount rows' < 2) (k : K) : ¬ Lost rows run k := by
  rintro ⟨hk, -⟩
  obtain ⟨r, hr, -, -⟩ := mem_lastKeys.mp hk
  obtain ⟨k', hk'⟩ := List.exists_mem_of_ne_nil _ hne
  have hsub : [run.now, r.loadedAt] ⊆ (rows'.map (·.loadedAt)).dedup := by
    intro t ht
    rw [List.mem_dedup, List.mem_map]
    rcases List.mem_cons.mp ht with rfl | ht
    · exact ⟨⟨k', run.now⟩, (hs _).mpr (.inr ⟨rfl, hk'⟩), rfl⟩
    · exact ⟨r, (hs _).mpr (.inl hr), (List.mem_singleton.mp ht).symm⟩
  have hnodup : [run.now, r.loadedAt].Nodup := by simp [(hpast r hr).ne']
  have hlen := (List.subperm_of_subset hnodup hsub).length_le
  unfold snapshotCount at hcount
  simp only [List.length_cons, List.length_nil] at hlen
  omega

end Stored

/-! ### One run -/

/-- The calls that follow a stored snapshot, up to the soft delete. -/
def LaterCallsSucceed (run : ReconciliationRun K) : Prop :=
  run.count = .done ∧ run.prune = .done ∧ run.compare = .done ∧ run.softDelete = .done

/-- What a run that stored its snapshot did. -/
structure Advanced (run : ReconciliationRun K) (rows : List (SnapshotRow K))
    (result : RunRecord K × List (SnapshotRow K)) : Prop where
  source : result.1.source = run.source
  taken : result.1.taken = true
  past : ∀ r ∈ result.2, r.loadedAt ≤ run.now
  last : ∀ k, k ∈ lastKeys result.2 ↔ k ∈ run.source
  passed : ∀ k ∈ result.1.passed, Lost rows run k
  deleted : LaterCallsSucceed run → ∀ k, Lost rows run k → k ∈ result.1.deleted

theorem compareAndSoftDelete_passed (rows : List (SnapshotRow K)) :
    ∀ k ∈ (compareAndSoftDelete run rows).2.1, k ∈ getDeletedKeys rows := by
  intro k hk
  unfold compareAndSoftDelete at hk
  cases hcompare : run.compare with
  | failed | unusable => rw [hcompare] at hk; cases hk
  | done =>
    rw [hcompare] at hk
    dsimp only at hk
    split_ifs at hk with hnil
    · cases hk
    · cases hdelete : run.softDelete <;> rw [hdelete] at hk <;> exact hk

theorem compareAndSoftDelete_deleted (h : LaterCallsSucceed run) (rows : List (SnapshotRow K)) :
    (compareAndSoftDelete run rows).2.2 = getDeletedKeys rows := by
  obtain ⟨-, -, hcompare, hdelete⟩ := h
  unfold compareAndSoftDelete
  rw [hcompare]
  dsimp only
  split_ifs with hnil
  · exact hnil.symm
  · rw [hdelete]

theorem processReconciliation_taken (hpast : ∀ r ∈ rows, r.loadedAt < run.now)
    (h : SnapshotTaken run) : Advanced run rows (processReconciliation run rows) := by
  have hne := h.1
  obtain ⟨rows', hinsert, hs⟩ := insertSnapshot_taken h rows
  have hle : ∀ r ∈ rows', r.loadedAt ≤ run.now := by
    intro r hr
    rcases (hs r).mp hr with hold | ⟨hnow, -⟩
    · exact (hpast r hold).le
    · exact hnow.le
  have htaken : rows'.any (fun r => decide (r.loadedAt = run.now)) = true := by
    obtain ⟨k, hk⟩ := List.exists_mem_of_ne_nil _ hne
    rw [List.any_eq_true]
    exact ⟨⟨k, run.now⟩, (hs _).mpr (.inr ⟨rfl, hk⟩), by simp⟩
  have hlast := fun k => lastKeys_stored (k := k) hpast hne hs
  have hprune := fun k => lastKeys_prune (k := k) hpast hne hs
  have hle' : ∀ r ∈ pruneOldSnapshots rows', r.loadedAt ≤ run.now :=
    fun r hr => hle r (mem_prune.mp hr).1
  have hprocess : processReconciliation run rows =
      (⟨run.source, true, (compareSnapshots run rows').1.1, (compareSnapshots run rows').1.2.1,
        (compareSnapshots run rows').1.2.2⟩, (compareSnapshots run rows').2) := by
    unfold processReconciliation
    rw [hinsert]
    dsimp only
    rw [htaken, if_pos rfl]
  rw [hprocess]
  unfold compareSnapshots
  split_ifs with hcount htwo
  · exact ⟨rfl, rfl, hle, hlast, nofun, fun hsucceed => absurd hsucceed.1 hcount⟩
  · exact ⟨rfl, rfl, hle, hlast, nofun,
      fun _ k hlost => absurd hlost (not_lost_of_count hpast hne hs htwo k)⟩
  · cases hreply : run.prune with
    | failed effect =>
      have hfail : LaterCallsSucceed run → ∀ k, Lost rows run k → k ∈ ([] : List K) :=
        fun hsucceed => nomatch hreply.symm.trans hsucceed.2.1
      cases effect
      · exact ⟨rfl, rfl, hle, hlast, nofun, hfail⟩
      · exact ⟨rfl, rfl, hle', hprune, nofun, hfail⟩
    | done =>
      refine ⟨rfl, rfl, hle', hprune, fun k hk => ?_, fun hsucceed k hlost => ?_⟩
      · exact (deletedKeys_stored hpast hne hs).mp (compareAndSoftDelete_passed _ k hk)
      · dsimp only
        rw [compareAndSoftDelete_deleted hsucceed]
        exact (deletedKeys_stored hpast hne hs).mpr hlost

theorem processReconciliation_refused (h : SnapshotRefused run)
    (hpast : ∀ r ∈ rows, r.loadedAt < run.now) :
    processReconciliation run rows = (⟨run.source, false, false, [], []⟩, rows) := by
  have htaken : rows.any (fun r => decide (r.loadedAt = run.now)) = false := by
    rw [List.any_eq_false]
    intro r hr
    simpa using (hpast r hr).ne
  unfold processReconciliation
  rw [insertSnapshot_refused h]
  dsimp only
  rw [htaken, if_neg nofun]

/-! ### The promise -/

/-- A completed soft delete got the key, and no snapshot since then has it; newest run first. -/
def DeletedSince (k : K) : List (RunRecord K) → Prop
  | [] => False
  | r :: older => ¬ (r.taken = true ∧ k ∈ r.source) ∧ (k ∈ r.deleted ∨ DeletedSince k older)

/-- A key of some snapshot. -/
def SeenIn (k : K) (history : List (RunRecord K)) : Prop :=
  ∃ e ∈ history, e.taken = true ∧ k ∈ e.source

/-- No delete is missed by a run that completes, and no run deletes what its source has. -/
structure Reconciled (history : List (RunRecord K)) : Prop where
  complete : ∀ newer r older, history = newer ++ r :: older → r.completed = true →
    ∀ k, SeenIn k older → k ∉ r.source → DeletedSince k (r :: older)
  sound : ∀ r ∈ history, ∀ k ∈ r.passed, k ∉ r.source

/-- A run that stores nothing and raises, or stores the whole source and then either deletes what is
    lost or has nothing to delete. -/
def Careful (w : ReconciliationWorld K) (run : ReconciliationRun K) : Prop :=
  SnapshotRefused run ∨
    SnapshotTaken run ∧ (LaterCallsSucceed run ∨ ∀ k ∈ lastKeys w.rows, k ∈ run.source)

/-- The source of the newest snapshot. -/
def lastSource : List (RunRecord K) → List K
  | [] => []
  | r :: older => if r.taken then r.source else lastSource older

/-- INVARIANT. -/
structure ReconciliationInv (w : ReconciliationWorld K) : Prop where
  past : ∀ r ∈ w.rows, r.loadedAt ≤ w.clock
  last : ∀ k, k ∈ lastKeys w.rows ↔ k ∈ lastSource w.history
  covered : ∀ k, SeenIn k w.history → k ∉ lastSource w.history → DeletedSince k w.history
  reconciled : Reconciled w.history

omit [DecidableEq K] in
/-- A record on top of a reconciled history. -/
theorem Reconciled.cons {history : List (RunRecord K)} (h : Reconciled history) {r : RunRecord K}
    (hcomplete : r.completed = true → ∀ k, SeenIn k history → k ∉ r.source →
      DeletedSince k (r :: history)) (hsound : ∀ k ∈ r.passed, k ∉ r.source) :
    Reconciled (r :: history) where
  complete newer e older heq hdone := by
    cases newer with
    | nil => obtain ⟨rfl, rfl⟩ := List.cons.inj heq; exact hcomplete hdone
    | cons _ newer => exact h.complete newer e older (List.cons.inj heq).2 hdone
  sound e he := by
    rcases List.mem_cons.mp he with rfl | he
    · exact hsound
    · exact h.sound e he

/-- STEP. -/
theorem ReconciliationInv.step {w w' : ReconciliationWorld K} (hi : ReconciliationInv w)
    (hc : Careful w run) (hs : ReconciliationStep w run w') : ReconciliationInv w' := by
  obtain ⟨later⟩ := hs
  have hpast : ∀ r ∈ w.rows, r.loadedAt < run.now := fun r hr => (hi.past r hr).trans_lt later
  rcases hc with hrefused | ⟨htaken, hafter⟩
  · rw [processReconciliation_refused hrefused hpast]
    have hseen : ∀ k, SeenIn k (⟨run.source, false, false, [], []⟩ :: w.history) →
        SeenIn k w.history := by
      rintro k ⟨e, he, het, hek⟩
      rcases List.mem_cons.mp he with rfl | he
      · cases het
      · exact ⟨e, he, het, hek⟩
    exact {
      past := fun r hr => (hpast r hr).le
      last := hi.last
      covered := fun k hk hgone => ⟨nofun, .inr (hi.covered k (hseen k hk) hgone)⟩
      reconciled := hi.reconciled.cons nofun nofun }
  · have hadv := processReconciliation_taken hpast htaken
    generalize processReconciliation run w.rows = result at hadv ⊢
    have hcovered : ∀ k, SeenIn k w.history → k ∉ run.source →
        DeletedSince k (result.1 :: w.history) := by
      intro k hseen hgone
      refine ⟨fun h => hgone (hadv.source ▸ h.2), ?_⟩
      by_cases hlast : k ∈ lastSource w.history
      · have hlost : Lost w.rows run k := ⟨(hi.last k).mpr hlast, hgone⟩
        rcases hafter with hsucceed | hnothing
        · exact .inl (hadv.deleted hsucceed k hlost)
        · exact absurd (hnothing k hlost.1) hgone
      · exact .inr (hi.covered k hseen hlast)
    have hsource : lastSource (result.1 :: w.history) = run.source := by
      rw [lastSource, hadv.taken, if_pos rfl, hadv.source]
    exact {
      past := hadv.past
      last := fun k => by rw [hsource]; exact hadv.last k
      covered := fun k ⟨e, he, het, hek⟩ hgone => by
        rw [hsource] at hgone
        rcases List.mem_cons.mp he with rfl | he
        · exact absurd (hadv.source ▸ hek) hgone
        · exact hcovered k ⟨e, he, het, hek⟩ hgone
      reconciled := hi.reconciled.cons (fun _ k hseen hgone => hcovered k hseen (hadv.source ▸ hgone))
        fun k hk => hadv.source ▸ (hadv.passed k hk).2 }

/-- RUN: a sequence of careful runs misses no delete and invents none. -/
theorem reconciled_of_careful {clock : ℤ} {w : ReconciliationWorld K}
    {τ : List (ReconciliationWorld K × ReconciliationRun K)}
    (hrun : Run ReconciliationStep (.start clock) τ w) (hcareful : ∀ p ∈ τ, Careful p.1 p.2) :
    Reconciled w.history := by
  have hstart : ReconciliationInv (.start clock : ReconciliationWorld K) :=
    ⟨nofun, fun k => by simp [lastKeys, lastSource, ReconciliationWorld.start], nofun,
      ⟨fun newer r older h => by simp [ReconciliationWorld.start] at h, nofun⟩⟩
  have hstep : ∀ {s l s'}, ReconciliationInv s → Careful s l → ReconciliationStep s l s' →
      ReconciliationInv (K := K) s' := fun hi hc hs => hi.step hc hs
  exact (hrun.invariant_while hstart hstep hcareful).2.reconciled

/-! ### Runs of one table -/

def ReconciliationWorld.after (w : ReconciliationWorld K) (run : ReconciliationRun K) :
    ReconciliationWorld K :=
  ⟨(processReconciliation run w.rows).2, run.now, (processReconciliation run w.rows).1 :: w.history⟩

/-- A run that nothing happens to. -/
def plainRun (now : ℤ) (source : List String) : ReconciliationRun String :=
  { now, source, separate := false, batchSize := 50000, readFails := fun _ => false,
    wholeLoad := .done, gcs := fun _ => none, direct := fun _ => .done, count := .done,
    prune := .done, compare := .done, softDelete := .done, softDeletedRows := 1, log := .done }

theorem plainRun_careful (w : ReconciliationWorld String) (now : ℤ) {source : List String}
    (h : source ≠ []) : Careful w (plainRun now source) :=
  .inr ⟨⟨h, rfl, rfl⟩, .inl ⟨rfl, rfl, rfl, rfl⟩⟩

theorem reconciled_two_runs :
    Reconciled (((ReconciliationWorld.start 0).after (plainRun 1 ["a", "b"])).after
      (plainRun 2 ["a"])).history := by
  refine reconciled_of_careful (.cons (.run (plainRun 1 ["a", "b"]) (by decide))
    (.cons (.run (plainRun 2 ["a"]) (by decide)) .nil)) fun p hp => ?_
  rcases List.mem_cons.mp hp with rfl | hp
  · exact plainRun_careful _ 1 (by decide)
  · rw [List.mem_singleton.mp hp]
    exact plainRun_careful _ 2 (by decide)

/-- The second run stores its snapshot and fails in the soft delete; the third compares the second
    with itself. -/
def retriedSoftDelete : ReconciliationWorld String :=
  (((ReconciliationWorld.start 0).after (plainRun 1 ["a", "b"])).after
    { plainRun 2 ["a"] with softDelete := .failed false }).after (plainRun 3 ["a"])

theorem retried_run_misses_delete :
    (∃ τ, Run ReconciliationStep (.start 0) τ retriedSoftDelete) ∧
      ¬ Reconciled retriedSoftDelete.history := by
  refine ⟨⟨_, .cons (.run (plainRun 1 ["a", "b"]) (by decide))
    (.cons (.run { plainRun 2 ["a"] with softDelete := .failed false } (by decide))
      (.cons (.run (plainRun 3 ["a"]) (by decide)) .nil))⟩, fun h => ?_⟩
  have hhistory : retriedSoftDelete.history = [⟨["a"], true, true, [], []⟩,
      ⟨["a"], true, false, ["b"], []⟩, ⟨["a", "b"], true, true, [], []⟩] := by decide
  have hmissed := h.complete [] _ _ hhistory rfl "b" ⟨⟨["a", "b"], true, true, [], []⟩,
    by simp, rfl, by decide⟩ (by decide)
  simp [DeletedSince] at hmissed

end Dpone.Reconciliation
