import Dpone.Window.Store

/-! Fencing and revisions over every order of calls.

    One table row and one list of grants say the same: the row holds the newest grant, and fences
    count grants. A lease that is not held any more is never held again, since only a holder renews
    and a release or a newer grant leaves nothing to hold. Records are likewise the newest save, and
    a revision is the number of saves. -/

namespace Dpone.Window
open Dpone.Schemes

variable {T : Type} [LinearOrder T] [Zero T] {float : FloatSum T}

/-! ### What a call can do -/

/-- A lease that `_assert` lets through: the row of its target names it and has not run out. -/
def Holds (db : SQLiteWindowStore T) (now : T) (lease : WindowLease) : Prop :=
  ∃ row, db.leases lease.targetId = some row ∧ row.owner = lease.owner ∧
    row.fence = lease.fence ∧ now < row.expires

/-- Replies and effects, call by call. -/
inductive Served (float : FloatSum T) (db : SQLiteWindowStore T) (now now' : T) :
    StoreCall T → StoreReply → SQLiteWindowStore T → Prop
  | granted (lease : WindowLease) (ttl : T)
      (free : ∀ row ∈ db.leases lease.targetId, row.expires ≤ now)
      (next : lease.fence = (db.leases lease.targetId).elim 1 (·.fence + 1)) :
      Served float db now now' (.acquire lease.targetId lease.owner ttl) (.granted lease)
        (db.setLease lease.targetId ⟨lease.owner, lease.fence, float.plus now ttl⟩)
  | renewed (lease : WindowLease) (ttl : T) (holds : Holds db now lease) :
      Served float db now now' (.renew lease ttl) .done
        (db.setLease lease.targetId ⟨lease.owner, lease.fence, float.plus now' ttl⟩)
  | released (lease : WindowLease) :
      Served float db now now' (.release lease) .done (db.release lease)
  | saved (key : Str) (expected : Option ℕ) (payload : Str) (lease : WindowLease)
      (holds : Holds db now lease) (current : (db.records key).map (·.revision) = expected) :
      Served float db now now' (.save key expected payload lease)
        (.saved ⟨expected.elim 1 (· + 1), payload⟩)
        (db.setRecord key ⟨expected.elim 1 (· + 1), payload⟩)
  | loaded (key : Str) : Served float db now now' (.load key) (.loaded (db.records key)) db
  | asserted (lease : WindowLease) (holds : Holds db now lease) :
      Served float db now now' (.assertLease lease) .done db
  | failed (c : StoreCall T) (e : StoreError) : Served float db now now' c (.failed e) db

section Calls
variable {db : SQLiteWindowStore T} {now now' : T}

omit [Zero T] in
theorem assertLease_ok {lease : WindowLease} (h : db.assertLease now lease = .ok ()) :
    Holds db now lease := by
  unfold SQLiteWindowStore.assertLease at h
  cases hrow : db.leases lease.targetId with
  | none => rw [hrow] at h; cases h
  | some row =>
    rw [hrow] at h
    dsimp only at h
    split_ifs at h with hlost
    obtain ⟨howner, hfence, hexpires⟩ : row.owner = lease.owner ∧ row.fence = lease.fence ∧
        ¬ row.expires ≤ now := by simpa only [not_or, not_not] using hlost
    exact ⟨row, hrow, howner, hfence, not_le.mp hexpires⟩

theorem serve_acquire (targetId owner : Str) (ttl : T) :
    Served float db now now' (.acquire targetId owner ttl)
      (db.serve float now now' (.acquire targetId owner ttl)).1
      (db.serve float now now' (.acquire targetId owner ttl)).2 := by
  cases h : db.acquire float now targetId owner ttl with
  | error e => simp only [SQLiteWindowStore.serve, h]; exact .failed _ e
  | ok r =>
    simp only [SQLiteWindowStore.serve, h]
    unfold SQLiteWindowStore.acquire at h
    cases httl : SQLiteWindowStore.checkTtl float ttl with
    | error e => rw [httl] at h; cases h
    | ok u =>
      rw [httl] at h
      simp only [bind, Except.bind] at h
      split_ifs at h with hnames
      cases hrow : db.leases targetId with
      | none =>
        rw [hrow] at h
        obtain rfl := Except.ok.inj h
        exact .granted ⟨targetId, owner, 1⟩ ttl (by simp [hrow]) (by simp [hrow])
      | some row =>
        rw [hrow] at h
        dsimp only at h
        split_ifs at h with hlive
        obtain rfl := Except.ok.inj h
        refine .granted ⟨targetId, owner, row.fence + 1⟩ ttl ?_ (by simp [hrow])
        simpa [hrow] using hlive

theorem serve_renew (lease : WindowLease) (ttl : T) :
    Served float db now now' (.renew lease ttl) (db.serve float now now' (.renew lease ttl)).1
      (db.serve float now now' (.renew lease ttl)).2 := by
  cases h : db.renew float now now' lease ttl with
  | error e => simp only [SQLiteWindowStore.serve, h]; exact .failed _ e
  | ok db' =>
    simp only [SQLiteWindowStore.serve, h]
    unfold SQLiteWindowStore.renew at h
    cases httl : SQLiteWindowStore.checkTtl float ttl with
    | error e => rw [httl] at h; cases h
    | ok u =>
      cases hassert : db.assertLease now lease with
      | error e => rw [httl, hassert] at h; cases h
      | ok u' =>
        rw [httl, hassert] at h
        have hholds := assertLease_ok hassert
        have ⟨row, hrow, howner, hfence, _⟩ := hholds
        simp only [bind, Except.bind, hrow] at h
        obtain rfl := Except.ok.inj h
        rw [howner, hfence]
        exact .renewed lease ttl hholds

theorem serve_save (key : Str) (expected : Option ℕ) (payload : Str) (lease : WindowLease) :
    Served float db now now' (.save key expected payload lease)
      (db.serve float now now' (.save key expected payload lease)).1
      (db.serve float now now' (.save key expected payload lease)).2 := by
  cases h : db.save now key expected payload lease with
  | error e => simp only [SQLiteWindowStore.serve, h]; exact .failed _ e
  | ok r =>
    simp only [SQLiteWindowStore.serve, h]
    unfold SQLiteWindowStore.save at h
    cases hassert : db.assertLease now lease with
    | error e => rw [hassert] at h; cases h
    | ok u =>
      rw [hassert] at h
      simp only [bind, Except.bind] at h
      split_ifs at h with hconflict
      obtain rfl := Except.ok.inj h
      exact .saved key expected payload lease (assertLease_ok hassert) (not_not.mp hconflict)

/-- STEP: every call does one of these. -/
theorem serve_served (c : StoreCall T) :
    Served float db now now' c (db.serve float now now' c).1 (db.serve float now now' c).2 := by
  cases c with
  | acquire targetId owner ttl => exact serve_acquire targetId owner ttl
  | assertLease lease =>
    cases h : db.assertLease now lease with
    | error e => simp only [SQLiteWindowStore.serve, h]; exact .failed _ e
    | ok u => simp only [SQLiteWindowStore.serve, h]; exact .asserted lease (assertLease_ok h)
  | renew lease ttl => exact serve_renew lease ttl
  | release lease => exact .released lease
  | load key => exact .loaded key
  | save key expected payload lease => exact serve_save key expected payload lease

end Calls

/-! ### What the log says -/

/-- Calls made under a lease. -/
def StoreCall.under : StoreCall T → Option WindowLease
  | .assertLease lease | .renew lease _ | .save _ _ _ lease => some lease
  | .acquire _ _ _ | .release _ | .load _ => none

abbrev StoreLog (T : Type) := List (StoreCall T × StoreReply)

/-- The leases of a target, newest first. -/
def grants (target : Str) : StoreLog T → List WindowLease :=
  List.filterMap fun p => match p.2 with
    | .granted lease => if lease.targetId = target then some lease else none
    | _ => none

/-- The records saved under a key, newest first. -/
def saves (key : Str) : StoreLog T → List WindowRecord :=
  List.filterMap fun
    | (.save k _ _ _, .saved record) => if k = key then some record else none
    | _ => none

/-- What callers were shown of a key: what they loaded, and what they saved. -/
def reads (key : Str) : StoreLog T → List (Option WindowRecord) :=
  List.filterMap fun
    | (.load k, .loaded record) => if k = key then some record else none
    | (.save k _ _ _, .saved record) => if k = key then some (some record) else none
    | _ => none

/-- A lease that ran out, was given back, or was followed by another one of its target. -/
inductive Ended (w : StoreWorld T) (lease : WindowLease) : Prop
  | expired {row : LeaseRow T} (granted : lease ∈ grants lease.targetId w.log)
      (current : w.store.leases lease.targetId = some row) (owner : row.owner = lease.owner)
      (fence : row.fence = lease.fence) (due : row.expires ≤ w.clock)
  | released {newer older : StoreLog T} (log : w.log = newer ++ (.release lease, .done) :: older)
      (granted : lease ∈ grants lease.targetId older)
  | superseded {newer older : StoreLog T} (log : w.log = newer ++ older)
      (granted : lease ∈ grants lease.targetId older)
      (another : grants lease.targetId newer ≠ [])

/-- A save over what was there: it names the newest save, and whoever had been shown a record, or
    the lack of one, with that revision had been shown the newest. -/
structure Overwrites (older : StoreLog T) (key : Str) (expected : Option ℕ)
    (record : WindowRecord) : Prop where
  current : (saves key older).head?.map (·.revision) = expected
  counts : record.revision = (saves key older).length + 1
  read : ∀ r ∈ reads key older, r.map (·.revision) = expected → r = (saves key older).head?

/-! ### Leases -/

section Leases
variable {db db' : SQLiteWindowStore T} {now now' : T} {c : StoreCall T} {r : StoreReply}

def LeaseRow.epoch (row : LeaseRow T) : Str × ℕ := (row.owner, row.fence)

omit [Zero T] in
theorem Holds.earlier {lease : WindowLease} (h : Holds db now' lease) (hle : now ≤ now') :
    Holds db now lease := by
  obtain ⟨row, hrow, howner, hfence, hlive⟩ := h
  exact ⟨row, hrow, howner, hfence, hle.trans_lt hlive⟩

omit [Zero T] in
theorem Holds.unique {lease other : WindowLease} (h : Holds db now lease)
    (h' : Holds db now other) (ht : lease.targetId = other.targetId) : lease = other := by
  obtain ⟨row, hrow, howner, hfence, -⟩ := h
  obtain ⟨row', hrow', howner', hfence', -⟩ := h'
  rw [ht] at hrow
  obtain rfl := Option.some.inj (hrow.symm.trans hrow')
  cases lease; cases other
  simp only at ht howner howner' hfence hfence'
  rw [ht, ← howner, ← howner', ← hfence, ← hfence']

/-- FRAME: only a grant moves an epoch, and only a grant makes a holder. -/
theorem Served.frame (h : Served float db now now' c r db') (hle : now ≤ now') (h0 : 0 ≤ now) :
    (∃ lease expires, r = .granted lease ∧ db'.leases = (db.setLease lease.targetId
        ⟨lease.owner, lease.fence, expires⟩).leases ∧
        lease.fence = (db.leases lease.targetId).elim 1 (·.fence + 1)) ∨
      (∀ lease, r ≠ .granted lease) ∧
        (∀ t, (db'.leases t).map LeaseRow.epoch = (db.leases t).map LeaseRow.epoch) ∧
        ∀ lease, Holds db' now' lease → Holds db now lease := by
  cases h with
  | granted lease ttl free next => exact .inl ⟨lease, _, rfl, rfl, next⟩
  | renewed lease ttl holds =>
    refine .inr ⟨nofun, fun t => ?_, fun other hother => ?_⟩
    · obtain ⟨row, hrow, howner, hfence, -⟩ := holds
      by_cases ht : t = lease.targetId
      · simp [SQLiteWindowStore.setLease, ht, hrow, LeaseRow.epoch, howner, hfence]
      · simp [SQLiteWindowStore.setLease, ht]
    · obtain ⟨row, hrow, howner, hfence, hlive⟩ := hother
      by_cases ht : other.targetId = lease.targetId
      · simp only [SQLiteWindowStore.setLease, ht, if_true, Option.some.injEq] at hrow
        subst hrow
        obtain ⟨row, hrow, howner', hfence', hlive'⟩ := holds
        exact ⟨row, ht ▸ hrow, howner'.trans howner, hfence'.trans hfence, hlive'⟩
      · simp only [SQLiteWindowStore.setLease, ht, if_false] at hrow
        exact ⟨row, hrow, howner, hfence, hle.trans_lt hlive⟩
  | released lease =>
    unfold SQLiteWindowStore.release
    cases hrow : db.leases lease.targetId with
    | none => exact .inr ⟨nofun, fun _ => rfl, fun _ hother => hother.earlier hle⟩
    | some row =>
      dsimp only
      split_ifs with hown
      · refine .inr ⟨nofun, fun t => ?_, fun other hother => ?_⟩
        · by_cases ht : t = lease.targetId
          · simp [SQLiteWindowStore.setLease, ht, hrow, LeaseRow.epoch]
          · simp [SQLiteWindowStore.setLease, ht]
        · obtain ⟨row', hrow', howner, hfence, hlive⟩ := hother
          by_cases ht : other.targetId = lease.targetId
          · simp only [SQLiteWindowStore.setLease, ht, if_true, Option.some.injEq] at hrow'
            subst hrow'
            exact absurd (h0.trans hle) (not_le.mpr hlive)
          · simp only [SQLiteWindowStore.setLease, ht, if_false] at hrow'
            exact ⟨row', hrow', howner, hfence, hle.trans_lt hlive⟩
      · exact .inr ⟨nofun, fun _ => rfl, fun _ hother => hother.earlier hle⟩
  | saved | loaded | asserted | failed =>
    exact .inr ⟨nofun, fun _ => rfl, fun _ hother => hother.earlier hle⟩

/-- A lease that was granted once and is not held. -/
def Dead (db : SQLiteWindowStore T) (now : T) (lease : WindowLease) : Prop :=
  (∃ row ∈ db.leases lease.targetId, lease.fence ≤ row.fence) ∧ ¬ Holds db now lease

omit [LinearOrder T] [Zero T] in
/-- A table with the same epochs has a row wherever the other has one. -/
theorem row_of_epoch {t : Str} {row : LeaseRow T}
    (h : (db'.leases t).map LeaseRow.epoch = (db.leases t).map LeaseRow.epoch)
    (hrow : row ∈ db.leases t) : ∃ row' ∈ db'.leases t, row'.epoch = row.epoch := by
  rw [Option.mem_def.mp hrow, Option.map_some, Option.map_eq_some_iff] at h
  exact h

/-- A dead lease gets nothing and stays dead. -/
theorem Dead.serve {lease : WindowLease} {before : T} (hd : Dead db before lease)
    (h : Served float db now now' c r db') (hle : before ≤ now) (hle' : now ≤ now')
    (h0 : 0 ≤ before) :
    Dead db' now' lease ∧ (c.under = some lease → ∃ e, r = .failed e) := by
  obtain ⟨⟨row, hrow, hfence⟩, hnot⟩ := hd
  have hnow : ¬ Holds db now lease := fun hh => hnot (hh.earlier hle)
  refine ⟨?_, ?_⟩
  · rcases h.frame hle' (h0.trans hle) with ⟨new, expires, -, htable, hnext⟩ | ⟨-, hepoch, hholds⟩
    · by_cases ht : lease.targetId = new.targetId
      · have hlt : lease.fence < new.fence := by
          rw [hnext, ← ht, Option.mem_def.mp hrow]; exact Nat.lt_succ_of_le hfence
        have hnewrow : db'.leases lease.targetId = some ⟨new.owner, new.fence, expires⟩ := by
          rw [htable]; simp [SQLiteWindowStore.setLease, ht]
        refine ⟨⟨_, hnewrow, hlt.le⟩, ?_⟩
        rintro ⟨row', hrow', -, hfence', -⟩
        rw [hnewrow, Option.some.injEq] at hrow'
        subst hrow'
        exact hlt.ne' hfence'
      · have hsame : db'.leases lease.targetId = db.leases lease.targetId := by
          rw [htable]; simp [SQLiteWindowStore.setLease, ht]
        refine ⟨⟨row, hsame ▸ hrow, hfence⟩, ?_⟩
        rintro ⟨row', hrow', howner', hfence', hlive'⟩
        exact hnow ⟨row', hsame ▸ hrow', howner', hfence', hle'.trans_lt hlive'⟩
    · obtain ⟨row', hrow', heq⟩ := row_of_epoch (hepoch lease.targetId) hrow
      exact ⟨⟨row', hrow', hfence.trans_eq (congrArg Prod.snd heq).symm⟩,
        fun hh => hnow (hholds lease hh)⟩
  · intro hunder
    cases h with
    | failed c e => exact ⟨e, rfl⟩
    | renewed _ _ holds | saved _ _ _ _ holds | asserted _ holds =>
      obtain rfl := Option.some.inj hunder; exact absurd holds hnow
    | granted | released | loaded => cases hunder

end Leases

end Dpone.Window
