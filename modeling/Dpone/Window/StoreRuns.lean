import Mathlib.Data.Int.Order.Basic
import Dpone.Window.StoreFencing

/-! Runs of the store: the rows are the newest grants and saves of the log.

    Leases: fences of a target's grants decrease down the log, the row carries the epoch of the
    newest one, and what was released is dead. Records: a key's row is its newest save, revisions
    number the saves, and every record that was ever shown to a caller is one of them. -/

namespace Dpone.Window
open Dpone.Schemes

variable {T : Type} [LinearOrder T] [Zero T] {float : FloatSum T}

/-! ### The log under one more call -/

section Log
variable {c : StoreCall T} {r : StoreReply} {log : StoreLog T}

omit [LinearOrder T] [Zero T] in
@[simp] theorem grants_granted (lease : WindowLease) (target : Str) :
    grants target ((c, .granted lease) :: log) =
      if lease.targetId = target then lease :: grants target log else grants target log := by
  unfold grants
  by_cases ht : lease.targetId = target <;> simp [ht]

omit [LinearOrder T] [Zero T] in
theorem grants_other (target : Str) (h : ∀ lease, r ≠ .granted lease) :
    grants target ((c, r) :: log) = grants target log := by
  cases r with
  | granted lease => exact absurd rfl (h lease)
  | done | loaded | saved | failed => rfl

omit [LinearOrder T] [Zero T] in
theorem target_of_mem_grants {lease : WindowLease} {target : Str}
    (h : lease ∈ grants target log) : lease.targetId = target := by
  obtain ⟨⟨c, r⟩, -, hp⟩ := List.mem_filterMap.mp h
  cases r with
  | granted l =>
    dsimp only at hp
    split_ifs at hp with ht
    obtain rfl := Option.some.inj hp
    exact ht
  | done | loaded | saved | failed => cases hp

omit [LinearOrder T] [Zero T] in
theorem grants_append (target : Str) (newer older : StoreLog T) :
    grants target (newer ++ older) = grants target newer ++ grants target older :=
  List.filterMap_append

omit [LinearOrder T] [Zero T] in
theorem saves_other (key : Str) (h : ∀ record, r ≠ .saved record) :
    saves key ((c, r) :: log) = saves key log := by
  cases r with
  | saved record => exact absurd rfl (h record)
  | granted | done | loaded | failed => cases c <;> rfl

omit [LinearOrder T] [Zero T] in
theorem saves_saved (key key' : Str) (expected : Option ℕ) (payload : Str) (lease : WindowLease)
    (record : WindowRecord) :
    saves key ((.save key' expected payload lease, .saved record) :: log) =
      if key' = key then record :: saves key log else saves key log := by
  unfold saves
  by_cases hk : key' = key <;> simp [hk]

omit [LinearOrder T] [Zero T] in
theorem reads_other (key : Str) (h : ∀ record, r ≠ .saved record)
    (h' : ∀ record, r ≠ .loaded record) : reads key ((c, r) :: log) = reads key log := by
  cases r with
  | saved record => exact absurd rfl (h record)
  | loaded record => exact absurd rfl (h' record)
  | granted | done | failed => cases c <;> rfl

omit [LinearOrder T] [Zero T] in
theorem reads_saved (key key' : Str) (expected : Option ℕ) (payload : Str) (lease : WindowLease)
    (record : WindowRecord) :
    reads key ((.save key' expected payload lease, .saved record) :: log) =
      if key' = key then some record :: reads key log else reads key log := by
  unfold reads
  by_cases hk : key' = key <;> simp [hk]

omit [LinearOrder T] [Zero T] in
theorem reads_loaded (key key' : Str) (record : Option WindowRecord) :
    reads key ((.load key', .loaded record) :: log) =
      if key' = key then record :: reads key log else reads key log := by
  unfold reads
  by_cases hk : key' = key <;> simp [hk]

omit [LinearOrder T] in
theorem release_records (db : SQLiteWindowStore T) (lease : WindowLease) :
    (db.release lease).records = db.records := by
  unfold SQLiteWindowStore.release
  split
  · split_ifs <;> rfl
  · rfl

end Log

/-! ### Leases -/

/-- INVARIANT of the leases. -/
structure LeaseInv (w : StoreWorld T) : Prop where
  time : 0 ≤ w.clock
  epoch : ∀ target, (w.store.leases target).map LeaseRow.epoch =
    (grants target w.log).head?.map fun lease => (lease.owner, lease.fence)
  fences : ∀ target, (grants target w.log).Pairwise fun newer older => older.fence < newer.fence
  released : ∀ newer older lease, w.log = newer ++ (.release lease, .done) :: older →
    lease ∈ grants lease.targetId older → Dead w.store w.clock lease

namespace LeaseInv
variable {w : StoreWorld T}

/-- A lease that was granted is no newer than the row of its target. -/
theorem row_of_granted (hi : LeaseInv w) {lease : WindowLease}
    (h : lease ∈ grants lease.targetId w.log) :
    ∃ row ∈ w.store.leases lease.targetId, lease.fence ≤ row.fence := by
  have hepoch := hi.epoch lease.targetId
  have hfences := hi.fences lease.targetId
  cases hgrants : grants lease.targetId w.log with
  | nil => rw [hgrants] at h; cases h
  | cons newest older =>
    rw [hgrants] at h hepoch hfences
    rw [List.head?_cons, Option.map_some, Option.map_eq_some_iff] at hepoch
    obtain ⟨row, hrow, heq⟩ := hepoch
    have hfence : row.fence = newest.fence := congrArg Prod.snd heq
    refine ⟨row, hrow, ?_⟩
    rcases List.mem_cons.mp h with rfl | hold
    · exact hfence.ge
    · rw [hfence]; exact ((List.pairwise_cons.mp hfences).1 lease hold).le

/-- The lease that is held is the newest of its target. -/
theorem newest_of_holds (hi : LeaseInv w) {lease : WindowLease}
    (h : Holds w.store w.clock lease) : (grants lease.targetId w.log).head? = some lease := by
  obtain ⟨row, hrow, howner, hfence, -⟩ := h
  have hepoch := hi.epoch lease.targetId
  rw [hrow, Option.map_some] at hepoch
  obtain ⟨newest, hnewest, heq⟩ := Option.map_eq_some_iff.mp hepoch.symm
  rw [hnewest, Option.some.injEq]
  have htarget := target_of_mem_grants (List.mem_of_mem_head? hnewest)
  have howner' : newest.owner = lease.owner := (congrArg Prod.fst heq).trans howner
  have hfence' : newest.fence = lease.fence := (congrArg Prod.snd heq).trans hfence
  cases newest; cases lease
  simp only at htarget howner' hfence'
  rw [htarget, howner', hfence']

/-- What ended is dead. -/
theorem dead_of_ended (hi : LeaseInv w) {lease : WindowLease} (h : Ended w lease) :
    Dead w.store w.clock lease := by
  cases h with
  | @expired row granted current owner fence due =>
    refine ⟨⟨row, current, fence.ge⟩, ?_⟩
    rintro ⟨row', hrow', -, -, hlive⟩
    obtain rfl := Option.some.inj (current.symm.trans hrow')
    exact absurd due (not_le.mpr hlive)
  | released log granted => exact hi.released _ _ lease log granted
  | @superseded newer older log granted another =>
    have hgrants := congrArg (grants lease.targetId) log
    rw [grants_append] at hgrants
    refine ⟨hi.row_of_granted (hgrants ▸ List.mem_append_right _ granted), fun hholds => ?_⟩
    have hnewest := hi.newest_of_holds hholds
    rw [hgrants, List.head?_append_of_ne_nil _ another] at hnewest
    have hfences := hi.fences lease.targetId
    rw [hgrants, List.pairwise_append] at hfences
    exact lt_irrefl _ (hfences.2.2 lease (List.mem_of_mem_head? hnewest) lease granted)

/-- STEP, a call. -/
theorem call (hi : LeaseInv w) {now now' : T} {c : StoreCall T} {r : StoreReply}
    {db : SQLiteWindowStore T} (hs : Served float w.store now now' c r db) (hle : w.clock ≤ now)
    (hle' : now ≤ now') : LeaseInv ⟨db, now', (c, r) :: w.log⟩ where
  time := hi.time.trans (hle.trans hle')
  epoch target := by
    rcases hs.frame hle' (hi.time.trans hle) with ⟨new, expires, rfl, htable, -⟩ |
      ⟨hother, hepoch, -⟩
    · by_cases ht : target = new.targetId
      · simp [htable, SQLiteWindowStore.setLease, ht, LeaseRow.epoch]
      · simp only [htable, SQLiteWindowStore.setLease, ht, if_false, grants_granted,
          Ne.symm ht]
        exact hi.epoch target
    · rw [grants_other target hother]; exact (hepoch target).trans (hi.epoch target)
  fences target := by
    rcases hs.frame hle' (hi.time.trans hle) with ⟨new, expires, rfl, -, hnext⟩ | ⟨hother, -, -⟩
    · rw [grants_granted]
      split_ifs with ht
      · refine List.pairwise_cons.mpr ⟨fun lease hlease => ?_, hi.fences target⟩
        have hsame := target_of_mem_grants hlease
        obtain ⟨row, hrow, hfence⟩ := hi.row_of_granted (hsame ▸ hlease)
        rw [hnext, ht, ← hsame, Option.mem_def.mp hrow]
        exact Nat.lt_succ_of_le hfence
      · exact hi.fences target
    · rw [grants_other target hother]; exact hi.fences target
  released newer older lease hlog granted := by
    cases newer with
    | nil =>
      -- The call is the release itself: it leaves the row without time.
      obtain ⟨⟨rfl, rfl⟩, rfl⟩ : (c = .release lease ∧ r = .done) ∧ w.log = older := by
        simpa using hlog
      obtain ⟨row, hrow, hfence⟩ := hi.row_of_granted granted
      cases hs with
      | released =>
        unfold SQLiteWindowStore.release
        rw [Option.mem_def.mp hrow]
        dsimp only
        split_ifs with hown
        · refine ⟨⟨{ row with expires := 0 }, by simp [SQLiteWindowStore.setLease], hfence⟩, ?_⟩
          rintro ⟨row', hrow', -, -, hlive⟩
          simp only [SQLiteWindowStore.setLease, if_true, Option.some.injEq] at hrow'
          subst hrow'
          exact absurd (hi.time.trans (hle.trans hle')) (not_le.mpr hlive)
        · refine ⟨⟨row, hrow, hfence⟩, ?_⟩
          rintro ⟨row', hrow', howner', hfence', -⟩
          obtain rfl := Option.some.inj (hrow.symm.trans hrow')
          exact hown ⟨howner', hfence'⟩
    | cons p newer =>
      have hlog' : w.log = newer ++ (.release lease, .done) :: older := (List.cons.inj hlog).2
      exact ((hi.released newer older lease hlog' granted).serve hs hle hle' hi.time).1

/-- STEP. -/
theorem step (hi : LeaseInv w) {w' : StoreWorld T} {l : Unit} (h : StoreStep float w l w') :
    LeaseInv w' := by
  cases h with
  | tick hle =>
    refine ⟨hi.time.trans hle, hi.epoch, hi.fences, fun newer older lease hlog granted => ?_⟩
    obtain ⟨hrow, hnot⟩ := hi.released newer older lease hlog granted
    exact ⟨hrow, fun hholds => hnot (hholds.earlier hle)⟩
  | call c hle hle' => exact hi.call (serve_served c) hle hle'

end LeaseInv

/-! ### Records -/

/-- Revisions number the records of a key, the oldest being 1. -/
def Numbered : List WindowRecord → Prop
  | [] => True
  | record :: older => record.revision = older.length + 1 ∧ Numbered older

theorem Numbered.le_length : ∀ {records : List WindowRecord}, Numbered records →
    ∀ r ∈ records, r.revision ≤ records.length
  | record :: older, ⟨hrecord, holder⟩, r, hr => by
    rcases List.mem_cons.mp hr with rfl | hr
    · exact hrecord.le
    · exact (holder.le_length r hr).trans (Nat.le_succ _)

/-- The newest record is the only one of its revision. -/
theorem Numbered.eq_head {records : List WindowRecord} (h : Numbered records) {r : WindowRecord}
    (hr : r ∈ records) (hrev : some r.revision = records.head?.map (·.revision)) :
    some r = records.head? := by
  cases records with
  | nil => cases hr
  | cons record older =>
    rcases List.mem_cons.mp hr with rfl | hold
    · rfl
    · have hle := h.2.le_length r hold
      have heq : r.revision = record.revision := Option.some.inj hrev
      have hnewest : record.revision = older.length + 1 := h.1
      omega

theorem Numbered.revision {records : List WindowRecord} (h : Numbered records) :
    records.head?.elim 0 (·.revision) = records.length := by
  cases records with
  | nil => rfl
  | cons record older => exact h.1

/-- INVARIANT of the records. -/
structure RecordInv (w : StoreWorld T) : Prop where
  newest : ∀ key, w.store.records key = (saves key w.log).head?
  numbered : ∀ key, Numbered (saves key w.log)
  reads : ∀ key r, some r ∈ reads key w.log → r ∈ saves key w.log
  saved : ∀ newer older key expected payload lease record,
    w.log = newer ++ (.save key expected payload lease, .saved record) :: older →
      Overwrites older key expected record ∧ record.payload = payload

namespace RecordInv
variable {w : StoreWorld T}

omit [LinearOrder T] [Zero T] in
/-- A save against the revision of the row. -/
theorem overwrites (hi : RecordInv w) {key : Str} {expected : Option ℕ} (payload : Str)
    (current : (w.store.records key).map (·.revision) = expected) :
    Overwrites w.log key expected ⟨expected.elim 1 (· + 1), payload⟩ where
  current := hi.newest key ▸ current
  counts := by
    have hrev := (hi.numbered key).revision
    rw [← hi.newest key] at hrev
    cases hrow : w.store.records key with
    | none => rw [hrow] at hrev current; subst current; rw [← hrev]; rfl
    | some row => rw [hrow] at hrev current; subst current; rw [← hrev]; rfl
  read r hr hrev := by
    rw [hi.newest key] at current
    cases r with
    | none =>
      rw [Option.map_none] at hrev
      rw [← hrev] at current
      exact (Option.map_eq_none_iff.mp current).symm
    | some r => exact (hi.numbered key).eq_head (hi.reads key r hr) (hrev.trans current.symm)

/-- STEP, a call. -/
theorem call (hi : RecordInv w) {now now' : T} {c : StoreCall T} {r : StoreReply}
    {db : SQLiteWindowStore T} (hs : Served float w.store now now' c r db) :
    RecordInv ⟨db, now', (c, r) :: w.log⟩ where
  newest key := by
    cases hs with
    | saved key' expected payload lease holds current =>
      rw [saves_saved]
      by_cases hk : key = key'
      · simp [SQLiteWindowStore.setRecord, hk]
      · simp [SQLiteWindowStore.setRecord, hk, Ne.symm hk, hi.newest key]
    | released lease => exact (release_records w.store lease ▸ hi.newest key)
    | failed c e => rw [saves_other (r := .failed e) key nofun]; exact hi.newest key
    | granted | renewed | loaded | asserted => exact hi.newest key
  numbered key := by
    cases hs with
    | saved key' expected payload lease holds current =>
      rw [saves_saved]
      split_ifs with hk
      · subst hk; exact ⟨(hi.overwrites payload current).counts, hi.numbered key'⟩
      · exact hi.numbered key
    | failed c e => rw [saves_other (r := .failed e) key nofun]; exact hi.numbered key
    | granted | renewed | released | loaded | asserted => exact hi.numbered key
  reads key shown hshown := by
    cases hs with
    | saved key' expected payload lease holds current =>
      rw [saves_saved]
      rw [reads_saved] at hshown
      split_ifs at hshown ⊢ with hk
      · rcases List.mem_cons.mp hshown with heq | hold
        · rw [Option.some.inj heq]; exact List.mem_cons_self
        · exact List.mem_cons_of_mem _ (hi.reads key shown hold)
      · exact hi.reads key shown hshown
    | loaded key' =>
      change shown ∈ saves key w.log
      rw [reads_loaded] at hshown
      split_ifs at hshown with hk
      · rcases List.mem_cons.mp hshown with heq | hold
        · rw [hk, hi.newest key] at heq
          exact List.mem_of_mem_head? heq.symm
        · exact hi.reads key shown hold
      · exact hi.reads key shown hshown
    | failed c e =>
      rw [reads_other (r := .failed e) key nofun nofun] at hshown
      rw [saves_other (r := .failed e) key nofun]
      exact hi.reads key shown hshown
    | granted | renewed | released | asserted => exact hi.reads key shown hshown
  saved newer older key expected payload lease record hlog := by
    cases newer with
    | nil =>
      obtain ⟨⟨rfl, rfl⟩, rfl⟩ : (c = .save key expected payload lease ∧ r = .saved record) ∧
          w.log = older := by simpa using hlog
      cases hs with
      | saved _ _ _ _ _ current => exact ⟨hi.overwrites payload current, rfl⟩
    | cons p newer =>
      exact hi.saved newer older key expected payload lease record (List.cons.inj hlog).2

/-- STEP. -/
theorem step (hi : RecordInv w) {w' : StoreWorld T} {l : Unit} (h : StoreStep float w l w') :
    RecordInv w' := by
  cases h with
  | tick hle => exact ⟨hi.newest, hi.numbered, hi.reads, hi.saved⟩
  | call c hle hle' => exact hi.call (serve_served c)

end RecordInv

/-! ### Runs -/

/-- A continued run only adds calls, and a dead lease gets nothing in any of them. -/
theorem dead_forever {w w' : StoreWorld T} {τ : List (StoreWorld T × Unit)} {lease : WindowLease}
    (hi : LeaseInv w) (hd : Dead w.store w.clock lease) (h : Run (StoreStep float) w τ w') :
    (LeaseInv w' ∧ Dead w'.store w'.clock lease) ∧ ∃ newer, w'.log = newer ++ w.log ∧
      ∀ p ∈ newer, p.1.under = some lease → ∃ e, p.2 = .failed e := by
  induction h with
  | nil => exact ⟨⟨hi, hd⟩, [], rfl, nofun⟩
  | @snoc τ s s' l hrun hs ih =>
    obtain ⟨⟨hs_inv, hs_dead⟩, newer, hlog, hfailed⟩ := ih
    refine ⟨⟨hs_inv.step hs, ?_⟩, ?_⟩
    · cases hs with
      | tick hle => exact ⟨hs_dead.1, fun hholds => hs_dead.2 (hholds.earlier hle)⟩
      | call c hle hle' => exact (hs_dead.serve (serve_served c) hle hle' hs_inv.time).1
    · cases hs with
      | tick hle => exact ⟨newer, hlog, hfailed⟩
      | @call now now' c hle hle' =>
        refine ⟨_ :: newer, congrArg (_ :: ·) hlog, fun p hp hunder => ?_⟩
        rcases List.mem_cons.mp hp with rfl | hp
        · exact (hs_dead.serve (serve_served c) hle hle' hs_inv.time).2 hunder
        · exact hfailed p hp hunder

/-- What the store promises: `Holds` is the check that every call under a lease makes. -/
structure Fenced (float : FloatSum T) (w : StoreWorld T) : Prop where
  fences : ∀ target, (grants target w.log).Pairwise fun newer older => older.fence < newer.fence
  newest : ∀ lease, Holds w.store w.clock lease →
    (grants lease.targetId w.log).head? = some lease
  exclusive : ∀ lease other, Holds w.store w.clock lease → Holds w.store w.clock other →
    lease.targetId = other.targetId → lease = other
  ended : ∀ lease, Ended w lease → ∀ τ w', Run (StoreStep float) w τ w' →
    ∃ newer, w'.log = newer ++ w.log ∧
      ∀ p ∈ newer, p.1.under = some lease → ∃ e, p.2 = .failed e
  revisions : ∀ key, (w.store.records key).elim 0 (·.revision) = (saves key w.log).length
  saved : ∀ newer older key expected payload lease record,
    w.log = newer ++ (.save key expected payload lease, .saved record) :: older →
      Overwrites older key expected record ∧ record.payload = payload

/-- RUN: from a new store, every order of calls by any number of owners is fenced, the clock
    telling a time since the epoch that never goes back. -/
theorem store_fenced {start : T} (h0 : 0 ≤ start) {τ : List (StoreWorld T × Unit)}
    {w : StoreWorld T} (h : Run (StoreStep float) (.start start) τ w) : Fenced float w := by
  have hleases : LeaseInv w := by
    refine h.invariant ?_ (fun hi hs => hi.step hs)
    refine ⟨h0, fun _ => rfl, fun _ => .nil, fun newer older lease hlog => ?_⟩
    simp [StoreWorld.start] at hlog
  have hrecords : RecordInv w := by
    refine h.invariant ?_ (fun hi hs => hi.step hs)
    refine ⟨fun _ => rfl, fun _ => trivial, nofun, fun newer older _ _ _ _ _ hlog => ?_⟩
    simp [StoreWorld.start] at hlog
  exact {
    fences := hleases.fences
    newest := fun lease hholds => hleases.newest_of_holds hholds
    exclusive := fun lease other hholds hholds' ht => hholds.unique hholds' ht
    ended := fun lease hended τ' w' hrun =>
      (dead_forever hleases (hleases.dead_of_ended hended) hrun).2
    revisions := fun key => by rw [hrecords.newest key]; exact (hrecords.numbered key).revision
    saved := hrecords.saved }

/-! ### A store at work -/

/-- One call while the clock stands still. -/
def StoreWorld.after (float : FloatSum T) (w : StoreWorld T) (c : StoreCall T) : StoreWorld T :=
  ⟨(w.store.serve float w.clock w.clock c).2, w.clock,
    (c, (w.store.serve float w.clock w.clock c).1) :: w.log⟩

theorem StoreWorld.after_step (w : StoreWorld T) (c : StoreCall T) :
    StoreStep float w () (w.after float c) := .call c le_rfl le_rfl

/-- Times that are whole numbers of seconds. -/
def wholeSeconds : FloatSum ℤ := ⟨(· + ·), fun _ => true⟩

def nightlyLease : WindowLease := ⟨"orders".toList, "nightly".toList, 1⟩

def nightlySave : StoreCall ℤ :=
  .save "run/state".toList none "x".toList nightlyLease

/-- A target taken for ten seconds and given back at once. -/
def givenBack (start : ℤ) : StoreWorld ℤ :=
  ((StoreWorld.start start).after wholeSeconds
    (.acquire nightlyLease.targetId nightlyLease.owner 10)).after wholeSeconds
      (.release nightlyLease)

theorem givenBack_run (start : ℤ) :
    ∃ τ, Run (StoreStep wholeSeconds) (.start start) τ (givenBack start) :=
  ⟨_, .cons (StoreWorld.after_step _ _) (.cons (StoreWorld.after_step _ _) .nil)⟩

theorem store_fenced_given_back : Fenced wholeSeconds (givenBack 7) :=
  store_fenced (by decide : (0 : ℤ) ≤ 7) (givenBack_run 7).choose_spec

/-- Before the epoch the zero that a release writes is still ahead: the lease saves. -/
theorem released_lease_saves_before_epoch :
    (∃ τ, Run (StoreStep wholeSeconds) (.start (-5)) τ (givenBack (-5))) ∧
      ¬ Fenced wholeSeconds (givenBack (-5)) := by
  refine ⟨givenBack_run (-5), fun hfenced => ?_⟩
  have hended : Ended (givenBack (-5)) nightlyLease :=
    .released (show (givenBack (-5)).log = [] ++ _ from rfl) (by decide)
  obtain ⟨newer, hlog, hfailed⟩ := hfenced.ended nightlyLease hended _ _
    (.cons (StoreWorld.after_step (givenBack (-5)) nightlySave) .nil)
  obtain rfl : newer = [_] := List.append_cancel_right hlog.symm
  obtain ⟨e, he⟩ := hfailed _ (List.mem_singleton_self _) rfl
  have hsaved : ((givenBack (-5)).store.serve wholeSeconds (-5) (-5) nightlySave).1 =
      .saved ⟨1, "x".toList⟩ := by decide
  cases hsaved.symm.trans he

end Dpone.Window
