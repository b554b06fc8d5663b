import Mathlib.Logic.Equiv.Basic
import Dpone.ClickHouse.PublicationSafety

/-! One step at a time.

    A statement is taken in three parts: its call is set aside, the catalog changes under all the
    other calls, and the call goes on. The middle part is `PublicationInv.kept`: what it asks of a
    changed catalog is that a spent candidate keeps its table or loses it, and that a held marker
    stays held or is spent. -/

namespace Dpone.ClickHouse
open Dpone.Schemes

variable {text : MarkerText} {site : PublicationTarget} {w w' : PublicationWorld}

/-! ### Tables -/

@[simp] theorem Tables.set_same (tables : Tables) (name : Str) (table : Option PublicationTable) :
    tables.set name table name = table := by simp [Tables.set]

theorem Tables.set_other (tables : Tables) {name n : Str} (table : Option PublicationTable)
    (h : n ≠ name) : tables.set name table n = tables n := by simp [Tables.set, h]

theorem Tables.uuid_set_other (tables : Tables) {name n : Str} (table : Option PublicationTable)
    (h : n ≠ name) : (tables.set name table).uuid n = tables.uuid n := by
  unfold Tables.uuid
  rw [Tables.set_other _ _ h]

/-- A new table has a new UUID, so the UUIDs of a catalog stay known and distinct. -/
theorem Tables.used_set {tables : Tables} {used : List Str} {name : Str} {table : PublicationTable}
    (hused : ∀ n t, tables n = some t → t.uuid ∈ used) (n : Str) (t : PublicationTable)
    (h : tables.set name (some table) n = some t) : t.uuid ∈ table.uuid :: used := by
  by_cases hn : n = name
  · rw [hn, set_same, Option.some.injEq] at h
    rw [h]
    exact List.mem_cons_self
  · rw [set_other _ _ hn] at h
    exact List.mem_cons_of_mem _ (hused n t h)

theorem Tables.unique_set {tables : Tables} {used : List Str} {name : Str}
    {table : PublicationTable} (hused : ∀ n t, tables n = some t → t.uuid ∈ used)
    (hunique : ∀ n n' t t', tables n = some t → tables n' = some t' → t.uuid = t'.uuid → n = n')
    (hfresh : table.uuid ∉ used) (n n' : Str) (t t' : PublicationTable)
    (h : tables.set name (some table) n = some t) (h' : tables.set name (some table) n' = some t')
    (heq : t.uuid = t'.uuid) : n = n' := by
  by_cases hn : n = name <;> by_cases hn' : n' = name
  · rw [hn, hn']
  · rw [hn, set_same, Option.some.injEq] at h
    rw [set_other _ _ hn'] at h'
    exact absurd (hused n' t' h') (by rw [← heq, ← h]; exact hfresh)
  · rw [set_other _ _ hn] at h
    rw [hn', set_same, Option.some.injEq] at h'
    exact absurd (hused n t h) (by rw [heq, ← h']; exact hfresh)
  · rw [set_other _ _ hn] at h
    rw [set_other _ _ hn'] at h'
    exact hunique n n' t t' h h' heq

theorem Tables.uuid_eq_none {tables : Tables} {name : Str} :
    tables.uuid name = none ↔ tables name = none := Option.map_eq_none_iff

theorem markerAt_congr {tables tables' : Tables}
    (h : tables' site.markerTable = tables site.markerTable) :
    markerAt text site tables' = markerAt text site tables := by
  unfold markerAt
  rw [h]

/-! ### What every step keeps -/

/-- Candidates and markers from one catalog to the next. -/
structure Kept (text : MarkerText) (site : PublicationTarget) (w w' : PublicationWorld) : Prop where
  staged : ∀ name uuid, w.staged name = some uuid → w'.staged name = some uuid
  candidate : ∀ m, Planned site w m → Spent w m →
    w'.tables.uuid m.candidate = w.tables.uuid m.candidate ∨ w'.tables.uuid m.candidate = none
  held : ∀ m, Planned site w m → markerAt text site w.tables = some m →
    markerAt text site w'.tables = some m ∨ Spent w' m
  effected : ∀ m ∈ w.effected, m ∈ w'.effected
  proved : ∀ x ∈ w.proved, x ∈ w'.proved

namespace Kept

theorem of_same (htables : w'.tables = w.tables) (hstaged : w'.staged = w.staged)
    (heffected : ∀ m ∈ w.effected, m ∈ w'.effected) (hproved : ∀ x ∈ w.proved, x ∈ w'.proved) :
    Kept text site w w' where
  staged _ _ h := hstaged ▸ h
  candidate _ _ _ := .inl (htables ▸ rfl)
  held _ _ h := .inl (htables ▸ h)
  effected := heffected
  proved := hproved

theorem planned (hk : Kept text site w w') {m : PublicationMarker} (h : Planned site w m) :
    Planned site w' m :=
  ⟨h.target, h.candidate, h.name, hk.staged _ _ h.staged⟩

theorem spent (hk : Kept text site w w') {m : PublicationMarker} (h : Planned site w m)
    (hs : Spent w m) : Spent w' m := by
  rcases hk.candidate m h hs with hsame | hnone
  · unfold Spent; rw [hsame]; exact hs
  · unfold Spent; rw [hnone]; exact nofun

theorem absent (hk : Kept text site w w') {m : PublicationMarker} (h : Planned site w m)
    (hn : w.tables m.candidate = none) : w'.tables m.candidate = none := by
  have hnone : w.tables.uuid m.candidate = none := Tables.uuid_eq_none.mpr hn
  have hs : Spent w m := by unfold Spent; rw [hnone]; exact nofun
  rcases hk.candidate m h hs with hsame | hnone'
  · exact Tables.uuid_eq_none.mp (hsame.trans hnone)
  · exact Tables.uuid_eq_none.mp hnone'

theorem heldOrSpent (hk : Kept text site w w') {m : PublicationMarker} (h : Planned site w m)
    (hh : Spent w m ∨ markerAt text site w.tables = some m) :
    Spent w' m ∨ markerAt text site w'.tables = some m := by
  rcases hh with hs | hm
  · exact .inl (hk.spent h hs)
  · exact (hk.held m h hm).symm

/-- A call that neither dispatches nor drops a marker keeps what it knows. -/
theorem callInv (hk : Kept text site w w') {a : ℕ} {p : Progress}
    (h : CallInv text site w a p)
    (hdispatch : ∀ m, p = .dispatch m → markerAt text site w'.tables = some m ∧
      publicationState m w'.tables = .pending)
    (hdrop : ∀ m, p = .dropMarker m → w'.tables site.markerTable = none ∨
      markerAt text site w'.tables = some m) : CallInv text site w' a p := by
  cases p with
  | publish op candidate rows => exact h
  | createMarker m => exact hk.planned h
  | rereadCreated m => exact ⟨hk.planned h.1, hk.heldOrSpent h.1 h.2⟩
  | reconcile m initialDispatch admission =>
    cases initialDispatch with
    | false => trivial
    | true => exact ⟨hk.planned h.1, hk.heldOrSpent h.1 h.2⟩
  | dispatch m => exact ⟨hk.planned h.1, hdispatch m rfl⟩
  | dropCandidate m =>
    obtain ⟨hp, hs, hproved, hcandidate⟩ := h
    refine ⟨hk.planned hp, hk.spent hp hs, hk.proved _ hproved, ?_⟩
    rcases hk.candidate m hp hs with hsame | hnone
    · rw [hsame]
      exact hcandidate.imp_right fun ⟨huuid, he⟩ => ⟨huuid, hk.effected _ he⟩
    · exact .inl hnone
  | requireCandidateAbsent m raised =>
    exact ⟨hk.planned h.1, hk.spent h.1 h.2.1, hk.proved _ h.2.2⟩
  | requireMarker m =>
    obtain ⟨hp, hs, hproved, hnone⟩ := h
    exact ⟨hk.planned hp, hk.spent hp hs, hk.proved _ hproved, hk.absent hp hnone⟩
  | dropMarker m =>
    obtain ⟨hp, hs, hproved, hnone, -⟩ := h
    exact ⟨hk.planned hp, hk.spent hp hs, hk.proved _ hproved, hk.absent hp hnone, hdrop m rfl⟩
  | rereadAfterFailure | prepareAdmission | queryActive | prove | count | cleanup
  | requireMarkerAbsent | published | admitted | cleaned | failed => trivial

end Kept

/-- A call that holds the right to dispatch a marker knows it as planned. -/
theorem CallInv.planned_of_right {a : ℕ} {p : Progress} {m : PublicationMarker}
    (h : CallInv text site w a p) (hr : Right m p) : Planned site w m := by
  cases p with
  | rereadCreated n => obtain rfl := hr; exact h.1
  | reconcile n initialDispatch admission =>
    cases initialDispatch with
    | false => exact hr.elim
    | true => obtain rfl := hr; exact h.1
  | dispatch n => obtain rfl := hr; exact h.1
  | _ => exact hr.elim

/-- FRAME: a changed catalog under unchanged calls. -/
theorem PublicationInv.kept (hi : PublicationInv text site w) (hk : Kept text site w w')
    (hcalls : w'.calls = w.calls) (hissued : w'.issued = w.issued)
    (used : ∀ name table, w'.tables name = some table → table.uuid ∈ w'.used)
    (stagedUsed : ∀ name uuid, w'.staged name = some uuid → uuid ∈ w'.used)
    (unique : ∀ name name' table table', w'.tables name = some table →
      w'.tables name' = some table' → table.uuid = table'.uuid → name = name')
    (original : ∀ name table, name ≠ site.target → name ≠ site.markerTable →
      w'.tables name = some table → w'.staged name = some table.uuid ∨
        ∃ m, markerAt text site w'.tables = some m ∧ m.candidate = name ∧ m ∈ w'.effected ∧
          m.predecessorUuid = some table.uuid)
    (planned : ∀ m, markerAt text site w'.tables = some m → Planned site w' m)
    (hdispatch : ∀ a m, w.calls a = some (.dispatch m) →
      markerAt text site w'.tables = some m ∧ publicationState m w'.tables = .pending)
    (hdrop : ∀ a m, w.calls a = some (.dropMarker m) → w'.tables site.markerTable = none ∨
      markerAt text site w'.tables = some m) : PublicationInv text site w' where
  used := used
  stagedUsed := stagedUsed
  unique := unique
  original := original
  planned := planned
  calls a p hp := by
    rw [hcalls] at hp
    exact hk.callInv (hi.calls a p hp) (fun m hm => hdispatch a m (hm ▸ hp))
      (fun m hm => hdrop a m (hm ▸ hp))
  alone m hs a b p q hp hr hq hr' := by
    rw [hcalls] at hp hq
    have hplanned := (hi.calls a p hp).planned_of_right hr
    exact hi.alone m (fun h => hs (hk.spent hplanned h)) a b p q hp hr hq hr'
  unissued m hs a p hp hr := by
    rw [hcalls] at hp
    rw [hissued]
    have hplanned := (hi.calls a p hp).planned_of_right hr
    exact hi.unissued m (fun h => hs (hk.spent hplanned h)) a p hp hr
  issuedHeld m hm := by
    rw [hissued] at hm
    obtain ⟨hplanned, hheld⟩ := hi.issuedHeld m hm
    exact ⟨hk.planned hplanned, hk.heldOrSpent hplanned hheld⟩
  once := hissued ▸ hi.once

/-! ### Statements that take effect -/

theorem publicationState_congr {tables tables' : Tables} {m : PublicationMarker}
    (ht : tables'.uuid m.target = tables.uuid m.target)
    (hc : tables'.uuid m.candidate = tables.uuid m.candidate) :
    publicationState m tables' = publicationState m tables := by
  unfold publicationState
  rw [ht, hc]

theorem Planned.of_staged {m : PublicationMarker} (h : Planned site w m)
    (hs : w'.staged = w.staged) : Planned site w' m :=
  ⟨h.target, h.candidate, h.name, hs ▸ h.staged⟩

/-- Two planned markers of one candidate desire one table. -/
theorem Planned.desired {m m' : PublicationMarker} (h : Planned site w m) (h' : Planned site w m')
    (hc : m.candidate = m'.candidate) : m.desiredUuid = m'.desiredUuid :=
  Option.some.inj (h.staged.symm.trans (hc ▸ h'.staged))

theorem Planned.spent_congr {m m' : PublicationMarker} (h : Planned site w m)
    (h' : Planned site w m') (hc : m.candidate = m'.candidate) (hs : Spent w m) : Spent w m' := by
  unfold Spent
  rw [← hc, ← h.desired h' hc]
  exact hs

theorem not_spent_of_pending {m : PublicationMarker}
    (h : publicationState m w.tables = .pending) : ¬ Spent w m :=
  not_not.mpr (pending_iff.mp h).2

namespace PublicationInv

/-- A new table under a name that nothing was staged under. -/
theorem stage (hi : PublicationInv text site w) {name : Str} {table : PublicationTable}
    (ht : name ≠ site.target) (hm : name ≠ site.markerTable) (hstaged : w.staged name = none)
    (hfresh : table.uuid ∉ w.used) :
    PublicationInv text site { w with
      tables := w.tables.set name (some table)
      staged := fun n => if n = name then some table.uuid else w.staged n
      used := table.uuid :: w.used } := by
  have hother : ∀ m, Planned site w m → m.candidate ≠ name := by
    intro m hp hc
    have hsome := hp.staged
    rw [hc, hstaged] at hsome
    cases hsome
  have hmarker : markerAt text site (w.tables.set name (some table)) =
      markerAt text site w.tables := markerAt_congr (Tables.set_other _ _ hm.symm)
  have huuid : ∀ n, n ≠ name → (w.tables.set name (some table)).uuid n = w.tables.uuid n :=
    fun n hn => Tables.uuid_set_other _ _ hn
  have hk : Kept text site w { w with
      tables := w.tables.set name (some table)
      staged := fun n => if n = name then some table.uuid else w.staged n
      used := table.uuid :: w.used } := by
    refine ⟨fun n u hu => ?_, fun m hp _ => .inl (huuid _ (hother m hp)),
      fun m _ hh => .inl (hmarker.trans hh), fun _ h => h, fun _ h => h⟩
    have hn : n ≠ name := by rintro rfl; rw [hstaged] at hu; cases hu
    simpa [hn] using hu
  refine hi.kept hk rfl rfl ?_ ?_ ?_ ?_ ?_ ?_ ?_
  · exact Tables.used_set hi.used
  · intro n u hn
    dsimp only at hn
    split_ifs at hn with h
    · rw [← Option.some.inj hn]; exact List.mem_cons_self
    · exact List.mem_cons_of_mem _ (hi.stagedUsed n u hn)
  · exact Tables.unique_set hi.used hi.unique hfresh
  · intro n t hnt hnm hn
    by_cases h : n = name
    · have htable : table = t := by simpa [h] using hn
      exact .inl (by simp [h, htable])
    · have hold : w.tables n = some t := by simpa [Tables.set, h] using hn
      simpa [h, hmarker] using hi.original n t hnt hnm hold
  · intro m hh
    exact hk.planned (hi.planned m (hmarker ▸ hh))
  · intro a m hcall
    obtain ⟨hp, hh, hpending⟩ := hi.calls a _ hcall
    refine ⟨hmarker.trans hh, (publicationState_congr ?_ (huuid _ (hother m hp))).trans hpending⟩
    exact huuid _ (hp.target ▸ ht.symm)
  · intro a m hcall
    obtain ⟨-, -, -, -, hh⟩ := hi.calls a _ hcall
    rw [hmarker]
    exact hh.imp_left ((Tables.set_other _ _ hm.symm).trans)

/-- The marker is created: there was none, and no call is about to drop one. -/
theorem createMarker (hi : PublicationInv text site w) {m : PublicationMarker}
    {record : PublicationTable} (hnone : w.tables site.markerTable = none)
    (hparse : parseMarker text record = .ok m) (hp : Planned site w m)
    (hfresh : record.uuid ∉ w.used) (hquiet : ∀ a m', w.calls a ≠ some (.dropMarker m')) :
    PublicationInv text site { w with
      tables := w.tables.set site.markerTable (some record)
      used := record.uuid :: w.used } := by
  have hbefore : markerAt text site w.tables = none := markerAt_none hnone
  have hafter : markerAt text site (w.tables.set site.markerTable (some record)) = some m :=
    markerAt_eq_some (Tables.set_same _ _ _) hparse
  have huuid : ∀ n, n ≠ site.markerTable →
      (w.tables.set site.markerTable (some record)).uuid n = w.tables.uuid n :=
    fun n hn => Tables.uuid_set_other _ _ hn
  have hk : Kept text site w { w with
      tables := w.tables.set site.markerTable (some record)
      used := record.uuid :: w.used } := by
    refine ⟨fun _ _ h => h, fun m' hp' _ => .inl (huuid _ hp'.name), fun m' _ hh => ?_,
      fun _ h => h, fun _ h => h⟩
    rw [hbefore] at hh
    cases hh
  refine hi.kept hk rfl rfl ?_ ?_ ?_ ?_ ?_ ?_ ?_
  · exact Tables.used_set hi.used
  · exact fun n u hn => List.mem_cons_of_mem _ (hi.stagedUsed n u hn)
  · exact Tables.unique_set hi.used hi.unique hfresh
  · intro n t hnt hnm hn
    have hold : w.tables n = some t := by simpa [Tables.set, hnm] using hn
    refine .inl ((hi.original n t hnt hnm hold).resolve_right ?_)
    rintro ⟨m', hh, -⟩
    rw [hbefore] at hh
    cases hh
  · intro m' hh
    obtain rfl := Option.some.inj (hafter.symm.trans hh)
    exact hk.planned hp
  · intro a m' hcall
    obtain ⟨-, hh, -⟩ := hi.calls a _ hcall
    rw [hbefore] at hh
    cases hh
  · exact fun a m' hcall => absurd hcall (hquiet a m')

/-- The statement of the marker that stands, whose creator is the call that issued it. -/
theorem dispatch (hi : PublicationInv text site w) {m : PublicationMarker} (uuid : Str)
    (hp : Planned site w m) (hheld : markerAt text site w.tables = some m)
    (hpending : publicationState m w.tables = .pending)
    (halone : ∀ a p, w.calls a = some p → ¬ Right m p) :
    PublicationInv text site { w with
      tables := fun n => w.tables (Equiv.swap m.target m.candidate n)
      used := uuid :: w.used
      effected := m :: w.effected } := by
  obtain ⟨htarget, hcandidate⟩ := pending_iff.mp hpending
  have hmarkerTable : Equiv.swap m.target m.candidate site.markerTable = site.markerTable :=
    Equiv.swap_apply_of_ne_of_ne (hp.target ▸ site.distinct) hp.name.symm
  have hmarker : markerAt text site (fun n => w.tables (Equiv.swap m.target m.candidate n)) =
      markerAt text site w.tables := markerAt_congr (congrArg w.tables hmarkerTable)
  have hother : ∀ m', Planned site w m' → m'.candidate ≠ m.candidate →
      Tables.uuid (fun n => w.tables (Equiv.swap m.target m.candidate n)) m'.candidate =
        w.tables.uuid m'.candidate := by
    intro m' hp' hc
    exact congrArg (fun n => (w.tables n).map (·.uuid))
      (Equiv.swap_apply_of_ne_of_ne (hp.target ▸ hp'.candidate) hc)
  have hk : Kept text site w { w with
      tables := fun n => w.tables (Equiv.swap m.target m.candidate n)
      used := uuid :: w.used
      effected := m :: w.effected } := by
    refine ⟨fun _ _ h => h, fun m' hp' hs => .inl (hother m' hp' fun hc => ?_),
      fun m' _ hh => .inl (hmarker.trans hh), fun _ h => List.mem_cons_of_mem _ h, fun _ h => h⟩
    exact not_spent_of_pending hpending (hp'.spent_congr hp hc hs)
  refine hi.kept hk rfl rfl ?_ ?_ ?_ ?_ ?_ ?_ ?_
  · exact fun n t hn => List.mem_cons_of_mem _ (hi.used _ t hn)
  · exact fun n u hn => List.mem_cons_of_mem _ (hi.stagedUsed n u hn)
  · intro n n' t t' hn hn' heq
    exact (Equiv.swap m.target m.candidate).injective (hi.unique _ _ t t' hn hn' heq)
  · intro n t hnt hnm hn
    by_cases hc : n = m.candidate
    · -- The candidate's name holds the predecessor now.
      have ht : w.tables m.target = some t := by simpa [hc] using hn
      refine .inr ⟨m, hmarker.trans hheld, hc.symm, List.mem_cons_self, ?_⟩
      rw [← htarget, Tables.uuid, ht]
      rfl
    · have hn' : w.tables n = some t := by
        simpa [Equiv.swap_apply_of_ne_of_ne (hp.target ▸ hnt) hc] using hn
      refine (hi.original n t hnt hnm hn').imp_right ?_
      rintro ⟨m', hh, hname, he, huuid⟩
      exact ⟨m', hmarker.trans hh, hname, List.mem_cons_of_mem _ he, huuid⟩
  · intro m' hh
    exact hk.planned (hi.planned m' (hmarker ▸ hh))
  · intro a m' hcall
    obtain ⟨-, hh, -⟩ := hi.calls a _ hcall
    obtain rfl := Option.some.inj (hheld.symm.trans hh)
    exact absurd rfl (halone a _ hcall)
  · intro a m' hcall
    obtain ⟨-, -, -, -, hh⟩ := hi.calls a _ hcall
    rw [hmarker]
    exact hh.imp_left (congrArg w.tables hmarkerTable).trans

/-- A spent candidate is dropped. -/
theorem dropCandidate (hi : PublicationInv text site w) {m : PublicationMarker} (uuid : Str)
    (hp : Planned site w m) (hs : Spent w m) :
    PublicationInv text site { w with
      tables := w.tables.set m.candidate none
      used := uuid :: w.used } := by
  have hmarkerTable : w.tables.set m.candidate none site.markerTable = w.tables site.markerTable :=
    Tables.set_other _ _ hp.name.symm
  have hmarker : markerAt text site (w.tables.set m.candidate none) =
      markerAt text site w.tables := markerAt_congr hmarkerTable
  have hold : ∀ n t, w.tables.set m.candidate none n = some t → w.tables n = some t := by
    intro n t hn
    by_cases h : n = m.candidate
    · simp [h] at hn
    · rwa [Tables.set_other _ _ h] at hn
  have hk : Kept text site w { w with
      tables := w.tables.set m.candidate none
      used := uuid :: w.used } := by
    refine ⟨fun _ _ h => h, fun m' hp' _ => ?_, fun m' _ hh => .inl (hmarker.trans hh),
      fun _ h => h, fun _ h => h⟩
    by_cases h : m'.candidate = m.candidate
    · exact .inr (Tables.uuid_eq_none.mpr (by simp [h]))
    · exact .inl (Tables.uuid_set_other _ _ h)
  refine hi.kept hk rfl rfl ?_ ?_ ?_ ?_ ?_ ?_ ?_
  · exact fun n t hn => List.mem_cons_of_mem _ (hi.used n t (hold n t hn))
  · exact fun n u hn => List.mem_cons_of_mem _ (hi.stagedUsed n u hn)
  · exact fun n n' t t' hn hn' => hi.unique n n' t t' (hold n t hn) (hold n' t' hn')
  · intro n t hnt hnm hn
    simpa [hmarker] using hi.original n t hnt hnm (hold n t hn)
  · intro m' hh
    exact hk.planned (hi.planned m' (hmarker ▸ hh))
  · intro a m' hcall
    obtain ⟨hp', hh, hpending⟩ := hi.calls a _ hcall
    have hc : m'.candidate ≠ m.candidate := fun hc =>
      not_spent_of_pending hpending (hp.spent_congr hp' hc.symm hs)
    refine ⟨hmarker.trans hh, (publicationState_congr ?_ ?_).trans hpending⟩
    · exact Tables.uuid_set_other _ _ (hp'.target ▸ hp.candidate.symm)
    · exact Tables.uuid_set_other _ _ hc
  · intro a m' hcall
    obtain ⟨-, -, -, -, hh⟩ := hi.calls a _ hcall
    rw [hmarker]
    exact hh.imp_left hmarkerTable.trans

/-- The marker of a spent candidate that is gone is dropped. -/
theorem dropMarker (hi : PublicationInv text site w) {m : PublicationMarker} (uuid : Str)
    (hs : Spent w m) (hgone : w.tables m.candidate = none)
    (hheld : markerAt text site w.tables = some m) :
    PublicationInv text site { w with
      tables := w.tables.set site.markerTable none
      used := uuid :: w.used } := by
  have hafter : w.tables.set site.markerTable none site.markerTable = none := Tables.set_same _ _ _
  have hold : ∀ n t, w.tables.set site.markerTable none n = some t → w.tables n = some t := by
    intro n t hn
    by_cases h : n = site.markerTable
    · simp [h] at hn
    · rwa [Tables.set_other _ _ h] at hn
  have hk : Kept text site w { w with
      tables := w.tables.set site.markerTable none
      used := uuid :: w.used } := by
    refine ⟨fun _ _ h => h, fun m' hp' _ => .inl (Tables.uuid_set_other _ _ hp'.name),
      fun m' hp' hh => .inr ?_, fun _ h => h, fun _ h => h⟩
    obtain rfl := Option.some.inj (hheld.symm.trans hh)
    unfold Spent
    rw [Tables.uuid_set_other _ _ hp'.name]
    exact hs
  refine hi.kept hk rfl rfl ?_ ?_ ?_ ?_ ?_ ?_ ?_
  · exact fun n t hn => List.mem_cons_of_mem _ (hi.used n t (hold n t hn))
  · exact fun n u hn => List.mem_cons_of_mem _ (hi.stagedUsed n u hn)
  · exact fun n n' t t' hn hn' => hi.unique n n' t t' (hold n t hn) (hold n' t' hn')
  · intro n t hnt hnm hn
    refine .inl ((hi.original n t hnt hnm (hold n t hn)).resolve_right ?_)
    rintro ⟨m', hh, hname, -⟩
    obtain rfl := Option.some.inj (hheld.symm.trans hh)
    rw [hname, hold n t hn] at hgone
    cases hgone
  · intro m' hh
    rw [markerAt_none hafter] at hh
    cases hh
  · intro a m' hcall
    obtain ⟨-, hh, hpending⟩ := hi.calls a _ hcall
    obtain rfl := Option.some.inj (hheld.symm.trans hh)
    exact absurd hs (not_spent_of_pending hpending)
  · exact fun _ _ _ => .inl hafter

/-! ### The call itself -/

/-- A call goes on: what it knows is true, and a right it holds is its own. -/
theorem setCall (hi : PublicationInv text site w) {a : ℕ} {p : Progress}
    (hp : CallInv text site w a p)
    (hright : ∀ m, Right m p → ¬ Spent w m →
      (∀ b q, b ≠ a → w.calls b = some q → ¬ Right m q) ∧ m ∉ w.issued) :
    PublicationInv text site (w.setCall a p) where
  used := hi.used
  stagedUsed := hi.stagedUsed
  unique := hi.unique
  original := hi.original
  planned m hm := (hi.planned m hm).of_staged rfl
  calls b q hq := by
    have hk : Kept text site w (w.setCall a p) :=
      .of_same rfl rfl (fun _ h => h) fun _ h => h
    have hinv : ∀ b q, CallInv text site w b q → CallInv text site (w.setCall a p) b q :=
      fun b q h => hk.callInv h (fun _ hm => by subst hm; exact h.2)
        (fun _ hm => by subst hm; exact h.2.2.2.2)
    by_cases hb : b = a
    · subst hb
      obtain rfl : p = q := by simpa [PublicationWorld.setCall] using hq
      exact hinv b p hp
    · exact hinv b q (hi.calls b q (by simpa [PublicationWorld.setCall, hb] using hq))
  alone m hs b c q q' hq hr hq' hr' := by
    by_cases hb : b = a <;> by_cases hc : c = a
    · rw [hb, hc]
    · subst hb
      obtain rfl : p = q := by simpa [PublicationWorld.setCall] using hq
      exact absurd hr' ((hright m hr hs).1 c q' hc (by simpa [PublicationWorld.setCall, hc] using hq'))
    · subst hc
      obtain rfl : p = q' := by simpa [PublicationWorld.setCall] using hq'
      exact absurd hr ((hright m hr' hs).1 b q hb (by simpa [PublicationWorld.setCall, hb] using hq))
    · exact hi.alone m hs b c q q' (by simpa [PublicationWorld.setCall, hb] using hq) hr
        (by simpa [PublicationWorld.setCall, hc] using hq') hr'
  unissued m hs b q hq hr := by
    by_cases hb : b = a
    · subst hb
      obtain rfl : p = q := by simpa [PublicationWorld.setCall] using hq
      exact (hright m hr hs).2
    · exact hi.unissued m hs b q (by simpa [PublicationWorld.setCall, hb] using hq) hr
  issuedHeld m hm := by
    obtain ⟨hplanned, hheld⟩ := hi.issuedHeld m hm
    exact ⟨hplanned.of_staged rfl, hheld⟩
  once := hi.once

/-- A right passes from where a call stood to where it goes on. -/
theorem setCall_right (hi : PublicationInv text site w) {a : ℕ} {p p' : Progress}
    (hcall : w.calls a = some p) (hp : CallInv text site w a p')
    (hright : ∀ m, Right m p' → Right m p) : PublicationInv text site (w.setCall a p') :=
  hi.setCall hp fun m hr hs =>
    ⟨fun b q hb hq hr' => hb (hi.alone m hs b a q p hq hr' hcall (hright m hr)),
      hi.unissued m hs a p hcall (hright m hr)⟩

/-- A call is set aside while its statement takes effect. -/
theorem aside (hi : PublicationInv text site w) (a : ℕ) :
    PublicationInv text site (w.setCall a .cleaned) :=
  hi.setCall trivial fun _ hr => hr.elim

theorem noteProved (hi : PublicationInv text site w) (x : ℕ × PublicationMarker) :
    PublicationInv text site { w with proved := x :: w.proved } :=
  hi.kept (.of_same rfl rfl (fun _ h => h) fun _ h => List.mem_cons_of_mem _ h) rfl rfl hi.used
    hi.stagedUsed hi.unique hi.original
    (fun m hm => (hi.planned m hm).of_staged rfl)
    (fun a _ hcall => (hi.calls a _ hcall).2) fun a _ hcall => (hi.calls a _ hcall).2.2.2.2

/-- A statement is issued, for a marker that stands and that no call may dispatch any more. -/
theorem issue (hi : PublicationInv text site w) {m : PublicationMarker} (hp : Planned site w m)
    (hheld : markerAt text site w.tables = some m) (hnew : m ∉ w.issued)
    (halone : ∀ a p, w.calls a = some p → ¬ Right m p) :
    PublicationInv text site { w with issued := m :: w.issued } where
  used := hi.used
  stagedUsed := hi.stagedUsed
  unique := hi.unique
  original := hi.original
  planned m' hm' := (hi.planned m' hm').of_staged rfl
  calls a p hcall := by
    have h := hi.calls a p hcall
    have hk : Kept text site w { w with issued := m :: w.issued } :=
      .of_same rfl rfl (fun _ h => h) fun _ h => h
    exact hk.callInv h (fun _ hm => by subst hm; exact h.2)
      fun _ hm => by subst hm; exact h.2.2.2.2
  alone := hi.alone
  unissued m' hs a p hcall hr := by
    refine fun hm' => (List.mem_cons.mp hm').elim (fun heq => ?_) (hi.unissued m' hs a p hcall hr)
    exact halone a p hcall (heq ▸ hr)
  issuedHeld m' hm' := by
    rcases List.mem_cons.mp hm' with rfl | hold
    · exact ⟨hp.of_staged rfl, .inr hheld⟩
    · obtain ⟨hplanned, hheld'⟩ := hi.issuedHeld m' hold
      exact ⟨hplanned.of_staged rfl, hheld'⟩
  once := List.nodup_cons.mpr ⟨hnew, hi.once⟩

end PublicationInv

end Dpone.ClickHouse
