import Dpone.ClickHouse.PublicationSteps

/-! Every order of catalog calls.

    A read tells its call something that the invariant lets it keep; a statement changes the catalog
    as its call knows it to be. Over a run in which no marker is created between the marker check
    and the marker `DROP` of a cleanup, one dispatch per marker, exact mappings, a target that stays
    and drops of proved predecessors and markers only are read off the invariant. -/

namespace Dpone.ClickHouse
open Dpone.Schemes

variable {text : MarkerText} {site : PublicationTarget} {w w' : PublicationWorld}

/-! ### Reads -/

namespace PublicationInv

theorem spent_of_target (hi : PublicationInv text site w) {m : PublicationMarker}
    (hp : Planned site w m) (ht : w.tables.uuid m.target = some m.desiredUuid) : Spent w m := by
  intro hc
  obtain ⟨t, ht, htu⟩ := Option.map_eq_some_iff.mp ht
  obtain ⟨c, hc, hcu⟩ := Option.map_eq_some_iff.mp hc
  exact hp.candidate (hp.target ▸ (hi.unique _ _ t c ht hc (htu.trans hcu.symm)).symm)

/-- The predecessor stands under a candidate's name only after the marker's own exchange. -/
theorem effected_of_predecessor (hi : PublicationInv text site w) {m : PublicationMarker}
    (hheld : markerAt text site w.tables = some m) (hs : Spent w m)
    (hc : w.tables.uuid m.candidate = m.predecessorUuid) (hne : m.predecessorUuid ≠ none) :
    m ∈ w.effected := by
  have hp := hi.planned m hheld
  obtain ⟨predecessor, hpred⟩ := Option.ne_none_iff_exists'.mp hne
  obtain ⟨t, ht, htu⟩ := Option.map_eq_some_iff.mp (hc.trans hpred)
  rcases hi.original m.candidate t hp.candidate hp.name ht with hstaged | ⟨m', hh, -, he, -⟩
  · have heq : t.uuid = m.desiredUuid := Option.some.inj (hstaged.symm.trans hp.staged)
    exact absurd (by rw [Tables.uuid, ht, Option.map_some, heq]) hs
  · obtain rfl := Option.some.inj (hheld.symm.trans hh)
    exact he

/-- STEP, a read. -/
theorem read (hi : PublicationInv text site w) {a : ℕ} {p p' : Progress}
    (hcall : w.calls a = some p) (hr : p.afterRead text site w.tables = some (.ok p')) :
    PublicationInv text site ((w.noteProved a p (.ok p')).setCall a p') := by
  have hp := hi.calls a p hcall
  cases p with
  | publish op candidate rows =>
    refine hi.setCall_right hcall ?_ ?_ <;>
      rcases planPublication_ok (Option.some.inj hr) with
        ⟨m, rfl, hnone, htarget, rfl, huuid⟩ | ⟨m, rfl⟩
    · obtain ⟨t, ht, htu⟩ := Option.map_eq_some_iff.mp huuid
      refine ⟨htarget, hp.1, hp.2, ?_⟩
      rcases hi.original _ t hp.1 hp.2 ht with hstaged | ⟨m', hh, -⟩
      · rw [hstaged, htu]
      · rw [markerAt_none hnone] at hh; cases hh
    · trivial
    · exact fun _ h => h.elim
    · exact fun _ h => h.elim
  | rereadAfterFailure m failure =>
    obtain ⟨record, -, hpersisted⟩ : ∃ record, w.tables site.markerTable = some record ∧
        requirePersisted text record m false = .ok p' := by
      have hr' := Option.some.inj hr
      cases hrecord : w.tables site.markerTable with
      | none => rw [hrecord] at hr'; cases hr'
      | some record => rw [hrecord] at hr'; exact ⟨record, rfl, hr'⟩
    obtain ⟨-, rfl⟩ := requirePersisted_ok hpersisted
    exact hi.setCall_right hcall trivial fun _ h => h.elim
  | rereadCreated m =>
    obtain ⟨record, -, hpersisted⟩ := bind_ok.mp (Option.some.inj hr)
    obtain ⟨-, rfl⟩ := requirePersisted_ok hpersisted
    exact hi.setCall_right hcall hp fun _ h => h
  | prepareAdmission op =>
    have hr' := Option.some.inj hr
    cases hrecord : w.tables site.markerTable with
    | none =>
      rw [hrecord] at hr'
      obtain rfl := Except.ok.inj hr'
      exact hi.setCall_right hcall trivial fun _ h => h.elim
    | some record =>
      rw [hrecord] at hr'
      obtain ⟨m, -, hm⟩ := bind_ok.mp hr'
      obtain rfl := Except.ok.inj hm
      exact hi.setCall_right hcall trivial fun _ h => h.elim
  | reconcile m initialDispatch admission =>
    rcases reconcileOrPublish_ok (Option.some.inj hr) with rfl | rfl | rfl |
      ⟨rfl, rfl, hheld, hpending⟩
    · exact hi.setCall_right hcall trivial fun _ h => h.elim
    · exact hi.setCall_right hcall trivial fun _ h => h.elim
    · exact hi.setCall_right hcall trivial fun _ h => h.elim
    · exact hi.setCall_right hcall ⟨hp.1, hheld, hpending⟩ fun _ h => h
  | prove m raised =>
    obtain ⟨_, -, h⟩ := bind_ok.mp (Option.some.inj hr)
    split_ifs at h
    obtain rfl := Except.ok.inj h
    exact hi.setCall_right hcall trivial fun _ h => h.elim
  | count m =>
    obtain rfl := Except.ok.inj (Option.some.inj hr)
    exact hi.setCall_right hcall trivial fun _ h => h.elim
  | cleanup m =>
    obtain ⟨hheld, htarget, hnext⟩ := planCleanup_ok (Option.some.inj hr)
    have hplanned := hi.planned m hheld
    have hs := hi.spent_of_target hplanned htarget
    refine (hi.noteProved (a, m)).setCall_right hcall ?_ ?_ <;>
      rcases hnext with ⟨rfl, hnone⟩ | ⟨rfl, hc, hne⟩
    · exact ⟨hplanned.of_staged rfl, hs, List.mem_cons_self, Tables.uuid_eq_none.mp hnone⟩
    · exact ⟨hplanned.of_staged rfl, hs, List.mem_cons_self,
        .inr ⟨hc, hi.effected_of_predecessor hheld hs hc hne⟩⟩
    · exact fun _ h => h.elim
    · exact fun _ h => h.elim
  | requireCandidateAbsent m raised =>
    obtain ⟨hnone, rfl⟩ := requireAbsent_ok (Option.some.inj hr)
    exact hi.setCall_right hcall ⟨hp.1, hp.2.1, hp.2.2, hnone⟩ fun _ h => h.elim
  | requireMarker m =>
    obtain ⟨_, hexact, h⟩ := bind_ok.mp (Option.some.inj hr)
    obtain rfl := Except.ok.inj h
    exact hi.setCall_right hcall
      ⟨hp.1, hp.2.1, hp.2.2.1, hp.2.2.2, .inr (requireExactMarker_ok hexact)⟩ fun _ h => h.elim
  | requireMarkerAbsent m raised =>
    obtain ⟨-, rfl⟩ := requireAbsent_ok (Option.some.inj hr)
    exact hi.setCall_right hcall trivial fun _ h => h.elim
  | createMarker | queryActive | dispatch | dropCandidate | dropMarker | published | admitted
  | cleaned | failed => cases hr

/-! ### Statements -/

theorem halone (hi : PublicationInv text site w) {a : ℕ} {p : Progress} {m : PublicationMarker}
    (hcall : w.calls a = some p) (hr : Right m p) (hs : ¬ Spent w m) :
    ∀ b q, (w.setCall a .cleaned).calls b = some q → ¬ Right m q := by
  intro b q hq hr'
  by_cases hb : b = a
  · obtain rfl : Progress.cleaned = q := by simpa [PublicationWorld.setCall, hb] using hq
    exact hr'
  · have hq' : w.calls b = some q := by simpa [PublicationWorld.setCall, hb] using hq
    exact hb (hi.alone m hs b a q p hq' hr' hcall hr)

/-- Without a marker, whoever held a right or issued a statement has a spent candidate. -/
theorem spent_of_none (hi : PublicationInv text site w) {m : PublicationMarker}
    (hnone : w.tables site.markerTable = none) :
    (∀ b q, w.calls b = some q → Right m q → Spent w m) ∧ (m ∈ w.issued → Spent w m) := by
  have hmarker : markerAt text site w.tables = none := markerAt_none hnone
  refine ⟨fun b q hq hr => ?_, fun hm => ?_⟩
  · have h := hi.calls b q hq
    cases q with
    | rereadCreated n =>
      obtain rfl := hr
      exact h.2.resolve_right (by rw [hmarker]; nofun)
    | reconcile n initialDispatch admission =>
      cases initialDispatch with
      | false => exact hr.elim
      | true => obtain rfl := hr; exact h.2.resolve_right (by rw [hmarker]; nofun)
    | dispatch n =>
      have hheld := h.2.1
      rw [hmarker] at hheld
      cases hheld
    | _ => exact hr.elim
  · exact (hi.issuedHeld m hm).2.resolve_right (by rw [hmarker]; nofun)

end PublicationInv

/-- `EXCHANGE` and `RENAME` both swap the two names. -/
theorem exec_dispatch {m : PublicationMarker} {tables tables' : Tables} {uuid : Str}
    (hne : m.target ≠ m.candidate)
    (h : ((Progress.dispatch m).ddl text site).bind (Ddl.exec tables uuid) = some tables') :
    tables' = fun n => tables (Equiv.swap m.target m.candidate n) := by
  have hswap : ∀ n, Equiv.swap m.target m.candidate n =
      if n = m.target then m.candidate else if n = m.candidate then m.target else n :=
    fun n => Equiv.swap_apply_def _ _ n
  simp only [Progress.ddl] at h
  cases hp : m.predecessorUuid with
  | none =>
    rw [hp] at h
    cases hc : tables m.candidate with
    | none => simp [Ddl.exec, hc] at h
    | some c =>
      cases ht : tables m.target with
      | some t => simp [Ddl.exec, hc, ht] at h
      | none =>
        obtain rfl : (tables.set m.candidate none).set m.target (some c) = tables' := by
          simpa [Ddl.exec, hc, ht] using h
        funext n
        rw [hswap]
        unfold Tables.set
        split_ifs with h1 h2
        · exact hc.symm
        · exact ht.symm
        · rfl
  | some predecessor =>
    rw [hp] at h
    cases ht : tables m.target with
    | none => simp [Ddl.exec, ht] at h
    | some t =>
      cases hc : tables m.candidate with
      | none => simp [Ddl.exec, ht, hc] at h
      | some c =>
        obtain rfl : (tables.set m.target (some c)).set m.candidate (some t) = tables' := by
          simpa [Ddl.exec, hc, ht] using h
        funext n
        rw [hswap]
        unfold Tables.set
        split_ifs with h1 h2 h3
        · exact absurd (h2.symm.trans h1) hne
        · exact ht.symm
        · exact hc.symm
        · rfl

theorem exec_drop {tables tables' : Tables} (uuid : Str) {name : Str}
    (h : (Ddl.drop name).exec tables uuid = some tables') : tables' = tables.set name none := by
  cases ht : tables name with
  | none => simp [Ddl.exec, ht] at h
  | some t => simpa [Ddl.exec, ht] using h.symm

theorem execute_some {effect raised : Bool} {uuid : Str} {ddl : Option Ddl}
    (h : w.execute effect raised uuid ddl = some w') :
    effect = false ∧ w = w' ∨
      effect = true ∧ ∃ tables, ddl.bind (Ddl.exec w.tables uuid) = some tables ∧
        uuid ∉ w.used ∧ w' = { w with tables, used := uuid :: w.used } := by
  unfold PublicationWorld.execute at h
  cases effect with
  | false =>
    rw [if_neg (by simp)] at h
    split_ifs at h
    exact .inl ⟨rfl, Option.some.inj h⟩
  | true =>
    rw [if_pos rfl] at h
    cases hexec : ddl.bind (Ddl.exec w.tables uuid) with
    | none => rw [hexec] at h; cases h
    | some tables =>
      rw [hexec] at h
      dsimp only at h
      split_ifs at h with hused
      exact .inr ⟨rfl, tables, rfl, hused, (Option.some.inj h).symm⟩

namespace PublicationInv
variable {a : ℕ} {m : PublicationMarker} {p' : Progress} {effect raised : Bool} {uuid : Str}
  {w₁ : PublicationWorld}

/-- Setting a call aside first does not show in the end. -/
theorem of_aside {v : PublicationWorld} {p q : Progress}
    (h : PublicationInv text site (v.setCall a p)) (hcalls : v.calls = (w.setCall a q).calls) :
    PublicationInv text site ({ v with calls := w.calls }.setCall a p) := by
  have hsame : v.setCall a p = { v with calls := w.calls }.setCall a p := by
    unfold PublicationWorld.setCall
    congr 1
    funext b
    by_cases hb : b = a
    · simp [hb]
    · simp [hb, hcalls, PublicationWorld.setCall]
  exact hsame ▸ h

theorem ddl_createMarker (hi : PublicationInv text site w)
    (hcall : w.calls a = some (.createMarker m))
    (hnext : (Progress.createMarker m).afterDdl text raised = some p')
    (hexec : w.execute effect raised uuid ((Progress.createMarker m).ddl text site) = some w₁)
    (hquiet : effect = true → ∀ b m', w.calls b ≠ some (.dropMarker m')) :
    PublicationInv text site (w₁.setCall a p') := by
  have hp : Planned site w m := hi.calls a _ hcall
  rcases execute_some hexec with ⟨rfl, rfl⟩ | ⟨rfl, tables, htables, hfresh, rfl⟩
  · -- Without effect the call has raised and holds no right.
    have hraised : raised = true := by
      cases raised
      · simp [PublicationWorld.execute] at hexec
      · rfl
    subst hraised
    have hp' : CallInv text site w a p' ∧ ∀ m', ¬ Right m' p' := by
      simp only [Progress.afterDdl] at hnext
      cases hjson : m.toJson text with
      | error e => rw [hjson] at hnext; obtain rfl := Option.some.inj hnext; exact ⟨trivial, nofun⟩
      | ok c => rw [hjson] at hnext; obtain rfl := Option.some.inj hnext; exact ⟨trivial, nofun⟩
    exact hi.setCall hp'.1 fun m' hr => absurd hr (hp'.2 m')
  · simp only [Progress.ddl] at htables
    cases hjson : m.toJson text with
    | error e => rw [hjson] at htables; cases htables
    | ok comment =>
      rw [hjson] at htables
      cases hmarker : w.tables site.markerTable with
      | some t => simp [Ddl.exec, hmarker] at htables
      | none =>
        obtain rfl : w.tables.set site.markerTable
            (some ⟨uuid, "TinyLog".toList, comment⟩) = tables := by
          simpa [Ddl.exec, hmarker] using htables
        have hparse := parseMarker_toJson hjson uuid
        have hi' := hi.createMarker hmarker hparse hp hfresh (hquiet rfl)
        obtain ⟨hrights, hissued⟩ := hi.spent_of_none (m := m) hmarker
        have hheld : markerAt text site (w.tables.set site.markerTable
            (some ⟨uuid, "TinyLog".toList, comment⟩)) = some m :=
          markerAt_eq_some (Tables.set_same _ _ _) hparse
        simp only [Progress.afterDdl, hjson, Option.some.injEq] at hnext
        cases raised
        · obtain rfl : Progress.rereadCreated m = p' := by simpa using hnext
          refine hi'.setCall ⟨hp.of_staged rfl, .inr hheld⟩ fun m' hr hs => ?_
          obtain rfl : m = m' := hr
          have hs' : ¬ Spent w m := by
            unfold Spent at hs ⊢
            rwa [Tables.uuid_set_other _ _ hp.name] at hs
          exact ⟨fun b q _ hq hr' => hs' (hrights b q hq hr'), fun hm => hs' (hissued hm)⟩
        · obtain rfl : Progress.rereadAfterFailure m .catalog = p' := by simpa using hnext
          exact hi'.setCall trivial fun _ hr => hr.elim

theorem ddl_dispatch (hi : PublicationInv text site w) (hcall : w.calls a = some (.dispatch m))
    (hexec : w.execute effect raised uuid ((Progress.dispatch m).ddl text site) = some w₁) :
    PublicationInv text site
      ((w₁.noteIssued effect (.dispatch m)).setCall a (.prove m raised)) := by
  obtain ⟨hp, hheld, hpending⟩ := hi.calls a _ hcall
  have hs := not_spent_of_pending hpending
  have halone := hi.halone hcall rfl hs
  have hissued := (hi.aside a).issue (hp.of_staged rfl) hheld
    (hi.unissued m hs a _ hcall rfl) halone
  rcases execute_some hexec with ⟨rfl, rfl⟩ | ⟨rfl, tables, htables, hfresh, rfl⟩
  · have hset := hissued.setCall (a := a) (p := .prove m raised) trivial fun _ hr => hr.elim
    exact hset.of_aside (w := w) (q := .cleaned) rfl
  · obtain rfl := exec_dispatch (hp.target ▸ hp.candidate.symm) htables
    have hset := (hissued.dispatch uuid (hp.of_staged rfl) hheld hpending halone).setCall
      (a := a) (p := .prove m raised) trivial fun _ hr => hr.elim
    exact hset.of_aside (w := w) (q := .cleaned) rfl

theorem ddl_dropCandidate (hi : PublicationInv text site w)
    (hcall : w.calls a = some (.dropCandidate m))
    (hexec : w.execute effect raised uuid ((Progress.dropCandidate m).ddl text site) = some w₁) :
    PublicationInv text site (w₁.setCall a (.requireCandidateAbsent m raised)) := by
  obtain ⟨hp, hs, hproved, -⟩ := hi.calls a _ hcall
  rcases execute_some hexec with ⟨rfl, rfl⟩ | ⟨rfl, tables, htables, hfresh, rfl⟩
  · exact hi.setCall_right hcall ⟨hp, hs, hproved⟩ fun _ hr => hr.elim
  · obtain rfl := exec_drop uuid htables
    have hi' := hi.dropCandidate uuid hp hs
    refine hi'.setCall_right hcall ⟨hp.of_staged rfl, ?_, hproved⟩ fun _ hr => hr.elim
    unfold Spent
    rw [Tables.uuid_eq_none.mpr (Tables.set_same _ _ _)]
    nofun

theorem ddl_dropMarker (hi : PublicationInv text site w) (hcall : w.calls a = some (.dropMarker m))
    (hexec : w.execute effect raised uuid ((Progress.dropMarker m).ddl text site) = some w₁) :
    PublicationInv text site (w₁.setCall a (.requireMarkerAbsent m raised)) := by
  obtain ⟨-, hs, -, hgone, hmarker⟩ := hi.calls a _ hcall
  rcases execute_some hexec with ⟨rfl, rfl⟩ | ⟨rfl, tables, htables, hfresh, rfl⟩
  · exact hi.setCall trivial fun _ hr => hr.elim
  · have hheld : markerAt text site w.tables = some m := by
      refine hmarker.resolve_left fun hnone => ?_
      have hrefused : (Ddl.drop site.markerTable).exec w.tables uuid = some tables := htables
      simp [Ddl.exec, hnone] at hrefused
    obtain rfl := exec_drop uuid htables
    exact (hi.dropMarker uuid hs hgone hheld).setCall trivial fun _ hr => hr.elim

end PublicationInv

/-! ### Steps -/

/-- No marker is created while a cleanup stands between its marker check and its `DROP`. -/
def QuietCreation (w : PublicationWorld) : PublicationLabel → Prop
  | .ddl a true _ _ => (∃ m, w.calls a = some (.createMarker m)) →
      ∀ b m, w.calls b ≠ some (.dropMarker m)
  | _ => True

namespace PublicationInv
variable {l : PublicationLabel}

/-- STEP. -/
theorem step (hi : PublicationInv text site w) (hs : PublicationStep text site w l w')
    (hquiet : QuietCreation w l) : PublicationInv text site w' := by
  unfold PublicationStep at hs
  cases l with
  | stage name table =>
    simp only [PublicationWorld.next] at hs
    split_ifs at hs with hguard
    obtain rfl := Option.some.inj hs
    simp only [not_or, not_not] at hguard
    obtain ⟨ht, hm, hstaged, -, hfresh⟩ := hguard
    exact hi.stage ht hm hstaged hfresh
  | start a call =>
    simp only [PublicationWorld.next] at hs
    split_ifs at hs with hguard
    obtain rfl := Option.some.inj hs
    cases call with
    | publish op candidate rows =>
      have hnames : candidate ≠ site.target ∧ candidate ≠ site.markerTable :=
        of_decide_eq_true hguard.2
      exact hi.setCall hnames fun _ hr => hr.elim
    | prepareAdmission op => exact hi.setCall trivial fun _ hr => hr.elim
    | cleanup m => exact hi.setCall trivial fun _ hr => hr.elim
  | read a =>
    simp only [PublicationWorld.next, Option.bind_eq_bind, Option.bind_eq_some_iff] at hs
    obtain ⟨p, hcall, result, hr, hs⟩ := hs
    obtain rfl := Option.some.inj hs
    cases result with
    | ok p' => exact hi.read hcall hr
    | error failure =>
      have hsame : w.noteProved a p (.error failure) = w := by cases p <;> rfl
      rw [hsame]
      exact hi.setCall trivial fun _ hr => hr.elim
  | query a reply =>
    simp only [PublicationWorld.next] at hs
    split at hs
    · obtain rfl := Option.some.inj hs
      exact hi.setCall trivial fun _ hr => hr.elim
    · cases hs
  | ddl a effect raised uuid =>
    simp only [PublicationWorld.next, Option.bind_eq_bind, Option.bind_eq_some_iff] at hs
    obtain ⟨p, hcall, p', hnext, w₁, hexec, hs⟩ := hs
    obtain rfl := Option.some.inj hs
    cases p with
    | createMarker m =>
      refine hi.ddl_createMarker hcall hnext hexec fun heffect => ?_
      subst heffect
      exact hquiet ⟨m, hcall⟩
    | dispatch m => obtain rfl := Option.some.inj hnext; exact hi.ddl_dispatch hcall hexec
    | dropCandidate m => obtain rfl := Option.some.inj hnext; exact hi.ddl_dropCandidate hcall hexec
    | dropMarker m => obtain rfl := Option.some.inj hnext; exact hi.ddl_dropMarker hcall hexec
    | _ => cases hnext
  | crash a =>
    simp only [PublicationWorld.next] at hs
    split at hs
    · obtain rfl := Option.some.inj hs
      exact hi.setCall trivial fun _ hr => hr.elim
    · cases hs

theorem start (h : PublicationStart site w) : PublicationInv text site w where
  used := h.used
  stagedUsed name uuid hstaged := by
    rw [h.staged] at hstaged
    split_ifs at hstaged
    obtain ⟨t, ht, rfl⟩ := Option.map_eq_some_iff.mp hstaged
    exact h.used name t ht
  unique := h.unique
  original name t hnt hnm hn := .inl (by rw [h.staged, if_neg hnt, Tables.uuid, hn]; rfl)
  planned m hm := by rw [markerAt_none h.marker] at hm; cases hm
  calls a p hp := by rw [h.calls] at hp; cases hp
  alone m _ a b p q hp := by rw [h.calls] at hp; cases hp
  unissued m _ a p hp := by rw [h.calls] at hp; cases hp
  issuedHeld m hm := by rw [h.issued] at hm; cases hm
  once := h.issued ▸ List.nodup_nil

end PublicationInv

/-! ### What a step does to the tables -/

/-- The ways a catalog moves, each tied to the call that moved it. -/
inductive TablesMoved (text : MarkerText) (site : PublicationTarget) (w : PublicationWorld) :
    PublicationLabel → Tables → Prop
  | same (l : PublicationLabel) : TablesMoved text site w l w.tables
  | staged (name : Str) (table : PublicationTable) (absent : w.tables name = none) :
      TablesMoved text site w (.stage name table) (w.tables.set name (some table))
  | created (a : ℕ) (raised : Bool) (uuid : Str) (record : PublicationTable)
      (absent : w.tables site.markerTable = none) :
      TablesMoved text site w (.ddl a true raised uuid)
        (w.tables.set site.markerTable (some record))
  | swapped (a : ℕ) (raised : Bool) (uuid : Str) (m : PublicationMarker)
      (planned : Planned site w m) (desired : w.tables m.candidate ≠ none) :
      TablesMoved text site w (.ddl a true raised uuid)
        (fun n => w.tables (Equiv.swap m.target m.candidate n))
  | candidateDropped (a : ℕ) (raised : Bool) (uuid : Str) (m : PublicationMarker)
      (call : w.calls a = some (.dropCandidate m)) (planned : Planned site w m)
      (predecessor : w.tables.uuid m.candidate = none ∨
        w.tables.uuid m.candidate = m.predecessorUuid ∧ m ∈ w.effected) :
      TablesMoved text site w (.ddl a true raised uuid) (w.tables.set m.candidate none)
  | markerDropped (a : ℕ) (raised : Bool) (uuid : Str) (m : PublicationMarker)
      (call : w.calls a = some (.dropMarker m)) (proved : (a, m) ∈ w.proved)
      (held : w.tables site.markerTable = none ∨ markerAt text site w.tables = some m) :
      TablesMoved text site w (.ddl a true raised uuid) (w.tables.set site.markerTable none)

theorem PublicationInv.tablesMoved (hi : PublicationInv text site w) {l : PublicationLabel}
    (hs : PublicationStep text site w l w') : TablesMoved text site w l w'.tables := by
  unfold PublicationStep at hs
  cases l with
  | stage name table =>
    simp only [PublicationWorld.next] at hs
    split_ifs at hs with hguard
    obtain rfl := Option.some.inj hs
    simp only [not_or, not_not] at hguard
    exact .staged name table hguard.2.2.2.1
  | start a call =>
    simp only [PublicationWorld.next] at hs
    split_ifs at hs with hguard
    obtain rfl := Option.some.inj hs
    exact .same _
  | read a =>
    simp only [PublicationWorld.next, Option.bind_eq_bind, Option.bind_eq_some_iff] at hs
    obtain ⟨p, hcall, result, hr, hs⟩ := hs
    obtain rfl := Option.some.inj hs
    have hsame : (w.noteProved a p result).tables = w.tables := by cases p <;> cases result <;> rfl
    exact hsame ▸ .same _
  | query a reply =>
    simp only [PublicationWorld.next] at hs
    split at hs
    · obtain rfl := Option.some.inj hs
      exact .same _
    · cases hs
  | ddl a effect raised uuid =>
    simp only [PublicationWorld.next, Option.bind_eq_bind, Option.bind_eq_some_iff] at hs
    obtain ⟨p, hcall, p', hnext, w₁, hexec, hs⟩ := hs
    obtain rfl := Option.some.inj hs
    have hnoted : (w₁.noteIssued effect p).tables = w₁.tables := by cases p <;> rfl
    change TablesMoved text site w _ (w₁.noteIssued effect p).tables
    rw [hnoted]
    rcases execute_some hexec with ⟨rfl, rfl⟩ | ⟨rfl, tables, htables, -, rfl⟩
    · exact .same _
    · have hp := hi.calls a p hcall
      cases p with
      | createMarker m =>
        simp only [Progress.ddl] at htables
        cases hjson : m.toJson text with
        | error e => rw [hjson] at htables; cases htables
        | ok comment =>
          rw [hjson] at htables
          cases hmarker : w.tables site.markerTable with
          | some t => simp [Ddl.exec, hmarker] at htables
          | none =>
            obtain rfl : w.tables.set site.markerTable
                (some ⟨uuid, "TinyLog".toList, comment⟩) = tables := by
              simpa [Ddl.exec, hmarker] using htables
            exact .created a raised uuid _ hmarker
      | dispatch m =>
        obtain ⟨hplanned, -, hpending⟩ := hp
        obtain rfl := exec_dispatch (hplanned.target ▸ hplanned.candidate.symm) htables
        refine .swapped a raised uuid m hplanned fun hnone => ?_
        have hdesired := (pending_iff.mp hpending).2
        rw [Tables.uuid_eq_none.mpr hnone] at hdesired
        cases hdesired
      | dropCandidate m =>
        obtain rfl := exec_drop uuid htables
        exact .candidateDropped a raised uuid m hcall hp.1 hp.2.2.2
      | dropMarker m =>
        obtain rfl := exec_drop uuid htables
        exact .markerDropped a raised uuid m hcall hp.2.2.1 hp.2.2.2.2
      | _ => cases hnext
  | crash a =>
    simp only [PublicationWorld.next] at hs
    split at hs
    · obtain rfl := Option.some.inj hs
      exact .same _
    · cases hs

end Dpone.ClickHouse
