import Dpone.Schemes.JsonText
import Dpone.ClickHouse.PublicationRuns

/-! What publication promises, and the window in which a cleanup breaks it.

    A cleanup drops its marker by name. Between its last look at the marker and the `DROP` another
    cleanup of the same publication can remove the marker and a new publication can create its own
    under the same name: the first cleanup then removes the marker of a publication it never saw. -/

namespace Dpone.ClickHouse
open Dpone.Schemes

variable {text : MarkerText} {site : PublicationTarget} {w₀ w : PublicationWorld}
  {τ : List (PublicationWorld × PublicationLabel)}

/-- The call a step belongs to. -/
def PublicationLabel.attempt : PublicationLabel → Option ℕ
  | .stage _ _ => none
  | .start a _ | .read a | .query a _ | .ddl a _ _ _ | .crash a => some a

/-- FRAME: a step moves no other call. -/
theorem calls_frame {w w' : PublicationWorld} {l : PublicationLabel}
    (hs : PublicationStep text site w l w') {b : ℕ} (hb : l.attempt ≠ some b) :
    w'.calls b = w.calls b := by
  have hset : ∀ (v : PublicationWorld) (a : ℕ) (p : Progress), some a ≠ some b →
      (v.setCall a p).calls b = v.calls b := by
    intro v a p ha
    have hne : b ≠ a := fun h => ha (congrArg some h.symm)
    simp [PublicationWorld.setCall, hne]
  unfold PublicationStep at hs
  cases l with
  | stage name table =>
    simp only [PublicationWorld.next] at hs
    split_ifs at hs
    obtain rfl := Option.some.inj hs
    rfl
  | start a call =>
    simp only [PublicationWorld.next] at hs
    split_ifs at hs
    obtain rfl := Option.some.inj hs
    exact hset _ a _ hb
  | read a =>
    simp only [PublicationWorld.next, Option.bind_eq_bind, Option.bind_eq_some_iff] at hs
    obtain ⟨p, -, result, -, hs⟩ := hs
    obtain rfl := Option.some.inj hs
    have hsame : (w.noteProved a p result).calls = w.calls := by cases p <;> cases result <;> rfl
    exact (hset _ a _ hb).trans (congrFun hsame b)
  | query a reply =>
    simp only [PublicationWorld.next] at hs
    split at hs
    · obtain rfl := Option.some.inj hs
      exact hset _ a _ hb
    · cases hs
  | ddl a effect raised uuid =>
    simp only [PublicationWorld.next, Option.bind_eq_bind, Option.bind_eq_some_iff] at hs
    obtain ⟨p, -, p', -, w₁, hexec, hs⟩ := hs
    obtain rfl := Option.some.inj hs
    have hsame : (w₁.noteIssued effect p).calls = w.calls := by
      rcases execute_some hexec with ⟨-, rfl⟩ | ⟨-, _, -, -, rfl⟩ <;> cases p <;> rfl
    exact (hset _ a _ hb).trans (congrFun hsame b)
  | crash a =>
    simp only [PublicationWorld.next] at hs
    split at hs
    · obtain rfl := Option.some.inj hs
      exact hset _ a _ hb
    · cases hs

/-- One statement per marker and only over its exact mapping; a target that stays; data tables that
    only a cleanup drops, of a predecessor after its exchange; markers that only a cleanup drops
    which proved that very marker. -/
structure Lawful (text : MarkerText) (site : PublicationTarget)
    (τ : List (PublicationWorld × PublicationLabel)) (w : PublicationWorld) : Prop where
  once : ∀ m, w.issued.count m ≤ 1
  exactly : ∀ p ∈ τ, ∀ a m effect raised uuid, p.2 = .ddl a effect raised uuid →
    p.1.calls a = some (.dispatch m) → p.1.tables.uuid site.target = m.predecessorUuid ∧
      p.1.tables.uuid m.candidate = some m.desiredUuid
  stays : ∀ p ∈ τ, p.1.tables site.target ≠ none → w.tables site.target ≠ none
  dropped : ∀ p ∈ τ, ∀ w', PublicationStep text site p.1 p.2 w' → ∀ name table,
    name ≠ site.markerTable → p.1.tables name = some table →
      (∃ name', w'.tables name' = some table) ∨
      ∃ a m raised uuid, p.2 = .ddl a true raised uuid ∧ p.1.calls a = some (.dropCandidate m) ∧
        name = m.candidate ∧ m.predecessorUuid = some table.uuid ∧ m ∈ p.1.effected
  marker : ∀ p ∈ τ, ∀ w', PublicationStep text site p.1 p.2 w' → ∀ table,
    p.1.tables site.markerTable = some table → w'.tables site.markerTable = some table ∨
      ∃ a m raised uuid, p.2 = .ddl a true raised uuid ∧ (a, m) ∈ p.1.proved ∧
        parseMarker text table = .ok m

namespace PublicationInv
variable {w' : PublicationWorld} {l : PublicationLabel}

theorem target_stays (hi : PublicationInv text site w) (ht : w.tables site.target ≠ none)
    (hs : PublicationStep text site w l w') : w'.tables site.target ≠ none := by
  have hmoved := hi.tablesMoved hs
  generalize w'.tables = tables' at hmoved ⊢
  cases hmoved with
  | same => exact ht
  | staged name table absent =>
    have hne : site.target ≠ name := fun h => ht (h.symm ▸ absent)
    rwa [Tables.set_other _ _ hne]
  | created a raised uuid record absent => rwa [Tables.set_other _ _ site.distinct.symm]
  | swapped a raised uuid m planned desired =>
    simpa [← planned.target] using desired
  | candidateDropped a raised uuid m call planned =>
    rwa [Tables.set_other _ _ planned.candidate.symm]
  | markerDropped => rwa [Tables.set_other _ _ site.distinct.symm]

theorem table_dropped (hi : PublicationInv text site w) (hs : PublicationStep text site w l w')
    {name : Str} {table : PublicationTable} (hname : name ≠ site.markerTable)
    (htable : w.tables name = some table) :
    (∃ name', w'.tables name' = some table) ∨
      ∃ a m raised uuid, l = .ddl a true raised uuid ∧ w.calls a = some (.dropCandidate m) ∧
        name = m.candidate ∧ m.predecessorUuid = some table.uuid ∧ m ∈ w.effected := by
  have hmoved := hi.tablesMoved hs
  generalize w'.tables = tables' at hmoved ⊢
  cases hmoved with
  | same => exact .inl ⟨name, htable⟩
  | staged name' table' absent =>
    have hne : name ≠ name' := by rintro rfl; rw [absent] at htable; cases htable
    exact .inl ⟨name, by rwa [Tables.set_other _ _ hne]⟩
  | created => exact .inl ⟨name, by rwa [Tables.set_other _ _ hname]⟩
  | swapped a raised uuid m =>
    exact .inl ⟨Equiv.swap m.target m.candidate name, by simpa using htable⟩
  | candidateDropped a raised uuid m call planned predecessor =>
    by_cases hc : name = m.candidate
    · subst hc
      obtain ⟨hp, he⟩ := predecessor.resolve_left fun hnone => by
        rw [Tables.uuid_eq_none.mp hnone] at htable; cases htable
      refine .inr ⟨a, m, raised, uuid, rfl, call, rfl, ?_, he⟩
      rw [← hp, Tables.uuid, htable]
      rfl
    · exact .inl ⟨name, by rwa [Tables.set_other _ _ hc]⟩
  | markerDropped => exact .inl ⟨name, by rwa [Tables.set_other _ _ hname]⟩

theorem marker_dropped (hi : PublicationInv text site w) (hs : PublicationStep text site w l w')
    {table : PublicationTable} (htable : w.tables site.markerTable = some table) :
    w'.tables site.markerTable = some table ∨
      ∃ a m raised uuid, l = .ddl a true raised uuid ∧ (a, m) ∈ w.proved ∧
        parseMarker text table = .ok m := by
  have hmoved := hi.tablesMoved hs
  generalize w'.tables = tables' at hmoved ⊢
  cases hmoved with
  | same => exact .inl htable
  | staged name table' absent =>
    have hne : site.markerTable ≠ name := by rintro rfl; rw [absent] at htable; cases htable
    exact .inl (by rwa [Tables.set_other _ _ hne])
  | created a raised uuid record absent => rw [absent] at htable; cases htable
  | swapped a raised uuid m planned =>
    have hsame : Equiv.swap m.target m.candidate site.markerTable = site.markerTable :=
      Equiv.swap_apply_of_ne_of_ne (planned.target ▸ site.distinct) planned.name.symm
    exact .inl (by simpa [hsame] using htable)
  | candidateDropped a raised uuid m call planned =>
    exact .inl (by rwa [Tables.set_other _ _ planned.name.symm])
  | markerDropped a raised uuid m call proved held =>
    refine .inr ⟨a, m, raised, uuid, rfl, proved, ?_⟩
    have hheld := held.resolve_left (by rw [htable]; nofun)
    unfold markerAt at hheld
    rw [htable, Option.bind_some] at hheld
    cases hparse : parseMarker text table with
    | error e => rw [hparse] at hheld; cases hheld
    | ok m' => rw [hparse] at hheld; rw [Option.some.inj hheld]

end PublicationInv

/-- RUN: while no marker is created inside the window of a cleanup, every order of steps is
    lawful. -/
theorem lawful_of_quiet (hstart : PublicationStart site w₀)
    (hrun : Run (PublicationStep text site) w₀ τ w)
    (hquiet : ∀ p ∈ τ, QuietCreation p.1 p.2) : Lawful text site τ w := by
  have hstep : ∀ {s l s'}, PublicationInv text site s → QuietCreation s l →
      PublicationStep text site s l s' → PublicationInv text site s' :=
    fun hi hc hs => hi.step hs hc
  obtain ⟨hbefore, hlast⟩ := hrun.invariant_while (PublicationInv.start hstart) hstep hquiet
  exact {
    once := fun m => List.nodup_iff_count.mp hlast.once m
    exactly := fun p hp a m effect raised uuid _ hcall => by
      obtain ⟨hplanned, -, hpending⟩ := (hbefore p hp).calls a _ hcall
      exact hplanned.target ▸ pending_iff.mp hpending
    stays := hrun.persists (fun hi ht hs => PublicationInv.target_stays hi ht hs) hbefore
    dropped := fun p hp w' hs name table hname htable =>
      (hbefore p hp).table_dropped hs hname htable
    marker := fun p hp w' hs table htable => (hbefore p hp).marker_dropped hs htable }

/-! ### Two cleanups and a new publication -/

/-- The steps of a list of labels, one after the other. -/
def runLabels (text : MarkerText) (site : PublicationTarget) (w : PublicationWorld) :
    List PublicationLabel → Option PublicationWorld
  | [] => some w
  | l :: ls => (w.next text site l).bind fun w' => runLabels text site w' ls

theorem runLabels_run : ∀ (ls : List PublicationLabel) {w w' : PublicationWorld},
    runLabels text site w ls = some w' →
      ∃ τ, Run (PublicationStep text site) w τ w' ∧ τ.map Prod.snd = ls
  | [], w, w', h => by obtain rfl := Option.some.inj h; exact ⟨[], .nil, rfl⟩
  | l :: ls, w, w', h => by
    obtain ⟨v, hv, hrest⟩ := Option.bind_eq_some_iff.mp h
    obtain ⟨τ, hrun, hlabels⟩ := runLabels_run ls hrest
    exact ⟨(w, l) :: τ, hrun.cons hv, by rw [List.map_cons, hlabels]⟩

/-- Markers as flat JSON objects, under a digest that tells none apart. -/
def jsonMarkers : MarkerText where
  sha256 _ := List.replicate 64 '0'
  dumps m := JsonText.dumps [("candidate".toList, .str m.candidate),
    ("database".toList, .str m.database), ("desired_uuid".toList, .str m.desiredUuid),
    ("operation_id".toList, .str m.operationId), ("plan_sha256".toList, .str m.planSha256),
    ("predecessor_uuid".toList, m.predecessorUuid.elim .null .str),
    ("schema_version".toList, .str m.schemaVersion), ("staged_rows".toList, .int m.stagedRows),
    ("target".toList, .str m.target)]
  loads raw := match JsonText.loads raw with
    | some [(_, .str candidate), (_, .str database), (_, .str desired), (_, .str operation),
        (_, .str plan), (_, predecessor), (_, .str schema), (_, .int rows), (_, .str target)] =>
      match predecessor with
      | .null => .ok ⟨operation, plan, database, target, candidate, none, desired, rows, schema⟩
      | .str uuid =>
        .ok ⟨operation, plan, database, target, candidate, some uuid, desired, rows, schema⟩
      | .int _ => .error "comment fields do not match v1"
    | _ => .error "comment is not valid JSON"
  loads_dumps m := by
    rw [JsonText.loads_dumps]
    rcases m with ⟨_, _, _, _, _, _ | _, _, _, _⟩ <;> rfl

def ordersTarget : PublicationTarget where
  database := "dwh".toList
  target := "orders".toList
  markerTable := "orders__dpone_full_refresh_publication__b1ff3a8f4b2d1f9c".toList
  distinct := by decide

def emptyDatabase : PublicationWorld := ⟨fun _ => none, fun _ => none, [], fun _ => none, [], [], []⟩

def stagedTable (uuid : String) : PublicationTable := ⟨uuid.toList, "MergeTree".toList, []⟩

def nightlyMarker : PublicationMarker :=
  .create jsonMarkers "op-1".toList "dwh".toList "orders".toList "orders__a".toList none
    "uuid-a".toList 3

def nextMarker : PublicationMarker :=
  .create jsonMarkers "op-2".toList "dwh".toList "orders".toList "orders__b".toList
    (some "uuid-a".toList) "uuid-b".toList 5

/-- The nightly publication, from staging to its proof. -/
def nightlyPublication : List PublicationLabel :=
  [.stage "orders__a".toList (stagedTable "uuid-a"),
    .start 0 (.publish "op-1".toList "orders__a".toList 3), .read 0,
    .ddl 0 true false "uuid-m".toList, .read 0, .read 0,
    .ddl 0 true false "uuid-n".toList, .read 0]

/-- Its cleanup stands before its marker `DROP`; a retry cleans up first; the next publication has
    created its marker. -/
def staleCleanup : List PublicationLabel :=
  nightlyPublication ++
    [.start 1 (.cleanup nightlyMarker), .read 1, .read 1,
      .start 2 (.prepareAdmission "op-1".toList), .read 2, .read 2, .read 2, .read 2, .read 2,
      .ddl 2 true false "uuid-o".toList, .read 2,
      .stage "orders__b".toList (stagedTable "uuid-b"),
      .start 3 (.publish "op-2".toList "orders__b".toList 5), .read 3,
      .ddl 3 true false "uuid-p".toList]

/-- The state that a list of labels leads to. -/
def reached (ls : List PublicationLabel) : PublicationWorld :=
  (runLabels jsonMarkers ordersTarget emptyDatabase ls).getD emptyDatabase

theorem reached_run (ls : List PublicationLabel)
    (h : (runLabels jsonMarkers ordersTarget emptyDatabase ls).isSome) :
    ∃ τ, Run (PublicationStep jsonMarkers ordersTarget) emptyDatabase τ (reached ls) ∧
      τ.map Prod.snd = ls := by
  obtain ⟨w, hw⟩ := Option.isSome_iff_exists.mp h
  obtain ⟨τ, hrun, hlabels⟩ := runLabels_run ls hw
  exact ⟨τ, by unfold reached; rw [hw]; exact hrun, hlabels⟩

theorem emptyDatabase_start : PublicationStart ordersTarget emptyDatabase :=
  ⟨rfl, fun name => by split_ifs <;> rfl, nofun, nofun, fun _ => rfl, rfl⟩

/-- A step of no call but the first. -/
def FirstOnly (_ : PublicationWorld) (l : PublicationLabel) : Prop :=
  ∀ b, b ≠ 0 → l.attempt ≠ some b

/-- One publication alone: nobody stands before a marker `DROP` while it creates its marker. -/
theorem lawful_nightlyPublication :
    ∃ τ, τ.map Prod.snd = nightlyPublication ∧
      Lawful jsonMarkers ordersTarget τ (reached nightlyPublication) := by
  obtain ⟨τ, hrun, hlabels⟩ := reached_run nightlyPublication (by decide +kernel)
  have hmine : ∀ p ∈ τ, FirstOnly p.1 p.2 := by
    have hall : ∀ l ∈ nightlyPublication, l.attempt = none ∨ l.attempt = some 0 := by decide
    intro p hp b hb hattempt
    have hl : p.2 ∈ nightlyPublication := hlabels ▸ List.mem_map_of_mem hp
    rcases hall p.2 hl with h | h <;> rw [h] at hattempt
    · cases hattempt
    · exact hb (Option.some.inj hattempt).symm
  have hstep : ∀ {s l s'}, (∀ b, b ≠ 0 → s.calls b = none) → FirstOnly s l →
      PublicationStep jsonMarkers ordersTarget s l s' → ∀ b, b ≠ 0 → s'.calls b = none :=
    fun hi hc hs b hb => (calls_frame hs (hc b hb)).trans (hi b hb)
  have hothers := (hrun.invariant_while (I := fun w => ∀ b, b ≠ 0 → w.calls b = none)
    (fun _ _ => rfl) hstep hmine).1
  refine ⟨τ, hlabels, lawful_of_quiet emptyDatabase_start hrun ?_⟩
  rintro ⟨s, l⟩ hp
  cases l with
  | ddl a effect raised uuid =>
    cases effect with
    | false => trivial
    | true =>
      rintro ⟨m, hcreate⟩ b m' hdrop
      have halone : ∀ b p, s.calls b = some p → b = 0 := by
        intro b p hb
        by_contra hne
        have hnone := hothers _ hp b hne
        exact nomatch hb.symm.trans hnone
      rw [halone b _ hdrop] at hdrop
      rw [halone a _ hcreate] at hcreate
      exact nomatch hcreate.symm.trans hdrop
  | stage | start | read | query | crash => trivial

/-- The stale cleanup drops the marker of the next publication, which it never proved. -/
theorem stale_cleanup_drops_next_marker :
    PublicationStart ordersTarget emptyDatabase ∧
      ∃ τ w, Run (PublicationStep jsonMarkers ordersTarget) emptyDatabase τ w ∧
        ¬ Lawful jsonMarkers ordersTarget τ w := by
  refine ⟨emptyDatabase_start, ?_⟩
  obtain ⟨τ, hrun, -⟩ := reached_run staleCleanup (by decide +kernel)
  have hnext : ((reached staleCleanup).next jsonMarkers ordersTarget
      (.ddl 1 true false "uuid-q".toList)).map (·.tables ordersTarget.markerTable) = some none := by
    decide +kernel
  obtain ⟨record, hrecord, hother⟩ : ∃ record,
      (reached staleCleanup).tables ordersTarget.markerTable = some record ∧
        (parseMarker jsonMarkers record).toOption ≠ some nightlyMarker :=
    ⟨⟨"uuid-p".toList, "TinyLog".toList, jsonMarkers.dumps nextMarker⟩,
      by decide +kernel, by decide +kernel⟩
  have hproved : (reached staleCleanup).proved = [(2, nightlyMarker), (1, nightlyMarker)] := by
    decide +kernel
  generalize reached staleCleanup = v at hrun hnext hrecord hproved
  obtain ⟨w, hs, hgone⟩ := Option.map_eq_some_iff.mp hnext
  refine ⟨_, w, hrun.snoc hs, fun hlaw => ?_⟩
  have hmarker := hlaw.marker (v, _)
    (List.mem_append_right _ (List.mem_singleton_self _)) w hs record hrecord
  rcases hmarker with hkept | ⟨a, m, _, _, hl, hm, hparse⟩
  · rw [hgone] at hkept; cases hkept
  · have hmarker : m = nightlyMarker := by
      rw [hproved] at hm
      simp only [List.mem_cons, Prod.mk.injEq, List.not_mem_nil, or_false] at hm
      exact hm.elim And.right And.right
    exact hother (by rw [hparse]; exact congrArg some hmarker)

end Dpone.ClickHouse
