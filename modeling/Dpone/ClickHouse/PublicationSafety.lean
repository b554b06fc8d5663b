import Dpone.ClickHouse.Publication
import Dpone.Schemes.Records

/-! The marker is a lock, and a spent candidate never comes back.

    While a marker stands with its candidate still holding the desired table, only its creator may
    dispatch. Once the desired table has left the candidate's name it never returns there, so a
    marker whose commit was proved can be dropped, and nobody else can still be dispatching it. What
    a cleanup drops by name is what it proved, as long as no marker is created while a cleanup
    stands between its marker check and its `DROP`. -/

namespace Dpone.ClickHouse
open Dpone.Schemes

variable {text : MarkerText} {site : PublicationTarget}

/-! ### Checks -/

/-- The marker that the catalog holds. -/
def markerAt (text : MarkerText) (site : PublicationTarget) (tables : Tables) :
    Option PublicationMarker :=
  (tables site.markerTable).bind fun record => (parseMarker text record).toOption

theorem markerAt_eq_some {tables : Tables} {record : PublicationTable}
    {marker : PublicationMarker} (h : tables site.markerTable = some record)
    (hp : parseMarker text record = .ok marker) : markerAt text site tables = some marker := by
  unfold markerAt
  rw [h, Option.bind_some, hp]
  rfl

theorem markerAt_none {tables : Tables} (h : tables site.markerTable = none) :
    markerAt text site tables = none := by
  unfold markerAt
  rw [h]
  rfl

theorem requireExactMarker_ok {tables : Tables} {marker : PublicationMarker}
    (h : requireExactMarker text (tables site.markerTable) marker = .ok ()) :
    markerAt text site tables = some marker := by
  unfold requireExactMarker at h
  cases hrecord : tables site.markerTable with
  | none => rw [hrecord] at h; cases h
  | some record =>
    rw [hrecord] at h
    cases hparse : parseMarker text record with
    | error e => simp only [hparse, bind, Except.bind] at h; cases h
    | ok persisted =>
      simp only [hparse, bind, Except.bind] at h
      split_ifs at h with hne
      rw [markerAt_eq_some hrecord hparse, not_not.mp hne]

theorem requirePersisted_ok {record : PublicationTable} {marker : PublicationMarker}
    {created : Bool} {p : Progress} (h : requirePersisted text record marker created = .ok p) :
    parseMarker text record = .ok marker ∧ p = .reconcile marker created false := by
  unfold requirePersisted at h
  cases hparse : parseMarker text record with
  | error e => rw [hparse] at h; cases h
  | ok persisted =>
    simp only [hparse, bind, Except.bind, pure, Except.pure] at h
    split_ifs at h with hne
    exact ⟨congrArg _ (not_not.mp hne), (Except.ok.inj h).symm⟩

theorem requiredTable_ok {tables : Tables} {name : Str} {table : PublicationTable}
    (h : requiredTable tables name = .ok table) : tables name = some table := by
  unfold requiredTable at h
  cases htable : tables name with
  | none => rw [htable] at h; cases h
  | some t =>
    rw [htable] at h
    dsimp only at h
    split_ifs at h
    rw [Except.ok.inj h]

/-- A marker that was written is read back. -/
theorem parseMarker_toJson {marker : PublicationMarker} {comment : Str}
    (h : marker.toJson text = .ok comment) (uuid : Str) :
    parseMarker text ⟨uuid, "TinyLog".toList, comment⟩ = .ok marker := by
  unfold PublicationMarker.toJson at h
  cases hvalid : marker.validate text with
  | error e => rw [hvalid] at h; cases h
  | ok u =>
    rw [hvalid] at h
    obtain rfl : text.dumps marker = comment := Except.ok.inj h
    simp [parseMarker, PublicationMarker.fromJson, text.loads_dumps, hvalid, bind, Except.bind,
      pure, Except.pure]

section Classify
variable {marker : PublicationMarker} {tables : Tables}

theorem pending_iff : publicationState marker tables = .pending ↔
    tables.uuid marker.target = marker.predecessorUuid ∧
      tables.uuid marker.candidate = some marker.desiredUuid := by
  unfold publicationState classifyPublication
  cases marker.predecessorUuid with
  | none => dsimp only; split_ifs <;> simp_all
  | some predecessor => dsimp only; split_ifs <;> simp_all

theorem committed_target (h : publicationState marker tables = .committed ∨
    publicationState marker tables = .cleanupPending) :
    tables.uuid marker.target = some marker.desiredUuid := by
  unfold publicationState classifyPublication at h
  cases hp : marker.predecessorUuid with
  | none => rw [hp] at h; dsimp only at h; split_ifs at h <;> simp_all
  | some predecessor => rw [hp] at h; dsimp only at h; split_ifs at h <;> simp_all

theorem committed_candidate (h : publicationState marker tables = .committed) :
    tables.uuid marker.candidate = marker.predecessorUuid := by
  unfold publicationState classifyPublication at h
  cases hp : marker.predecessorUuid with
  | none => rw [hp] at h; dsimp only at h; split_ifs at h; simp_all
  | some predecessor => rw [hp] at h; dsimp only at h; split_ifs at h; simp_all

theorem cleanupPending_candidate (h : publicationState marker tables = .cleanupPending) :
    tables.uuid marker.candidate = none := by
  unfold publicationState classifyPublication at h
  cases hp : marker.predecessorUuid with
  | none => rw [hp] at h; dsimp only at h; split_ifs at h
  | some predecessor => rw [hp] at h; dsimp only at h; split_ifs at h; simp_all

end Classify

/-! ### What a read leads to -/

section Reads
variable {tables : Tables} {p' : Progress}

/-- A plan without a marker in its way is made of what the catalog shows. -/
theorem planPublication_ok {operationId candidate : Str} {stagedRows : ℤ}
    (h : planPublication text site tables operationId candidate stagedRows = .ok p') :
    (∃ marker, p' = .createMarker marker ∧ tables site.markerTable = none ∧
      marker.target = site.target ∧ marker.candidate = candidate ∧
      tables.uuid candidate = some marker.desiredUuid) ∨
    ∃ marker, p' = .reconcile marker false false := by
  unfold planPublication at h
  obtain ⟨desired, hdesired, h⟩ := bind_ok.mp h
  obtain ⟨_, -, h⟩ := bind_ok.mp h
  obtain ⟨_, -, h⟩ := bind_ok.mp h
  cases hrecord : tables site.markerTable with
  | some record =>
    rw [hrecord] at h
    exact .inr ⟨_, (requirePersisted_ok h).2⟩
  | none =>
    rw [hrecord] at h
    refine .inl ⟨_, (Except.ok.inj h).symm, rfl, rfl, rfl, ?_⟩
    rw [Tables.uuid, requiredTable_ok hdesired]
    rfl

theorem reconcileOrPublish_ok {marker : PublicationMarker} {initialDispatch admission : Bool}
    (h : reconcileOrPublish text site tables marker initialDispatch admission = .ok p') :
    p' = .count marker ∨ p' = .published marker false ∨ p' = .queryActive marker ∨
      p' = .dispatch marker ∧ initialDispatch = true ∧
        markerAt text site tables = some marker ∧ publicationState marker tables = .pending := by
  unfold reconcileOrPublish at h
  obtain ⟨_, hexact, h⟩ := bind_ok.mp h
  cases hstate : publicationState marker tables with
  | unknown => rw [hstate] at h; cases h
  | committed | cleanupPending =>
    rw [hstate] at h
    obtain rfl := Except.ok.inj h
    cases admission
    · exact .inr (.inl rfl)
    · exact .inl rfl
  | pending =>
    rw [hstate] at h
    obtain ⟨_, -, h⟩ := bind_ok.mp h
    obtain ⟨_, -, h⟩ := bind_ok.mp h
    have hp : p' = if initialDispatch then .dispatch marker else .queryActive marker := by
      by_cases hnone : marker.predecessorUuid ≠ none
      · rw [if_pos hnone] at h
        obtain ⟨_, -, h⟩ := bind_ok.mp h
        obtain ⟨_, -, h⟩ := bind_ok.mp h
        exact (Except.ok.inj h).symm
      · rw [if_neg hnone] at h
        exact (Except.ok.inj h).symm
    cases initialDispatch
    · exact .inr (.inr (.inl hp))
    · exact .inr (.inr (.inr ⟨hp, rfl, requireExactMarker_ok hexact, rfl⟩))

/-- A cleanup goes on only after a proved commit; it drops a candidate that is the predecessor. -/
theorem planCleanup_ok {marker : PublicationMarker}
    (h : planCleanup text site tables marker = .ok p') :
    markerAt text site tables = some marker ∧
      tables.uuid marker.target = some marker.desiredUuid ∧
      (p' = .requireMarker marker ∧ tables.uuid marker.candidate = none ∨
        p' = .dropCandidate marker ∧ tables.uuid marker.candidate = marker.predecessorUuid ∧
          marker.predecessorUuid ≠ none) := by
  unfold planCleanup at h
  obtain ⟨_, hexact, h⟩ := bind_ok.mp h
  refine ⟨requireExactMarker_ok hexact, ?_⟩
  cases hstate : publicationState marker tables with
  | unknown | pending => rw [hstate] at h; cases h
  | cleanupPending =>
    rw [hstate] at h
    exact ⟨committed_target (.inr hstate),
      .inl ⟨(Except.ok.inj h).symm, cleanupPending_candidate hstate⟩⟩
  | committed =>
    rw [hstate] at h
    refine ⟨committed_target (.inl hstate), ?_⟩
    dsimp only at h
    split_ifs at h with hnone
    · exact .inl ⟨(Except.ok.inj h).symm, hnone ▸ committed_candidate hstate⟩
    · obtain ⟨predecessor, -, h⟩ := bind_ok.mp h
      split_ifs at h
      exact .inr ⟨(Except.ok.inj h).symm, committed_candidate hstate, hnone⟩

theorem requireAbsent_ok {name : Str} {raised : Bool} {next : Progress}
    (h : requireAbsent tables name raised next = .ok p') : tables name = none ∧ p' = next := by
  unfold requireAbsent at h
  cases htable : tables name with
  | none => rw [htable] at h; exact ⟨rfl, (Except.ok.inj h).symm⟩
  | some table => rw [htable] at h; cases h

end Reads

/-! ### The invariant -/

/-- A marker as a publication of this target makes it. -/
structure Planned (site : PublicationTarget) (w : PublicationWorld) (marker : PublicationMarker) :
    Prop where
  target : marker.target = site.target
  candidate : marker.candidate ≠ site.target
  name : marker.candidate ≠ site.markerTable
  staged : w.staged marker.candidate = some marker.desiredUuid

/-- The desired table has left the candidate's name. -/
def Spent (w : PublicationWorld) (marker : PublicationMarker) : Prop :=
  w.tables.uuid marker.candidate ≠ some marker.desiredUuid

/-- Calls that may still dispatch a marker: the one that created it. -/
def Right (marker : PublicationMarker) : Progress → Prop
  | .rereadCreated m | .reconcile m true _ | .dispatch m => m = marker
  | _ => False

/-- What a call knows of the catalog while it stands where it stands. -/
def CallInv (text : MarkerText) (site : PublicationTarget) (w : PublicationWorld) (a : ℕ) :
    Progress → Prop
  | .publish _ candidate _ => candidate ≠ site.target ∧ candidate ≠ site.markerTable
  | .createMarker m => Planned site w m
  | .rereadCreated m | .reconcile m true _ =>
    Planned site w m ∧ (Spent w m ∨ markerAt text site w.tables = some m)
  | .dispatch m => Planned site w m ∧ markerAt text site w.tables = some m ∧
      publicationState m w.tables = .pending
  | .dropCandidate m => Planned site w m ∧ Spent w m ∧ (a, m) ∈ w.proved ∧
      (w.tables.uuid m.candidate = none ∨
        w.tables.uuid m.candidate = m.predecessorUuid ∧ m ∈ w.effected)
  | .requireCandidateAbsent m _ => Planned site w m ∧ Spent w m ∧ (a, m) ∈ w.proved
  | .requireMarker m => Planned site w m ∧ Spent w m ∧ (a, m) ∈ w.proved ∧
      w.tables m.candidate = none
  | .dropMarker m => Planned site w m ∧ Spent w m ∧ (a, m) ∈ w.proved ∧
      w.tables m.candidate = none ∧
      (w.tables site.markerTable = none ∨ markerAt text site w.tables = some m)
  | _ => True

/-- INVARIANT. -/
structure PublicationInv (text : MarkerText) (site : PublicationTarget) (w : PublicationWorld) :
    Prop where
  used : ∀ name table, w.tables name = some table → table.uuid ∈ w.used
  stagedUsed : ∀ name uuid, w.staged name = some uuid → uuid ∈ w.used
  unique : ∀ name name' table table', w.tables name = some table → w.tables name' = some table' →
    table.uuid = table'.uuid → name = name'
  original : ∀ name table, name ≠ site.target → name ≠ site.markerTable →
    w.tables name = some table → w.staged name = some table.uuid ∨
      ∃ m, markerAt text site w.tables = some m ∧ m.candidate = name ∧ m ∈ w.effected ∧
        m.predecessorUuid = some table.uuid
  planned : ∀ m, markerAt text site w.tables = some m → Planned site w m
  calls : ∀ a p, w.calls a = some p → CallInv text site w a p
  alone : ∀ m, ¬ Spent w m → ∀ a b p q, w.calls a = some p → Right m p → w.calls b = some q →
    Right m q → a = b
  unissued : ∀ m, ¬ Spent w m → ∀ a p, w.calls a = some p → Right m p → m ∉ w.issued
  issuedHeld : ∀ m ∈ w.issued,
    Planned site w m ∧ (Spent w m ∨ markerAt text site w.tables = some m)
  once : w.issued.Nodup

end Dpone.ClickHouse
