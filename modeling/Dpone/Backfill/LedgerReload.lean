import Dpone.Backfill.LedgerState

/-! Reloading the backfill ledger.

    What is written is read back, but for one field: a handoff takes an empty receipt id for none,
    and so does its reader (`settled`). -/

namespace Dpone.Backfill.State
open Dpone.Schemes

variable {α : Type} {u : Unicode} {b : Builtins α}

/-! ### The handoff -/

/-- An empty receipt id is none. -/
def HandoffFields.settled (r : HandoffFields) : HandoffFields :=
  { r with receiptId := r.receiptId.filter (· ≠ []) }

theorem present_filter (s : Option Str) : present (s.filter (· ≠ [])) = present s := by
  rcases s with _ | s
  · rfl
  · by_cases hs : s = [] <;> simp [present, hs]

/-- INVARIANT: the checks of a handoff do not see whether its receipt id is empty or none. -/
theorem HandoffFields.postInit_settled (r : HandoffFields) :
    r.settled.postInit u = r.postInit u := by
  simp only [postInit, settled, present_filter]
  rfl

theorem HandoffFields.make_valid {r : HandoffFields} (h : r.postInit u = .ok ()) :
    r.make u = .ok ⟨r, h⟩ := by
  unfold make
  split
  · rfl
  · next e herror =>
    rw [h] at herror
    cases herror

/-- The record that a handoff is read back as. -/
def BackfillXminHandoffRecord.settled (r : BackfillXminHandoffRecord u) :
    BackfillXminHandoffRecord u :=
  ⟨r.toHandoffFields.settled, by rw [HandoffFields.postInit_settled, r.valid]⟩

theorem textIfAny_ofText (s : Option Str) :
    textIfAny b (Dynamic.ofText s) = s.filter (· ≠ []) := by
  rcases s with _ | s
  · rfl
  · by_cases hs : s = [] <;>
      simp [textIfAny, Dynamic.ofText, Dynamic.truthy, Dynamic.toText, Option.filter, hs]

/-- A publication receipt that passed the checks is not empty. -/
theorem BackfillXminHandoffRecord.publication_present (r : BackfillXminHandoffRecord u) :
    r.publicationReceiptId.filter (· ≠ []) = r.publicationReceiptId := by
  have hvalid := r.valid
  rcases hreceipt : r.publicationReceiptId with _ | s
  · rfl
  · by_cases hs : s = []
    · subst hs
      unfold HandoffFields.postInit at hvalid
      rw [hreceipt] at hvalid
      split_ifs at hvalid with _ _ _ _ _ _ hblank
      exact absurd rfl hblank
    · simp [hs]

/-- LOSSLESS: a handoff is read back with its receipt id settled. -/
theorem BackfillXminHandoffRecord.fromDict_toJsonable (r : BackfillXminHandoffRecord u) :
    fromDict u b (.dict r.toJsonable) = .ok r.settled := by
  have hcandidate : optionally (exactInt "candidate_revision")
      (Dynamic.ofInt r.candidateRevision : Dynamic α) = .ok r.candidateRevision := by
    rcases r.candidateRevision with _ | n <;> rfl
  -- what the reader finds under each name
  show (do
    let anchorXmin ← exactInt "anchor_xmin" (.int r.anchorXmin : Dynamic α)
    let candidateRevision ← optionally (exactInt "candidate_revision")
      (Dynamic.ofInt r.candidateRevision : Dynamic α)
    HandoffFields.make u {
      contractVersion := Dynamic.toText b (Dynamic.orElse b (.str r.contractVersion) (.str []))
      handoffId := Dynamic.toText b (Dynamic.orElse b (.str r.handoffId) (.str []))
      status := Dynamic.toText b (Dynamic.orElse b (.str r.status) (.str []))
      anchorXmin
      snapshotToken := Dynamic.toText b (Dynamic.orElse b (.str r.snapshotToken) (.str []))
      stateKeySha256 := Dynamic.toText b (Dynamic.orElse b (.str r.stateKeySha256) (.str []))
      sourceAuthoritySha256 :=
        Dynamic.toText b (Dynamic.orElse b (.str r.sourceAuthoritySha256) (.str []))
      planHash := Dynamic.toText b (Dynamic.orElse b (.str r.planHash) (.str []))
      seedLoadId := Dynamic.toText b (Dynamic.orElse b (.str r.seedLoadId) (.str []))
      publicationReceiptId := textIfAny b (Dynamic.ofText r.publicationReceiptId)
      receiptId := textIfAny b (Dynamic.ofText r.receiptId)
      candidateRevision }) = Except.ok r.settled
  simp only [hcandidate, Dynamic.toText_orElse_nil, textIfAny_ofText, r.publication_present]
  exact HandoffFields.make_valid r.settled.valid

/-! ### The publication -/

theorem PublicationFields.make_valid {r : PublicationFields α} (h : r.postInit u b = .ok ()) :
    r.make u b = .ok ⟨r, h⟩ := by
  unfold make
  split
  · rfl
  · next e herror =>
    rw [h] at herror
    cases herror

/-- LOSSLESS: a publication in any phase is read back as it was written. -/
theorem BackfillPublicationRecord.fromDict_toJsonable {r : BackfillPublicationRecord u b}
    (h : r.phase ≠ []) : fromDict u b (.dict r.toJsonable) = .ok r := by
  have hphase : Dynamic.toText b (Dynamic.orElse b (.str r.phase) (.str "planned".toList)) =
      r.phase := by rw [Dynamic.toText_orElse, if_neg h]
  -- what the reader finds under each name
  show (do
    let expectedRows ← Dynamic.toOptionalInt b (Dynamic.ofInt r.expectedRows)
    let actualRows ← Dynamic.toOptionalInt b (Dynamic.ofInt r.actualRows)
    let duplicateKeys ← Dynamic.toOptionalInt b (Dynamic.ofInt r.duplicateKeys)
    let predecessorObjectId ← Dynamic.toOptionalInt b (Dynamic.ofInt r.predecessorObjectId)
    let shadowObjectId ← Dynamic.toOptionalInt b (Dynamic.ofInt r.shadowObjectId)
    PublicationFields.make u b { r.toPublicationFields with
      mode := Dynamic.toText b (Dynamic.orElse b (.str r.mode) (.str []))
      targetTable := Dynamic.toText b (Dynamic.orElse b (.str r.targetTable) (.str []))
      shadowTable := Dynamic.toText b (Dynamic.orElse b (.str r.shadowTable) (.str []))
      backupTable := Dynamic.toText b (Dynamic.orElse b (.str r.backupTable) (.str []))
      phase := Dynamic.toText b (Dynamic.orElse b (.str r.phase) (.str "planned".toList))
      expectedRows, actualRows, duplicateKeys, predecessorObjectId, shadowObjectId }) =
    Except.ok r
  simp only [hphase, Dynamic.toText_orElse_nil, Dynamic.toOptionalInt_ofInt]
  exact PublicationFields.make_valid r.valid

/-! ### The ledger -/

namespace BackfillLedger

/-- A ledger of the kind and version that the reader is for, whose ledger, chunks and publication
    are in some status: an empty text is none. Leases, counters, errors and evidence are free. -/
structure WellFormed (x : BackfillLedger u b) : Prop where
  kind : x.kind = "dpone.backfill_ledger".toList
  version : x.schemaVersion = "2".toList
  status : x.status ≠ []
  chunks : ∀ r ∈ x.chunks, r.status ≠ []
  publication : ∀ p ∈ x.publication, p.phase ≠ []

/-- The ledger with the receipt id of its handoff settled, and everything else as it is. -/
def settled (x : BackfillLedger u b) : BackfillLedger u b :=
  { x with xminHandoff := x.xminHandoff.map (·.settled) }

theorem chunks_fromDict {chunks : List (BackfillChunkRecord α)} (h : ∀ r ∈ chunks, r.status ≠ []) :
    (chunks.map fun r => (.dict r.toJsonable : Dynamic α)).mapM (BackfillChunkRecord.fromDict b) =
      .ok chunks := by
  refine mapM_ok.mpr (List.forall₂_map_left_iff.mpr ?_)
  exact List.forall₂_same.mpr fun r hr => BackfillChunkRecord.fromDict_toJsonable b (h r hr)

theorem handoff_fromDict (handoff : Option (BackfillXminHandoffRecord u)) :
    optionally (BackfillXminHandoffRecord.fromDict u b)
        (dictOrNone (handoff.map (·.toJsonable))) = .ok (handoff.map (·.settled)) := by
  rcases handoff with _ | r
  · rfl
  · show (BackfillXminHandoffRecord.fromDict u b (.dict r.toJsonable)).map some = _
    rw [BackfillXminHandoffRecord.fromDict_toJsonable]
    rfl

theorem publication_fromDict {publication : Option (BackfillPublicationRecord u b)}
    (h : ∀ p ∈ publication, p.phase ≠ []) :
    optionally (BackfillPublicationRecord.fromDict u b)
        (dictOrNone (publication.map (·.toJsonable))) = .ok publication := by
  rcases publication with _ | p
  · rfl
  · show (BackfillPublicationRecord.fromDict u b (.dict p.toJsonable)).map some = _
    rw [BackfillPublicationRecord.fromDict_toJsonable (h p rfl)]
    rfl

theorem columnContract_dictOrNone (contract : Option (List (Str × Dynamic α))) :
    columnContract (dictOrNone contract) = .ok contract := by
  rcases contract with _ | fields <;> rfl

/-- LOSSLESS: a ledger is read back with its handoff settled. -/
theorem fromDict_toJsonable {x : BackfillLedger u b} (h : x.WellFormed) :
    fromDict u b x.toJsonable = .ok x.settled := by
  have hversion : isVersion (.str x.schemaVersion : Dynamic α) = true := by
    rw [h.version]
    rfl
  have hstatus : Dynamic.toText b (Dynamic.orElse b (.str x.status) (.str "active".toList)) =
      x.status := by rw [Dynamic.toText_orElse, if_neg h.status]
  -- what the reader finds under each name
  show (do
    if isVersion (.str x.schemaVersion : Dynamic α) = false then
      throw (.valueError
        (s!"DPONE_BACKFILL_LEDGER_MIGRATION_REQUIRED: expected schema_version=2, " ++
        s!"got {String.ofList (b.repr (.str x.schemaVersion))}"))
    let chunkConfig ← Dynamic.toDict b (Dynamic.orElse b (.dict x.chunkConfig) (.dict []))
    let items ←
      Dynamic.toList b (.list (x.chunks.map fun r => (.dict r.toJsonable : Dynamic α)))
    let chunks ← items.mapM (BackfillChunkRecord.fromDict b)
    let xminHandoff ← optionally (BackfillXminHandoffRecord.fromDict u b)
      (dictOrNone (x.xminHandoff.map (·.toJsonable)))
    let publication ← optionally (BackfillPublicationRecord.fromDict u b)
      (dictOrNone (x.publication.map (·.toJsonable)))
    let portableScopeColumnContract ← columnContract (dictOrNone x.portableScopeColumnContract)
    return { x with
      runKey := Dynamic.toText b (Dynamic.orElse b (.str x.runKey) (.str []))
      dataset := Dynamic.toText b (Dynamic.orElse b (.str x.dataset) (.str []))
      innerMode := Dynamic.toText b (Dynamic.orElse b (.str x.innerMode) (.str []))
      chunkConfig
      status := Dynamic.toText b (Dynamic.orElse b (.str x.status) (.str "active".toList))
      chunks, xminHandoff, publication, portableScopeColumnContract
      kind := "dpone.backfill_ledger".toList
      schemaVersion := "2".toList }) = Except.ok x.settled
  simp only [hversion, Bool.true_eq_false, if_false, Dynamic.toDict_orElse, Dynamic.toList, ok_bind,
    chunks_fromDict h.chunks, handoff_fromDict, publication_fromDict h.publication,
    columnContract_dictOrNone, Dynamic.toText_orElse_nil, hstatus, settled, ← h.kind, ← h.version]
  rfl

theorem handoff_settled {r : BackfillXminHandoffRecord u} :
    r.settled = r ↔ r.receiptId ≠ some [] := by
  constructor
  · intro h hempty
    have hreceipt := congrArg (fun r : BackfillXminHandoffRecord u => r.receiptId) h
    simp [BackfillXminHandoffRecord.settled, HandoffFields.settled, hempty, Option.filter]
      at hreceipt
  · intro h
    rcases r with ⟨fields, valid⟩
    have hfilter : fields.receiptId.filter (· ≠ []) = fields.receiptId := by
      rcases hreceipt : fields.receiptId with _ | s
      · rfl
      · have hs : s ≠ [] := fun hs => h (by rw [← hs]; exact hreceipt)
        simp [Option.filter, hs]
    have hfields : fields.settled = fields := by rw [HandoffFields.settled, hfilter]
    simp only [BackfillXminHandoffRecord.settled, hfields]

/-- A ledger is settled if no empty receipt id stands in its handoff. -/
theorem settled_eq_self {x : BackfillLedger u b} :
    x.settled = x ↔ ∀ r ∈ x.xminHandoff, r.receiptId ≠ some [] := by
  have hself : x.settled = x ↔ x.xminHandoff.map (·.settled) = x.xminHandoff := by
    constructor
    · exact congrArg (fun x : BackfillLedger u b => x.xminHandoff)
    · intro h
      rw [settled, h]
  rw [hself]
  rcases x.xminHandoff with _ | r
  · simp
  · simp [handoff_settled]

/-- CORRECT: a well-formed ledger is read back with nothing changed but an empty receipt id of its
    handoff, which becomes none; so it is read back as it is if and only if there is no such id. -/
theorem ledger_reloads {x : BackfillLedger u b} (h : x.WellFormed) :
    fromDict u b x.toJsonable = .ok x.settled ∧
      (fromDict u b x.toJsonable = .ok x ↔ ∀ r ∈ x.xminHandoff, r.receiptId ≠ some []) := by
  refine ⟨fromDict_toJsonable h, ?_⟩
  rw [fromDict_toJsonable h, Except.ok.injEq]
  exact settled_eq_self

end BackfillLedger

/-! ### A campaign that has been anchored -/

/-- JSON without floats. -/
def plainBuiltins : Builtins Empty where
  truthy := nofun
  str
    | .none => "None".toList
    | .bool t => if t then "True".toList else "False".toList
    | .int n => intText n
    | _ => []
  repr
    | .str s => '\'' :: s ++ ['\'']
    | .none => "None".toList
    | _ => []
  int _ := .error .typeError
  dict _ := .error .typeError
  iter _ := .error .typeError

def anchoredFields (receiptId : Option Str) : HandoffFields where
  handoffId := "orders".toList
  status := "anchored".toList
  anchorXmin := 100
  snapshotToken := "sha256:".toList ++ List.replicate 64 '0'
  stateKeySha256 := List.replicate 64 '1'
  sourceAuthoritySha256 := List.replicate 64 '2'
  planHash := "plan".toList
  seedLoadId := "seed".toList
  receiptId

theorem anchoredFields_valid : (anchoredFields none).postInit Unicode.ascii = .ok () := rfl

/-- One chunk has failed, another is leased, the publication is prepared. -/
def anchoredLedger (handoff : BackfillXminHandoffRecord Unicode.ascii) :
    BackfillLedger Unicode.ascii plainBuiltins where
  runKey := "orders".toList
  dataset := "sales".toList
  innerMode := "append".toList
  chunkConfig := [("step".toList, .str "P1D".toList)]
  lockOwner := .str "worker-1".toList
  chunks := [
    { index := 0, start := "2024-01-01".toList, stop := "2024-01-02".toList,
      idempotencyKey := "key-0".toList, status := "failed".toList, attempts := 3,
      error := .str "timeout".toList },
    { index := 1, start := "2024-01-02".toList, stop := "2024-01-03".toList,
      idempotencyKey := "key-1".toList, status := "running".toList, attempts := 1,
      leaseOwner := .str "worker-1".toList, leaseExpiresAt := .str "2024-02-01".toList }]
  xminHandoff := some handoff
  publication := some {
    mode := "shadow".toList, targetTable := "t".toList, shadowTable := "t_shadow".toList,
    backupTable := "t_backup".toList, phase := "prepared".toList, shadowObjectId := some 7,
    valid := by decide }

theorem anchoredLedger_wellFormed (handoff : BackfillXminHandoffRecord Unicode.ascii) :
    (anchoredLedger handoff).WellFormed where
  kind := rfl
  version := rfl
  status := List.cons_ne_nil _ _
  chunks := by
    intro r hr
    rcases List.mem_cons.mp hr with rfl | hr
    · exact List.cons_ne_nil _ _
    · rw [List.mem_singleton.mp hr]
      exact List.cons_ne_nil _ _
  publication := by
    rintro p ⟨⟩
    exact List.cons_ne_nil _ _

def anchoredHandoff : BackfillXminHandoffRecord Unicode.ascii :=
  ⟨anchoredFields none, anchoredFields_valid⟩

theorem anchored_ledger_reloads :
    BackfillLedger.fromDict _ _ (anchoredLedger anchoredHandoff).toJsonable =
        .ok (anchoredLedger anchoredHandoff).settled ∧
      (BackfillLedger.fromDict _ _ (anchoredLedger anchoredHandoff).toJsonable =
          .ok (anchoredLedger anchoredHandoff) ↔
        ∀ r ∈ (anchoredLedger anchoredHandoff).xminHandoff, r.receiptId ≠ some []) :=
  BackfillLedger.ledger_reloads (anchoredLedger_wellFormed anchoredHandoff)

/-- The same handoff with an empty receipt id, which passes the checks as well. -/
def unsettledHandoff : BackfillXminHandoffRecord Unicode.ascii :=
  ⟨anchoredFields (some []), by
    rw [← HandoffFields.postInit_settled]
    exact anchoredFields_valid⟩

/-- A handoff that is not committed may hold an empty receipt id, and is read back without one. -/
theorem empty_receipt_not_reloaded :
    (anchoredLedger unsettledHandoff).WellFormed ∧
      BackfillLedger.fromDict _ _ (anchoredLedger unsettledHandoff).toJsonable ≠
        .ok (anchoredLedger unsettledHandoff) := by
  have hwell := anchoredLedger_wellFormed unsettledHandoff
  refine ⟨hwell, fun hsame => ?_⟩
  rw [BackfillLedger.fromDict_toJsonable hwell, Except.ok.injEq] at hsame
  exact BackfillLedger.settled_eq_self.mp hsame _ rfl rfl

end Dpone.Backfill.State
