import Mathlib.Data.Char
import Mathlib.Data.List.Lex
import Dpone.Schemes.Records
import Dpone.Schemes.Sorted
import Dpone.TypeSystem.Validation

/-! Enforcing a schema contract on rows: `ContractEnforcementService` of `enforcement.py`.

    Every row is checked column by column and goes to the target, to the DLQ or nowhere. A conflict
    is reported with the action that the contract and the conflict policy ask for, but a row goes to
    the DLQ by the contract alone. -/

namespace Dpone.TypeSystem
open Dpone.Schemes

inductive EnforcementMode where
  | strict | coerce | quarantine | warn
  deriving DecidableEq

inductive ConflictPolicy where
  | fail | variantColumn | quarantine
  deriving DecidableEq

inductive ContractAction where
  | accept | fail | warn | quarantine | variantColumn
  deriving DecidableEq

/-- `SchemaContract`: columns under their names. -/
structure SchemaContract where
  enforcement : EnforcementMode := .strict
  columns : List Column := []
  distinct : (columns.map Column.name).Nodup

abbrev Row (α : Type) := List (Str × Value α)

structure ContractDiagnostic where
  rowIndex : ℕ
  column : Str
  action : ContractAction
  message : Str
  expectedType : Str
  actualValue : Str
  reasonCode : Str
  actualType : Str

structure DlqRejection where
  reasonCode : Str
  stage : String
  column : Option Str
  /-- `column`, `expected_type` and `actual_type`. -/
  diagnostics : Option (Str × Str × Str)

/-- The arguments of `write_rejected`. -/
structure DlqRecord (α : Type) where
  runId : Str
  loadId : Str
  row : Row α
  rowIndex : ℕ
  rejection : DlqRejection

structure DlqWriteReceipt where
  recordId : Str
  reasonCode : Str

/-- A DLQ: its answers to `write_rejected` and `finalize_run`, given what was written before. -/
structure DlqWriter (α : Type) where
  write : List (DlqRecord α) → DlqRecord α → DlqWriteReceipt
  indexRef : List (DlqRecord α) → Str → Option Str

structure ContractEnforcementResult (α : Type) where
  passed : Bool
  targetRows : List (Row α)
  diagnostics : List ContractDiagnostic
  rejectedRows : ℕ
  quarantinedRows : ℕ
  stateCommitAllowed : Bool
  dlqRecordIds : List Str
  dlqReasons : List (Str × ℕ)
  dlqIndexRef : Option Str

inductive EnforcementError where
  | raised (e : PyError)
  | dlqStoreRequired

variable {α : Type}

/-- `row.get(name)`. -/
def get (row : Row α) (name : Str) : Value α := (row.lookup name).getD .null

/-- `f"{_VARIANT_PREFIX}{name}"`. -/
def variantName (name : Str) : Str := "__dpone__nc__".toList ++ name

/-- `_action`. -/
def actionOf : EnforcementMode → ConflictPolicy → ContractAction
  | _, .variantColumn => .variantColumn
  | _, .quarantine => .quarantine
  | .quarantine, .fail => .quarantine
  | .warn, .fail => .warn
  | _, .fail => .fail

/-- `_actual_type`. -/
def actualType : Value α → Str
  | .null => "null".toList
  | .bool _ => "boolean".toList
  | .int _ => "integer".toList
  | .float _ => "float".toList
  | .text _ => "string".toList
  | .decimal _ => "Decimal".toList
  | .object .dict _ | .object .mapping _ => "object".toList
  | .object .list _ | .object .tuple _ => "array".toList
  | .object .datetime _ => "datetime".toList
  | .object .date _ => "date".toList
  | .object .time _ => "time".toList
  | .object .bytes _ => "bytes".toList
  | .object .bytearray _ => "bytearray".toList
  | .object .memoryview _ => "memoryview".toList
  | .object (.named typeName) _ => typeName

section Service
variable (py : Builtins α)

/-- `_safe_value`. -/
def safeValue (value : Value α) : Str :=
  let rendered := py.repr value
  if rendered.length ≤ 500 then rendered else rendered.take 497 ++ "...".toList

def diagnosticOf (action : ContractAction) (rowIndex : ℕ) (column : Column) (value : Value α)
    (message : Str) : ContractDiagnostic where
  rowIndex := rowIndex
  column := column.name
  action := action
  message := message
  expectedType := column.logicalType
  actualValue := safeValue py value
  reasonCode := if value.isNull && !column.nullable then "schema.required_null".toList
    else "schema.type_mismatch".toList
  actualType := actualType value

/-- A row while its columns are checked. -/
structure RowState (α : Type) where
  row : Row α
  valid : Bool
  diagnostics : List ContractDiagnostic

/-- The conflicting value is set apart. -/
def moved (name : Str) (row : Row α) : Row α :=
  Dict.set name .null (Dict.set (variantName name) (get row name) row)

/-- The body of the loop over columns. -/
def checkColumn (action : ContractAction) (rowIndex : ℕ) (state : RowState α) (column : Column) :
    Except PyError (RowState α) := do
  let value := get state.row column.name
  let (ok, message) ← validateValue py value column
  if ok then return state
  let diagnostics := state.diagnostics ++ [diagnosticOf py action rowIndex column value message]
  match action with
  | .variantColumn => return ⟨moved column.name state.row, true, diagnostics⟩
  | .warn => return ⟨state.row, true, diagnostics⟩
  | _ => return ⟨state.row, false, diagnostics⟩

def checkRow (contract : SchemaContract) (policy : ConflictPolicy) (rowIndex : ℕ) (row : Row α) :
    Except PyError (RowState α) :=
  contract.columns.foldlM (checkColumn py (actionOf contract.enforcement policy) rowIndex)
    ⟨row, true, []⟩

end Service

/-- The rejection of `_put_quarantine`. -/
def rejectionOf : List ContractDiagnostic → DlqRejection
  | [] => ⟨"unknown.unclassified".toList, "contract_enforcement", none, none⟩
  | first :: _ => ⟨first.reasonCode, "contract_enforcement", some first.column,
      some (first.column, first.expectedType, first.actualType)⟩

/-- What the loop over rows has so far, with what it wrote to the DLQ. -/
structure Tally (α : Type) where
  targetRows : List (Row α) := []
  diagnostics : List ContractDiagnostic := []
  rejected : ℕ := 0
  quarantined : ℕ := 0
  dlqRecordIds : List Str := []
  dlqReasons : List (Str × ℕ) := []
  records : List (DlqRecord α) := []

/-- The service, with what `enforce` is given besides the rows. -/
structure Enforcement (α : Type) where
  py : Builtins α
  writer : Option (DlqWriter α)
  contract : SchemaContract
  policy : ConflictPolicy
  runId : Str
  loadId : Str
  rowOffset : ℕ
  finalizeDlq : Bool

namespace Enforcement
variable (s : Enforcement α)

/-- The body of the loop over rows. -/
def enforceRow (tally : Tally α) : Row α × ℕ → Except EnforcementError (Tally α)
  | (row, index) => do
    let rowIndex := s.rowOffset + index
    let state ← (checkRow s.py s.contract s.policy rowIndex row).mapError .raised
    let diagnostics := tally.diagnostics ++ state.diagnostics
    if state.valid then
      return { tally with diagnostics, targetRows := tally.targetRows ++ [state.row] }
    if s.contract.enforcement = .quarantine then
      match s.writer with
      | none => throw .dlqStoreRequired
      | some writer =>
        let record : DlqRecord α :=
          ⟨s.runId, s.loadId, state.row, rowIndex, rejectionOf state.diagnostics⟩
        let receipt := writer.write tally.records record
        return { tally with
          diagnostics
          quarantined := tally.quarantined + 1
          dlqRecordIds := tally.dlqRecordIds ++ [receipt.recordId]
          dlqReasons := Dict.set receipt.reasonCode
            ((tally.dlqReasons.lookup receipt.reasonCode).getD 0 + 1) tally.dlqReasons
          records := tally.records ++ [record] }
    else return { tally with diagnostics, rejected := tally.rejected + 1 }

/-- `enforce`, and what was written to the DLQ. -/
def enforce (rows : List (Row α)) :
    Except EnforcementError (ContractEnforcementResult α × List (DlqRecord α)) := do
  let tally ← rows.zipIdx.foldlM s.enforceRow {}
  let passed := tally.rejected = 0
  return ({
    passed
    targetRows := tally.targetRows
    diagnostics := tally.diagnostics
    rejectedRows := tally.rejected
    quarantinedRows := tally.quarantined
    stateCommitAllowed := passed
    dlqRecordIds := tally.dlqRecordIds
    dlqReasons := sortedBy Prod.fst tally.dlqReasons
    dlqIndexRef := if tally.dlqRecordIds ≠ [] ∧ s.finalizeDlq then
      s.writer.bind fun writer => writer.indexRef tally.records s.runId else none
  }, tally.records)

end Enforcement

/-! ### What a row is checked for -/

section Rows
variable (py : Builtins α) (moves : Bool)

/-- A column refuses a value. -/
def rejects (value : Value α) (column : Column) : Bool :=
  match validateValue py value column with
  | .ok (ok, _) => !ok
  | .error _ => false

def messageOf (value : Value α) (column : Column) : Str :=
  match validateValue py value column with
  | .ok (_, message) => message
  | .error _ => []

/-- The row after a column was checked. -/
def afterColumn (row : Row α) (column : Column) : Row α :=
  if moves && rejects py (get row column.name) column then moved column.name row else row

/-- The values that the columns find, one after the other. -/
def found : List Column → Row α → List (Column × Value α)
  | [], _ => []
  | column :: columns, row =>
    (column, get row column.name) :: found columns (afterColumn py moves row column)

/-- The values that the columns find and refuse. -/
def conflicts (columns : List Column) (row : Row α) : List (Column × Value α) :=
  (found py moves columns row).filter fun f => rejects py f.2 f.1

def reportOf (action : ContractAction) (rowIndex : ℕ) (f : Column × Value α) :
    ContractDiagnostic :=
  diagnosticOf py action rowIndex f.1 f.2 (messageOf py f.2 f.1)

/-- Whether a row goes on to the target in spite of a conflict. -/
def ContractAction.keeps : ContractAction → Bool
  | .variantColumn | .warn => true
  | _ => false

variable {py moves}

theorem checkColumn_raised {action : ContractAction} {rowIndex : ℕ} {state : RowState α}
    {column : Column} {e : PyError}
    (h : validateValue py (get state.row column.name) column = .error e) :
    checkColumn py action rowIndex state column = .error e := by
  simp only [checkColumn, h]
  rfl

/-- What one column does to a row. -/
theorem checkColumn_checked {action : ContractAction} {rowIndex : ℕ} {state : RowState α}
    {column : Column} {r : Bool × Str}
    (h : validateValue py (get state.row column.name) column = .ok r) :
    checkColumn py action rowIndex state column =
      .ok ⟨afterColumn py (action = .variantColumn) state.row column,
        if rejects py (get state.row column.name) column then action.keeps else state.valid,
        state.diagnostics ++ if rejects py (get state.row column.name) column then
          [reportOf py action rowIndex (column, get state.row column.name)] else []⟩ := by
  obtain ⟨ok, message⟩ := r
  have hrejects : rejects py (get state.row column.name) column = !ok := by rw [rejects, h]
  have hmessage : messageOf py (get state.row column.name) column = message := by
    rw [messageOf, h]
  simp only [checkColumn, h, afterColumn, hrejects, reportOf, hmessage]
  cases ok
  · cases action <;> rfl
  · cases action <;> simp <;> rfl

/-- CORRECT: the loop over the columns. -/
theorem checkColumns_ok {action : ContractAction} {rowIndex : ℕ} : ∀ {columns : List Column}
    {state state' : RowState α},
    columns.foldlM (checkColumn py action rowIndex) state = .ok state' ↔
      (∀ f ∈ found py (action = .variantColumn) columns state.row,
        ∃ r, validateValue py f.2 f.1 = .ok r) ∧
      state' = ⟨columns.foldl (afterColumn py (action = .variantColumn)) state.row,
        if conflicts py (action = .variantColumn) columns state.row = [] then state.valid
        else action.keeps,
        state.diagnostics ++
          (conflicts py (action = .variantColumn) columns state.row).map
            (reportOf py action rowIndex)⟩
  | [], state, state' => by
    obtain ⟨row, valid, diagnostics⟩ := state
    simp [found, conflicts, eq_comm, pure, Except.pure]
  | column :: columns, state, state' => by
    rw [List.foldlM_cons]
    rcases h : validateValue py (get state.row column.name) column with e | r
    · rw [checkColumn_raised h]
      refine iff_of_false nofun fun hall => ?_
      obtain ⟨r, hr⟩ := hall.1 _ List.mem_cons_self
      rw [h] at hr
      cases hr
    · rw [checkColumn_checked h]
      refine Iff.trans checkColumns_ok ?_
      simp only [found, conflicts, List.forall_mem_cons, h, Except.ok.injEq, exists_eq', true_and,
        List.foldl_cons, List.filter_cons]
      refine and_congr_right fun _ => ?_
      by_cases hrejects : rejects py (get state.row column.name) column = true
      · simp only [hrejects, if_true, ite_self, List.map_cons, List.append_assoc,
          List.singleton_append, List.cons_ne_nil, if_false]
      · simp only [hrejects, Bool.false_eq_true, if_false, List.append_nil]

theorem actionOf_variantColumn (mode : EnforcementMode) (policy : ConflictPolicy) :
    actionOf mode policy = .variantColumn ↔ policy = .variantColumn := by
  cases mode <;> cases policy <;> decide

end Rows

/-! ### Setting conflicting values apart -/

/-- The values under some names are set apart, none over another value, and nothing else changes. -/
structure SetApart (names : List Str) (row row' : Row α) : Prop where
  emptied : ∀ name ∈ names, row'.lookup name = some .null
  kept : ∀ name ∈ names, row.lookup (variantName name) = none ∧
    row'.lookup (variantName name) = some (get row name)
  same : ∀ key, key ∉ names → key ∉ names.map variantName → row'.lookup key = row.lookup key

/-- There is room for conflicting values: no other value stands under the variant name of one, and
    if that is the name of another conflicting value, there is nothing to set apart. -/
def Room (names : List Str) (row : Row α) : Prop :=
  ∀ name ∈ names, row.lookup (variantName name) = none ∧
    (variantName name ∈ names → get row name = .null)

theorem variantName_ne (name : Str) : variantName name ≠ name := by
  intro h
  have hempty := List.append_left_eq_self.mp h
  exact absurd hempty (by decide)

theorem variantName_injective : Function.Injective variantName := fun _ _ h =>
  List.append_cancel_left h

theorem lookup_moved (name key : Str) (row : Row α) : (moved name row).lookup key =
    if key = name then some .null
    else if key = variantName name then some (get row name) else row.lookup key := by
  rw [moved, Dict.lookup_set, Dict.lookup_set]

/-- STEP: one more value is set apart. -/
theorem SetApart.step {names : List Str} {row row' : Row α} {name : Str}
    (h : SetApart names row row') (hname : name ∉ names) (hroom : Room (names ++ [name]) row) :
    SetApart (names ++ [name]) row (moved name row') := by
  have hself := hroom name (by simp)
  -- the value found is the one that the row had
  have hget : get row' name = get row name := by
    by_cases hvariant : name ∈ names.map variantName
    · obtain ⟨other, hother, rfl⟩ := List.mem_map.mp hvariant
      obtain ⟨hnone, hnull⟩ := hroom other (by simp [hother])
      simp only [get, (h.kept other hother).2, hnone, Option.getD_some, Option.getD_none]
      exact hnull (by simp)
    · rw [get, h.same name hname hvariant, get]
  refine ⟨fun key hkey => ?_, fun key hkey => ⟨(hroom key hkey).1, ?_⟩, fun key hkey hvariant => ?_⟩
  · rw [lookup_moved]
    by_cases hk : key = name
    · rw [if_pos hk]
    · have hold : key ∈ names := by simpa [hk] using hkey
      rw [if_neg hk]
      split_ifs with hv
      · rw [hget, hself.2 (by rw [← hv]; exact hkey)]
      · exact h.emptied key hold
  · rw [lookup_moved]
    by_cases hk : key = name
    · rw [hk, if_neg (variantName_ne name), if_pos rfl, hget]
    · have hold : key ∈ names := by simpa [hk] using hkey
      rw [if_neg (c := variantName key = variantName name) fun hv => hk (variantName_injective hv)]
      split_ifs with hv
      · rw [(hroom key hkey).2 (by rw [hv]; simp)]
      · exact (h.kept key hold).2
  · simp only [List.mem_append, List.mem_singleton, not_or, List.map_append, List.map_cons,
      List.map_nil] at hkey hvariant
    rw [lookup_moved, if_neg hkey.2, if_neg hvariant.2]
    exact h.same key hkey.1 hvariant.1

theorem SetApart.refl (row : Row α) : SetApart [] row row := ⟨nofun, nofun, fun _ _ _ => rfl⟩

section Run
variable {py : Builtins α} {moves : Bool}

theorem found_concat (column : Column) : ∀ (columns : List Column) (row : Row α),
    found py moves (columns ++ [column]) row = found py moves columns row ++
      [(column, get (columns.foldl (afterColumn py moves) row) column.name)]
  | [], _ => rfl
  | c :: columns, row => by
    rw [List.cons_append, found, found_concat column columns]
    rfl

variable (py moves) in
theorem found_names : ∀ (columns : List Column) (row : Row α),
    (found py moves columns row).map Prod.fst = columns
  | [], _ => rfl
  | c :: columns, row => by rw [found, List.map_cons, found_names columns]

theorem mem_columns {columns : List Column} {row : Row α} {f : Column × Value α}
    (h : f ∈ conflicts py moves columns row) : f.1 ∈ columns := by
  rw [← found_names py moves columns row]
  exact List.mem_map_of_mem (List.mem_filter.mp h).1

/-- RUN: what the loop over columns leaves where conflicting values are set apart. -/
theorem setApart_columns {row : Row α} {columns : List Column}
    (hdistinct : (columns.map Column.name).Nodup)
    (hroom : Room ((conflicts py true columns row).map fun f => f.1.name) row) :
    SetApart ((conflicts py true columns row).map fun f => f.1.name) row
      (columns.foldl (afterColumn py true) row) := by
  induction columns using List.reverseRecOn with
  | nil => exact SetApart.refl row
  | append_singleton columns column ih =>
    rw [List.map_append, List.nodup_append] at hdistinct
    obtain ⟨hbefore, -, hnew⟩ := hdistinct
    rw [List.foldl_append, List.foldl_cons, List.foldl_nil]
    have hconflicts : conflicts py true (columns ++ [column]) row =
        conflicts py true columns row ++ if rejects py
          (get (columns.foldl (afterColumn py true) row) column.name) column then
          [(column, get (columns.foldl (afterColumn py true) row) column.name)] else [] := by
      rw [conflicts, found_concat, List.filter_append, List.filter_cons]
      rfl
    rw [hconflicts] at hroom ⊢
    by_cases hrejects :
        rejects py (get (columns.foldl (afterColumn py true) row) column.name) column = true
    · rw [if_pos hrejects, List.map_append] at hroom ⊢
      have hprior : Room ((conflicts py true columns row).map fun f => f.1.name) row :=
        fun name hname => ⟨(hroom name (by simp [hname])).1, fun hv =>
          (hroom name (by simp [hname])).2 (by simp [hv])⟩
      have hfresh : column.name ∉ (conflicts py true columns row).map fun f => f.1.name := by
        intro hmem
        obtain ⟨f, hf, hname⟩ := List.mem_map.mp hmem
        exact hnew f.1.name (List.mem_map_of_mem (mem_columns hf)) column.name (by simp) hname
      rw [afterColumn, if_pos (by simpa using hrejects)]
      exact (ih hbefore hprior).step hfresh hroom
    · rw [if_neg hrejects, List.append_nil] at hroom ⊢
      rw [afterColumn, if_neg (by simpa using hrejects)]
      exact ih hbefore hroom

theorem foldl_afterColumn_false (columns : List Column) (row : Row α) :
    columns.foldl (afterColumn py false) row = row := by
  induction columns with
  | nil => rfl
  | cons column columns ih => exact ih

end Run

/-! ### What becomes of rows -/

/-- What becomes of a row. -/
inductive Outcome (α : Type) where
  | target (row : Row α)
  | quarantined (record : DlqRecord α)
  | rejected

namespace Outcome

def targetRow : Outcome α → Option (Row α)
  | target row => some row
  | _ => none

def dlqRecord : Outcome α → Option (DlqRecord α)
  | quarantined record => some record
  | _ => none

def isRejected : Outcome α → Bool
  | rejected => true
  | _ => false

end Outcome

namespace Enforcement
variable (s : Enforcement α)

def action : ContractAction := actionOf s.contract.enforcement s.policy

/-- Whether conflicting values are set apart. -/
def moves : Bool := s.policy = .variantColumn

def conflictsOf (row : Row α) : List (Column × Value α) :=
  conflicts s.py s.moves s.contract.columns row

/-- The row as the last column leaves it. -/
def leftRow (row : Row α) : Row α := s.contract.columns.foldl (afterColumn s.py s.moves) row

def reports (index : ℕ) (row : Row α) : List ContractDiagnostic :=
  (s.conflictsOf row).map (reportOf s.py s.action (s.rowOffset + index))

def outcomeOf (entry : Row α × ℕ) : Outcome α :=
  if s.conflictsOf entry.1 = [] ∨ s.action.keeps then .target (s.leftRow entry.1)
  else if s.contract.enforcement = .quarantine then
    .quarantined ⟨s.runId, s.loadId, s.leftRow entry.1, s.rowOffset + entry.2,
      rejectionOf (s.reports entry.2 entry.1)⟩
  else .rejected

/-- Every value that a column of the row finds is checked without an error. -/
def Checked (row : Row α) : Prop :=
  ∀ f ∈ found s.py s.moves s.contract.columns row, ∃ r, validateValue s.py f.2 f.1 = .ok r

/-- A row that was checked, counted. -/
def addRow (writer : DlqWriter α) (tally : Tally α) (entry : Row α × ℕ) : Tally α :=
  let diagnostics := tally.diagnostics ++ s.reports entry.2 entry.1
  match s.outcomeOf entry with
  | .target row => { tally with diagnostics, targetRows := tally.targetRows ++ [row] }
  | .quarantined record =>
    let receipt := writer.write tally.records record
    { tally with
      diagnostics
      quarantined := tally.quarantined + 1
      dlqRecordIds := tally.dlqRecordIds ++ [receipt.recordId]
      dlqReasons := Dict.set receipt.reasonCode
        ((tally.dlqReasons.lookup receipt.reasonCode).getD 0 + 1) tally.dlqReasons
      records := tally.records ++ [record] }
  | .rejected => { tally with diagnostics, rejected := tally.rejected + 1 }

variable {s}

theorem checkRow_ok {row : Row α} {index : ℕ} {state : RowState α} :
    checkRow s.py s.contract s.policy (s.rowOffset + index) row = .ok state ↔
      s.Checked row ∧ state = ⟨s.leftRow row,
        if s.conflictsOf row = [] then true else s.action.keeps, s.reports index row⟩ := by
  have hmoves : decide (actionOf s.contract.enforcement s.policy = .variantColumn) = s.moves :=
    decide_eq_decide.mpr (actionOf_variantColumn _ _)
  rw [checkRow, checkColumns_ok]
  simp only [hmoves, List.nil_append]
  exact Iff.rfl

/-- STEP: one row. -/
theorem enforceRow_ok {writer : DlqWriter α} (hwriter : s.writer = some writer)
    {tally tally' : Tally α} {entry : Row α × ℕ} :
    s.enforceRow tally entry = .ok tally' ↔
      s.Checked entry.1 ∧ tally' = s.addRow writer tally entry := by
  obtain ⟨row, index⟩ := entry
  rcases hcheck : checkRow s.py s.contract s.policy (s.rowOffset + index) row with e | state
  · refine iff_of_false (fun h => ?_) fun h => ?_
    · simp only [enforceRow, hcheck] at h
      cases h
    · cases (checkRow_ok.mpr ⟨h.1, rfl⟩).symm.trans hcheck
  · obtain ⟨hchecked, rfl⟩ := checkRow_ok.mp hcheck
    have hrow : s.enforceRow tally (row, index) = .ok (s.addRow writer tally (row, index)) := by
      simp only [enforceRow, hcheck, addRow, outcomeOf]
      by_cases hkept : s.conflictsOf row = [] ∨ s.action.keeps = true
      · have hvalid : (if s.conflictsOf row = [] then true else s.action.keeps) = true := by
          rcases hkept with h | h <;> simp [h]
        simp only [Except.mapError, hvalid, if_pos hkept]
        rfl
      · obtain ⟨hconflicts, hkeeps⟩ := not_or.mp hkept
        have hvalid : (if s.conflictsOf row = [] then true else s.action.keeps) = false := by
          simpa [hconflicts] using hkeeps
        simp only [Except.mapError, hvalid, if_neg hkept]
        by_cases hmode : s.contract.enforcement = .quarantine
        · simp only [if_pos hmode, hwriter]
          rfl
        · simp only [if_neg hmode]
          rfl
    rw [hrow, Except.ok.injEq, eq_comm]
    exact ⟨fun h => ⟨hchecked, h⟩, And.right⟩

/-- RUN: all rows. -/
theorem enforceRows_ok {writer : DlqWriter α} (hwriter : s.writer = some writer) :
    ∀ {entries : List (Row α × ℕ)} {tally tally' : Tally α},
      entries.foldlM s.enforceRow tally = .ok tally' ↔
        (∀ entry ∈ entries, s.Checked entry.1) ∧ tally' = entries.foldl (s.addRow writer) tally
  | [], tally, tally' => by simp [pure, Except.pure, eq_comm]
  | entry :: entries, tally, tally' => by
    rw [List.foldlM_cons, List.forall_mem_cons, List.foldl_cons, and_assoc]
    constructor
    · intro h
      obtain ⟨next, hrow, hrest⟩ := bind_ok.mp h
      obtain ⟨hchecked, rfl⟩ := (enforceRow_ok hwriter).mp hrow
      exact ⟨hchecked, (enforceRows_ok hwriter).mp hrest⟩
    · rintro ⟨hchecked, hrest⟩
      exact bind_ok.mpr ⟨_, (enforceRow_ok hwriter).mpr ⟨hchecked, rfl⟩,
        (enforceRows_ok hwriter).mpr hrest⟩

/-- The tally of rows is the tally of their outcomes. -/
theorem tally_spec (writer : DlqWriter α) (entries : List (Row α × ℕ)) (tally : Tally α) :
    let outcomes := entries.map s.outcomeOf
    let total := entries.foldl (s.addRow writer) tally
    total.targetRows = tally.targetRows ++ outcomes.filterMap Outcome.targetRow ∧
      total.diagnostics = tally.diagnostics ++ entries.flatMap (fun e => s.reports e.2 e.1) ∧
      total.rejected = tally.rejected + outcomes.countP Outcome.isRejected ∧
      total.quarantined = tally.quarantined + (outcomes.filterMap Outcome.dlqRecord).length ∧
      total.dlqRecordIds.length =
        tally.dlqRecordIds.length + (outcomes.filterMap Outcome.dlqRecord).length ∧
      total.records = tally.records ++ outcomes.filterMap Outcome.dlqRecord := by
  induction entries generalizing tally with
  | nil => simp
  | cons entry entries ih =>
    obtain ⟨htarget, hdiagnostics, hrejected, hquarantined, hids, hrecords⟩ :=
      ih (s.addRow writer tally entry)
    simp only [List.map_cons, List.foldl_cons, htarget, hdiagnostics, hrejected, hquarantined, hids,
      hrecords, List.flatMap_cons]
    simp only [addRow]
    rcases hout : s.outcomeOf entry with row | record | _ <;>
      simp only [List.filterMap_cons, List.countP_cons, Outcome.targetRow, Outcome.dlqRecord,
        Outcome.isRejected, List.append_assoc, List.singleton_append, List.length_append,
        List.length_cons, List.length_nil, if_true, Bool.false_eq_true, if_false, true_and,
        and_true] <;>
      omega

theorem reports_index {index : ℕ} {row : Row α} :
    ∀ d ∈ s.reports index row, d.rowIndex = s.rowOffset + index := by
  intro d hd
  obtain ⟨f, -, rfl⟩ := List.mem_map.mp hd
  rfl

/-- The diagnostics of one row are told by its index. -/
theorem reports_filter (i : ℕ) : ∀ (rows : List (Row α)) (k : ℕ),
    ((rows.zipIdx k).flatMap fun e => s.reports e.2 e.1).filter
        (fun d => d.rowIndex = s.rowOffset + (k + i)) =
      (rows[i]?.map (s.reports (k + i))).getD [] := by
  intro rows
  induction rows generalizing i with
  | nil => simp
  | cons row rows ih =>
    intro k
    rw [List.zipIdx_cons, List.flatMap_cons, List.filter_append]
    cases i with
    | zero =>
      have hhead : (s.reports k row).filter (fun d => d.rowIndex = s.rowOffset + (k + 0)) =
          s.reports k row :=
        List.filter_eq_self.mpr fun d hd => by simpa using reports_index d hd
      have hrest : ((rows.zipIdx (k + 1)).flatMap fun e => s.reports e.2 e.1).filter
          (fun d => d.rowIndex = s.rowOffset + (k + 0)) = [] := by
        refine List.filter_eq_nil_iff.mpr fun d hd => ?_
        obtain ⟨e, he, hd⟩ := List.mem_flatMap.mp hd
        have hindex := reports_index d hd
        have hle := (List.mem_zipIdx he).1
        simp only [decide_eq_true_eq]
        omega
      rw [hhead, hrest, List.append_nil]
      simp
    | succ i =>
      have hhead : (s.reports k row).filter (fun d => d.rowIndex = s.rowOffset + (k + (i + 1))) =
          [] := by
        refine List.filter_eq_nil_iff.mpr fun d hd => ?_
        have hindex := reports_index d hd
        simp only [decide_eq_true_eq]
        omega
      have hrest := ih i (k + 1)
      rw [hhead, List.nil_append, List.getElem?_cons_succ]
      rw [show k + 1 + i = k + (i + 1) by omega] at hrest
      exact hrest

/-! ### What the service promises -/

/-- An outcome is the one that an action announces. -/
def agrees : ContractAction → Outcome α → Bool
  | .fail, .rejected => true
  | .quarantine, .quarantined _ => true
  | .accept, .target _ | .warn, .target _ | .variantColumn, .target _ => true
  | _, _ => false

/-- A `decimal(p, q)` column. -/
def IsDecimalColumn (u : Unicode) (column : Column) (p q : ℕ) : Prop :=
  u.lower column.logicalType = "decimal".toList ∧ column.precision = some p ∧
    column.scale = some q ∧ 1 ≤ q ∧ q ≤ p

variable (s)

/-- What is promised of one row, with the diagnostics that were reported for it. -/
structure RowCorrect (row : Row α) (rowIndex : ℕ) (reported : List ContractDiagnostic)
    (outcome : Outcome α) : Prop where
  decimals : ∀ column ∈ s.contract.columns, ∀ p q, IsDecimalColumn s.py.toUnicode column p q →
    ∀ number v, numeral s.py.toUnicode (get row column.name) = some number →
      number.value = some v →
      ((∃ message, validateValue s.py (get row column.name) column = .ok (true, message)) ↔
        Fits p q v)
  agrees : ∀ d ∈ reported, agrees d.action outcome = true
  silent : reported = [] → ∃ row', outcome = .target row'
  recorded : ∀ record, outcome = .quarantined record →
    record.rowIndex = rowIndex ∧ record.row = row
  apart : ∀ row', outcome = .target row' → SetApart
    ((reported.filter fun d => d.action = .variantColumn).map ContractDiagnostic.column) row row'

/-- Every row has one outcome, and the result is made of the outcomes in the order of the rows. -/
def Correct (rows : List (Row α)) (r : ContractEnforcementResult α)
    (records : List (DlqRecord α)) : Prop :=
  ∃ outcomes : List (Outcome α), outcomes.length = rows.length ∧
    r.targetRows = outcomes.filterMap Outcome.targetRow ∧
    records = outcomes.filterMap Outcome.dlqRecord ∧
    r.quarantinedRows = records.length ∧ r.dlqRecordIds.length = records.length ∧
    r.rejectedRows = outcomes.countP Outcome.isRejected ∧
    (r.stateCommitAllowed = true ↔ r.rejectedRows = 0) ∧
    ∀ i row outcome, rows[i]? = some row → outcomes[i]? = some outcome →
      s.RowCorrect row (s.rowOffset + i)
        (r.diagnostics.filter fun d => d.rowIndex = s.rowOffset + i) outcome

/-- The rows that are treated as promised: every value can be checked, every number is judged right,
    a conflict is quarantined by the contract if the policy says so, and there is room to set
    conflicting values apart. -/
structure RowFine (row : Row α) : Prop where
  checkable : ∀ f ∈ found s.py s.moves s.contract.columns row, Checkable s.py f.2 f.1
  digits : ∀ column ∈ s.contract.columns, ∀ p q, IsDecimalColumn s.py.toUnicode column p q →
    ∀ negative c e, numeral s.py.toUnicode (get row column.name) = some (.finite negative c e) →
      DigitsFine p q c e
  quarantined : s.policy = .quarantine → s.contract.enforcement = .quarantine ∨
    s.conflictsOf row = []
  room : s.policy = .variantColumn → Room ((s.conflictsOf row).map fun f => f.1.name) row

variable {s}

/-- The numbers of a row are judged right if their digits are fine. -/
theorem decimals_iff {row : Row α} :
    (∀ column ∈ s.contract.columns, ∀ p q, IsDecimalColumn s.py.toUnicode column p q →
      ∀ number v, numeral s.py.toUnicode (get row column.name) = some number →
        number.value = some v →
        ((∃ message, validateValue s.py (get row column.name) column = .ok (true, message)) ↔
          Fits p q v)) ↔
    ∀ column ∈ s.contract.columns, ∀ p q, IsDecimalColumn s.py.toUnicode column p q →
      ∀ negative c e, numeral s.py.toUnicode (get row column.name) = some (.finite negative c e) →
        DigitsFine p q c e := by
  refine forall₂_congr fun column _ => forall₂_congr fun p q => forall_congr' fun hcolumn => ?_
  obtain ⟨hlogical, hp, hq, hone, hpq⟩ := hcolumn
  have judged : ∀ {negative : Bool} {c : ℕ} {e : ℤ} {v : ℚ},
      numeral s.py.toUnicode (get row column.name) = some (.finite negative c e) →
      (PyNumber.finite negative c e).value = some v →
      (((∃ message, validateValue s.py (get row column.name) column = .ok (true, message)) ↔
        Fits p q v) ↔ DigitsFine p q c e) := by
    intro negative c e v h hv
    rw [← isDecimal_iff h hv hp hq hone hpq, validateValue_decimal hlogical (numeral_not_null h)]
    simp
  constructor
  · intro h negative c e hnumeral
    exact (judged hnumeral rfl).mp (h _ _ hnumeral rfl)
  · intro h number v hnumeral hv
    cases number with
    | finite negative c e => exact (judged hnumeral hv).mpr (h negative c e hnumeral)
    | infinite negative => cases hv
    | nan => cases hv

theorem checked_iff {row : Row α} : s.Checked row ↔
    ∀ f ∈ found s.py s.moves s.contract.columns row, Checkable s.py f.2 f.1 :=
  forall₂_congr fun _ _ => validateValue_ok

theorem reports_columns {index : ℕ} {row : Row α} :
    ((s.reports index row).filter fun d => d.action = .variantColumn).map
        ContractDiagnostic.column =
      if s.policy = .variantColumn then (s.conflictsOf row).map fun f => f.1.name else [] := by
  have haction : ∀ d ∈ s.reports index row, d.action = s.action := by
    intro d hd
    obtain ⟨f, -, rfl⟩ := List.mem_map.mp hd
    rfl
  by_cases hpolicy : s.policy = .variantColumn
  · have hvariant : s.action = .variantColumn := (actionOf_variantColumn _ _).mpr hpolicy
    rw [if_pos hpolicy, List.filter_eq_self.mpr fun d hd => by simp [haction d hd, hvariant],
      reports, List.map_map]
    rfl
  · have hvariant : s.action ≠ .variantColumn := mt (actionOf_variantColumn _ _).mp hpolicy
    rw [if_neg hpolicy, List.filter_eq_nil_iff.mpr fun d hd => by simp [haction d hd, hvariant],
      List.map_nil]

theorem leftRow_eq {row : Row α} (h : s.policy ≠ .variantColumn) : s.leftRow row = row := by
  have hmoves : s.moves = false := decide_eq_false h
  rw [leftRow, hmoves, foldl_afterColumn_false]

/-- Setting conflicting values apart takes room, and no more. -/
theorem apart_iff {index : ℕ} {row : Row α} :
    SetApart (((s.reports index row).filter fun d => d.action = .variantColumn).map
      ContractDiagnostic.column) row (s.leftRow row) ↔
    (s.policy = .variantColumn → Room ((s.conflictsOf row).map fun f => f.1.name) row) := by
  rw [reports_columns]
  by_cases hpolicy : s.policy = .variantColumn
  · rw [if_pos hpolicy]
    have hmoves : s.moves = true := decide_eq_true hpolicy
    constructor
    · intro h _ name hname
      obtain ⟨hnone, hkept⟩ := h.kept name hname
      refine ⟨hnone, fun hvariant => ?_⟩
      rw [h.emptied _ hvariant] at hkept
      exact (Option.some.inj hkept).symm
    · intro h
      have hroom := h hpolicy
      rw [conflictsOf, hmoves] at hroom ⊢
      rw [leftRow, hmoves]
      exact setApart_columns s.contract.distinct hroom
  · rw [if_neg hpolicy, leftRow_eq hpolicy]
    exact iff_of_true (SetApart.refl row) fun h => absurd h hpolicy

/-- The outcome of a row is the announced one if quarantine is not announced in vain. -/
theorem agrees_outcome {row : Row α} {index : ℕ}
    (h : s.policy = .quarantine → s.contract.enforcement = .quarantine ∨ s.conflictsOf row = []) :
    ∀ d ∈ s.reports index row, agrees d.action (s.outcomeOf (row, index)) = true := by
  intro d hd
  obtain ⟨f, hf, rfl⟩ := List.mem_map.mp hd
  have hconflicts : s.conflictsOf row ≠ [] := List.ne_nil_of_mem hf
  have hquarantine : s.policy = .quarantine → s.contract.enforcement = .quarantine :=
    fun hp => (h hp).resolve_right hconflicts
  change agrees s.action (s.outcomeOf (row, index)) = true
  simp only [outcomeOf, hconflicts, false_or]
  cases hpolicy : s.policy <;> cases hmode : s.contract.enforcement <;>
    simp_all [action, actionOf, ContractAction.keeps, agrees]

theorem enforce_ok {writer : DlqWriter α} (hwriter : s.writer = some writer)
    {rows : List (Row α)} {r : ContractEnforcementResult α} {records : List (DlqRecord α)}
    (h : s.enforce rows = .ok (r, records)) :
    (∀ row ∈ rows, s.Checked row) ∧
      r.targetRows = (rows.zipIdx.map s.outcomeOf).filterMap Outcome.targetRow ∧
      r.diagnostics = rows.zipIdx.flatMap (fun e => s.reports e.2 e.1) ∧
      records = (rows.zipIdx.map s.outcomeOf).filterMap Outcome.dlqRecord ∧
      r.quarantinedRows = records.length ∧ r.dlqRecordIds.length = records.length ∧
      r.rejectedRows = (rows.zipIdx.map s.outcomeOf).countP Outcome.isRejected ∧
      (r.stateCommitAllowed = true ↔ r.rejectedRows = 0) := by
  obtain ⟨tally, hrows, hresult⟩ := bind_ok.mp h
  obtain ⟨hchecked, rfl⟩ := (enforceRows_ok hwriter).mp hrows
  have hspec := tally_spec (s := s) writer rows.zipIdx {}
  simp only [List.nil_append, Nat.zero_add, List.length_nil] at hspec
  obtain ⟨htarget, hdiagnostics, hrejected, hquarantined, hids, hrecords⟩ := hspec
  obtain ⟨rfl, rfl⟩ := Prod.mk.inj (Except.ok.inj hresult)
  refine ⟨fun row hrow => ?_, htarget, hdiagnostics, hrecords, ?_, ?_, hrejected, ?_⟩
  · obtain ⟨i, hi, rfl⟩ := List.getElem_of_mem hrow
    exact hchecked (rows[i], i) (List.mk_mem_zipIdx_iff_getElem?.mpr (List.getElem?_eq_getElem hi))
  · rw [hrecords]
    exact hquarantined
  · rw [hrecords]
    exact hids
  · simp

theorem enforce_returns {writer : DlqWriter α} (hwriter : s.writer = some writer)
    {rows : List (Row α)} (h : ∀ row ∈ rows, s.Checked row) :
    ∃ r records, s.enforce rows = .ok (r, records) := by
  have hrows : rows.zipIdx.foldlM s.enforceRow {} =
      .ok (rows.zipIdx.foldl (s.addRow writer) {}) :=
    (enforceRows_ok hwriter).mpr
      ⟨fun entry hentry => h entry.1 (List.fst_mem_of_mem_zipIdx hentry), rfl⟩
  exact ⟨_, _, bind_ok.mpr ⟨_, hrows, rfl⟩⟩

theorem outcomeOf_target {entry : Row α × ℕ} {row : Row α}
    (h : s.outcomeOf entry = .target row) : row = s.leftRow entry.1 := by
  unfold outcomeOf at h
  split_ifs at h
  exact (Outcome.target.inj h).symm

theorem outcomeOf_quarantined {entry : Row α × ℕ} {record : DlqRecord α}
    (h : s.outcomeOf entry = .quarantined record) :
    record.rowIndex = s.rowOffset + entry.2 ∧ record.row = entry.1 := by
  unfold outcomeOf at h
  split_ifs at h with hkept
  obtain rfl := Outcome.quarantined.inj h
  have hpolicy : s.policy ≠ .variantColumn := by
    intro hpolicy
    have hvariant : s.action = .variantColumn := (actionOf_variantColumn _ _).mpr hpolicy
    exact hkept (.inr (by rw [hvariant]; rfl))
  exact ⟨rfl, leftRow_eq hpolicy⟩

theorem targets_eq : ∀ {outcomes : List (Outcome α)}, (∀ o ∈ outcomes, ∃ row, o = .target row) →
    outcomes = (outcomes.filterMap Outcome.targetRow).map .target
  | [], _ => rfl
  | o :: outcomes, h => by
    obtain ⟨⟨row, rfl⟩, hrest⟩ := List.forall_mem_cons.mp h
    rw [List.filterMap_cons, Outcome.targetRow, List.map_cons, ← targets_eq hrest]

/-- A Python without other objects, whose texts are no timestamps and no JSON. -/
def plainPython : Builtins Empty where
  toUnicode := Unicode.ascii
  isDigit := Char.isDigit
  floatStr := fun _ => []
  objectStr := fun _ x => x.elim
  repr := fun _ => []
  objectFloat := fun _ x => x.elim
  objectBit := fun _ x => x.elim
  isDatetime := fun _ => false
  isDate := fun _ => false
  isTime := fun _ => false
  isJson := fun _ => .ok false

/-- A strict contract of one column of type `decimal(5, 2)`. -/
def strictAmounts (policy : ConflictPolicy) : Enforcement Empty where
  py := plainPython
  writer := some ⟨fun _ _ => ⟨[], []⟩, fun _ _ => none⟩
  contract := {
    columns := [⟨"amount".toList, "decimal".toList, some 5, some 2, true⟩]
    distinct := by simp }
  policy := policy
  runId := []
  loadId := []
  rowOffset := 0
  finalizeDlq := true

def amount (n : ℤ) : Row Empty := [("amount".toList, .int n)]

end Enforcement

end Dpone.TypeSystem
