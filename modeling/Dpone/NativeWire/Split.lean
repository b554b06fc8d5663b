import Mathlib.Data.List.Forall2
import Dpone.NativeWire.Framing

/-! Splitting an artifact into fields.

    A native BCP file has no row or field delimiters: one reader that stops a byte early loses every
    later field. Field agreement lifts to rows and from rows to the whole file, and both loops end
    because a validated layout has no field without bytes. -/

namespace Dpone.NativeWire
open Dpone.Schemes

variable (py : Runtime) (digest : Digest)

/-- The fields of an artifact as the core splits it: `iter_rows` over `read_native_payload`. -/
def splitFields (columns : List NativeWireColumnLayout) (artifact : Bytes) :
    Option (Except PyError (List (List (Option Bytes)))) :=
  readRows (readRow (fun c i h => readNativePayload py h c i) columns 0) artifact.length
    { data := artifact, position := 0 }

/-- The fields of an artifact as the accelerator splits it. -/
def splitFieldsAccel (columns : List ColumnLayout) (artifact : Bytes) :
    Option (Except PyError (List (List (Option Bytes)))) :=
  readRows (readRow (fun c i h => readPayload py h c i) columns 0) artifact.length
    { data := artifact, position := 0 }

theorem columnsFromContract_field {enc : BinaryEncoding} :
    ∀ {raws : List NativeWireColumnLayout} {targets : List Str} {columns : List ColumnLayout},
      columnsFromContract py enc raws targets = .ok columns →
      List.Forall₂ (fun raw column => ColumnLayout.field column = raw.field) raws columns
  | [], _, _, h => by cases h; exact .nil
  | raw :: raws, targets, columns, h => by
      obtain ⟨c, hc, h⟩ := bind_ok.mp h
      obtain ⟨cs, hcs, h⟩ := bind_ok.mp h
      cases h
      exact .cons (fromContract_field py hc) (columnsFromContract_field hcs)

/-- What both validators establish about a contract's columns. -/
theorem columnsFromRequest_ok {contract : SourceNativeWireContract} {schema : List (Str × Str)}
    {enc : BinaryEncoding} {columns : List ColumnLayout}
    (h : columnsFromRequest py digest contract schema enc = .ok columns) :
    validateContract py digest contract = .ok () ∧
      columnsFromContract py enc contract.columns (schema.map (·.2)) = .ok columns := by
  obtain ⟨⟨⟩, hv, h⟩ := bind_ok.mp h
  obtain ⟨⟨⟩, -, h⟩ := bind_ok.mp h
  exact ⟨hv, h⟩

theorem validateMssqlNativeContract_ok {contract : SourceNativeWireContract}
    (h : validateMssqlNativeContract py digest contract = .ok ()) :
    contract.columns ≠ [] ∧ (contract.columns.map (·.name)).Nodup ∧
      validateLayouts py 0 contract.columns = .ok () := by
  obtain ⟨⟨⟩, hprofile, h⟩ := bind_ok.mp h
  obtain ⟨⟨⟩, hnames, h⟩ := bind_ok.mp h
  obtain ⟨⟨⟩, hlayouts, -⟩ := bind_ok.mp h
  simp only [raiseIf_ok, not_or, not_not] at hprofile hnames
  exact ⟨hprofile.2.2.2.2, hnames.2, hlayouts⟩

/-- The core's row reader consumes bytes on every row of a validated contract. -/
theorem readNativeRow_advances {columns : List NativeWireColumnLayout} {i : ℕ}
    (hne : columns ≠ []) (hocc : ∀ c ∈ columns, Occupied c.field) :
    (readRow (fun c i h => readNativePayload py h c i) columns i).Advances := by
  cases columns with
  | nil => exact absurd rfl hne
  | cons c cs =>
    refine readRow_advances (fun c i h v h' hr => (readNativePayload_rest py hr).1) ?_
    exact fun h v h' hr _ => (readNativePayload_rest py hr).2 (hocc c (List.mem_cons_self ..))

/-- CORRECT (refinement): on every contract both packages accept, the two readers agree field by
    field on NULL, value or error, on the payload and on where they leave the stream, at every
    position of every stream. Hence every artifact splits into the same fields on both sides, or
    is rejected by both. -/
theorem readers_split_alike (contract : SourceNativeWireContract) (schema : List (Str × Str))
    (enc : BinaryEncoding) (columns : List ColumnLayout)
    (hcore : validateMssqlNativeContract py digest contract = .ok ())
    (haccel : columnsFromRequest py digest contract schema enc = .ok columns) :
    List.Forall₂ (fun layout column => ∀ (ordinal : ℕ) (handle : Handle),
        (readNativePayload py handle layout ordinal).toOption =
          (readPayload py handle column ordinal).toOption) contract.columns columns ∧
      ∀ artifact : Bytes, ∃ core accel,
        splitFields py contract.columns artifact = some core ∧
        splitFieldsAccel py columns artifact = some accel ∧ core.toOption = accel.toOption := by
  obtain ⟨hne, -, hlayouts⟩ := validateMssqlNativeContract_ok py digest hcore
  obtain ⟨-, hcolumns⟩ := columnsFromRequest_ok py digest haccel
  have hcells : List.Forall₂ (fun layout column => ∀ (ordinal : ℕ) (handle : Handle),
      (readNativePayload py handle layout ordinal).toOption =
        (readPayload py handle column ordinal).toOption) contract.columns columns :=
    List.Forall₂.imp (fun _ _ hf i h => readers_agree py hf h i)
      (columnsFromContract_field py hcolumns)
  refine ⟨hcells, fun artifact => ?_⟩
  have hrow := readNativeRow_advances py (i := 0) hne (validateLayouts_occupied py hlayouts)
  obtain ⟨core, hcore⟩ : ∃ core, splitFields py contract.columns artifact = some core :=
    readRows_total hrow (by simp [Handle.rest])
  have hrows : Reader.Agree (readRow (fun c i h => readNativePayload py h c i) contract.columns 0)
      (readRow (fun c i h => readPayload py h c i) columns 0) := readRow_agree 0 hcells
  have hsplit := readRows_agree hrows artifact.length ⟨artifact, 0⟩
  change (splitFields py contract.columns artifact).map _ =
    (splitFieldsAccel py columns artifact).map _ at hsplit
  rw [hcore] at hsplit
  obtain ⟨accel, haccel, heq⟩ := Option.map_eq_some_iff.mp hsplit.symm
  exact ⟨core, accel, hcore, haccel, heq.symm⟩

/-- A nullable integer and a `varchar` on one contract. -/
def sampleLayouts : List NativeWireColumnLayout :=
  [{ name := "id".toList, sourceType := "int nullable".toList, targetType := "Nullable(Int32)".toList,
     nullable := true, storageType := .int, prefixWidth := 1, fixedLength := some 4 },
   { name := "tag".toList, sourceType := "varchar(3)".toList, targetType := "String".toList,
     nullable := false, storageType := .varchar, prefixWidth := 2, encoding := some .utf8 }]

def sampleContract : SourceNativeWireContract :=
  { schemaVersion := nativeWireVersion, sourceSystem := "mssql".toList,
    sourceFormat := "mssql-bcp-native".toList, targetFormat := "Native".toList,
    columns := sampleLayouts, schemaHash := [], typeLayoutHash := [], blockers := [] }

theorem readers_split_sample :
    ∃ columns, List.Forall₂ (fun layout column => ∀ (ordinal : ℕ) (handle : Handle),
        (readNativePayload Runtime.ascii handle layout ordinal).toOption =
          (readPayload Runtime.ascii handle column ordinal).toOption) sampleLayouts columns := by
  exact ⟨_, (readers_split_alike Runtime.ascii ⟨fun _ => [], fun _ => []⟩ sampleContract [] .none _
    rfl rfl).1⟩

end Dpone.NativeWire
