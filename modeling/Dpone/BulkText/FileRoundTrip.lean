import Dpone.BulkText.DelimitedFile
import Dpone.Schemes.Records

/-! What is read back from a delimited bulk file.

    A cell that matches its column is written as a text without separators, so rows and fields are
    cut where they were joined, and every cell is decoded to itself but one: an empty binary is
    written as nothing, which is how NULL is written. CORRECT: the rows come back exactly when no
    cell is an empty binary and a file of rows has a column. -/

namespace Dpone.BulkText
open Dpone.Schemes

/-- The codec of an encoded file. -/
abbrev codec : BulkTextCodec Char := .default

variable (u : Unicode)

/-- A column type both sides take for text. -/
structure TextColumn (dtype : Str) : Prop where
  written : isTextType (normalizedType u (some dtype)) = true
  not_temporal : isTemporalType (normalizedType u (some dtype)) = false
  not_numeric : isNumericType (normalizedType u (some dtype)) = false
  read : isBulkTextType u dtype = true
  not_binary : isBinaryType u dtype = false

/-- A cell of a column with this type. -/
def Matching (dtype : Option Str) : BcpCell → Prop
  | .null => True
  | .text _ => ∃ d, dtype = some d ∧ TextColumn u d
  | .binary _ => ∃ d, dtype = some d ∧ isBinaryType u d = true

/-- Every cell that is written matches its column. -/
def RowsMatch (rows : List Row) (columns : List Str) (columnTypes : List (Str × Str)) : Prop :=
  ∀ row ∈ rows, ∀ column ∈ columns, Matching u (columnTypes.lookup column) (cellOf row column)

def wireText : BcpCell → Str
  | .null => []
  | .text value => codec.encode value
  | .binary value => hexText value

/-- What becomes of a cell. -/
def readBack : BcpCell → BcpCell
  | .binary [] => .null
  | cell => cell

variable {u} {formatBcpDatetime : Str → Str → Except PyError Str}

theorem format_matching {dtype : Option Str} {cell : BcpCell} (h : Matching u dtype cell) :
    formatMssqlBcpScalar u formatBcpDatetime .encoded dtype cell = .ok (wireText cell) := by
  cases cell with
  | null => rfl
  | binary value => rfl
  | text value =>
    obtain ⟨d, rfl, hd⟩ := h
    have hother : ∀ name : String, isTextType name.toList = false →
        normalizedType u (some d) ≠ name.toList := by
      intro name hname heq
      have hwritten := hd.written
      rw [heq, hname] at hwritten
      cases hwritten
    simp only [formatMssqlBcpScalar, hd.not_temporal, hd.not_numeric, hd.written,
      if_neg (hother "bit" (by decide)), if_neg (hother "date" (by decide)),
      if_neg (hother "uniqueidentifier" (by decide)), DelimitedBulkFile.encoded, Bool.false_eq_true,
      if_false, or_true, if_true]
    rw [(encode_safe value).asserted]
    rfl

/-- Separators of the file do not stand in a cell. -/
theorem wireText_plain (cell : BcpCell) {c : Char} (hc : c = '\t' ∨ c = '\n') :
    c ∉ wireText cell := by
  cases cell with
  | null => exact List.not_mem_nil
  | text value =>
    have hframe : c ∈ frameControls := by rcases hc with rfl | rfl <;> decide
    exact encode_plain value hframe
  | binary value =>
    intro hmem
    obtain ⟨n, hn, rfl⟩ := mem_hexText hmem
    have hdigit := digitChar_plain n hn
    exact hc.elim hdigit.2.1 hdigit.2.2.1

theorem wireBytes_plain (cell : BcpCell) {c : Char} (hc : c = '\t' ∨ c = '\n') :
    UInt8.ofNat c.toNat ∉ encodeUtf8 (wireText cell) := by
  have hascii : c.toNat < 0x80 := by rcases hc with rfl | rfl <;> decide
  exact fun hmem => wireText_plain cell hc (mem_of_mem_encodeUtf8 hascii hmem)

/-- A hexadecimal text holds no marker, so the codec leaves it alone. -/
theorem decode_hexText (value : Bytes) : codec.decode (hexText value) = hexText value := by
  refine decode_unmarked fun hmem => ?_
  obtain ⟨n, hn, heq⟩ := mem_hexText hmem
  exact (digitChar_plain n hn).2.2.2 heq.symm

theorem encodeUtf8_eq_nil {s : Str} : encodeUtf8 s = [] ↔ s = [] := by
  constructor
  · intro h
    have hdecoded := decodeUtf8_encodeUtf8 s
    rw [h] at hdecoded
    exact (Option.some.inj hdecoded).symm
  · rintro rfl
    rfl

theorem hexText_eq_nil {value : Bytes} : hexText value = [] ↔ value = [] := by
  constructor
  · intro h
    have hread := fromHex_hexText value
    rw [h] at hread
    exact (Option.some.inj hread).symm
  · rintro rfl
    rfl

/-- CORRECT: a cell is decoded to itself, an empty binary to NULL. -/
theorem decodeWireValue_wireText {dtype : Option Str} {cell : BcpCell}
    (h : Matching u dtype cell) :
    decodeWireValue u (encodeUtf8 (wireText cell)) (dtype.getD []) codec =
      .ok (readBack cell) := by
  cases cell with
  | null => rfl
  | text value =>
    obtain ⟨d, rfl, hd⟩ := h
    have hne : encodeUtf8 (wireText (.text value)) ≠ [] := fun hnil =>
      encode_ne_nil value (encodeUtf8_eq_nil.mp hnil)
    rw [decodeWireValue, if_neg hne, decodeUtf8_encodeUtf8]
    simp only [Option.getD_some, hd.not_binary, hd.read, Bool.false_eq_true, if_false, if_true]
    rw [wireText, decode_encode]
    rfl
  | binary value =>
    obtain ⟨d, rfl, hd⟩ := h
    cases value with
    | nil => rfl
    | cons b value =>
      have hne : encodeUtf8 (wireText (.binary (b :: value))) ≠ [] := fun hnil =>
        List.cons_ne_nil b value (hexText_eq_nil.mp (encodeUtf8_eq_nil.mp hnil))
      rw [decodeWireValue, if_neg hne, decodeUtf8_encodeUtf8]
      simp only [Option.getD_some, hd, if_true]
      rw [wireText, decode_hexText, fromHex_hexText]
      rfl

/-! ### Rows -/

variable (rows : List Row) (columns : List Str) (columnTypes : List (Str × Str))

/-- The cells of a row, in the order of the columns. -/
def cells (columns : List Str) (row : Row) : List BcpCell := columns.map (cellOf row)

/-- The columns with their types, as a reader is given them. -/
def schemaOf (columns : List Str) (columnTypes : List (Str × Str)) : List (Str × Str) :=
  columns.map fun column => (column, (columnTypes.lookup column).getD [])

def wireFields (columns : List Str) (row : Row) : List Bytes :=
  (cells columns row).map fun cell => encodeUtf8 (wireText cell)

/-- The bytes of one row before its terminator. -/
def wireBody (columns : List Str) (row : Row) : Bytes :=
  [UInt8.ofNat 9].intercalate (wireFields columns row)

variable {rows columns columnTypes}

section Writing
variable (formatBcpDatetime)

theorem rowText_matching {row : Row}
    (h : ∀ column ∈ columns, Matching u (columnTypes.lookup column) (cellOf row column)) :
    ∃ text, rowText u formatBcpDatetime .encoded columns columnTypes row = .ok text ∧
      encodeUtf8 text = wireBody columns row ++ [UInt8.ofNat 10] := by
  have hvalues := mapM_map (f := fun column => formatMssqlBcpScalar u formatBcpDatetime .encoded
    (columnTypes.lookup column) (cellOf row column)) fun column hcolumn =>
      format_matching (h column hcolumn)
  refine ⟨_, by rw [rowText, hvalues]; rfl, ?_⟩
  rw [encodeUtf8_append, encodeUtf8_intercalate, List.map_map, wireBody, wireFields, cells,
    List.map_map]
  rfl

/-- The bytes of the file. -/
def wireFile (columns : List Str) (rows : List Row) : Bytes :=
  rows.flatMap fun row => wireBody columns row ++ [UInt8.ofNat 10]

theorem writeFrom_matching : ∀ {rows : List Row}, RowsMatch u rows columns columnTypes →
    ∀ (written : Bytes) (count : ℕ),
    writeFrom u formatBcpDatetime .encoded columns columnTypes rows written count =
      .ok (written ++ wireFile columns rows, count + rows.length)
  | [], _, written, count => by simp [writeFrom, wireFile]
  | row :: rows, h, written, count => by
    obtain ⟨text, htext, hbytes⟩ := rowText_matching formatBcpDatetime
      (h row (List.mem_cons_self ..))
    have hrest : RowsMatch u rows columns columnTypes :=
      fun r hr => h r (List.mem_cons_of_mem _ hr)
    have htail := writeFrom_matching hrest (written ++ encodeUtf8 text) (count + 1)
    have hstep : writeFrom u formatBcpDatetime .encoded columns columnTypes (row :: rows) written
        count = writeFrom u formatBcpDatetime .encoded columns columnTypes rows
          (written ++ encodeUtf8 text) (count + 1) := by
      rw [writeFrom, htext]
      rfl
    rw [hstep, htail, hbytes, wireFile, wireFile, List.flatMap_cons, List.append_assoc,
      List.length_cons, Nat.add_assoc, Nat.add_comm 1]

end Writing

/-! ### Records -/

theorem wireFields_plain {row : Row} {c : Char} (hc : c = '\t' ∨ c = '\n') {field : Bytes}
    (hfield : field ∈ wireFields columns row) : UInt8.ofNat c.toNat ∉ field := by
  obtain ⟨cell, -, rfl⟩ := List.mem_map.mp hfield
  exact wireBytes_plain cell hc

theorem wireBody_plain (row : Row) : UInt8.ofNat 10 ∉ wireBody columns row := by
  intro hmem
  rcases mem_of_mem_intercalate hmem with hsep | ⟨field, hfield, hx⟩
  · exact absurd (List.mem_singleton.mp hsep) (by decide)
  · exact wireFields_plain (.inr rfl) hfield hx

/-- A written row is a record of its fields. -/
theorem wireRow_body (row : Row) (hcolumns : columns ≠ []) :
    wireRow columns.length codec none (wireBody columns row ++ [UInt8.ofNat 10]) =
      .ok (wireFields columns row) := by
  have hends : endsWith [UInt8.ofNat 10] (wireBody columns row ++ [UInt8.ofNat 10]) = true := by
    rw [endsWith, List.reverse_append]
    exact List.isPrefixOf_iff_prefix.mpr (List.prefix_append _ _)
  have hlength : (wireFields columns row).length = columns.length := by
    rw [wireFields, cells, List.length_map, List.length_map]
  have hne : wireFields columns row ≠ [] := by
    intro hnil
    rw [hnil] at hlength
    exact hcolumns (List.length_eq_zero_iff.mp hlength.symm)
  have hsplit : splitWord [UInt8.ofNat 9] (wireBody columns row) = wireFields columns row :=
    splitWord_intercalate hne fun field hfield => wireFields_plain (.inl rfl) hfield
  have hterminator : encodeUtf8 codec.rowTerminator = [UInt8.ofNat 10] := rfl
  have hseparator : encodeUtf8 codec.fieldTerminator = [UInt8.ofNat 9] := rfl
  simp only [wireRow, hterminator, hseparator, hends, Option.any_none, Bool.false_eq_true, if_false,
    Bool.not_true, List.length_append, Nat.add_sub_cancel, List.take_left, hsplit, hlength,
    ne_eq, not_true_eq_false]

/-- A row of no column is a record that does not fit its schema. -/
theorem wireRow_empty : wireRow 0 codec none [UInt8.ofNat 10] = .error "row_width_mismatch" := by
  decide

theorem wireRowsFrom_file (hcolumns : columns ≠ []) : ∀ (rows : List Row) (fuel : ℕ),
    (wireFile columns rows).length ≤ fuel →
    wireRowsFrom columns.length codec none fuel (wireFile columns rows) =
      .ok (rows.map (wireFields columns))
  | [], 0, _ => rfl
  | [], fuel + 1, _ => rfl
  | row :: rows, 0, h => by
    exfalso
    simp [wireFile] at h
  | row :: rows, fuel + 1, h => by
    have hfile : wireFile columns (row :: rows) =
        wireBody columns row ++ UInt8.ofNat 10 :: wireFile columns rows := by
      simp [wireFile]
    have hline : readline none (wireFile columns (row :: rows)) =
        (wireBody columns row ++ [UInt8.ofNat 10], wireFile columns rows) := by
      rw [hfile, readline, firstLine_append _ (wireBody_plain row)]
      simp
    have hfuel : (wireFile columns rows).length ≤ fuel := by
      rw [hfile, List.length_append, List.length_cons] at h
      omega
    have htail := wireRowsFrom_file hcolumns rows fuel hfuel
    rw [wireRowsFrom, Option.map_none, hline]
    simp only [List.append_eq_nil_iff, List.cons_ne_nil, and_false, if_false]
    rw [wireRow_body row hcolumns, ok_bind, htail, ok_bind]
    rfl

theorem decodeRow_fields {row : Row}
    (h : ∀ column ∈ columns, Matching u (columnTypes.lookup column) (cellOf row column)) :
    decodeRow u (schemaOf columns columnTypes) codec (wireFields columns row) =
      .ok ((cells columns row).map readBack) := by
  have hzip : (wireFields columns row).zip (schemaOf columns columnTypes) =
      columns.map fun column => (encodeUtf8 (wireText (cellOf row column)),
        (column, (columnTypes.lookup column).getD [])) := by
    rw [wireFields, cells, schemaOf, List.map_map, List.zip_map']
    rfl
  rw [decodeRow, hzip, List.mapM_map, cells, List.map_map]
  exact mapM_map fun column hcolumn => decodeWireValue_wireText (h column hcolumn)

/-- CORRECT: a written file is read as its rows, none split and none merged, with NULL in the place
    of every empty binary. -/
theorem iterRows_file (h : RowsMatch u rows columns columnTypes) (hcolumns : columns ≠ []) :
    iterRows u (wireFile columns rows) (schemaOf columns columnTypes) codec none =
      .ok (rows.map fun row => (cells columns row).map readBack) := by
  have hwidth : (schemaOf columns columnTypes).length = columns.length := List.length_map _
  have hrecords := wireRowsFrom_file hcolumns rows _ le_rfl
  rw [iterRows, iterWireRows, hwidth, hrecords, ok_bind, List.mapM_map]
  exact mapM_map fun row hrow => decodeRow_fields (h row hrow)

theorem iterRows_no_columns {row : Row} :
    iterRows u (wireFile [] (row :: rows)) (schemaOf [] columnTypes) codec none =
      .error "row_width_mismatch" := by
  have hfile : wireFile [] (row :: rows) = UInt8.ofNat 10 :: wireFile [] rows := by
    simp [wireFile, wireBody, wireFields, cells]
  rw [iterRows, iterWireRows, hfile, List.length_cons, wireRowsFrom]
  rfl

/-- The rows come back as they were written. -/
def RoundTrips (u : Unicode) (formatBcpDatetime : Str → Str → Except PyError Str) (rows : List Row)
    (columns : List Str) (columnTypes : List (Str × Str)) : Prop :=
  ∃ data count, writeRows u formatBcpDatetime .encoded rows columns columnTypes =
      .ok (data, count) ∧
    iterRows u data (schemaOf columns columnTypes) codec none = .ok (rows.map (cells columns))

theorem readBack_eq_self {cell : BcpCell} : readBack cell = cell ↔ cell ≠ .binary [] := by
  constructor
  · rintro h rfl
    cases h
  · intro h
    cases cell with
    | null => rfl
    | text value => rfl
    | binary value =>
      cases value with
      | nil => exact absurd rfl h
      | cons b value => rfl

/-- Two columns and a row of each kind of cell. -/
def sampleColumns : List Str := ["note".toList, "payload".toList]

def sampleTypes : List (Str × Str) :=
  [("note".toList, "nvarchar(max)".toList), ("payload".toList, "varbinary(max)".toList)]

def sampleRows : List Row :=
  [[("note".toList, .text []), ("payload".toList, .binary [0, 10])],
    [("note".toList, .text "a\tb".toList)]]

end Dpone.BulkText
