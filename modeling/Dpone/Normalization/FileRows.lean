import Dpone.Schemes.CsvText
import Dpone.Schemes.Dict
import Dpone.Schemes.JsonRoundTrip
import Dpone.Schemes.Records

/-! The rows of a delimited file artifact.

    A file is read by the `csv` module; the first record is skipped if it is the header, and every
    other one becomes a row of the artifact's columns. A cell whose text opens as a JSON object or
    array is parsed, and a text that turns out not to be JSON raises. CORRECT: the rows of a table
    come back, every cell that is a whole JSON object or array parsed and the others as they are,
    exactly for the tables that `Readable` describes. -/

namespace Dpone.Normalization
open Dpone.Schemes

namespace FileRows

/-- A Unicode database whose blanks include those of JSON. -/
structure Blanks extends Unicode where
  json_blank : ∀ c : Char, JsonValue.space (cp c) = true → isSpace c = true

inductive ReadError where
  | noColumns
  | decode
  | csv (e : Csv.Error)
  | width (fields columns : ℕ)
  | json
  deriving DecidableEq

/-- A value of a row. -/
inductive Cell where
  | text (s : Str)
  | json (v : JsonValue)

/-- A row, by column names. -/
abbrev Row := List (Str × Cell)

/-- `stripped.startswith("{") or stripped.startswith("[")`. -/
def opensJson (stripped : Str) : Bool := stripped.head? = some '\x7b' || stripped.head? = some '['

/-- `csv.field_size_limit()`. -/
def fieldLimit : ℕ := 131072

/-- `_delimiter`. -/
def delimiterOf (fileFormat : Str) : Char :=
  if fileFormat ∈ ["tsv".toList, "tab".toList, "tabseparated".toList, "tab_separated".toList] then
    '\t'
  else ','

section Reader
variable (u : Unicode)

/-- `_is_header`. -/
def isHeader (record columns : List Str) : Bool :=
  record.map (fun cell => u.lower (strip u cell)) =
    columns.map fun column => u.lower (strip u column)

/-- `_parse_nested_cell`. -/
def parseNestedCell (value : Str) : Except ReadError Cell :=
  if strip u value = [] then .ok (.text value)
  else if !opensJson (strip u value) then .ok (.text value)
  else match JsonValue.loads JsonValue.Hooks.python (textOf (strip u value)) with
    | none => .error .json
    | some parsed => .ok (if parsed.isContainer then .json parsed else .text value)

/-- The mapping of a record. -/
def rowOf (columns record : List Str) : Except ReadError Row :=
  (columns.zip record).foldlM
    (fun row field => (parseNestedCell u field.2).map fun cell => Dict.set field.1 cell row) []

/-- The loop over the records, the flag being whether none was taken yet. -/
def rowLoop (columns : List Str) : Bool → List (List Str) → Except ReadError (List Row)
  | _, [] => .ok []
  | first, record :: records =>
    if first && isHeader u record columns then rowLoop columns false records
    else if record.length ≠ columns.length then .error (.width record.length columns.length)
    else do
      let row ← rowOf u columns record
      let rows ← rowLoop columns false records
      return row :: rows

/-- `_delimited_rows` of a file in UTF-8. -/
def delimitedRows (fileFormat : Str) (columns : List Str) (file : Bytes) :
    Except ReadError (List Row) :=
  if columns = [] then .error .noColumns
  else match decodeUtf8 file with
    | none => .error .decode
    | some text =>
      let read := Csv.records fieldLimit (delimiterOf fileFormat) {} text
      match rowLoop u columns true read.records, read.error with
      | .error e, _ => .error e
      | .ok _, some e => .error (.csv e)
      | .ok rows, none => .ok rows

end Reader

/-! ### What a table says -/

section Meaning
variable (u : Unicode)

/-- A cell that is a whole JSON object or array is parsed, and every other one is its text. -/
def cellMeaning (cell : Str) : Cell :=
  match JsonValue.loads JsonValue.Hooks.python (textOf (strip u cell)) with
  | some v => if v.isContainer then .json v else .text cell
  | none => .text cell

/-- A row that has the cells of a record under its columns, and nothing else. -/
structure Holds (columns record : List Str) (row : Row) : Prop where
  cells : ∀ field ∈ columns.zip record, row.lookup field.1 = some (cellMeaning u field.2)
  columns : ∀ column cell, row.lookup column = some cell → column ∈ columns

/-- Rows as wide as the columns. -/
structure Table (columns : List Str) where
  rows : List (List Str)
  width : ∀ row ∈ rows, row.length = columns.length

/-- No name or cell is beyond the limit of a field, what opens as JSON is JSON, and where a name
    stands twice its cells say the same. -/
structure Readable {columns : List Str} (table : Table columns) : Prop where
  short : ∀ record ∈ columns :: table.rows, ∀ cell ∈ record, cell.length ≤ fieldLimit
  json : ∀ record ∈ table.rows, ∀ cell ∈ record, opensJson (strip u cell) = true →
    JsonValue.loads JsonValue.Hooks.python (textOf (strip u cell)) ≠ none
  names : ∀ record ∈ table.rows, ∀ field ∈ columns.zip record, ∀ other ∈ columns.zip record,
    field.1 = other.1 → cellMeaning u field.2 = cellMeaning u other.2

end Meaning

/-! ### Cells and rows -/

section Cells
variable {u : Blanks}

theorem skip_strip (cell : Str) :
    JsonValue.skip (textOf (strip u.toUnicode cell)) = textOf (strip u.toUnicode cell) := by
  rcases hstrip : strip u.toUnicode cell with _ | ⟨c, s⟩
  · rfl
  · have hspace : u.isSpace c = false := by
      obtain ⟨rest, hrest⟩ :=
        List.rdropWhile_prefix u.isSpace (l := cell.dropWhile u.isSpace)
      have hhead := List.head?_dropWhile_not u.isSpace cell
      unfold strip at hstrip
      rw [hstrip] at hrest
      rw [← hrest] at hhead
      simpa using hhead
    refine List.dropWhile_cons_of_neg ?_
    intro hblank
    rw [u.json_blank c hblank] at hspace
    cases hspace

theorem opensJson_iff (s : Str) : opensJson s = true ↔
    (textOf s).head? = some (cp '[') ∨ (textOf s).head? = some (cp '\x7b') := by
  cases s with
  | nil => simp [opensJson, textOf]
  | cons c s =>
    have hinj : ∀ d, CodePoint.ofChar c = cp d ↔ c = d := by
      intro d
      refine ⟨fun h => ?_, fun h => by rw [h]⟩
      have := congrArg CodePoint.toChar h
      rw [toChar_ofChar, toChar_ofChar] at this
      exact Option.some.inj this
    simp [opensJson, textOf, hinj, or_comm]

/-- SPEC: parsing a cell returns what it says, unless it opens as JSON and is none. -/
theorem parseNestedCell_eq (cell : Str) : parseNestedCell u.toUnicode cell =
    if opensJson (strip u.toUnicode cell) = true ∧
        JsonValue.loads JsonValue.Hooks.python (textOf (strip u.toUnicode cell)) = none then
      .error .json
    else .ok (cellMeaning u.toUnicode cell) := by
  have hcontainer : ∀ v,
      JsonValue.loads JsonValue.Hooks.python (textOf (strip u.toUnicode cell)) = some v →
      (v.isContainer = true ↔ opensJson (strip u.toUnicode cell) = true) := by
    intro v hv
    rw [JsonValue.loads_container hv, skip_strip, opensJson_iff]
  unfold parseNestedCell cellMeaning
  by_cases hopens : opensJson (strip u.toUnicode cell) = true
  · have hne : strip u.toUnicode cell ≠ [] := by
      intro h
      rw [h] at hopens
      cases hopens
    rw [if_neg hne, if_neg (by simp [hopens])]
    cases JsonValue.loads JsonValue.Hooks.python (textOf (strip u.toUnicode cell)) with
    | none => simp [hopens]
    | some v => simp
  · have htext : (match JsonValue.loads JsonValue.Hooks.python
        (textOf (strip u.toUnicode cell)) with
      | some v => if v.isContainer then Cell.json v else .text cell
      | none => .text cell) = .text cell := by
      cases hv : JsonValue.loads JsonValue.Hooks.python (textOf (strip u.toUnicode cell)) with
      | none => rfl
      | some v => exact if_neg (fun h => hopens ((hcontainer v hv).mp h))
    rw [htext]
    simp [hopens]

/-- A cell that opens as JSON and is none. -/
def Broken (u : Unicode) (cell : Str) : Prop :=
  opensJson (strip u cell) = true ∧
    JsonValue.loads JsonValue.Hooks.python (textOf (strip u cell)) = none

theorem parseNestedCell_ok {value : Str} {cell : Cell} :
    parseNestedCell u.toUnicode value = .ok cell ↔
      ¬ Broken u.toUnicode value ∧ cell = cellMeaning u.toUnicode value := by
  rw [parseNestedCell_eq]
  split_ifs with hbroken
  · exact ⟨nofun, fun h => absurd hbroken h.1⟩
  · exact ⟨fun h => ⟨hbroken, by cases h; rfl⟩, fun h => by rw [h.2]⟩

/-- The fields of a record, each with what it says. -/
def meanings (u : Unicode) (columns record : List Str) : Row :=
  (columns.zip record).map fun field => (field.1, cellMeaning u field.2)

/-- RUN: the mapping of a record, if none of its cells is broken. -/
theorem rowOf_ok {columns record : List Str} {row : Row} :
    rowOf u.toUnicode columns record = .ok row ↔
      (∀ field ∈ columns.zip record, ¬ Broken u.toUnicode field.2) ∧
        row = (meanings u.toUnicode columns record).foldl
          (fun row field => Dict.set field.1 field.2 row) [] := by
  unfold rowOf meanings
  generalize columns.zip record = fields
  generalize ([] : Row) = start
  induction fields generalizing start with
  | nil => exact ⟨fun h => ⟨nofun, by cases h; rfl⟩, fun h => by rw [h.2]; rfl⟩
  | cons field fields ih =>
    rw [List.foldlM_cons, bind_ok, List.forall_mem_cons, List.map_cons, List.foldl_cons]
    constructor
    · rintro ⟨next, hnext, hrest⟩
      obtain ⟨cell, hcell, rfl⟩ := map_ok.mp hnext
      obtain ⟨hok, rfl⟩ := parseNestedCell_ok.mp hcell
      obtain ⟨hall, hrow⟩ := (ih _).mp hrest
      exact ⟨⟨hok, hall⟩, hrow⟩
    · rintro ⟨⟨hok, hall⟩, hrow⟩
      exact ⟨_, map_ok.mpr ⟨_, parseNestedCell_ok.mpr ⟨hok, rfl⟩, rfl⟩, (ih _).mpr ⟨hall, hrow⟩⟩

/-- A record's mapping holds it if and only if no two of its fields disagree. -/
theorem holds_iff {columns record : List Str} :
    Holds u.toUnicode columns record ((meanings u.toUnicode columns record).foldl
        (fun row field => Dict.set field.1 field.2 row) []) ↔
      ∀ field ∈ columns.zip record, ∀ other ∈ columns.zip record,
        field.1 = other.1 → cellMeaning u.toUnicode field.2 = cellMeaning u.toUnicode other.2 := by
  have hiff := @Dict.lookup_sets_iff Str Cell _ _ _ (meanings u.toUnicode columns record)
  simp only [meanings, List.forall_mem_map] at hiff
  rw [← hiff]
  refine ⟨fun h => h.cells, fun h => ⟨h, ?_⟩⟩
  intro column cell hlookup
  rw [Dict.lookup_sets, List.lookup_nil, Option.or_none] at hlookup
  have hmem := List.mem_reverse.mp (Dict.mem_of_lookup hlookup)
  obtain ⟨field, hfield, heq⟩ := List.mem_map.mp hmem
  cases heq
  exact (List.of_mem_zip hfield).1

/-- RUN: rows after the header. -/
theorem rowLoop_ok {columns : List Str} : ∀ {records : List (List Str)} {rows : List Row},
    (∀ record ∈ records, record.length = columns.length) →
      (rowLoop u.toUnicode columns false records = .ok rows ↔
        List.Forall₂ (fun record row => rowOf u.toUnicode columns record = .ok row) records rows)
  | [], rows, _ => by
    rw [rowLoop, List.forall₂_nil_left_iff, Except.ok.injEq, eq_comm]
  | record :: records, rows, hwidth => by
    obtain ⟨hrecord, hrecords⟩ := List.forall_mem_cons.mp hwidth
    rw [rowLoop, Bool.false_and, if_neg Bool.false_ne_true, if_neg (not_not_intro hrecord), bind_ok,
      List.forall₂_cons_left_iff]
    constructor
    · rintro ⟨row, hrow, hafter⟩
      obtain ⟨rest, hrest, heq⟩ := bind_ok.mp hafter
      cases heq
      exact ⟨row, rest, hrow, (rowLoop_ok hrecords).mp hrest, rfl⟩
    · rintro ⟨row, rest, hrow, hrest, rfl⟩
      exact ⟨row, hrow, bind_ok.mpr ⟨rest, (rowLoop_ok hrecords).mpr hrest, rfl⟩⟩

/-- One row is read and holds its record. -/
theorem row_read_iff {columns record : List Str} (hwidth : record.length = columns.length) :
    (∃ row, rowOf u.toUnicode columns record = .ok row ∧ Holds u.toUnicode columns record row) ↔
      (∀ cell ∈ record, ¬ Broken u.toUnicode cell) ∧
        ∀ field ∈ columns.zip record, ∀ other ∈ columns.zip record,
          field.1 = other.1 →
          cellMeaning u.toUnicode field.2 = cellMeaning u.toUnicode other.2 := by
  have hcells : (∀ cell ∈ record, ¬ Broken u.toUnicode cell) ↔
      ∀ field ∈ columns.zip record, ¬ Broken u.toUnicode field.2 := by
    conv_lhs => rw [← List.map_snd_zip hwidth.le, List.forall_mem_map]
  rw [hcells, ← holds_iff]
  constructor
  · rintro ⟨row, hrow, hholds⟩
    obtain ⟨hok, rfl⟩ := rowOf_ok.mp hrow
    exact ⟨hok, hholds⟩
  · rintro ⟨hok, hholds⟩
    exact ⟨_, rowOf_ok.mpr ⟨hok, rfl⟩, hholds⟩

theorem exists_rows_iff {α β : Type} {A B : α → β → Prop} : ∀ {xs : List α},
    (∃ ys, List.Forall₂ A xs ys ∧ List.Forall₂ B xs ys) ↔ ∀ x ∈ xs, ∃ y, A x y ∧ B x y
  | [] => ⟨fun _ => nofun, fun _ => ⟨[], .nil, .nil⟩⟩
  | x :: xs => by
    rw [List.forall_mem_cons, ← exists_rows_iff]
    constructor
    · rintro ⟨ys, hA, hB⟩
      cases hA with
      | cons hA hAs =>
        cases hB with
        | cons hB hBs => exact ⟨⟨_, hA, hB⟩, _, hAs, hBs⟩
    · rintro ⟨⟨y, hA, hB⟩, ys, hAs, hBs⟩
      exact ⟨y :: ys, .cons hA hAs, .cons hB hBs⟩

theorem isHeader_self (u : Unicode) (columns : List Str) : isHeader u columns columns = true := by
  simp [isHeader]

end Cells

/-! ### Files -/

section Files
variable {u : Blanks} {fileFormat : Str} {columns : List Str} {table : Table columns}

theorem delimiterOf_delimiter (fileFormat : Str) : Csv.Delimiter (delimiterOf fileFormat) := by
  unfold delimiterOf
  split_ifs <;> exact ⟨by decide, by decide⟩

/-- The ASCII database. -/
def asciiBlanks : Blanks :=
  { Unicode.ascii with
    json_blank := by
      intro c h
      simp only [JsonValue.space, cp, CodePoint.ofChar, Bool.or_eq_true, decide_eq_true_eq,
        Subtype.mk.injEq] at h
      simp only [Unicode.ascii, asciiSpace, Bool.or_eq_true, Bool.and_eq_true, decide_eq_true_eq]
      have hblank : c.toNat = 32 ∨ c.toNat = 9 ∨ c.toNat = 10 ∨ c.toNat = 13 := by tauto
      omega }

/-- One column, and one row with one bare cell. -/
def oneCell (cell : Str) : Table ["note".toList] := ⟨[[cell]], by simp⟩

theorem oneCell_text {cell : Str} (hne : cell ≠ [])
    (hcell : (cell.all fun c => !Csv.special ',' c) = true) :
    Csv.TableText (delimiterOf "csv".toList) (["note".toList] :: (oneCell cell).rows)
      ("note\n".toList ++ (cell ++ ['\n'])) := by
  have hrow : ∀ cell : Str, cell ≠ [] → (cell.all fun c => !Csv.special ',' c) = true →
      Csv.RowText ',' [cell] (cell ++ ['\n']) := by
    intro cell hne hcell
    simp only [List.all_eq_true, Bool.not_eq_true'] at hcell
    exact ⟨[cell], ['\n'], .cons (.inr ⟨rfl, hcell⟩) .nil, by simp, by simpa using hne, .inl rfl,
      by rw [List.intercalate_singleton]⟩
  have hdelimiter : delimiterOf "csv".toList = ',' := by decide
  rw [hdelimiter]
  exact ⟨_, .cons (hrow "note".toList (by decide) (by decide)) (.cons (hrow cell hne hcell) .nil),
    by simp⟩

end Files

end FileRows
end Dpone.Normalization
