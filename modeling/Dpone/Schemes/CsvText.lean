import Mathlib.Data.List.Forall2
import Mathlib.Data.List.Basic
import Dpone.Schemes.Text

/-! CSV with standard quoting: the reader of Python's `csv` module in its default dialect, and the
    texts of tables.

    A cell may be written bare if it holds no delimiter, no quote and no line break, and may always
    be quoted, its quotes doubled; a row of one empty cell is quoted. LOSSLESS: from such a text the
    reader takes the rows again, up to the first with a cell beyond the limit of a field. -/

namespace Dpone.Schemes.Csv

/-- Where the reader is in a record. -/
inductive Phase where
  | startRecord | startField | inField | inQuotedField | quoteInQuotedField | eatNewline
  deriving DecidableEq

structure Reader where
  phase : Phase := .startRecord
  field : Str := []
  fields : List Str := []

/-- `field larger than field limit`, or a character after the break of a line. -/
inductive Error where
  | fieldLimit
  | newlineInUnquotedField
  deriving DecidableEq

def lineBreak (c : Char) : Bool := c = '\n' || c = '\r'

/-- `parse_save_field`. -/
def Reader.save (r : Reader) (phase : Phase) : Reader := ⟨phase, [], r.fields ++ [r.field]⟩

section Reading
variable (limit : ℕ) (delimiter : Char)

/-- `parse_add_char`. -/
def Reader.add (r : Reader) (c : Char) (phase : Phase) : Except Error Reader :=
  if limit ≤ r.field.length then .error .fieldLimit else .ok ⟨phase, r.field ++ [c], r.fields⟩

/-- The first character of a field. -/
def Reader.startField (r : Reader) (c : Char) : Except Error Reader :=
  if lineBreak c then .ok (r.save .eatNewline)
  else if c = '"' then .ok { r with phase := .inQuotedField }
  else if c = delimiter then .ok (r.save .startField)
  else r.add limit c .inField

/-- `parse_process_char` of a character. -/
def Reader.step (r : Reader) (c : Char) : Except Error Reader :=
  match r.phase with
  | .startRecord =>
    if lineBreak c then .ok { r with phase := .eatNewline } else r.startField limit delimiter c
  | .startField => r.startField limit delimiter c
  | .inField =>
    if lineBreak c then .ok (r.save .eatNewline)
    else if c = delimiter then .ok (r.save .startField)
    else r.add limit c .inField
  | .inQuotedField =>
    if c = '"' then .ok { r with phase := .quoteInQuotedField } else r.add limit c .inQuotedField
  | .quoteInQuotedField =>
    if c = '"' then r.add limit c .inQuotedField
    else if c = delimiter then .ok (r.save .startField)
    else if lineBreak c then .ok (r.save .eatNewline)
    else r.add limit c .inField
  | .eatNewline => if lineBreak c then .ok r else .error .newlineInUnquotedField

/-- `parse_process_char` of the end of a line. -/
def Reader.endLine (r : Reader) : Reader :=
  match r.phase with
  | .startRecord | .inQuotedField => r
  | .startField | .inField | .quoteInQuotedField => r.save .startRecord
  | .eatNewline => { r with phase := .startRecord }

/-- A file read with universal newlines hands out its lines; this is whether a line ends after a
    character. -/
def lineEnds (c : Char) (rest : Str) : Bool :=
  c = '\n' || (c = '\r' && rest.head? ≠ some '\n') || rest = []

/-- The records of a text, up to an error. -/
structure Records where
  records : List (List Str)
  error : Option Error

/-- A record in front. -/
def Records.cons (record : List Str) (rs : Records) : Records :=
  ⟨record :: rs.records, rs.error⟩

/-- `csv.reader` on a text: after the last line an unfinished quoted field ends too. -/
def records (r : Reader) : Str → Records
  | [] =>
    if r.field ≠ [] ∨ r.phase = .inQuotedField then ⟨[r.fields ++ [r.field]], none⟩ else ⟨[], none⟩
  | c :: rest =>
    match r.step limit delimiter c with
    | .error e => ⟨[], some e⟩
    | .ok r =>
      if lineEnds c rest then
        if r.endLine.phase = .startRecord then (records {} rest).cons r.endLine.fields
        else records r.endLine rest
      else records r rest

end Reading

/-! ### Texts of tables -/

section Texts
variable (delimiter : Char)

/-- A character that a bare cell does not hold. -/
def special (c : Char) : Bool := c = delimiter || c = '"' || lineBreak c

/-- A cell between quotes. -/
def quotedText (cell : Str) : Str :=
  '"' :: (cell.flatMap fun c => if c = '"' then ['"', '"'] else [c]) ++ ['"']

def CellText (cell text : Str) : Prop :=
  text = quotedText cell ∨ text = cell ∧ ∀ c ∈ cell, special delimiter c = false

/-- Cells between delimiters, and a line break. -/
def RowText (cells : List Str) (text : Str) : Prop :=
  ∃ texts ending, List.Forall₂ (CellText delimiter) cells texts ∧ texts ≠ [] ∧ texts ≠ [[]] ∧
    (ending = ['\n'] ∨ ending = ['\r', '\n']) ∧ text = [delimiter].intercalate texts ++ ending

def TableText (rows : List (List Str)) (text : Str) : Prop :=
  ∃ lines, List.Forall₂ (RowText delimiter) rows lines ∧ text = lines.flatten

end Texts

/-- A delimiter that is no quote and no line break. -/
def Delimiter (c : Char) : Prop := c ≠ '"' ∧ lineBreak c = false

section Lossless
variable {limit : ℕ} {delimiter : Char}

theorem lineEnds_inside {c : Char} (hc : lineBreak c = false) {rest : Str} (hrest : rest ≠ []) :
    lineEnds c rest = false := by
  simp only [lineBreak, Bool.or_eq_false_iff, decide_eq_false_iff_not] at hc
  simp [lineEnds, hc.1, hc.2, hrest]

/-- A character inside a line. -/
theorem records_inside {r r' : Reader} {c : Char} {rest : Str}
    (hstep : r.step limit delimiter c = .ok r') (hends : lineEnds c rest = false) :
    records limit delimiter r (c :: rest) = records limit delimiter r' rest := by
  rw [records, hstep]
  simp [hends]

theorem records_error {r : Reader} {c : Char} {rest : Str} {e : Error}
    (hstep : r.step limit delimiter c = .error e) :
    records limit delimiter r (c :: rest) = ⟨[], some e⟩ := by
  rw [records, hstep]

/-- Adding the rest of a bare cell. -/
theorem records_bare {fields : List Str} {rest : Str} (hrest : rest ≠ []) :
    ∀ {cell field : Str}, field ≠ [] → (∀ c ∈ cell, special delimiter c = false) →
      field.length ≤ limit →
      records limit delimiter ⟨.inField, field, fields⟩ (cell ++ rest) =
        if (field ++ cell).length ≤ limit then
          records limit delimiter ⟨.inField, field ++ cell, fields⟩ rest
        else ⟨[], some .fieldLimit⟩
  | [], field, _, _, hle => by simp [hle]
  | c :: cell, field, hfield, hcell, hle => by
    obtain ⟨hc, hcell⟩ := List.forall_mem_cons.mp hcell
    simp only [special, Bool.or_eq_false_iff, decide_eq_false_iff_not] at hc
    by_cases hroom : limit ≤ field.length
    · have hstep : Reader.step limit delimiter ⟨.inField, field, fields⟩ c =
          .error .fieldLimit := by
        simp [Reader.step, hc, Reader.add, hroom]
      rw [List.cons_append, records_error hstep, if_neg]
      simp
      omega
    · have hstep : Reader.step limit delimiter ⟨.inField, field, fields⟩ c =
          .ok ⟨.inField, field ++ [c], fields⟩ := by
        simp [Reader.step, hc, Reader.add, hroom]
      rw [List.cons_append, records_inside hstep (lineEnds_inside hc.2 (by simp [hrest])),
        records_bare hrest (by simp) hcell (by simp; omega)]
      simp [List.append_assoc]

/-- A character of a quoted cell, which may end a line of the file. -/
theorem records_quoted {r : Reader} {field : Str} {fields : List Str} {c : Char} {rest : Str}
    (hstep : r.step limit delimiter c = .ok ⟨.inQuotedField, field, fields⟩) :
    records limit delimiter r (c :: rest) =
      records limit delimiter ⟨.inQuotedField, field, fields⟩ rest := by
  rw [records, hstep]
  by_cases hends : lineEnds c rest = true <;> simp [hends, Reader.endLine]

/-- The rest of a quoted cell. -/
theorem records_doubled {fields : List Str} {rest : Str} (hrest : rest ≠ []) :
    ∀ {cell field : Str}, field.length ≤ limit →
      records limit delimiter ⟨.inQuotedField, field, fields⟩
        ((cell.flatMap fun c => if c = '"' then ['"', '"'] else [c]) ++ '"' :: rest) =
        if (field ++ cell).length ≤ limit then
          records limit delimiter ⟨.quoteInQuotedField, field ++ cell, fields⟩ rest
        else ⟨[], some .fieldLimit⟩
  | [], field, hle => by
    have hstep : Reader.step limit delimiter ⟨.inQuotedField, field, fields⟩ '"' =
        .ok ⟨.quoteInQuotedField, field, fields⟩ := by simp [Reader.step]
    rw [List.flatMap_nil, List.nil_append, records_inside hstep (lineEnds_inside (by decide) hrest)]
    simp [hle]
  | c :: cell, field, hle => by
    rw [List.flatMap_cons]
    have hlen : (field ++ c :: cell).length = (field ++ [c]).length + cell.length := by simp; omega
    have hadd : ∀ r : Reader, r.field = field → r.fields = fields →
        r.add limit c .inQuotedField = if limit ≤ field.length then .error .fieldLimit
          else .ok ⟨.inQuotedField, field ++ [c], fields⟩ := by
      rintro r rfl rfl
      rfl
    have hnext := @records_doubled fields rest hrest cell (field ++ [c])
    by_cases hc : c = '"'
    · subst hc
      have hfirst : Reader.step limit delimiter ⟨.inQuotedField, field, fields⟩ '"' =
          .ok ⟨.quoteInQuotedField, field, fields⟩ := by simp [Reader.step]
      have hsecond : Reader.step limit delimiter ⟨.quoteInQuotedField, field, fields⟩ '"' =
          if limit ≤ field.length then .error .fieldLimit
          else .ok ⟨.inQuotedField, field ++ ['"'], fields⟩ := by
        simpa [Reader.step] using hadd ⟨.quoteInQuotedField, field, fields⟩ rfl rfl
      rw [if_pos rfl]
      simp only [List.cons_append, List.nil_append]
      rw [records_inside hfirst (lineEnds_inside (by decide) (by simp))]
      by_cases hroom : limit ≤ field.length
      · rw [if_pos hroom] at hsecond
        rw [records_error hsecond, if_neg (by simp; omega)]
      · rw [if_neg hroom] at hsecond
        rw [records_quoted hsecond, hnext (by simp; omega)]
        simp [List.append_assoc]
    · have hstep : Reader.step limit delimiter ⟨.inQuotedField, field, fields⟩ c =
          if limit ≤ field.length then .error .fieldLimit
          else .ok ⟨.inQuotedField, field ++ [c], fields⟩ := by
        simpa [Reader.step, hc] using hadd ⟨.inQuotedField, field, fields⟩ rfl rfl
      rw [if_neg hc, List.cons_append, List.nil_append, List.cons_append]
      by_cases hroom : limit ≤ field.length
      · rw [if_pos hroom] at hstep
        rw [records_error hstep, if_neg (by simp; omega)]
      · rw [if_neg hroom] at hstep
        rw [records_quoted hstep, hnext (by simp; omega)]
        simp [List.append_assoc]

/-- The reader stands behind a cell. -/
structure Behind (r : Reader) (cell : Str) (fields : List Str) : Prop where
  field : r.field = cell
  fields : r.fields = fields
  phase : r.phase = .inField ∨ r.phase = .quoteInQuotedField ∨ r.phase = .startField ∧ cell = []

variable (limit) in
/-- STEP: one cell. -/
theorem records_cell (fields : List Str) {cell text rest : Str} (hrest : rest ≠ [])
    (htext : CellText delimiter cell text) : ∃ r, Behind r cell fields ∧
      records limit delimiter ⟨.startField, [], fields⟩ (text ++ rest) =
        if cell.length ≤ limit then records limit delimiter r rest
        else ⟨[], some .fieldLimit⟩ := by
  rcases htext with rfl | ⟨rfl, hbare⟩
  · refine ⟨⟨.quoteInQuotedField, cell, fields⟩, ⟨rfl, rfl, .inr (.inl rfl)⟩, ?_⟩
    have hstep : Reader.step limit delimiter ⟨.startField, [], fields⟩ '"' =
        .ok ⟨.inQuotedField, [], fields⟩ := by
      simp [Reader.step, Reader.startField, lineBreak]
    have hdoubled := @records_doubled limit delimiter fields rest hrest cell [] (Nat.zero_le limit)
    rw [quotedText]
    simp only [List.cons_append, List.append_assoc, List.nil_append]
    rw [records_quoted hstep]
    simpa using hdoubled
  · cases text with
    | nil => exact ⟨⟨.startField, [], fields⟩, ⟨rfl, rfl, .inr (.inr ⟨rfl, rfl⟩)⟩, by simp⟩
    | cons c cell =>
      refine ⟨⟨.inField, c :: cell, fields⟩, ⟨rfl, rfl, .inl rfl⟩, ?_⟩
      obtain ⟨hc, hcell⟩ := List.forall_mem_cons.mp hbare
      simp only [special, Bool.or_eq_false_iff, decide_eq_false_iff_not] at hc
      by_cases hroom : limit = 0
      · have hstep : Reader.step limit delimiter ⟨.startField, [], fields⟩ c =
            .error .fieldLimit := by
          simp [Reader.step, Reader.startField, hc, Reader.add, hroom]
        rw [List.cons_append, records_error hstep, if_neg (by simp; omega)]
      · have hstep : Reader.step limit delimiter ⟨.startField, [], fields⟩ c =
            .ok ⟨.inField, [c], fields⟩ := by
          simp [Reader.step, Reader.startField, hc, Reader.add, hroom]
        rw [List.cons_append, records_inside hstep (lineEnds_inside hc.2 (by simp [hrest])),
          records_bare hrest (by simp) hcell (by simp; omega)]
        rfl

theorem Behind.nextField {r : Reader} {cell : Str} {fields : List Str} {rest : Str}
    (h : Behind r cell fields) (hd : Delimiter delimiter) (hrest : rest ≠ []) :
    records limit delimiter r (delimiter :: rest) =
      records limit delimiter ⟨.startField, [], fields ++ [cell]⟩ rest := by
  have hstep : r.step limit delimiter delimiter = .ok ⟨.startField, [], fields ++ [cell]⟩ := by
    obtain ⟨phase, field, done⟩ := r
    obtain ⟨rfl, rfl, hphase⟩ := h
    rcases hphase with h | h | ⟨h, -⟩ <;> simp only at h <;> subst h <;>
      simp [Reader.step, Reader.startField, Reader.save, hd.1, hd.2]
  exact records_inside hstep (lineEnds_inside hd.2 hrest)

theorem Behind.endRecord {r : Reader} {cell : Str} {fields : List Str} {ending rest : Str}
    (h : Behind r cell fields) (hd : Delimiter delimiter)
    (hending : ending = ['\n'] ∨ ending = ['\r', '\n']) :
    records limit delimiter r (ending ++ rest) =
      (records limit delimiter {} rest).cons (fields ++ [cell]) := by
  have hne : ∀ c, lineBreak c = true → c ≠ delimiter := by
    rintro c hc rfl
    rw [hd.2] at hc
    cases hc
  have hstep : ∀ c, lineBreak c = true → c ≠ '"' →
      r.step limit delimiter c = .ok ⟨.eatNewline, [], fields ++ [cell]⟩ := by
    intro c hc hquote
    have hcd := hne c hc
    obtain ⟨phase, field, done⟩ := r
    obtain ⟨rfl, rfl, hphase⟩ := h
    rcases hphase with h | h | ⟨h, -⟩ <;> simp only at h <;> subst h <;>
      simp [Reader.step, Reader.startField, Reader.save, hc, hquote, hcd]
  have hlast : ∀ r : Reader, r.step limit delimiter '\n' = .ok ⟨.eatNewline, [], fields ++ [cell]⟩ →
      records limit delimiter r ('\n' :: rest) =
        (records limit delimiter {} rest).cons (fields ++ [cell]) := by
    intro r hr
    rw [records, hr]
    simp [lineEnds, Reader.endLine]
  rcases hending with rfl | rfl
  · exact hlast r (hstep '\n' rfl (by decide))
  · have hends : lineEnds '\r' ('\n' :: rest) = false := by simp [lineEnds]
    rw [List.cons_append, List.cons_append, List.nil_append,
      records_inside (hstep '\r' rfl (by decide)) hends]
    exact hlast _ (by simp [Reader.step, lineBreak])

/-- The cells of a row, from the first field on. -/
theorem records_cells (hd : Delimiter delimiter) {ending rest : Str}
    (hending : ending = ['\n'] ∨ ending = ['\r', '\n']) :
    ∀ {cells texts : List Str} {fields : List Str},
      List.Forall₂ (CellText delimiter) cells texts → texts ≠ [] →
      records limit delimiter ⟨.startField, [], fields⟩
        ([delimiter].intercalate texts ++ (ending ++ rest)) =
        if ∀ cell ∈ cells, cell.length ≤ limit then
          (records limit delimiter {} rest).cons (fields ++ cells)
        else ⟨[], some .fieldLimit⟩
  | _, [], _, _, hne => absurd rfl hne
  | _, [text], fields, h, _ => by
    obtain ⟨cell, cells, htext, hnil, rfl⟩ := List.forall₂_cons_right_iff.mp h
    obtain rfl := List.forall₂_nil_right_iff.mp hnil
    have hne : ending ++ rest ≠ [] := by rcases hending with rfl | rfl <;> simp
    obtain ⟨r, hr, hread⟩ := records_cell limit fields hne htext
    rw [List.intercalate_singleton, hread, hr.endRecord hd hending]
    simp
  | _, text :: next :: texts, fields, h, _ => by
    obtain ⟨cell, cells, htext, hrest, rfl⟩ := List.forall₂_cons_right_iff.mp h
    have hne : delimiter :: ([delimiter].intercalate (next :: texts) ++ (ending ++ rest)) ≠ [] :=
      List.cons_ne_nil _ _
    obtain ⟨r, hr, hread⟩ := records_cell limit fields hne htext
    have hnext : [delimiter].intercalate (next :: texts) ++ (ending ++ rest) ≠ [] := by
      rcases hending with rfl | rfl <;> simp
    rw [List.intercalate_cons_cons, List.append_assoc, List.append_assoc, List.singleton_append,
      hread, hr.nextField hd hnext, records_cells hd hending hrest (List.cons_ne_nil _ _)]
    by_cases hcell : cell.length ≤ limit
    · simp [hcell, List.append_assoc]
    · simp [hcell]

/-- The first character of a row breaks no line. -/
theorem row_head (hd : Delimiter delimiter) {cells texts : List Str}
    (h : List.Forall₂ (CellText delimiter) cells texts) (hne : texts ≠ []) (hblank : texts ≠ [[]])
    (rest : Str) :
    ∃ c s, [delimiter].intercalate texts ++ rest = c :: s ∧ lineBreak c = false := by
  obtain ⟨text, texts, rfl⟩ := List.exists_cons_of_ne_nil hne
  obtain ⟨cell, cells, htext, -, rfl⟩ := List.forall₂_cons_right_iff.mp h
  have hfirst : ∀ c s, text = c :: s → lineBreak c = false := by
    rintro c s rfl
    rcases htext with heq | ⟨rfl, hbare⟩
    · rw [quotedText, List.cons_append] at heq
      rw [(List.cons.inj heq).1]
      rfl
    · have := hbare c List.mem_cons_self
      simp only [special, Bool.or_eq_false_iff] at this
      exact this.2
  cases texts with
  | nil =>
    obtain ⟨c, s, rfl⟩ := List.exists_cons_of_ne_nil (fun h => hblank (by rw [h]) : text ≠ [])
    exact ⟨c, _, by rw [List.intercalate_singleton, List.cons_append], hfirst c s rfl⟩
  | cons next texts =>
    rw [List.intercalate_cons_cons]
    cases text with
    | nil => exact ⟨delimiter, _, rfl, hd.2⟩
    | cons c s => exact ⟨c, _, rfl, hfirst c s rfl⟩

theorem records_start {c : Char} {s : Str} (hc : lineBreak c = false) :
    records limit delimiter {} (c :: s) =
      records limit delimiter ⟨.startField, [], []⟩ (c :: s) := by
  have hstep : Reader.step limit delimiter {} c =
      Reader.step limit delimiter ⟨.startField, [], []⟩ c := by
    simp [Reader.step, Reader.startField, hc, Reader.save, Reader.add]
  rw [records, records, hstep]

/-- STEP: one row. -/
theorem records_row (hd : Delimiter delimiter) {cells : List Str} {text rest : Str}
    (h : RowText delimiter cells text) :
    records limit delimiter {} (text ++ rest) =
      if ∀ cell ∈ cells, cell.length ≤ limit then (records limit delimiter {} rest).cons cells
      else ⟨[], some .fieldLimit⟩ := by
  obtain ⟨texts, ending, htexts, hne, hblank, hending, rfl⟩ := h
  obtain ⟨c, s, hhead, hc⟩ := row_head hd htexts hne hblank (ending ++ rest)
  rw [List.append_assoc, hhead, records_start hc, ← hhead, records_cells hd hending htexts hne,
    List.nil_append]

/-- LOSSLESS: a table is read as its rows if and only if no cell is beyond the limit. -/
theorem records_table (hd : Delimiter delimiter) : ∀ {rows : List (List Str)} {text : Str},
    TableText delimiter rows text →
      ((∀ cells ∈ rows, ∀ cell ∈ cells, cell.length ≤ limit) →
        records limit delimiter {} text = ⟨rows, none⟩) ∧
      (¬ (∀ cells ∈ rows, ∀ cell ∈ cells, cell.length ≤ limit) →
        (records limit delimiter {} text).error ≠ none) := by
  intro rows
  induction rows with
  | nil =>
    rintro text ⟨lines, hlines, rfl⟩
    obtain rfl := List.forall₂_nil_left_iff.mp hlines
    exact ⟨fun _ => by simp [records], fun h => absurd nofun h⟩
  | cons cells rows ih =>
    rintro text ⟨lines, hlines, rfl⟩
    obtain ⟨line, lines, hline, hrest, rfl⟩ := List.forall₂_cons_left_iff.mp hlines
    rw [List.flatten_cons, records_row hd hline]
    obtain ⟨hread, hfail⟩ := ih ⟨lines, hrest, rfl⟩
    by_cases hcells : ∀ cell ∈ cells, cell.length ≤ limit
    · rw [if_pos hcells]
      refine ⟨fun hall => ?_, fun hall => ?_⟩
      · rw [hread fun c hc => hall c (List.mem_cons_of_mem _ hc)]
        rfl
      · exact hfail fun hrows => hall (List.forall_mem_cons.mpr ⟨hcells, hrows⟩)
    · rw [if_neg hcells]
      exact ⟨fun hall => absurd (hall cells List.mem_cons_self) hcells, nofun⟩

end Lossless

end Dpone.Schemes.Csv
