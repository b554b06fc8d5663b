import Dpone.Normalization.SemanticSpill
import Dpone.Schemes.Records

/-! LOSSLESS: a row that is written to a spill file is read back with the same values, types and
    order; and what is read from any line is read back again once it is written. -/

namespace Dpone.Normalization
open Dpone.Schemes JsonValue

/-! ### Values that are written -/

mutual

/-- A value of supported types, its floats and texts satisfying their properties, with distinct
    texts as keys. -/
def Supported (P : PyFloat → Prop) (Q : PyText → Prop) : SpillValue → Prop
  | .float f => P f
  | .text s => Q s
  | .list items => SupportedItems P Q items
  | .mapping entries => (entries.map Prod.fst).Nodup ∧ SupportedEntries P Q entries
  | .other => False
  | _ => True

def SupportedItems (P : PyFloat → Prop) (Q : PyText → Prop) : List SpillValue → Prop
  | [] => True
  | item :: items => Supported P Q item ∧ SupportedItems P Q items

def SupportedEntries (P : PyFloat → Prop) (Q : PyText → Prop) :
    List (SpillKey × SpillValue) → Prop
  | [] => True
  | (.text key, value) :: entries => Q key ∧ Supported P Q value ∧ SupportedEntries P Q entries
  | (.other, _) :: _ => False

end

/-- A row of supported values in columns of distinct names. -/
def SupportedRow (P : PyFloat → Prop) (Q : PyText → Prop) (row : SpillRow) : Prop :=
  (row.map Prod.fst).Nodup ∧ SupportedEntries P Q row

variable {reader : SpillReader} {Q : PyText → Prop}

theorem convert_textOf {α : Type} (s : Str) (f : Str → Except PyError α) :
    convert (textOf s) f = (f s).mapError .conversion := by
  rw [convert, charsOf_textOf]

/-- A tagged value is decoded by its kind. -/
theorem decodeValue_tagged (kind : String) (value : JsonValue) :
    decodeValue reader (tagged kind value) = decodeKind reader (pyText kind) value := by
  rw [tagged, decodeValue]

theorem regular_tagged (hQ : ∀ s, Q (textOf s)) {kind : String} {value : JsonValue}
    (h : Regular NoFloat Q value) : Regular NoFloat Q (tagged kind value) :=
  ⟨hQ _, h, trivial⟩

mutual

/-- STEP: a supported value is encoded to a document that is decoded to it. -/
theorem decode_encodeValue (hQ : ∀ s, Q (textOf s)) : ∀ {value : SpillValue},
    Supported HexRead Q value → ∃ encoded, encodeValue value = .ok encoded ∧
      decodeValue reader encoded = .ok value ∧ Regular NoFloat Q encoded
  | .none, _ => ⟨_, rfl, rfl, regular_tagged hQ trivial⟩
  | .bool b, _ => ⟨_, rfl, rfl, regular_tagged hQ trivial⟩
  | .int n, _ => by
    refine ⟨_, rfl, ?_, regular_tagged hQ (hQ _)⟩
    rw [decodeValue_tagged]
    show convert (textOf (intText n)) _ = _
    rw [convert_textOf, pyInt_intText]
    rfl
  | .float f, h => by
    refine ⟨_, rfl, ?_, regular_tagged hQ (hQ _)⟩
    rw [decodeValue_tagged]
    show convert (textOf (floatHex f)) _ = _
    rw [convert_textOf, ofFloatHex_again h]
    rfl
  | .timestamp t, _ => by
    refine ⟨_, rfl, ?_, regular_tagged hQ (hQ _)⟩
    rw [decodeValue_tagged]
    show convert (textOf (t.isoformat 'T')) _ = _
    rw [convert_textOf, reader.datetime_isoformat_t]
    rfl
  | .date d, _ => by
    refine ⟨_, rfl, ?_, regular_tagged hQ (hQ _)⟩
    rw [decodeValue_tagged]
    show convert (textOf d.isoformat) _ = _
    rw [convert_textOf, reader.date_isoformat]
    rfl
  | .text s, h => ⟨_, rfl, rfl, regular_tagged hQ h⟩
  | .bytes b, _ => by
    refine ⟨_, rfl, ?_, regular_tagged hQ (hQ _)⟩
    rw [decodeValue_tagged]
    show convert (textOf (hexText b)) _ = _
    rw [convert_textOf, fromHex_hexText]
    rfl
  | .list items, h => by
    obtain ⟨encoded, hencode, hdecode, hregular⟩ := decode_encodeItems hQ h
    refine ⟨tagged "list" (.arr encoded), ?_, ?_, regular_tagged hQ hregular⟩
    · rw [encodeValue, hencode]
      rfl
    · rw [decodeValue_tagged, decodeKind, if_pos rfl, hdecode]
      rfl
  | .mapping entries, h => by
    obtain ⟨encoded, hencode, hdecode, hregular⟩ := decode_encodeEntries hQ .objectKey h.2
    refine ⟨tagged "mapping" (.arr encoded), ?_, ?_, regular_tagged hQ hregular⟩
    · rw [encodeValue, hencode]
      rfl
    · rw [decodeValue_tagged, decodeKind, if_neg (by decide), if_pos rfl,
        (hdecode [] (List.forall_mem_nil _) h.1).1]
      rfl
  | .other, h => h.elim

theorem decode_encodeItems (hQ : ∀ s, Q (textOf s)) : ∀ {items : List SpillValue},
    SupportedItems HexRead Q items → ∃ encoded, encodeItems items = .ok encoded ∧
      decodeItems reader encoded = .ok items ∧ RegularItems NoFloat Q encoded
  | [], _ => ⟨[], rfl, rfl, trivial⟩
  | item :: items, h => by
    obtain ⟨encoded, hencode, hdecode, hregular⟩ := decode_encodeValue hQ h.1
    obtain ⟨rest, hrest, hdecodeRest, hregularRest⟩ := decode_encodeItems hQ h.2
    refine ⟨encoded :: rest, ?_, ?_, hregular, hregularRest⟩
    · rw [encodeItems, hencode, hrest]
      rfl
    · rw [decodeItems, hdecode, hdecodeRest]
      rfl

/-- The entries are decoded after keys that are none of theirs. -/
theorem decode_encodeEntries (hQ : ∀ s, Q (textOf s)) (wrong : SpillError) :
    ∀ {entries : List (SpillKey × SpillValue)}, SupportedEntries HexRead Q entries →
      ∃ encoded, encodeEntries wrong entries = .ok encoded ∧
        (∀ seen, (∀ key ∈ seen, SpillKey.text key ∉ entries.map Prod.fst) →
          (entries.map Prod.fst).Nodup → decodeEntries reader seen encoded = .ok entries ∧
            decodeColumns reader seen encoded = .ok entries) ∧
        RegularItems NoFloat Q encoded
  | [], _ => ⟨[], rfl, fun _ _ _ => ⟨rfl, rfl⟩, trivial⟩
  | (.text key, value) :: entries, h => by
    obtain ⟨encoded, hencode, hdecode, hregular⟩ := decode_encodeValue hQ h.2.1
    obtain ⟨rest, hrest, hdecodeRest, hregularRest⟩ := decode_encodeEntries hQ wrong h.2.2
    refine ⟨.arr [.str key, encoded] :: rest, ?_, ?_, ⟨h.1, hregular, trivial⟩, hregularRest⟩
    · rw [encodeEntries, hencode, hrest]
      rfl
    · intro seen hseen hnodup
      rw [List.map_cons, List.nodup_cons] at hnodup
      have hnew : key ∉ seen := fun hmem => hseen key hmem (List.mem_cons_self ..)
      obtain ⟨hentries, hcolumns⟩ := hdecodeRest (seen ++ [key]) (fun k hk => by
        rcases List.mem_append.mp hk with hk | hk
        · exact fun hmem => hseen k hk (List.mem_cons_of_mem _ hmem)
        · rw [List.mem_singleton.mp hk]
          exact hnodup.1) hnodup.2
      constructor
      · rw [decodeEntries, if_neg hnew, hdecode, hentries]
        rfl
      · rw [decodeColumns, if_neg hnew, hdecode, hcolumns]
        rfl

end
/-! ### Values that are read -/

/-- Any text. -/
def AnyText (_ : PyText) : Prop := True

theorem decodeValue_ok {encoded : JsonValue} {value : SpillValue}
    (h : decodeValue reader encoded = .ok value) :
    ∃ kind content, encoded = .arr [.str kind, content] ∧
      decodeKind reader kind content = .ok value := by
  unfold decodeValue at h
  split at h
  · next kind content => exact ⟨kind, content, rfl, h⟩
  · cases h

theorem convert_ok {α : Type} {s : PyText} {f : Str → Except PyError α} {a : α}
    (h : convert s f = .ok a) : ∃ chars, f chars = .ok a := by
  unfold convert at h
  split at h
  · next chars _ => exact ⟨chars, mapError_ok.mp h⟩
  · cases h

/-- A scalar that was read is of a supported type. -/
theorem decodeScalar_supported {kind : PyText} {content : JsonValue} {value : SpillValue}
    (h : decodeScalar reader kind content = .ok value) : Supported HexRead AnyText value := by
  unfold decodeScalar at h
  split at h
  · split_ifs at h
    cases h
    trivial
  · split_ifs at h
    cases h
    trivial
  · split_ifs at h
    · obtain ⟨chars, h⟩ := convert_ok h
      split at h
      · cases h
        trivial
      · cases h
    · obtain ⟨chars, h⟩ := convert_ok h
      obtain ⟨f, hf, rfl⟩ := map_ok.mp h
      exact ofFloatHex_read hf
    · obtain ⟨chars, h⟩ := convert_ok h
      obtain ⟨t, -, rfl⟩ := map_ok.mp h
      trivial
    · obtain ⟨chars, h⟩ := convert_ok h
      obtain ⟨d, -, rfl⟩ := map_ok.mp h
      trivial
    · cases h
      trivial
    · obtain ⟨chars, h⟩ := convert_ok h
      split at h
      · cases h
        trivial
      · cases h
  · cases h

/-- The keys of entries that were read are new and distinct. -/
def Fresh (seen : List PyText) (entries : List (SpillKey × SpillValue)) : Prop :=
  (∀ key ∈ seen, SpillKey.text key ∉ entries.map Prod.fst) ∧ (entries.map Prod.fst).Nodup

theorem Fresh.cons {seen : List PyText} {key : PyText} {value : SpillValue}
    {entries : List (SpillKey × SpillValue)} (hnew : key ∉ seen)
    (h : Fresh (seen ++ [key]) entries) : Fresh seen ((.text key, value) :: entries) := by
  refine ⟨fun k hk hmem => ?_, List.nodup_cons.mpr ⟨h.1 key (by simp), h.2⟩⟩
  rcases List.mem_cons.mp hmem with heq | hmem
  · cases heq
    exact hnew hk
  · exact h.1 k (by simp [hk]) hmem

theorem decodeEntries_ok {seen : List PyText} {item : JsonValue} {items : List JsonValue}
    {entries : List (SpillKey × SpillValue)}
    (h : decodeEntries reader seen (item :: items) = .ok entries) :
    ∃ key encoded, item = .arr [.str key, encoded] ∧ key ∉ seen ∧ ∃ value rest,
      decodeValue reader encoded = .ok value ∧
        decodeEntries reader (seen ++ [key]) items = .ok rest ∧
          entries = (.text key, value) :: rest := by
  unfold decodeEntries at h
  split at h
  · next heq => cases heq
  · next key encoded rest heq =>
    obtain ⟨rfl, rfl⟩ := List.cons.inj heq
    split_ifs at h with hnew
    obtain ⟨value, hvalue, h⟩ := bind_ok.mp h
    obtain ⟨rest, hrest, h⟩ := bind_ok.mp h
    cases h
    exact ⟨key, encoded, rfl, hnew, value, rest, hvalue, hrest, rfl⟩
  · cases h

mutual

/-- STEP: what is decoded is supported. -/
theorem decodeValue_supported {encoded : JsonValue} {value : SpillValue}
    (h : decodeValue reader encoded = .ok value) : Supported HexRead AnyText value := by
  obtain ⟨kind, content, rfl, h⟩ := decodeValue_ok h
  exact decodeKind_supported h
termination_by sizeOf encoded

theorem decodeKind_supported {kind : PyText} {content : JsonValue} {value : SpillValue}
    (h : decodeKind reader kind content = .ok value) : Supported HexRead AnyText value := by
  match content with
  | .arr items =>
    rw [decodeKind] at h
    split_ifs at h
    · obtain ⟨values, hitems, rfl⟩ := map_ok.mp h
      exact decodeItems_supported hitems
    · obtain ⟨entries, hentries, rfl⟩ := map_ok.mp h
      obtain ⟨hfresh, hsupported⟩ := decodeEntries_supported hentries
      exact ⟨hfresh.2, hsupported⟩
  | .null | .bool _ | .int _ | .float _ | .str _ | .obj _ =>
    rw [decodeKind] at h
    · exact decodeScalar_supported h
    · exact nofun
termination_by sizeOf content

theorem decodeItems_supported {items : List JsonValue} {values : List SpillValue}
    (h : decodeItems reader items = .ok values) : SupportedItems HexRead AnyText values := by
  match items with
  | [] =>
    cases h
    trivial
  | item :: items =>
    rw [decodeItems] at h
    obtain ⟨value, hvalue, h⟩ := bind_ok.mp h
    obtain ⟨rest, hrest, h⟩ := bind_ok.mp h
    cases h
    exact ⟨decodeValue_supported hvalue, decodeItems_supported hrest⟩
termination_by sizeOf items

theorem decodeEntries_supported {seen : List PyText} {items : List JsonValue}
    {entries : List (SpillKey × SpillValue)} (h : decodeEntries reader seen items = .ok entries) :
    Fresh seen entries ∧ SupportedEntries HexRead AnyText entries := by
  match items with
  | [] =>
    cases h
    exact ⟨⟨fun _ _ => List.not_mem_nil, List.nodup_nil⟩, trivial⟩
  | item :: items =>
    obtain ⟨key, encoded, rfl, hnew, value, rest, hvalue, hrest, rfl⟩ := decodeEntries_ok h
    obtain ⟨hfresh, hsupported⟩ := decodeEntries_supported hrest
    exact ⟨hfresh.cons hnew, trivial, decodeValue_supported hvalue, hsupported⟩
termination_by sizeOf items

end

/-- RUN: a row that was read is supported. -/
theorem decodeColumns_supported : ∀ {seen : List PyText} {items : List JsonValue} {row : SpillRow},
    decodeColumns reader seen items = .ok row →
      Fresh seen row ∧ SupportedEntries HexRead AnyText row
  | _, [], _, h => by
    cases h
    exact ⟨⟨fun _ _ => List.not_mem_nil, List.nodup_nil⟩, trivial⟩
  | seen, item :: items, row, h => by
    unfold decodeColumns at h
    split at h
    · next heq => cases heq
    · next name encoded rest heq =>
      obtain ⟨rfl, rfl⟩ := List.cons.inj heq
      split_ifs at h with hnew
      obtain ⟨value, hvalue, h⟩ := bind_ok.mp h
      obtain ⟨rest, hrest, h⟩ := bind_ok.mp h
      cases h
      obtain ⟨hfresh, hsupported⟩ := decodeColumns_supported hrest
      exact ⟨hfresh.cons hnew, trivial, decodeValue_supported hvalue, hsupported⟩
    · cases h

theorem decodeRow_supported {payload : JsonValue} {row : SpillRow}
    (h : decodeRow reader payload = .ok row) : SupportedRow HexRead AnyText row := by
  unfold decodeRow at h
  split at h
  · split at h
    · split_ifs at h
      split at h
      · obtain ⟨hfresh, hsupported⟩ := decodeColumns_supported h
        exact ⟨hfresh.2, hsupported⟩
      · cases h
    · cases h
  · cases h

theorem readLine_supported {line : Str} {row : SpillRow} (h : readLine reader line = .ok row) :
    SupportedRow HexRead AnyText row := by
  unfold readLine at h
  split at h
  · exact decodeRow_supported h
  · cases h

/-! ### Lines -/

/-- STEP: a supported row without lone surrogates is written on a line that is read as the row. -/
theorem readLine_writeRow (reader : SpillReader) {row : SpillRow}
    (h : SupportedRow HexRead NoSurrogate row) :
    ∃ line, writeRow row = .ok (line ++ ['\n']) ∧ readLine reader line = .ok row ∧
      (∀ c ∈ line, 32 ≤ c.toNat) ∧ 's' ∈ line := by
  obtain ⟨columns, hencode, hdecode, hregular⟩ :=
    @decode_encodeEntries reader NoSurrogate noSurrogate_textOf .columnName row h.2
  obtain ⟨-, hcolumns⟩ := hdecode [] (List.forall_mem_nil _) h.1
  set document : JsonValue :=
    .obj [(pyText "schema", .str rowSchema), (pyText "columns", .arr columns)] with hdocument
  have hdocumentRegular : Regular NoFloat NoSurrogate document :=
    ⟨(show [pyText "schema", pyText "columns"].Nodup by decide), noSurrogate_textOf _,
      noSurrogate_textOf _, noSurrogate_textOf _, hregular, trivial⟩
  have hplain := @dumps_plain (fun _ => []) document hdocumentRegular
  obtain ⟨line, hline⟩ := NoSurrogate.chars fun c hc => (hplain c hc).1
  have htext := textOf_of_charsOf hline
  have hloads : loads .python (textOf line) = some document := by
    rw [htext]
    exact loads_dumps (lossless_noFloat _ fun fields => Hooks.python_object) hdocumentRegular
  refine ⟨line, ?_, ?_, ?_, ?_⟩
  · rw [writeRow, encodeRow, hencode]
    show (writeJson document >>= fun line => pure (line ++ ['\n'])) = _
    rw [writeJson, hline]
    rfl
  · rw [readLine, hloads]
    exact hcolumns
  · intro c hc
    exact (hplain (cp c) (htext ▸ List.mem_map_of_mem hc)).2
  · have hs : cp 's' ∈ textOf line := by
      rw [htext]
      exact List.mem_cons_of_mem _ (List.mem_append_left _ (by decide))
    obtain ⟨c, hc, heq⟩ := List.mem_map.mp hs
    have hback := toChar_ofChar c
    rw [heq, toChar_ofChar] at hback
    rwa [Option.some.inj hback]
/-! ### Files -/

theorem translateNewlines_append : ∀ {line : Str} (rest : Str),
    (∀ c ∈ line, 32 ≤ c.toNat) → translateNewlines (line ++ '\n' :: rest) =
      line ++ '\n' :: translateNewlines rest
  | [], rest, _ => by
    rw [List.nil_append, translateNewlines]
    · rfl
    · exact fun s h => absurd h (by decide)
    · exact fun h => absurd h (by decide)
  | c :: line, rest, h => by
    have hc : c ≠ '\r' := by
      rintro rfl
      exact absurd (h '\r' (List.mem_cons_self ..)) (by decide)
    rw [List.cons_append, translateNewlines, translateNewlines_append rest fun d hd =>
      h d (List.mem_cons_of_mem _ hd)]
    · rfl
    · exact fun s heq => absurd heq hc
    · exact fun heq => absurd heq hc

/-- A text with a letter in it is not blank. -/
theorem strip_ne_nil {u : Unicode} {s : Str} {c : Char} (hc : c ∈ s) (hspace : ¬ u.isSpace c) :
    strip u s ≠ [] := by
  intro hnil
  have hall : ∀ d ∈ s.dropWhile u.isSpace, u.isSpace d = true := by
    rw [strip] at hnil
    exact List.rdropWhile_eq_nil_iff.mp hnil
  have hmem : c ∈ s.dropWhile u.isSpace := by
    rw [← List.takeWhile_append_dropWhile (p := u.isSpace) (l := s)] at hc
    rcases List.mem_append.mp hc with hc | hc
    · exact absurd (List.mem_takeWhile_imp hc) hspace
    · exact hc
  exact hspace (hall c hmem)

/-- A line is cut off the front of a file. -/
theorem fileLines_line {line : Str} (rest : Str) (hplain : ∀ c ∈ line, 32 ≤ c.toNat)
    (hword : 's' ∈ line) :
    fileLines reader (line ++ '\n' :: rest) = line :: fileLines reader rest := by
  have hnewline : '\n' ∉ line := fun h => absurd (hplain _ h) (by decide)
  have hblank : strip reader.unicode line ≠ [] :=
    strip_ne_nil hword fun h =>
      reader.unicode.space_not_word 's' h (reader.unicode.word_ascii 's' (by decide))
  rw [fileLines, translateNewlines_append rest hplain, splitWord_append _ hnewline,
    List.filter_cons_of_pos (by simpa using hblank)]
  rfl

/-- RUN: a file of supported rows without lone surrogates is read as the rows. -/
theorem read_writeSemanticRows : ∀ {rows : List SpillRow},
    (∀ row ∈ rows, SupportedRow HexRead NoSurrogate row) →
      ∃ text, writeSemanticRows rows = .ok text ∧ readSemanticRows reader text = .ok rows
  | [], _ => ⟨[], rfl, rfl⟩
  | row :: rows, h => by
    obtain ⟨line, hwrite, hread, hplain, hword⟩ :=
      readLine_writeRow reader (h row (List.mem_cons_self ..))
    obtain ⟨text, hwriteRest, hreadRest⟩ := read_writeSemanticRows fun row hrow =>
      h row (List.mem_cons_of_mem _ hrow)
    refine ⟨line ++ '\n' :: text, ?_, ?_⟩
    · rw [writeSemanticRows, hwrite, hwriteRest]
      show Except.ok (line ++ ['\n'] ++ text) = _
      rw [List.append_assoc]
      rfl
    · rw [readSemanticRows, fileLines_line text hplain hword, List.mapM_cons, hread]
      rw [readSemanticRows] at hreadRest
      rw [hreadRest]
      rfl

/-! ### Equality -/

/-- `==` of two date-times: instants where both have an offset. -/
def equalTimestamp (t t' : DateTime) : Bool :=
  match t.offset, t'.offset with
  | some _, some _ => t.instant = t'.instant
  | none, none => t = t'
  | _, _ => false

mutual

/-- `==` of two values of one type; mappings are equal in any order of their keys. -/
def equalValue : SpillValue → SpillValue → Bool
  | .none, .none => true
  | .bool b, .bool b' => b = b'
  | .int n, .int n' => n = n'
  | .float f, .float f' => floatEq f.val f'.val
  | .timestamp t, .timestamp t' => equalTimestamp t t'
  | .date d, .date d' => d = d'
  | .text s, .text s' => s = s'
  | .bytes b, .bytes b' => b = b'
  | .list items, .list items' => equalItems items items'
  | .mapping entries, .mapping entries' =>
    entries.length = entries'.length && equalEntries entries entries'
  | _, _ => false

def equalItems : List SpillValue → List SpillValue → Bool
  | [], [] => true
  | item :: items, item' :: items' => equalValue item item' && equalItems items items'
  | _, _ => false

/-- Every entry is one of the others. -/
def equalEntries : List (SpillKey × SpillValue) → List (SpillKey × SpillValue) → Bool
  | [], _ => true
  | (key, value) :: entries, entries' =>
    (match entries'.lookup key with
      | some value' => equalValue value value'
      | none => false) && equalEntries entries entries'

end

/-- `==` of two rows. -/
def equalRow (row row' : SpillRow) : Bool := row.length = row'.length && equalEntries row row'

/-- A float that is equal to itself. -/
def NotNan (f : PyFloat) : Prop := floatEq f.val f.val = true

mutual

/-- A value without NaN is equal to itself. -/
theorem equalValue_self : ∀ {value : SpillValue}, Supported NotNan AnyText value →
    equalValue value value = true
  | .none, _ => rfl
  | .bool b, _ => by simp [equalValue]
  | .int n, _ => by simp [equalValue]
  | .float f, h => h
  | .timestamp t, _ => by
    rw [equalValue, equalTimestamp]
    cases t.offset <;> simp
  | .date d, _ => by simp [equalValue]
  | .text s, _ => by simp [equalValue]
  | .bytes b, _ => by simp [equalValue]
  | .list items, h => by
    rw [equalValue]
    exact equalItems_self h
  | .mapping entries, h => by
    rw [equalValue, equalEntries_self h.1 h.2 fun _ hentry => hentry]
    simp
  | .other, h => h.elim

theorem equalItems_self : ∀ {items : List SpillValue}, SupportedItems NotNan AnyText items →
    equalItems items items = true
  | [], _ => rfl
  | item :: items, h => by
    rw [equalItems, equalValue_self h.1, equalItems_self h.2]
    rfl

theorem equalEntries_self : ∀ {entries whole : List (SpillKey × SpillValue)},
    (whole.map Prod.fst).Nodup → SupportedEntries NotNan AnyText entries →
      (∀ entry ∈ entries, entry ∈ whole) → equalEntries entries whole = true
  | [], _, _, _, _ => rfl
  | (.text key, value) :: entries, whole, hnodup, h, hsub => by
    rw [equalEntries, Dict.lookup_of_mem hnodup (hsub _ (List.mem_cons_self ..))]
    dsimp only
    rw [equalValue_self h.2.1, equalEntries_self hnodup h.2.2 fun entry hentry =>
      hsub entry (List.mem_cons_of_mem _ hentry)]
    rfl

end

/-! ### The codec -/

def Finite (f : PyFloat) : Prop := double.finite f.val = true

/-- Any float. -/
def AnyFloat (_ : PyFloat) : Prop := True

mutual

/-- What holds of the floats and what holds of the texts, together. -/
theorem Supported.both {P P' : PyFloat → Prop} {Q' : PyText → Prop} (hP : ∀ f, P f → P' f) :
    ∀ {value : SpillValue}, Supported P AnyText value → Supported AnyFloat Q' value →
      Supported P' Q' value
  | .none, _, _ | .bool _, _, _ | .int _, _, _ | .timestamp _, _, _ | .date _, _, _
  | .bytes _, _, _ => trivial
  | .float f, h, _ => hP f h
  | .text _, _, h => h
  | .list _, h, h' => SupportedItems.both hP h h'
  | .mapping _, h, h' => ⟨h.1, SupportedEntries.both hP h.2 h'.2⟩
  | .other, h, _ => h.elim

theorem SupportedItems.both {P P' : PyFloat → Prop} {Q' : PyText → Prop} (hP : ∀ f, P f → P' f) :
    ∀ {items : List SpillValue}, SupportedItems P AnyText items → SupportedItems AnyFloat Q' items →
      SupportedItems P' Q' items
  | [], _, _ => trivial
  | _ :: _, h, h' => ⟨h.1.both hP h'.1, SupportedItems.both hP h.2 h'.2⟩

theorem SupportedEntries.both {P P' : PyFloat → Prop} {Q' : PyText → Prop}
    (hP : ∀ f, P f → P' f) : ∀ {entries : List (SpillKey × SpillValue)},
      SupportedEntries P AnyText entries → SupportedEntries AnyFloat Q' entries →
        SupportedEntries P' Q' entries
  | [], _, _ => trivial
  | (.text _, _) :: _, h, h' => ⟨h'.1, h.2.1.both hP h'.2.1, SupportedEntries.both hP h.2.2 h'.2.2⟩

end

mutual

theorem Supported.mono {P P' : PyFloat → Prop} {Q' : PyText → Prop} (hP : ∀ f, P f → P' f) :
    ∀ {value : SpillValue}, Supported P Q' value → Supported P' Q' value
  | .none, _ | .bool _, _ | .int _, _ | .timestamp _, _ | .date _, _ | .bytes _, _ => trivial
  | .float f, h => hP f h
  | .text _, h => h
  | .list _, h => SupportedItems.mono hP h
  | .mapping _, h => ⟨h.1, SupportedEntries.mono hP h.2⟩
  | .other, h => h.elim

theorem SupportedItems.mono {P P' : PyFloat → Prop} {Q' : PyText → Prop} (hP : ∀ f, P f → P' f) :
    ∀ {items : List SpillValue}, SupportedItems P Q' items → SupportedItems P' Q' items
  | [], _ => trivial
  | _ :: _, h => ⟨h.1.mono hP, SupportedItems.mono hP h.2⟩

theorem SupportedEntries.mono {P P' : PyFloat → Prop} {Q' : PyText → Prop}
    (hP : ∀ f, P f → P' f) : ∀ {entries : List (SpillKey × SpillValue)},
      SupportedEntries P Q' entries → SupportedEntries P' Q' entries
  | [], _ => trivial
  | (.text _, _) :: _, h => ⟨h.1, h.2.1.mono hP, SupportedEntries.mono hP h.2.2⟩

end

/-- A column that holds a NaN. -/
def nanRow : SpillRow := [(.text (pyText "a"), .float PyNumber.nan.toFloat)]

/-- A column that holds an escaped surrogate. -/
def surrogateLine : Str :=
  ("\x7b\"schema\":\"dpone.nested-semantic-row.v1\"," ++
    "\"columns\":[[\"a\",[\"string\",\"\\ud800\"]]]\x7d").toList

/-- One column of a nested value. -/
def nestedRow : SpillRow :=
  [(.text (pyText "a"), .list [.bool true, .mapping [(.text (pyText "b"), .int (-7))]])]

end Dpone.Normalization
