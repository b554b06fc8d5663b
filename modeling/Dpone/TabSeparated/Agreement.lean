import Dpone.TabSeparated.Codec

/-! The three sides of the TabSeparated codec agree.

    The prefix of the markers is marked first, so no text can look like a marker, and then the
    control characters are escaped, so no text can look like NULL or cut a record. LOSSLESS: both
    decoders give every text and NULL back. -/

namespace Dpone.TabSeparated
open Dpone.Schemes

/-! ### Literals -/

theorem flushed_value (textBuffer : Str) : literalValue (flushed textBuffer) = textBuffer := by
  unfold flushed
  split_ifs with h
  · rw [h]
    rfl
  · have hquotes := replaceAll_marked ['\''] (List.cons_ne_nil '\'' []) textBuffer
    rw [literalValue, List.flatMap_cons, List.flatMap_nil, List.append_nil]
    exact hquotes

theorem literalParts_value : ∀ value textBuffer : Str,
    literalValue (literalParts textBuffer value) = textBuffer ++ value
  | [], textBuffer => by rw [literalParts, flushed_value, List.append_nil]
  | c :: value, textBuffer => by
    rw [literalParts]
    split_ifs with h
    · have hflushed := flushed_value textBuffer
      have hvalue := literalParts_value value []
      rw [literalValue] at hflushed hvalue
      rw [literalValue, List.flatMap_append, hflushed, List.flatMap_cons, hvalue,
        LiteralPart.value, Char.ofNat_toNat]
      rfl
    · rw [literalParts_value value (textBuffer ++ [c]), List.append_assoc, List.singleton_append]

/-- LOSSLESS: a SQL Server literal stands for the text it was rendered from. -/
theorem mssqlLiteral_value (value : Str) : literalValue (mssqlLiteral value) = value :=
  literalParts_value value []

/-- LOSSLESS: so does a ClickHouse literal. -/
theorem clickhouseLiteral_value (server : ClickHouse) (value : Str) :
    server.literal.read (clickhouseLiteral value) = value := by
  rw [clickhouseLiteral, escapeAll_eq value (by decide)]
  exact server.literal.read_escaped ⟨_, List.mem_cons_self .., rfl⟩ value

/-! ### The wire -/

/-- A text with every marker prefix marked. -/
def marked (text : Str) : Str := replaceAll markerPrefix escapedPrefixMarker text

/-- A marked text with its control characters escaped. -/
def escaped (text : Str) : Str := (marked text).flatMap (escapeChar '\\' wireEscapes)

/-- The field of a column value, as the expression computes it. -/
abbrev wire (value : Option Str) : Str := mssqlSelectExpression.eval value

theorem eval_escapes : ∀ (table : List (Char × Char)) (e : SqlText) (text : Str),
    (table.foldl (fun expression e =>
      SqlText.replace expression (mssqlLiteral [e.1]) (mssqlLiteral ['\\', e.2])) e).eval text =
      escapeAll '\\' table (e.eval text)
  | [], _, _ => rfl
  | d :: table, e, text => by
    rw [List.foldl_cons, eval_escapes table _ text, SqlText.eval, mssqlLiteral_value,
      mssqlLiteral_value]
    rfl

theorem wire_text {text : Str} (h : text ≠ []) : wire (some text) = escaped text := by
  have hmarked : (SqlText.replace .converted (mssqlLiteral markerPrefix)
      (mssqlLiteral escapedPrefixMarker)).eval text = marked text := by
    rw [SqlText.eval, mssqlLiteral_value, mssqlLiteral_value]
    rfl
  have hne : mssqlSelectExpression.textValue.eval text ≠ [] := h
  have hotherwise : mssqlSelectExpression.otherwise = wireEscapes.foldl (fun expression e =>
      .replace expression (mssqlLiteral [e.1]) (mssqlLiteral ['\\', e.2]))
        (.replace .converted (mssqlLiteral markerPrefix) (mssqlLiteral escapedPrefixMarker)) := rfl
  rw [wire, SelectExpression.eval, if_neg hne, hotherwise, eval_escapes, hmarked, escaped]
  exact escapeAll_eq _ (by decide)

theorem wire_empty : wire (some []) = emptyStringMarker := by
  have hempty : mssqlSelectExpression.textValue.eval [] = [] := rfl
  rw [wire, SelectExpression.eval, if_pos hempty]
  exact mssqlLiteral_value emptyStringMarker

theorem escapedPrefixMarker_eq : escapedPrefixMarker = markerPrefix ++ "prefix".toList := by decide

theorem marked_ne_nil {text : Str} (h : text ≠ []) : marked text ≠ [] := by
  intro hnil
  have hback := replaceAll_marked "prefix".toList (by decide : markerPrefix ≠ []) text
  rw [← escapedPrefixMarker_eq, ← marked, hnil, replaceAll_nil] at hback
  exact h hback.symm

/-- No marked text is the marker of the empty text. -/
theorem marked_ne_empty (text : Str) : marked text ≠ emptyStringMarker := by
  intro heq
  have hempty : emptyStringMarker = markerPrefix ++ "empty".toList := by decide
  have hprefix : markerPrefix <+: marked text := heq ▸ hempty ▸ List.prefix_append _ _
  rw [marked, escapedPrefixMarker_eq] at hprefix
  obtain ⟨rest, rfl⟩ := prefix_of_marked (by decide : markerPrefix ≠ []) le_rfl text hprefix
  rw [marked, replaceAll_word (by decide), hempty, escapedPrefixMarker_eq, List.append_assoc] at heq
  have htail := List.append_cancel_left heq
  exact absurd (List.cons.inj htail).1 (by decide)

/-- What an image begins with is never the start of NULL followed by its letter. -/
theorem escaped_ne_null {text : Str} (h : text ≠ []) : escaped text ≠ nullWire := by
  intro heq
  rw [escaped] at heq
  cases hmarked : marked text with
  | nil => exact marked_ne_nil h hmarked
  | cons x s =>
    rw [hmarked, List.flatMap_cons] at heq
    rcases escapeChar_cases '\\' x wireEscapes with ⟨himage, hnot⟩ | ⟨e, he, -, himage⟩
    · rw [himage] at heq
      exact hnot _ (List.mem_cons_self ..) (List.cons.inj heq).1
    · rw [himage] at heq
      have hcode : e.2 = 'N' := (List.cons.inj (List.cons.inj heq).2).1
      simp only [wireEscapes, List.mem_cons, List.not_mem_nil, or_false] at he
      rcases he with rfl | rfl | rfl | rfl <;> exact absurd hcode (by decide)

/-- Records and fields are not cut inside a value. -/
theorem wire_plain (value : Option Str) {c : Char} (hc : c = '\t' ∨ c = '\n' ∨ c = '\r') :
    c ∉ wire value := by
  cases value with
  | none => rcases hc with rfl | rfl | rfl <;> decide
  | some text =>
    by_cases h : text = []
    · rw [h, wire_empty]
      rcases hc with rfl | rfl | rfl <;> decide
    · rw [wire_text h, escaped]
      intro hmem
      obtain ⟨x, -, hx⟩ := List.mem_flatMap.mp hmem
      rcases escapeChar_cases '\\' x wireEscapes with ⟨himage, hnot⟩ | ⟨e, he, -, himage⟩
      · rw [himage, List.mem_singleton] at hx
        subst hx
        rcases hc with rfl | rfl | rfl
        · exact hnot ('\t', 't') (by decide) rfl
        · exact hnot ('\n', 'n') (by decide) rfl
        · exact hnot ('\r', 'r') (by decide) rfl
      · rw [himage] at hx
        simp only [wireEscapes, List.mem_cons, List.not_mem_nil, or_false] at he
        rcases he with rfl | rfl | rfl | rfl <;> rcases hc with rfl | rfl | rfl <;>
          exact absurd hx (by decide)

theorem wire_eq_null {value : Option Str} : wire value = nullWire ↔ value = none := by
  constructor
  · intro h
    cases value with
    | none => rfl
    | some text =>
      by_cases hempty : text = []
      · rw [hempty, wire_empty] at h
        exact absurd h (by decide)
      · rw [wire_text hempty] at h
        exact absurd h (escaped_ne_null hempty)
  · rintro rfl
    rfl

/-! ### The decoders -/

/-- The decoder of the wire is a scanner of the escapes of the wire. -/
def wireScanner : Unescaper '\\' wireEscapes where
  read := unescapeTabseparated
  read_nil := rfl
  read_plain c s hc := by
    cases s with
    | nil => rfl
    | cons d s => rw [unescapeTabseparated, if_neg hc]
  read_code e he s := by
    simp only [wireEscapes, List.mem_cons, List.not_mem_nil, or_false] at he
    rcases he with rfl | rfl | rfl | rfl <;> rfl

/-- What a scanner makes of a wire text: the marked text, or the marker of the empty one. -/
theorem read_wire (scan : Unescaper '\\' wireEscapes) (text : Str) :
    scan.read (wire (some text)) = if text = [] then emptyStringMarker else marked text := by
  split_ifs with h
  · rw [h, wire_empty]
    exact scan.read_of_not_mem (by decide)
  · rw [wire_text h, escaped]
    exact scan.read_escaped ⟨_, List.mem_cons_self .., rfl⟩ _

theorem unmark_marked (text : Str) :
    replaceAll escapedPrefixMarker markerPrefix (marked text) = text := by
  rw [marked, escapedPrefixMarker_eq]
  exact replaceAll_marked _ (by decide) text

/-- LOSSLESS: the decoder of the wire gives the value back. -/
theorem decodeWireValue_wire (value : Option Str) : decodeWireValue (wire value) = value := by
  cases value with
  | none => rfl
  | some text =>
    have hnull : wire (some text) ≠ nullWire := fun h => nomatch wire_eq_null.mp h
    have hread := read_wire wireScanner text
    change unescapeTabseparated _ = _ at hread
    rw [decodeWireValue, if_neg hnull, hread]
    by_cases h : text = []
    · rw [if_pos h, h]
      rfl
    · rw [if_neg h]
      simp only [if_neg (marked_ne_empty text), unmark_marked]

/-- LOSSLESS: so does ClickHouse. -/
theorem clickhouse_wire (server : ClickHouse) (value : Option Str) :
    server.eval (server.stage (wire value)) clickhouseDecodeExpression = value := by
  cases value with
  | none => rfl
  | some text =>
    have hnull : wire (some text) ≠ nullWire := fun h => nomatch wire_eq_null.mp h
    have hread := read_wire server.field text
    have hliteral := clickhouseLiteral_value server
    rw [ClickHouse.stage, if_neg hnull, hread, clickhouseDecodeExpression, ClickHouse.eval,
      ClickHouse.eval, hliteral, hliteral, hliteral]
    by_cases h : text = []
    · rw [if_pos h, if_pos rfl, h]
      rfl
    · have hne : some (marked text) ≠ some emptyStringMarker := fun heq =>
        marked_ne_empty text (Option.some.inj heq)
      rw [if_neg h, if_neg hne, ClickHouse.eval, Option.map_some, unmark_marked]

/-- LOSSLESS: the SQL encoding, the decoder of the wire and the ClickHouse expression agree on every
    text and on NULL; no value cuts a record and no text is taken for NULL. -/
theorem tab_separated_agree (server : ClickHouse) (value : Option Str) :
    decodeWireValue (wire value) = value ∧
      server.eval (server.stage (wire value)) clickhouseDecodeExpression = value ∧
      '\t' ∉ wire value ∧ '\n' ∉ wire value ∧ (wire value = nullWire ↔ value = none) :=
  ⟨decodeWireValue_wire value, clickhouse_wire server value, wire_plain value (.inl rfl),
    wire_plain value (.inr (.inl rfl)), wire_eq_null⟩

/-- A server whose literals and fields are read alike. -/
def sampleServer : ClickHouse where
  field := wireScanner
  literal :=
    { read := unescapeTabseparated
      read_nil := rfl
      read_plain := wireScanner.read_plain
      read_code := by
        intro e he s
        simp only [clickhouseEscapes, List.mem_cons, List.not_mem_nil, or_false] at he
        rcases he with rfl | rfl <;> rfl }

theorem tab_separated_agree_on_marker :
    decodeWireValue (wire (some markerPrefix)) = some markerPrefix :=
  (tab_separated_agree sampleServer (some markerPrefix)).1

end Dpone.TabSeparated
