import Dpone.Cdc.PgOutputFaithful
import Dpone.Cdc.TestDecoding

/-! What the parser makes of one printed value.

    A value is recovered when it is what its column's type denotes. A value in quotes is converted
    by its look, so a text that looks like a number, a boolean or NULL is not recovered; a bit
    string keeps the marks of its literal, and a float with an exponent stays a text
    (`datum_recovered_iff`). -/

namespace Dpone.Cdc.TestDecoding
open Dpone.Schemes

/-- A text as the output function of a type prints it. -/
def WellTyped (literal : LiteralKind) (t : Str) : Prop :=
  match literal with
  | .integer => ∃ n : ℤ, t = intText n
  | .numeric => ∃ n : NumberText, n.WellFormed ∧ n.Plain ∧ t = n.text
  | .float => ∃ n : NumberText, n.WellFormed ∧ t = n.text
  | .bit => ∀ c ∈ t, c = '0' ∨ c = '1'
  | .boolean => t = ['t'] ∨ t = ['f']
  | .quoted => True

def FitsLiteral (literal : LiteralKind) (d : TupleDatum) : Prop :=
  ∀ t, d = .text t → WellTyped literal t

/-- A value is the float nearest to a number. -/
def SaysFloat (x : PyNumber) : PgValue → Prop
  | .int k => floatValue x.toFloat = some (k : ℚ)
  | .float f => f = x.toFloat
  | _ => False

/-- A value is what a text of the type denotes. -/
def Denotes (literal : LiteralKind) (t : Str) (v : PgValue) : Prop :=
  match literal with
  | .integer => ∃ n : ℤ, t = intText n ∧ v = .int n
  | .numeric => ∃ n : NumberText, n.WellFormed ∧ t = n.text ∧ SaysNumber n.number v
  | .float => ∃ n : NumberText, n.WellFormed ∧ t = n.text ∧ SaysFloat n.number v
  | .boolean => v = .bool (t = ['t'])
  | .bit => v = .text t
  | .quoted => v = .text t

/-- The entry of a decoded row recovers a datum: NULL is `None` and no text is. An unchanged value
    is not in the message, and the parser has no mark for it. -/
def RecoversDatum (literal : LiteralKind) (entry : Option (Option PgValue)) : TupleDatum → Prop
  | .null => entry = some none
  | .unchanged => False
  | .text t => ∃ v, entry = some (some v) ∧ Denotes literal t v

/-- A text that is taken for something else. -/
def Misread (u : Unicode) (t : Str) : Prop :=
  t.map Char.toLower ∈ ["null".toList, "<null>".toList, "true".toList, "false".toList] ∨
    intPattern u t = true ∨ decimalPattern u t = true

/-- A datum that survives its printing. -/
def Survives (u : Unicode) (literal : LiteralKind) : TupleDatum → Prop
  | .null => True
  | .unchanged => False
  | .text t =>
    match literal with
    | .integer => True
    | .boolean => True
    | .bit => False
    | .numeric => ∃ n : NumberText, n.WellFormed ∧ t = n.text ∧ n.Positional ∧
        ExactNumber n.number
    | .float => ∃ n : NumberText, n.WellFormed ∧ t = n.text ∧ n.Positional ∧
        ∀ k : ℤ, n.number.value = some (k : ℚ) → DoubleExact (k : ℚ)
    | .quoted => ¬ Misread u t

/-- What is read of a printed value. -/
def rawText (literal : LiteralKind) : TupleDatum → Str
  | .text t => if literal = .quoted then t else printLiteral literal t
  | d => printDatum literal d

variable {u : Unicode}

/-! ### Conversion by look -/

theorem convertValue_plain {t : Str} (h : ¬ Misread u t) :
    convertValue u t = .ok (some (.text t)) := by
  simp only [Misread, List.mem_cons, List.not_mem_nil, or_false, not_or] at h
  obtain ⟨⟨hnull, hbracketed, htrue, hfalse⟩, hint, hdecimal⟩ := h
  simp only [convertValue, hnull, hbracketed, htrue, hfalse, hint, hdecimal, or_self, if_false,
    Bool.false_eq_true]

theorem convertDecimal_no_text {x : PyNumber} {s : Str} : convertDecimal x ≠ .ok (.text s) := by
  intro h
  cases x with
  | infinite negative => cases h
  | nan => cases h
  | finite negative coefficient exponent =>
    simp only [convertDecimal] at h
    split at h <;> cases h

/-- What comes back as a text is the text itself, and looks like nothing else. -/
theorem convertValue_text {raw s : Str} (h : convertValue u raw = .ok (some (.text s))) :
    s = raw ∧ ¬ Misread u raw := by
  unfold convertValue at h
  dsimp only at h
  split_ifs at h with hnull htrue hfalse hint hdecimal
  · cases h
  · cases h
  · cases h
  · split at h <;> cases h
  · split at h
    · next decimal _ =>
      cases hconvert : convertDecimal decimal with
      | error e => rw [hconvert] at h; cases h
      | ok v =>
        rw [hconvert] at h
        cases h
        exact absurd hconvert convertDecimal_no_text
    · cases h
  · cases h
    refine ⟨rfl, ?_⟩
    simp only [Misread, List.mem_cons, List.not_mem_nil, or_false, not_or]
    exact ⟨⟨fun h => hnull (.inl h), fun h => hnull (.inr h), htrue, hfalse⟩, hint, hdecimal⟩

/-- The words that are converted, by their first letters. -/
theorem words_head : ∀ w ∈ ["null".toList, "<null>".toList, "true".toList, "false".toList],
    ∀ c ∈ w.head?, c ∈ ['n', '<', 't', 'f'] := by
  intro w hw c hc
  simp only [List.mem_cons, List.not_mem_nil, or_false] at hw
  rcases hw with rfl | rfl | rfl | rfl <;> cases hc <;> decide

theorem digitChar_not_head : ∀ d : Fin 10, digitChar d.val ∉ ['n', '<', 't', 'f'] := by decide

/-- A printed number is none of the words. -/
theorem number_not_word {n : NumberText} (h : n.WellFormed) :
    n.text.map Char.toLower ∉
      ["null".toList, "<null>".toList, "true".toList, "false".toList] := by
  cases n with
  | nan => decide
  | infinity negative => cases negative <;> decide
  | finite negative whole fraction exponent =>
    intro hmem
    cases negative
    · obtain ⟨d, t, hlower⟩ := lower_numeral fraction exponent h.1
      rw [NumberText.text, NumberText.signText, if_neg (by decide), List.nil_append, hlower] at hmem
      exact digitChar_not_head d (words_head _ hmem _ rfl)
    · exact absurd (words_head _ hmem '-' rfl) (by decide)

theorem convertValue_whole (negative : Bool) {whole : List (Fin 10)} (hwhole : whole ≠ []) :
    ∃ k : ℤ, convertValue u (NumberText.finite negative whole [] none).text = .ok (some (.int k)) ∧
      pyInt u (NumberText.finite negative whole [] none).text = some k ∧
      (NumberText.finite negative whole [] none).number.value = some (k : ℚ) := by
  have hword := number_not_word (n := .finite negative whole [] none) (wellFormed_plain hwhole)
  obtain ⟨k, hk, hvalue⟩ := pyInt_whole (u := u) negative hwhole
  simp only [List.mem_cons, List.not_mem_nil, or_false, not_or] at hword
  refine ⟨k, ?_, hk, hvalue⟩
  simp only [convertValue, hword, intPattern_whole negative hwhole, hk, or_self, if_false, if_true]

theorem convertValue_fraction (hu : u.AsciiExact) {negative : Bool} {whole fraction : List (Fin 10)}
    (hwhole : whole ≠ []) (hfraction : fraction ≠ []) :
    convertValue u (NumberText.finite negative whole fraction none).text =
      (convertDecimal (NumberText.finite negative whole fraction none).number).map some := by
  have hformed : (NumberText.finite negative whole fraction none).WellFormed :=
    wellFormed_plain hwhole
  have hword := number_not_word hformed
  obtain ⟨hint, hdecimal⟩ := decimalPattern_fraction hu negative hwhole hfraction
  simp only [List.mem_cons, List.not_mem_nil, or_false, not_or] at hword
  simp only [convertValue, hword, hint, hdecimal, pyDecimal_text hformed, or_self, if_false,
    if_true, Bool.false_eq_true]

theorem not_misread_positional (hu : u.AsciiExact) {n : NumberText} (h : n.WellFormed)
    (hother : ¬ n.Positional) : ¬ Misread u n.text := by
  obtain ⟨hint, hdecimal⟩ := pattern_positional hu hother
  rintro (hword | hpattern | hpattern)
  · exact number_not_word h hword
  · rw [hint] at hpattern; cases hpattern
  · rw [hdecimal] at hpattern; cases hpattern

theorem convertValue_intText (n : ℤ) : convertValue u (intText n) = .ok (some (.int n)) := by
  obtain ⟨negative, whole, hwhole, htext⟩ := intText_whole n
  obtain ⟨k, hconvert, hk, -⟩ := convertValue_whole (u := u) negative hwhole
  rw [← htext] at hconvert hk
  rw [hconvert, ← Option.some.inj ((pyInt_intText u n).symm.trans hk)]

/-- A number printed with digits alone, as the cases of its conversion. -/
theorem positional_cases {n : NumberText} (h : n.WellFormed) (hpos : n.Positional) :
    ∃ negative whole fraction, whole ≠ [] ∧ n = .finite negative whole fraction none := by
  cases n with
  | finite negative whole fraction exponent =>
    cases exponent with
    | none => exact ⟨negative, whole, fraction, h.1, rfl⟩
    | some e => exact hpos.elim
  | infinity negative => exact hpos.elim
  | nan => exact hpos.elim

theorem map_some_ok {ε α : Type} {x : Except ε α} {v : α} :
    x.map some = .ok (some v) ↔ x = .ok v := by
  cases x with
  | error e => exact ⟨nofun, nofun⟩
  | ok a => exact ⟨fun h => by cases h; rfl, fun h => by cases h; rfl⟩

/-! ### One datum -/

theorem numeric_recovered_iff (hu : u.AsciiExact) {n : NumberText} (h : n.WellFormed) :
    (∃ v, convertValue u n.text = .ok (some v) ∧ SaysNumber n.number v) ↔
      n.Positional ∧ ExactNumber n.number := by
  by_cases hpos : n.Positional
  · rw [and_iff_right hpos]
    obtain ⟨negative, whole, fraction, hwhole, rfl⟩ := positional_cases h hpos
    by_cases hfraction : fraction = []
    · obtain ⟨k, hk, -, hvalue⟩ := convertValue_whole (u := u) negative hwhole
      rw [hfraction, hk]
      refine ⟨fun _ v hv => .inl ⟨k, ?_⟩, fun _ => ⟨_, rfl, hvalue⟩⟩
      exact Option.some.inj (hv.symm.trans hvalue)
    · rw [convertValue_fraction hu hwhole hfraction, ← convertDecimal_iff]
      simp only [map_some_ok]
  · refine ⟨?_, fun h => absurd h.1 hpos⟩
    rintro ⟨v, hv, hsays⟩
    rw [convertValue_plain (not_misread_positional hu h hpos)] at hv
    cases hv
    exact hsays.elim

theorem float_recovered_iff (hu : u.AsciiExact) {n : NumberText} (h : n.WellFormed) :
    (∃ v, convertValue u n.text = .ok (some v) ∧ SaysFloat n.number v) ↔
      n.Positional ∧ ∀ k : ℤ, n.number.value = some (k : ℚ) → DoubleExact (k : ℚ) := by
  by_cases hpos : n.Positional
  · rw [and_iff_right hpos]
    obtain ⟨negative, whole, fraction, hwhole, rfl⟩ := positional_cases h hpos
    by_cases hfraction : fraction = []
    · obtain ⟨k, hk, -, hvalue⟩ := convertValue_whole (u := u) negative hwhole
      rw [hfraction, hk]
      constructor
      · rintro ⟨v, hv, hsays⟩ k' hk'
        cases hv
        obtain rfl : k = k' := by
          rw [hvalue] at hk'
          exact_mod_cast Option.some.inj hk'
        exact (toFloat_exact_iff hvalue).mp hsays
      · intro hexact
        exact ⟨_, rfl, (toFloat_exact_iff hvalue).mpr (hexact k hvalue)⟩
    · rw [convertValue_fraction hu hwhole hfraction]
      set x := (NumberText.finite negative whole fraction none).number
      obtain ⟨w, hw⟩ : ∃ w, x.value = some w := ⟨_, rfl⟩
      simp only [map_some_ok, convertDecimal_of_value hw, Except.ok.injEq, exists_eq_left']
      cases hint : x.toInt with
      | some k =>
        have hk : w = k := (toInt_eq_some hw).mp hint
        rw [Option.map_some, Option.getD_some, SaysFloat, toFloat_exact_iff (hk ▸ hw)]
        refine ⟨fun hexact k' hk' => ?_, fun hexact => hexact k (hk ▸ hw)⟩
        have hsame : (k' : ℚ) = k := by rw [← hk, ← Option.some.inj (hw.symm.trans hk')]
        rwa [hsame]
      | none =>
        refine iff_of_true rfl fun k hk => ?_
        rw [(toInt_eq_some hk).mpr rfl] at hint
        cases hint
  · refine ⟨?_, fun h => absurd h.1 hpos⟩
    rintro ⟨v, hv, hsays⟩
    rw [convertValue_plain (not_misread_positional hu h hpos)] at hv
    cases hv
    exact hsays.elim

/-- Every number is printed as a `NumberText`. -/
theorem number_of_wellTyped {literal : LiteralKind} {t : Str} (h : WellTyped literal t)
    (hliteral : literal = .integer ∨ literal = .numeric ∨ literal = .float) :
    ∃ n : NumberText, n.WellFormed ∧ t = n.text := by
  rcases hliteral with rfl | rfl | rfl
  · obtain ⟨n, rfl⟩ := h
    obtain ⟨negative, whole, hwhole, htext⟩ := intText_whole n
    exact ⟨_, wellFormed_plain hwhole, htext⟩
  · obtain ⟨n, hn, -, rfl⟩ := h
    exact ⟨n, hn, rfl⟩
  · exact h

/-- CORRECT: what is read of a printed datum is converted to it exactly when it survives. -/
theorem datum_recovered_iff (hu : u.AsciiExact) {literal : LiteralKind} {d : TupleDatum}
    (h : FitsLiteral literal d) :
    (∃ v, convertValue u (rawText literal d) = .ok v ∧ RecoversDatum literal (some v) d) ↔
      Survives u literal d := by
  cases d with
  | null => exact iff_of_true ⟨none, rfl, rfl⟩ trivial
  | unchanged => exact iff_of_false (fun ⟨_, _, h⟩ => h) id
  | text t =>
    have htyped : WellTyped literal t := h t rfl
    have hentry : (∃ v, convertValue u (rawText literal (.text t)) = .ok v ∧
        RecoversDatum literal (some v) (.text t)) ↔
        ∃ v, convertValue u (rawText literal (.text t)) = .ok (some v) ∧ Denotes literal t v := by
      constructor
      · rintro ⟨v, hv, w, hw, hdenotes⟩
        cases hw
        exact ⟨w, hv, hdenotes⟩
      · rintro ⟨w, hw, hdenotes⟩
        exact ⟨some w, hw, w, rfl, hdenotes⟩
    rw [hentry]
    cases literal with
    | integer =>
      obtain ⟨n, rfl⟩ := htyped
      exact iff_of_true ⟨.int n, convertValue_intText n, n, rfl, rfl⟩ trivial
    | boolean =>
      rcases htyped with rfl | rfl
      · exact iff_of_true ⟨.bool true, rfl, rfl⟩ trivial
      · exact iff_of_true ⟨.bool false, rfl, rfl⟩ trivial
    | bit =>
      refine iff_of_false ?_ id
      rintro ⟨v, hv, rfl⟩
      have hlength := congrArg List.length (convertValue_text hv).1
      simp only [rawText, printLiteral, if_neg (nofun : ¬ LiteralKind.bit = .quoted),
        List.length_cons, List.length_append, List.length_nil] at hlength
      omega
    | quoted =>
      constructor
      · rintro ⟨v, hv, rfl⟩
        exact (convertValue_text hv).2
      · intro hplain
        exact ⟨_, convertValue_plain hplain, rfl⟩
    | numeric =>
      constructor
      · rintro ⟨v, hv, n, hn, rfl, hsays⟩
        exact ⟨n, hn, rfl, (numeric_recovered_iff hu hn).mp ⟨v, hv, hsays⟩⟩
      · rintro ⟨n, hn, rfl, hsurvives⟩
        obtain ⟨v, hv, hsays⟩ := (numeric_recovered_iff hu hn).mpr hsurvives
        exact ⟨v, hv, n, hn, rfl, hsays⟩
    | float =>
      constructor
      · rintro ⟨v, hv, n, hn, rfl, hsays⟩
        exact ⟨n, hn, rfl, (float_recovered_iff hu hn).mp ⟨v, hv, hsays⟩⟩
      · rintro ⟨n, hn, rfl, hsurvives⟩
        obtain ⟨v, hv, hsays⟩ := (float_recovered_iff hu hn).mpr hsurvives
        exact ⟨v, hv, n, hn, rfl, hsays⟩

/-! ### Reading a printed datum -/

/-- A word that is not quoted is read up to the next blank. -/
theorem readValue_word {w rest : Str} {c : Char} {t : Str} (hw : w = c :: t) (hc : c ≠ '\'')
    (hblank : ∀ c ∈ w, u.isSpace c = false) (hrest : ∀ c ∈ rest.head?, u.isSpace c = true) :
    readValue u (w ++ rest) = (w, rest) := by
  obtain ⟨htake, hdrop⟩ := taken_run (p := fun c => !u.isSpace c) (s := w) (t := rest)
    (fun c hc => by rw [hblank c hc]; rfl) (fun c hc => by rw [hrest c hc]; rfl)
  have hword : readValue u (w ++ rest) = ((w ++ rest).takeWhile fun c => !u.isSpace c,
      (w ++ rest).dropWhile fun c => !u.isSpace c) := by
    rw [hw, List.cons_append]
    exact readValue.eq_2 _ _ fun body heq => hc (List.cons.inj heq).1
  rw [hword, htake, hdrop]

theorem space_false (hu : u.AsciiExact) {c : Char} (hc : c.toNat < 128) (h : asciiSpace c = false) :
    u.isSpace c = false := (hu.space c hc).trans h

theorem alphanum_not_space {c : Char} (h : c.isAlphanum) : u.isSpace c = false :=
  Bool.eq_false_iff.mpr (not_space_of_alphanum h)

theorem number_not_space (hu : u.AsciiExact) (n : NumberText) :
    ∀ c ∈ n.text, u.isSpace c = false := by
  intro c hc
  rcases mem_text hc with h | rfl | rfl | rfl
  · exact alphanum_not_space h
  · exact space_false hu (by decide) (by decide)
  · exact space_false hu (by decide) (by decide)
  · exact space_false hu (by decide) (by decide)

theorem word_not_space (hu : u.AsciiExact) {w : Str}
    (h : ∀ c ∈ w, c.toNat < 128 ∧ asciiSpace c = false) : ∀ c ∈ w, u.isSpace c = false :=
  fun c hc => space_false hu (h c hc).1 (h c hc).2

/-- What a printed datum looks like: a quoted text, or a word without blanks. -/
theorem printDatum_cases (hu : u.AsciiExact) {literal : LiteralKind} {d : TupleDatum}
    (h : FitsLiteral literal d) :
    (∃ t, literal = .quoted ∧ d = .text t) ∨ (rawText literal d = printDatum literal d ∧
      (∀ c ∈ printDatum literal d, u.isSpace c = false) ∧
      ∃ c t, printDatum literal d = c :: t ∧ c ≠ '\'') := by
  cases d with
  | null =>
    have hword : ∀ c ∈ "null".toList, c.toNat < 128 ∧ asciiSpace c = false :=
      List.all_iff_forall_prop.mp (by decide)
    exact .inr ⟨rfl, word_not_space hu hword, 'n', _, rfl, by decide⟩
  | unchanged =>
    have hword : ∀ c ∈ unchangedWord, c.toNat < 128 ∧ asciiSpace c = false :=
      List.all_iff_forall_prop.mp (by decide)
    exact .inr ⟨rfl, word_not_space hu hword, 'u', _, rfl, by decide⟩
  | text t =>
    by_cases hquoted : literal = .quoted
    · exact .inl ⟨t, hquoted, rfl⟩
    refine .inr ⟨if_neg hquoted, ?_⟩
    have htyped : WellTyped literal t := h t rfl
    by_cases hnumber : literal = .integer ∨ literal = .numeric ∨ literal = .float
    · obtain ⟨n, hn, rfl⟩ := number_of_wellTyped htyped hnumber
      have hprint : printDatum literal (.text n.text) = n.text := by
        rcases hnumber with rfl | rfl | rfl <;> rfl
      obtain ⟨c, t, htext, hc⟩ := text_head hn
      rw [hprint]
      refine ⟨number_not_space hu n, c, t, htext, ?_⟩
      rintro rfl
      exact absurd hc (by decide)
    · cases literal with
      | integer => exact absurd (.inl rfl) hnumber
      | numeric => exact absurd (.inr (.inl rfl)) hnumber
      | float => exact absurd (.inr (.inr rfl)) hnumber
      | quoted => exact absurd rfl hquoted
      | boolean =>
        have htrue : ∀ c ∈ "true".toList, c.toNat < 128 ∧ asciiSpace c = false :=
          List.all_iff_forall_prop.mp (by decide)
        have hfalse : ∀ c ∈ "false".toList, c.toNat < 128 ∧ asciiSpace c = false :=
          List.all_iff_forall_prop.mp (by decide)
        rcases htyped with rfl | rfl
        · have hprint : printDatum .boolean (.text ['t']) = "true".toList := by
            simp [printDatum, printLiteral]
          rw [hprint]
          exact ⟨word_not_space hu htrue, 't', "rue".toList, rfl, by decide⟩
        · have hprint : printDatum .boolean (.text ['f']) = "false".toList := by
            simp [printDatum, printLiteral]
          rw [hprint]
          exact ⟨word_not_space hu hfalse, 'f', "alse".toList, rfl, by decide⟩
      | bit =>
        have hprint : printDatum .bit (.text t) = 'B' :: '\'' :: (t ++ ['\'']) := rfl
        rw [hprint]
        refine ⟨word_not_space hu fun c hc => ?_, 'B', _, rfl, by decide⟩
        simp only [List.mem_cons, List.mem_append, List.not_mem_nil, or_false] at hc
        rcases hc with rfl | rfl | hc | rfl
        · decide
        · decide
        · rcases htyped c hc with rfl | rfl <;> decide
        · decide

/-- CORRECT: a printed datum is read up to the next column. -/
theorem readValue_printDatum (hu : u.AsciiExact) {literal : LiteralKind} {d : TupleDatum}
    (h : FitsLiteral literal d) {rest : Str} (hrest : ∀ c ∈ rest.head?, u.isSpace c = true) :
    readValue u (printDatum literal d ++ rest) = (rawText literal d, rest) := by
  rcases printDatum_cases hu h with ⟨t, rfl, rfl⟩ | ⟨hraw, hblank, c, t, hprint, hc⟩
  · have hclose : rest.head? ≠ some '\'' := by
      intro hquote
      have hspace : u.isSpace '\'' = false := space_false hu (by decide) (by decide)
      rw [hrest _ hquote] at hspace
      cases hspace
    have hprint : printDatum .quoted (.text t) ++ rest =
        '\'' :: (doubled '\'' t ++ '\'' :: rest) := by
      simp [printDatum, printLiteral]
    rw [hprint, readValue.eq_1, readDoubled_doubled hclose, rawText, if_pos rfl]
  · rw [hraw]
    exact readValue_word hprint hc hblank hrest

/-- A printed datum does not end with a blank. -/
theorem printDatum_last (hu : u.AsciiExact) {literal : LiteralKind} {d : TupleDatum}
    (h : FitsLiteral literal d) :
    ∃ s c, printDatum literal d = s ++ [c] ∧ u.isSpace c = false := by
  rcases printDatum_cases hu h with ⟨t, rfl, rfl⟩ | ⟨-, hblank, c, t, hprint, -⟩
  · exact ⟨'\'' :: doubled '\'' t, '\'', rfl, space_false hu (by decide) (by decide)⟩
  · have hne : printDatum literal d ≠ [] := by rw [hprint]; simp
    exact ⟨_, _, (List.dropLast_append_getLast hne).symm, hblank _ (List.getLast_mem hne)⟩

end Dpone.Cdc.TestDecoding
