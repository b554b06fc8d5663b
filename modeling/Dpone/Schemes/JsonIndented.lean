import Dpone.Schemes.JsonRoundTrip

/-! Indented JSON texts, as `json.dumps` writes them with `indent=2`.

    Every item and every field stands on a line of its own, indented by its level. LOSSLESS: the
    reader skips what the writer puts between the tokens, so a regular document is read back, for
    every choice of a float text that the reader takes back. -/

namespace Dpone.Schemes.JsonValue

section Writer
variable (floatText : PyFloat → PyText)

/-- A line break and the indentation of a level. -/
def lineStart (level : ℕ) : PyText := cp '\n' :: List.replicate (2 * level) (cp ' ')

mutual

/-- `json.dumps(value, indent=2, ensure_ascii=False)`, at a level of nesting. -/
def indented (level : ℕ) : JsonValue → PyText
  | .null => pyText "null"
  | .bool b => if b then pyText "true" else pyText "false"
  | .int n => textOf (intText n)
  | .float f => floatText f
  | .str s => quoted s
  | .arr [] => pyText "[]"
  | .arr (item :: items) => cp '[' :: (lineStart (level + 1) ++
      (indented (level + 1) item ++ indentedItems level items))
  | .obj [] => pyText "\x7b\x7d"
  | .obj ((key, value) :: fields) => cp '\x7b' :: (lineStart (level + 1) ++
      (quoted key ++ cp ':' :: cp ' ' ::
        (indented (level + 1) value ++ indentedFields level fields)))

/-- What stands after an item, the bracket included. -/
def indentedItems (level : ℕ) : List JsonValue → PyText
  | [] => lineStart level ++ [cp ']']
  | item :: items => cp ',' :: (lineStart (level + 1) ++
      (indented (level + 1) item ++ indentedItems level items))

/-- What stands after a field, the brace included. -/
def indentedFields (level : ℕ) : List (PyText × JsonValue) → PyText
  | [] => lineStart level ++ [cp '\x7d']
  | (key, value) :: fields => cp ',' :: (lineStart (level + 1) ++
      (quoted key ++ cp ':' :: cp ' ' ::
        (indented (level + 1) value ++ indentedFields level fields)))

end

end Writer

/-- A first character that opens a word or a number. -/
def OpensAtom (c : CodePoint) : Prop :=
  c ≠ cp '"' ∧ c ≠ cp '[' ∧ c ≠ cp '\x7b' ∧ c ≠ cp ']' ∧ space c = false ∧ c.val < 128

/-- Objects stay as they are, and the text of a float is read back as the float. -/
structure Spelled (floatText : PyFloat → PyText) (hooks : Hooks) (P : PyFloat → Prop) : Prop where
  object : ∀ fields : List (PyText × JsonValue), (fields.map Prod.fst).Nodup →
    hooks.object fields = some (.obj fields)
  opens : ∀ f, P f → ∃ c t, floatText f = c :: t ∧ OpensAtom c
  float : ∀ f, P f → ∀ rest, Follows rest →
    readAtom hooks (floatText f ++ rest) = some (.float f, rest)
  encodable : ∀ f, P f → NoSurrogate (floatText f)

/-! ### Blanks -/

theorem skip_lineStart (level : ℕ) (s : PyText) : skip (lineStart level ++ s) = skip s := by
  have hblanks : ∀ n, skip (List.replicate n (cp ' ') ++ s) = skip s := by
    intro n
    induction n with
    | zero => rfl
    | succ n ih =>
      rw [List.replicate_succ, List.cons_append, ← ih]
      exact List.dropWhile_cons_of_pos (by decide)
  rw [← hblanks (2 * level), lineStart, List.cons_append]
  exact List.dropWhile_cons_of_pos (by decide)

theorem skip_space (s : PyText) : skip (cp ' ' :: s) = skip s :=
  List.dropWhile_cons_of_pos (by decide)

theorem follows_lineStart (level : ℕ) (s : PyText) : Follows (lineStart level ++ s) := by
  intro c hc
  obtain rfl : cp '\n' = c := Option.some.inj hc
  decide

variable {floatText : PyFloat → PyText} {hooks : Hooks} {P : PyFloat → Prop} {Q : PyText → Prop}

theorem follows_indentedItems (level : ℕ) (items : List JsonValue) (rest : PyText) :
    Follows (indentedItems floatText level items ++ rest) := by
  cases items with
  | nil =>
    rw [indentedItems, List.append_assoc]
    exact follows_lineStart level _
  | cons item items =>
    rw [indentedItems, List.cons_append]
    exact follows_comma _

theorem follows_indentedFields (level : ℕ) (fields : List (PyText × JsonValue)) (rest : PyText) :
    Follows (indentedFields floatText level fields ++ rest) := by
  cases fields with
  | nil =>
    rw [indentedFields, List.append_assoc]
    exact follows_lineStart level _
  | cons field fields =>
    rw [indentedFields, List.cons_append]
    exact follows_comma _

/-- The first character of a number. -/
theorem opensAtom_int (n : ℤ) : ∃ c t, textOf (intText n) = c :: t ∧ OpensAtom c := by
  have hprinted : Printed (.finite (n < 0) (digitsOf n.natAbs) [] none) :=
    ⟨unpadded_digitsOf _, fun e he => by cases he⟩
  have hstart := numberStart_printed hprinted []
  rw [← intText_eq, List.append_nil] at hstart
  obtain ⟨c, t, hc, h | h⟩ := hstart
  · refine ⟨c, t, h, ?_⟩
    have hdigit : ∀ d, isDigit d = false → c ≠ d := by
      rintro d hd rfl
      rw [hc] at hd
      cases hd
    have hlt : c.val < 128 := by
      simp only [isDigit, Bool.and_eq_true, decide_eq_true_eq] at hc
      omega
    refine ⟨hdigit _ rfl, hdigit _ rfl, hdigit _ rfl, hdigit _ rfl, ?_, hlt⟩
    simp only [space, Bool.or_eq_false_iff, decide_eq_false_iff_not]
    exact ⟨⟨⟨hdigit _ rfl, hdigit _ rfl⟩, hdigit _ rfl⟩, hdigit _ rfl⟩
  · exact ⟨cp '-', c :: t, h, by unfold OpensAtom; decide⟩

/-- The first character of a document is no blank and no closing bracket. -/
theorem indented_head (hspelled : Spelled floatText hooks P) {v : JsonValue} (hv : Regular P Q v)
    (level : ℕ) : ∃ c t, indented floatText level v = c :: t ∧ space c = false ∧
      c ≠ cp ']' ∧ c.val < 128 := by
  have hatom : ∀ s, (∃ c t, s = c :: t ∧ OpensAtom c) →
      ∃ c t, s = c :: t ∧ space c = false ∧ c ≠ cp ']' ∧ c.val < 128 := by
    rintro s ⟨c, t, rfl, -, -, -, hclose, hspace, hlt⟩
    exact ⟨c, t, rfl, hspace, hclose, hlt⟩
  cases v with
  | null => exact ⟨_, _, rfl, rfl, by decide, by decide⟩
  | bool b => cases b <;> exact ⟨_, _, rfl, rfl, by decide, by decide⟩
  | int n => exact hatom _ (opensAtom_int n)
  | float f => exact hatom _ (hspelled.opens f hv)
  | str s => exact ⟨_, _, rfl, rfl, by decide, by decide⟩
  | arr items => cases items <;> exact ⟨_, _, rfl, rfl, by decide, by decide⟩
  | obj fields => cases fields <;> exact ⟨_, _, rfl, rfl, by decide, by decide⟩

theorem skip_indented (hspelled : Spelled floatText hooks P) {v : JsonValue} (hv : Regular P Q v)
    (level : ℕ) (rest : PyText) :
    skip (indented floatText level v ++ rest) = indented floatText level v ++ rest := by
  obtain ⟨c, t, hstart, hc, -⟩ := indented_head hspelled hv level
  rw [hstart, List.cons_append, skip_cons hc]

/-! ### Reading -/

theorem readValue_opens {fuel : ℕ} {s rest : PyText} (h : ∃ c t, s = c :: t ∧ OpensAtom c) :
    readValue hooks (fuel + 1) (s ++ rest) = readAtom hooks (s ++ rest) := by
  obtain ⟨c, t, rfl, hquote, hbracket, hbrace, -⟩ := h
  refine readValue_atom fun d hd => ?_
  obtain rfl : c = d := Option.some.inj hd
  exact ⟨hquote, hbracket, hbrace⟩

section Documents
variable (hspelled : Spelled floatText hooks P)
include hspelled

mutual

/-- RUN: a regular document is read back up to what follows it. -/
theorem readValue_indented : ∀ {v : JsonValue} {level fuel : ℕ} {rest : PyText}, Regular P Q v →
    Follows rest → 2 * (indented floatText level v).length < fuel →
      readValue hooks fuel (indented floatText level v ++ rest) = some (v, rest)
  | _, _, 0, _, _, _, hfuel => absurd hfuel (Nat.not_lt_zero _)
  | .null, _, fuel + 1, rest, _, _, _ => by
    refine (readValue_atom fun c hc => ?_).trans rfl
    obtain rfl : cp 'n' = c := Option.some.inj hc
    decide
  | .bool true, _, fuel + 1, rest, _, _, _ => by
    refine (readValue_atom fun c hc => ?_).trans rfl
    obtain rfl : cp 't' = c := Option.some.inj hc
    decide
  | .bool false, _, fuel + 1, rest, _, _, _ => by
    refine (readValue_atom fun c hc => ?_).trans rfl
    obtain rfl : cp 'f' = c := Option.some.inj hc
    decide
  | .int n, _, fuel + 1, rest, _, hrest, _ => by
    have hprinted : Printed (.finite (n < 0) (digitsOf n.natAbs) [] none) :=
      ⟨unpadded_digitsOf _, fun e he => by cases he⟩
    have hstart := numberStart_printed hprinted rest
    rw [← intText_eq] at hstart
    exact (readValue_number hstart).trans (readNumber_int n hrest)
  | .float f, _, fuel + 1, rest, hv, hrest, _ =>
    (readValue_opens (hspelled.opens f hv)).trans (hspelled.float f hv rest hrest)
  | .str s, _, fuel + 1, rest, _, _, _ => by
    have hquoted : quoted s ++ rest = cp '"' :: (s.flatMap escape ++ cp '"' :: rest) := by
      rw [quoted, List.cons_append, List.append_assoc]
      rfl
    rw [indented, hquoted, readValue_quote, readString_quoted]
    rfl
  | .arr [], _, fuel + 1, rest, _, _, _ => by
    show readValue hooks (fuel + 1) (cp '[' :: cp ']' :: rest) = _
    rw [readValue_bracket, skip_cons rfl, List.head?_cons, if_pos rfl]
    rfl
  | .arr (item :: items), level, fuel + 1, rest, hv, hrest, hfuel => by
    obtain ⟨c, t, hstart, -, hclose, -⟩ := indented_head hspelled hv.1 (level + 1)
    simp only [indented, List.length_cons, List.length_append, lineStart] at hfuel
    rw [indented, List.cons_append, readValue_bracket, List.append_assoc, skip_lineStart,
      List.append_assoc, skip_indented hspelled hv.1, if_neg, readItems_indented hv (by omega)]
    · rfl
    · rw [hstart]
      exact fun heq => hclose (Option.some.inj heq)
  | .obj [], _, fuel + 1, rest, _, _, _ => by
    show readValue hooks (fuel + 1) (cp '\x7b' :: cp '\x7d' :: rest) = _
    rw [readValue_brace, skip_cons rfl, List.head?_cons, if_pos rfl,
      hspelled.object [] List.nodup_nil]
    rfl
  | .obj ((key, value) :: fields), level, fuel + 1, rest, hv, hrest, hfuel => by
    simp only [indented, List.length_cons, List.length_append, lineStart] at hfuel
    have hopen : (quoted key ++ cp ':' :: cp ' ' :: (indented floatText (level + 1) value ++
        indentedFields floatText level fields)) ++ rest =
        quoted key ++ cp ':' :: cp ' ' :: (indented floatText (level + 1) value ++
          (indentedFields floatText level fields ++ rest)) := by
      simp only [List.append_assoc, List.cons_append]
    have hskip : ∀ s, skip (quoted key ++ s) = quoted key ++ s := fun s => skip_cons rfl _
    rw [indented, List.cons_append, readValue_brace, List.append_assoc, skip_lineStart, hopen,
      hskip, if_neg, readFields_indented hv.2 (by omega),
      Option.bind_some, hspelled.object _ hv.1]
    · rfl
    · rw [quoted, List.cons_append, List.head?_cons]
      decide

theorem readItems_indented : ∀ {item : JsonValue} {items : List JsonValue} {level fuel : ℕ}
    {rest : PyText}, RegularItems P Q (item :: items) →
      2 * ((indented floatText (level + 1) item).length +
        (indentedItems floatText level items).length) ≤ fuel →
      readItems hooks fuel (indented floatText (level + 1) item ++
        (indentedItems floatText level items ++ rest)) = some (item :: items, rest)
  | item, [], level, 0, rest, h, hfuel => by
    simp only [indentedItems, List.length_append, lineStart, List.length_cons] at hfuel
    omega
  | item, [], level, fuel + 1, rest, h, hfuel => by
    simp only [indentedItems, List.length_append, lineStart, List.length_cons] at hfuel
    rw [readItems, readValue_indented h.1 (follows_indentedItems level [] rest) (by omega),
      Option.bind_some, indentedItems, List.append_assoc, skip_lineStart, List.singleton_append,
      skip_cons rfl, List.head?_cons, if_pos rfl]
    rfl
  | item, next :: items, level, 0, rest, h, hfuel => by
    simp only [indentedItems, List.length_append, lineStart, List.length_cons] at hfuel
    omega
  | item, next :: items, level, fuel + 1, rest, h, hfuel => by
    simp only [indentedItems, List.length_append, lineStart, List.length_cons] at hfuel
    rw [readItems, readValue_indented h.1 (follows_indentedItems level _ rest) (by omega),
      Option.bind_some, indentedItems, List.cons_append, skip_cons rfl, List.head?_cons,
      if_neg (by decide), if_pos rfl, List.tail_cons, List.append_assoc, skip_lineStart,
      List.append_assoc, skip_indented hspelled h.2.1, readItems_indented h.2 (by omega)]
    rfl

theorem readFields_indented : ∀ {key : PyText} {value : JsonValue}
    {fields : List (PyText × JsonValue)} {level fuel : ℕ} {rest : PyText},
    RegularFields P Q ((key, value) :: fields) →
      2 * ((quoted key).length + (indented floatText (level + 1) value).length +
        (indentedFields floatText level fields).length) ≤ fuel →
      readFields hooks fuel (quoted key ++ cp ':' :: cp ' ' ::
        (indented floatText (level + 1) value ++ (indentedFields floatText level fields ++ rest))) =
          some ((key, value) :: fields, rest)
  | key, value, [], level, 0, rest, h, hfuel => by
    simp only [indentedFields, List.length_append, lineStart, List.length_cons] at hfuel
    omega
  | key, value, [], level, fuel + 1, rest, h, hfuel => by
    simp only [indentedFields, List.length_append, lineStart, List.length_cons] at hfuel
    have hquoted : ∀ s, quoted key ++ s = cp '"' :: (key.flatMap escape ++ cp '"' :: s) := by
      intro s
      rw [quoted, List.cons_append, List.append_assoc]
      rfl
    rw [hquoted, readFields, List.head?_cons, if_neg (by simp), List.tail_cons, readString_quoted,
      Option.bind_some, skip_cons rfl, List.head?_cons, if_neg (by simp), List.tail_cons,
      skip_space, skip_indented hspelled h.2.1,
      readValue_indented h.2.1 (follows_indentedFields level [] rest) (by omega), Option.bind_some,
      indentedFields, List.append_assoc, skip_lineStart, List.singleton_append, skip_cons rfl,
      List.head?_cons, if_pos rfl]
    rfl
  | key, value, (_, _) :: fields, level, 0, rest, h, hfuel => by
    simp only [indentedFields, List.length_append, lineStart, List.length_cons] at hfuel
    omega
  | key, value, (key', value') :: fields, level, fuel + 1, rest, h, hfuel => by
    simp only [indentedFields, List.length_append, lineStart, List.length_cons] at hfuel
    have hquoted : ∀ key s : PyText,
        quoted key ++ s = cp '"' :: (key.flatMap escape ++ cp '"' :: s) := by
      intro key s
      rw [quoted, List.cons_append, List.append_assoc]
      rfl
    have hskip : ∀ s, skip (quoted key' ++ s) = quoted key' ++ s := fun s => skip_cons rfl _
    have hnext : (quoted key' ++ cp ':' :: cp ' ' :: (indented floatText (level + 1) value' ++
        indentedFields floatText level fields)) ++ rest =
        quoted key' ++ cp ':' :: cp ' ' :: (indented floatText (level + 1) value' ++
          (indentedFields floatText level fields ++ rest)) := by
      simp only [List.append_assoc, List.cons_append]
    rw [hquoted, readFields, List.head?_cons, if_neg (by simp), List.tail_cons, readString_quoted,
      Option.bind_some, skip_cons rfl, List.head?_cons, if_neg (by simp), List.tail_cons,
      skip_space, skip_indented hspelled h.2.1,
      readValue_indented h.2.1 (follows_indentedFields level _ rest) (by omega), Option.bind_some,
      indentedFields, List.cons_append, skip_cons rfl, List.head?_cons, if_neg (by decide),
      if_pos rfl, List.tail_cons, List.append_assoc, skip_lineStart, hnext, hskip,
      readFields_indented h.2.2 (by omega)]
    rfl

end

/-- LOSSLESS: a regular document is read back from its text and the line break after it. -/
theorem loads_indented {v : JsonValue} (hv : Regular P Q v) :
    loads hooks (indented floatText 0 v ++ [cp '\n']) = some v := by
  obtain ⟨c, t, hstart, hc, -, hascii⟩ := indented_head hspelled hv 0
  have hmark : ¬ ((indented floatText 0 v ++ [cp '\n']).head?.any (·.val = 0xFEFF)) = true := by
    rw [hstart, List.cons_append, List.head?_cons, Option.any_some, decide_eq_true_iff]
    omega
  have hend : Follows [cp '\n'] := follows_lineStart 0 []
  have hread : readValue hooks (2 * (indented floatText 0 v ++ [cp '\n']).length + 2)
      (indented floatText 0 v ++ [cp '\n']) = some (v, [cp '\n']) :=
    readValue_indented hspelled hv hend (by rw [List.length_append]; omega)
  rw [loads, if_neg hmark, skip_indented hspelled hv, hread]
  exact if_pos (by decide)

end Documents

/-! ### The characters of a text -/

theorem noSurrogate_append {s t : PyText} (hs : NoSurrogate s) (ht : NoSurrogate t) :
    NoSurrogate (s ++ t) := fun c hc => (List.mem_append.mp hc).elim (hs c) (ht c)

theorem noSurrogate_cons (ch : Char) {t : PyText} (ht : NoSurrogate t) :
    NoSurrogate (cp ch :: t) :=
  List.forall_mem_cons.mpr ⟨noSurrogate_textOf [ch] _ (List.mem_singleton.mpr rfl), ht⟩

theorem noSurrogate_quoted {s : PyText} (h : NoSurrogate s) : NoSurrogate (quoted s) :=
  fun c hc => (plain_quoted h c hc).1

theorem noSurrogate_lineStart (level : ℕ) {t : PyText} (ht : NoSurrogate t) :
    NoSurrogate (lineStart level ++ t) := by
  refine noSurrogate_append (noSurrogate_cons '\n' fun c hc => ?_) ht
  rw [List.eq_of_mem_replicate hc]
  decide

mutual

/-- RUN: a document whose texts have no lone surrogates is written without one. -/
theorem noSurrogate_indented (hspelled : Spelled floatText hooks P) :
    ∀ {v : JsonValue} {level : ℕ}, Regular P NoSurrogate v →
      NoSurrogate (indented floatText level v)
  | .null, _, _ => noSurrogate_textOf _
  | .bool true, _, _ => noSurrogate_textOf _
  | .bool false, _, _ => noSurrogate_textOf _
  | .int _, _, _ => noSurrogate_textOf _
  | .float f, _, h => hspelled.encodable f h
  | .str _, _, h => noSurrogate_quoted h
  | .arr [], _, _ => noSurrogate_textOf _
  | .arr (_ :: _), _, h => noSurrogate_cons '[' (noSurrogate_lineStart _
      (noSurrogate_append (noSurrogate_indented hspelled h.1)
        (noSurrogate_indentedItems hspelled h.2)))
  | .obj [], _, _ => noSurrogate_textOf _
  | .obj ((_, _) :: _), _, h => noSurrogate_cons '\x7b' (noSurrogate_lineStart _
      (noSurrogate_append (noSurrogate_quoted h.2.1) (noSurrogate_cons ':' (noSurrogate_cons ' '
        (noSurrogate_append (noSurrogate_indented hspelled h.2.2.1)
          (noSurrogate_indentedFields hspelled h.2.2.2))))))

theorem noSurrogate_indentedItems (hspelled : Spelled floatText hooks P) :
    ∀ {items : List JsonValue} {level : ℕ}, RegularItems P NoSurrogate items →
      NoSurrogate (indentedItems floatText level items)
  | [], level, _ => noSurrogate_lineStart level (noSurrogate_textOf [']'])
  | _ :: _, _, h => noSurrogate_cons ',' (noSurrogate_lineStart _
      (noSurrogate_append (noSurrogate_indented hspelled h.1)
        (noSurrogate_indentedItems hspelled h.2)))

theorem noSurrogate_indentedFields (hspelled : Spelled floatText hooks P) :
    ∀ {fields : List (PyText × JsonValue)} {level : ℕ}, RegularFields P NoSurrogate fields →
      NoSurrogate (indentedFields floatText level fields)
  | [], level, _ => noSurrogate_lineStart level (noSurrogate_textOf ['\x7d'])
  | (_, _) :: _, _, h => noSurrogate_cons ',' (noSurrogate_lineStart _
      (noSurrogate_append (noSurrogate_quoted h.1) (noSurrogate_cons ':' (noSurrogate_cons ' '
        (noSurrogate_append (noSurrogate_indented hspelled h.2.1)
          (noSurrogate_indentedFields hspelled h.2.2))))))

end

end Dpone.Schemes.JsonValue
