import Dpone.Schemes.Dict
import Dpone.Cdc.TestDecodingValues

/-! What the parser makes of a printed tuple.

    Where no name has an opening bracket and no type a closing one, the columns are read one by one,
    each under its own name. A bracket in a name gives the column another name; a type with a
    closing bracket inside, as that of an array, ends the loop, unless a colon follows it. -/

namespace Dpone.Cdc.TestDecoding
open Dpone.Schemes

variable {u : Unicode}

/-! ### Identifiers -/

theorem strip_subset {s : Str} {c : Char} (h : c ∈ strip u s) : c ∈ s :=
  (List.dropWhile_sublist _).subset ((List.rdropWhile_prefix _ _).subset h)

/-- A text that ends with no blank. -/
def Closed (u : Unicode) (s : Str) : Prop := ∃ t c, s = t ++ [c] ∧ u.isSpace c = false

theorem Closed.append {s : Str} (h : Closed u s) (a : Str) : Closed u (a ++ s) := by
  obtain ⟨t, c, rfl, hc⟩ := h
  exact ⟨a ++ t, c, by rw [List.append_assoc], hc⟩

/-- Blanks at the end of a text. -/
theorem exists_trimmed (u : Unicode) (s : Str) :
    ∃ s' ws, s = s' ++ ws ∧ (∀ c ∈ ws, u.isSpace c = true) ∧ (s' = [] ∨ Closed u s') := by
  refine ⟨s.rdropWhile u.isSpace, s.rtakeWhile u.isSpace,
    List.rdropWhile_append_rtakeWhile.symm, fun c hc => List.mem_rtakeWhile_imp hc, ?_⟩
  by_cases hnil : s.rdropWhile u.isSpace = []
  · exact .inl hnil
  · exact .inr ⟨_, _, (List.dropLast_append_getLast hnil).symm,
      Bool.eq_false_iff.mpr (List.rdropWhile_last_not _ _ hnil)⟩

/-- Blanks around a text that ends with no blank. -/
theorem strip_closed {s ws : Str} (hlast : Closed u s) (hws : ∀ c ∈ ws, u.isSpace c = true) :
    strip u (s ++ ws) = s.dropWhile u.isSpace := by
  obtain ⟨t, c, rfl, hc⟩ := hlast
  have hdrop : ∀ t : Str, ∃ t', (t ++ [c]).dropWhile u.isSpace = t' ++ [c] ∧
      (t ++ [c] ++ ws).dropWhile u.isSpace = t' ++ [c] ++ ws := by
    intro t
    induction t with
    | nil => exact ⟨[], by simp [hc], by simp [hc]⟩
    | cons d t ih =>
      by_cases hd : u.isSpace d = true
      · obtain ⟨t', h, h'⟩ := ih
        exact ⟨t', by simpa [hd] using h, by simpa [hd] using h'⟩
      · exact ⟨d :: t, by simp [hd], by simp [hd]⟩
  obtain ⟨t', h, h'⟩ := hdrop t
  rw [strip, h', h]
  clear h h' hdrop
  induction ws using List.reverseRecOn with
  | nil => exact (by simpa using List.rdropWhile_concat_neg _ t' c (by simp [hc]))
  | append_singleton ws d ih =>
    rw [← List.append_assoc, List.rdropWhile_concat_pos _ _ _ (hws d (by simp))]
    exact ih fun e he => hws e (by simp [he])

theorem strip_of_closed {s : Str} (h : Closed u s) : strip u s = s.dropWhile u.isSpace := by
  have hstrip := strip_closed h (List.forall_mem_nil fun c => u.isSpace c = true)
  rwa [List.append_nil] at hstrip

theorem mem_quoteIdentifier {reserved : Str → Bool} {name : Str} {c : Char} (hc : c ≠ '"') :
    c ∈ quoteIdentifier reserved name ↔ c ∈ name := by
  unfold quoteIdentifier
  split_ifs
  · rfl
  · simp [hc, mem_doubled]

/-- Removing quotes brings in no other character. -/
theorem mem_of_mem_unquote {value : Str} {c : Char} (hc : c ≠ '"')
    (h : c ∈ unquoteIdentifier u value) : c ∈ value := by
  unfold unquoteIdentifier at h
  dsimp only at h
  split_ifs at h
  · rcases mem_replaceFrom h with h | h
    · exact strip_subset ((List.drop_sublist _ _).subset ((List.dropLast_sublist _).subset h))
    · exact absurd (List.mem_singleton.mp h) hc
  · exact strip_subset h

/-- A name that needs no quotes. -/
theorem safe_cases (reserved : Str → Bool) (name : Str) :
    (quoteIdentifier reserved name = name ∧ (∃ c t, name = c :: t) ∧ ∀ c ∈ name, safeChar c) ∨
      quoteIdentifier reserved name = '"' :: (doubled '"' name ++ ['"']) := by
  unfold quoteIdentifier
  split_ifs with h
  · obtain ⟨hfirst, hall⟩ := Bool.and_eq_true_iff.mp (Bool.and_eq_true_iff.mp h).1
    refine .inl ⟨rfl, ?_, fun c hc => List.all_eq_true.mp hall c hc⟩
    cases name with
    | nil => cases hfirst
    | cons c t => exact ⟨c, t, rfl⟩
  · exact .inr rfl

theorem safeChar_facts (hu : u.AsciiExact) {c : Char} (h : safeChar c) :
    u.isSpace c = false ∧ c ≠ '"' ∧ c ≠ '[' ∧ c ≠ '-' := by
  refine ⟨?_, ?_, ?_, ?_⟩
  · simp only [safeChar, Bool.or_eq_true, decide_eq_true_eq] at h
    rcases h with (h | h) | rfl
    · have halpha : c.isAlpha = true := Bool.or_eq_true_iff.mpr (.inr h)
      exact alphanum_not_space (Bool.or_eq_true_iff.mpr (.inl halpha))
    · exact alphanum_not_space (by simp [Char.isAlphanum, h])
    · exact space_false hu (by decide) (by decide)
  all_goals
    rintro rfl
    exact absurd h (by decide)

theorem quoteIdentifier_head (hu : u.AsciiExact) (reserved : Str → Bool) (name : Str) :
    ∃ c t, quoteIdentifier reserved name = c :: t ∧ u.isSpace c = false := by
  rcases safe_cases reserved name with ⟨h, ⟨c, t, rfl⟩, hsafe⟩ | h
  · exact ⟨c, t, h, (safeChar_facts hu (hsafe c (List.mem_cons_self ..))).1⟩
  · exact ⟨'"', _, h, space_false hu (by decide) (by decide)⟩

/-- LOSSLESS: a printed identifier is read back. -/
theorem unquote_quoteIdentifier (hu : u.AsciiExact) (reserved : Str → Bool) (name : Str) :
    unquoteIdentifier u (quoteIdentifier reserved name) = name := by
  have hquote : u.isSpace '"' = false := space_false hu (by decide) (by decide)
  rcases safe_cases reserved name with ⟨h, ⟨c, t, rfl⟩, hsafe⟩ | h
  · have hstrip : strip u (c :: t) = c :: t :=
      strip_eq_self fun d hd => by simp [(safeChar_facts hu (hsafe d hd)).1]
    have hc : c ≠ '"' := (safeChar_facts hu (hsafe c (List.mem_cons_self ..))).2.1
    rw [h, unquoteIdentifier, hstrip]
    exact if_neg fun hq => hc (Option.some.inj hq.2.1)
  · have hstrip := strip_of_closed (s := '"' :: (doubled '"' name ++ ['"']))
      ⟨'"' :: doubled '"' name, '"', rfl, hquote⟩
    rw [List.dropWhile_cons_of_neg (by simp [hquote])] at hstrip
    rw [h, unquoteIdentifier, hstrip]
    have hlast : ('"' :: (doubled '"' name ++ ['"'])).getLast? = some '"' := by
      rw [← List.cons_append, List.getLast?_concat]
    rw [if_pos ⟨by simp, rfl, hlast⟩, List.drop_one, List.tail_cons, List.dropLast_concat]
    exact replaceAll_doubled name

/-- A printed name is not a word that ends with a hyphen. -/
theorem quoteIdentifier_hyphen (hu : u.AsciiExact) {reserved : Str → Bool} {name w x y : Str}
    (hw : w ≠ []) (hsafe : ∀ c ∈ w, safeChar c) :
    quoteIdentifier reserved name ++ '[' :: x ≠ w ++ '-' :: y := by
  intro h
  rcases safe_cases reserved name with ⟨hname, -, hchars⟩ | hname
  · rw [hname] at h
    have hleft := (taken_run (t := '[' :: x) hchars (by simp [safeChar])).2
    have hright := (taken_run (t := '-' :: y) hsafe (by simp [safeChar])).2
    rw [h, hright] at hleft
    exact absurd (List.cons.inj hleft).1 (by decide)
  · obtain ⟨c, w, rfl⟩ := List.exists_cons_of_ne_nil hw
    rw [hname] at h
    have hc : '"' = c := (List.cons.inj h).1
    exact (safeChar_facts hu (hsafe c (List.mem_cons_self ..))).2.1 hc.symm

/-! ### The loop over columns -/

theorem readDoubled_length {q : Char} : ∀ s : Str, (readDoubled q s).2.length ≤ s.length
  | [] => le_rfl
  | [c] => by
    unfold readDoubled
    split_ifs <;> simp
  | c :: d :: s => by
    have hpair := readDoubled_length (q := q) s
    have hplain := readDoubled_length (q := q) (d :: s)
    unfold readDoubled
    split_ifs
    · exact hpair.trans (by simp; omega)
    · simp
    · exact hplain.trans (by simp)

theorem readValue_length (literal : Str) : (readValue u literal).2.length ≤ literal.length := by
  unfold readValue
  split
  · exact (readDoubled_length _).trans (by simp)
  · exact (List.dropWhile_sublist _).length_le

/-- One turn of the loop. -/
theorem parseColumns_turn {body typed literal : Str} {c : Char}
    (hname : (body.dropWhile u.isSpace).dropWhile (· ≠ '[') = c :: typed)
    (htype : (typed.dropWhile (· ≠ ']')).drop 1 = ':' :: literal) (n : ℕ)
    (values : RowData PgValue) :
    parseColumns u (n + 1) body values =
      (convertValue u (readValue u literal).1 >>= fun value =>
        parseColumns u n (readValue u literal).2 (setItem values
          (unquoteIdentifier u ((body.dropWhile u.isSpace).takeWhile (· ≠ '['))) value)) := by
  simp only [parseColumns, hname, htype]

/-- The loop ends where there is no bracket. -/
theorem parseColumns_no_bracket {n : ℕ} {body : Str} {values : RowData PgValue}
    (h : '[' ∉ body) : parseColumns u n body values = .ok values := by
  cases n with
  | zero => rfl
  | succ n =>
    have hnone : (body.dropWhile u.isSpace).dropWhile (· ≠ '[') = [] :=
      List.dropWhile_eq_nil_iff.mpr fun c hc => by
        have hmem := (List.dropWhile_sublist _).subset hc
        refine decide_eq_true fun heq => h (heq ▸ hmem)
    simp only [parseColumns, hnone]

/-- And where no colon follows the type. -/
theorem parseColumns_no_colon {n : ℕ} {body typed : Str} {c : Char} {values : RowData PgValue}
    (hname : (body.dropWhile u.isSpace).dropWhile (· ≠ '[') = c :: typed)
    (htype : ((typed.dropWhile (· ≠ ']')).drop 1).head? ≠ some ':') :
    parseColumns u n body values = .ok values := by
  cases n with
  | zero => rfl
  | succ n =>
    simp only [parseColumns, hname]
    split
    · next literal heq => exact absurd (by rw [heq]; rfl) htype
    · rfl

/-- Blanks in front do not matter. -/
theorem parseColumns_start {body body' : Str} (h : body.dropWhile u.isSpace =
    body'.dropWhile u.isSpace) (n : ℕ) (values : RowData PgValue) :
    parseColumns u n body values = parseColumns u n body' values := by
  cases n with
  | zero => rfl
  | succ n => simp only [parseColumns, h]

/-- TOTAL: the loop ends by itself in as many turns as the body has characters. -/
theorem parseColumns_fuel : ∀ {n m : ℕ} {body : Str} {values : RowData PgValue},
    body.length ≤ n → body.length ≤ m → parseColumns u n body values = parseColumns u m body values
  | 0, m, body, values, hn, _ => by
    obtain rfl := List.length_eq_zero_iff.mp (Nat.le_zero.mp hn)
    exact (parseColumns_no_bracket (by simp)).symm
  | n + 1, 0, body, values, _, hm => by
    obtain rfl := List.length_eq_zero_iff.mp (Nat.le_zero.mp hm)
    exact parseColumns_no_bracket (by simp)
  | n + 1, m + 1, body, values, hn, hm => by
    cases hname : (body.dropWhile u.isSpace).dropWhile (· ≠ '[') with
    | nil => simp only [parseColumns, hname]
    | cons c typed =>
      by_cases hcolon : ((typed.dropWhile (· ≠ ']')).drop 1).head? = some ':'
      · obtain ⟨literal, htype⟩ := List.head?_eq_some_iff.mp hcolon
        have hrest : (readValue u literal).2.length < body.length := by
          have h1 := readValue_length (u := u) literal
          have h2 := ((List.drop_sublist 1 _).trans (List.dropWhile_sublist (l := typed)
            (· ≠ ']'))).length_le
          have h3 := ((List.dropWhile_sublist (l := body.dropWhile u.isSpace) (· ≠ '[')).trans
            (List.dropWhile_sublist _)).length_le
          rw [htype, List.length_cons] at h2
          rw [hname, List.length_cons] at h3
          omega
        rw [parseColumns_turn hname htype, parseColumns_turn hname htype]
        refine bind_congr fun value => parseColumns_fuel ?_ ?_ <;> omega
      · rw [parseColumns_no_colon hname hcolon, parseColumns_no_colon hname hcolon]

/-- A tuple is parsed by its first character on, with turns to spare. -/
theorem parseTuple_eq {body body' : Str}
    (h : body.dropWhile u.isSpace = body'.dropWhile u.isSpace) (k : ℕ) :
    parseTuple u body = parseColumns u (k + body.length) body' [] := by
  rw [parseTuple, ← parseColumns_start h]
  exact parseColumns_fuel le_rfl (by omega)

/-- Keys come from names, which have no opening bracket. -/
theorem mem_setItem {V : Type} {name : Str} {v : Option V} {item : Str × Option V} :
    ∀ {values : RowData V}, item ∈ setItem values name v → item.1 = name ∨ item ∈ values
  | [], h => .inl (by rw [List.mem_singleton.mp h])
  | (key, old) :: values, h => by
    rw [setItem] at h
    split_ifs at h with hkey
    · rcases List.mem_cons.mp h with rfl | h
      · exact .inl hkey
      · exact .inr (List.mem_cons_of_mem _ h)
    · rcases List.mem_cons.mp h with rfl | h
      · exact .inr (List.mem_cons_self ..)
      · exact (mem_setItem h).imp_right (List.mem_cons_of_mem _)

theorem parseColumns_keys : ∀ {n : ℕ} {body : Str} {values data : RowData PgValue},
    parseColumns u n body values = .ok data → (∀ item ∈ values, '[' ∉ item.1) →
    ∀ item ∈ data, '[' ∉ item.1
  | 0, _, values, data, h, hvalues => by
    cases h
    exact hvalues
  | n + 1, body, values, data, h, hvalues => by
    cases hname : (body.dropWhile u.isSpace).dropWhile (· ≠ '[') with
    | nil =>
      simp only [parseColumns, hname] at h
      cases h
      exact hvalues
    | cons c typed =>
      by_cases hcolon : ((typed.dropWhile (· ≠ ']')).drop 1).head? = some ':'
      · obtain ⟨literal, htype⟩ := List.head?_eq_some_iff.mp hcolon
        rw [parseColumns_turn hname htype] at h
        obtain ⟨value, -, h⟩ := bind_ok.mp h
        refine parseColumns_keys h fun item hitem => ?_
        rcases mem_setItem hitem with heq | hitem
        · rw [heq]
          intro hmem
          have htaken := List.mem_takeWhile_imp (mem_of_mem_unquote (by decide) hmem)
          simp at htaken
        · exact hvalues item hitem
      · rw [parseColumns_no_colon hname hcolon] at h
        cases h
        exact hvalues

/-! ### Printed columns -/

section Printed
variable {reserved : Str → Bool}

/-- A printed column begins after one blank. -/
theorem start_column (hu : u.AsciiExact) (reserved : Str → Bool) (name x : Str) :
    (' ' :: (quoteIdentifier reserved name ++ x)).dropWhile u.isSpace =
      quoteIdentifier reserved name ++ x := by
  have hblank : u.isSpace ' ' = true := hu.space ' ' (by decide)
  obtain ⟨c, t, hname, hc⟩ := quoteIdentifier_head hu reserved name
  rw [List.dropWhile_cons_of_pos hblank, hname, List.cons_append]
  exact List.dropWhile_cons_of_neg (by simp [hc])

/-- A name without an opening bracket ends where the type begins. -/
theorem cut_name (reserved : Str → Bool) {name : Str} (h : '[' ∉ name) (x : Str) :
    (quoteIdentifier reserved name ++ '[' :: x).takeWhile (· ≠ '[') =
        quoteIdentifier reserved name ∧
      (quoteIdentifier reserved name ++ '[' :: x).dropWhile (· ≠ '[') = '[' :: x := by
  refine taken_run (fun c hc => ?_) (by simp)
  refine decide_eq_true fun heq => h ?_
  exact (mem_quoteIdentifier (by decide)).mp (heq ▸ hc)

theorem cut_type {type : Str} (h : ']' ∉ type) (x : Str) :
    ((type ++ ']' :: x).dropWhile (· ≠ ']')).drop 1 = x := by
  have hplain : ∀ c ∈ type, (decide (c ≠ ']')) = true := by
    intro c hc
    refine decide_eq_true fun heq => h ?_
    exact heq ▸ hc
  have hcut : (type ++ ']' :: x).dropWhile (· ≠ ']') = ']' :: x := (taken_run hplain (by simp)).2
  rw [hcut, List.drop_one, List.tail_cons]

/-- CORRECT: a column without brackets in its name and type is read under its name. -/
theorem parseColumns_column (hu : u.AsciiExact) (reserved : Str → Bool) {entry : Column × TupleDatum}
    (hname : '[' ∉ entry.1.name) (htype : ']' ∉ entry.1.typeName)
    (hfits : FitsLiteral entry.1.literal entry.2) {rest : Str}
    (hrest : ∀ c ∈ rest.head?, u.isSpace c = true) (n : ℕ) (values : RowData PgValue) :
    parseColumns u (n + 1) (printColumn reserved entry ++ rest) values =
      (convertValue u (rawText entry.1.literal entry.2) >>= fun value =>
        parseColumns u n rest (setItem values entry.1.name value)) := by
  have hprint : printColumn reserved entry ++ rest =
      ' ' :: (quoteIdentifier reserved entry.1.name ++ '[' :: (entry.1.typeName ++
        ']' :: ':' :: (printDatum entry.1.literal entry.2 ++ rest))) := by
    simp [printColumn]
  have hstart := start_column hu reserved entry.1.name
    ('[' :: (entry.1.typeName ++ ']' :: ':' :: (printDatum entry.1.literal entry.2 ++ rest)))
  obtain ⟨htake, hdrop⟩ := cut_name reserved hname
    (entry.1.typeName ++ ']' :: ':' :: (printDatum entry.1.literal entry.2 ++ rest))
  have hturn := parseColumns_turn (u := u) (by rw [hstart, hdrop])
    (cut_type htype _) n values
  rw [hstart, htake, unquote_quoteIdentifier hu, readValue_printDatum hu hfits hrest] at hturn
  rw [hprint, hturn]

/-- A type with a closing bracket that no colon follows ends the loop. -/
theorem parseColumns_broken_type (hu : u.AsciiExact) {name type : Str} (hname : '[' ∉ name)
    (htype : ']' ∈ type) (hcolon : ¬ [']', ':'] <:+: type) (x : Str) (n : ℕ)
    (values : RowData PgValue) :
    parseColumns u n (' ' :: (quoteIdentifier reserved name ++ '[' :: (type ++ ']' :: x))) values =
      .ok values := by
  refine parseColumns_no_colon (by rw [start_column hu reserved, (cut_name reserved hname _).2]) ?_
  obtain ⟨a, b, rfl, ha⟩ := List.eq_append_cons_of_mem htype
  have hcut := cut_type ha (b ++ ']' :: x)
  rw [List.append_assoc, List.cons_append, hcut]
  cases b with
  | nil => simp
  | cons c b =>
    intro hc
    have hc : c = ':' := Option.some.inj hc
    exact hcolon ⟨a, b, by simp [hc]⟩

theorem printTuple_cons (entry : Column × TupleDatum) (tuple : Tuple) :
    printTuple reserved (entry :: tuple) =
      printColumn reserved entry ++ printTuple reserved tuple :=
  List.flatMap_cons

/-- What follows a column begins with a blank. -/
theorem printTuple_head (hu : u.AsciiExact) (reserved : Str → Bool) (tuple : Tuple) {rest : Str}
    (hrest : ∀ c ∈ rest.head?, u.isSpace c = true) :
    ∀ c ∈ (printTuple reserved tuple ++ rest).head?, u.isSpace c = true := by
  cases tuple with
  | nil => exact hrest
  | cons entry tuple =>
    intro c hc
    obtain rfl : ' ' = c := Option.some.inj hc
    exact hu.space ' ' (by decide)

end Printed

/-! ### Tuples -/

/-- A tuple of a table: its columns have different names, and their texts are well typed. -/
structure WellFormedTuple (tuple : Tuple) : Prop where
  distinct : (tuple.map (·.1.name)).Nodup
  fits : ∀ entry ∈ tuple, FitsLiteral entry.1.literal entry.2

/-- A decoded row recovers a tuple: each column its datum, and there are no other columns. -/
def RecoversTuple (data : RowData PgValue) (tuple : Tuple) : Prop :=
  (∀ entry ∈ tuple, RecoversDatum entry.1.literal (data.lookup entry.1.name) entry.2) ∧
    ∀ item ∈ data, item.1 ∈ tuple.map (·.1.name)

/-- No type continues after a closing bracket with a colon. -/
def UnmixedTuple (tuple : Tuple) : Prop :=
  ∀ entry ∈ tuple, ¬ [']', ':'] <:+: entry.1.typeName

/-- A tuple that survives its printing. -/
structure LegibleTuple (u : Unicode) (tuple : Tuple) : Prop where
  names : ∀ entry ∈ tuple, '[' ∉ entry.1.name
  types : ∀ entry ∈ tuple, ']' ∉ entry.1.typeName
  data : ∀ entry ∈ tuple, Survives u entry.1.literal entry.2

/-- What the parser makes of the columns of a tuple. -/
def tupleItems (u : Unicode) (tuple : Tuple) : Except PyError (RowData PgValue) :=
  tuple.mapM fun entry =>
    (convertValue u (rawText entry.1.literal entry.2)).map (entry.1.name, ·)

theorem recovers_some {literal : LiteralKind} {entry : Option (Option PgValue)} {d : TupleDatum}
    (h : RecoversDatum literal entry d) : entry.isSome := by
  cases d with
  | null => rw [show entry = some none from h]; rfl
  | unchanged => exact h.elim
  | text t =>
    obtain ⟨v, hv, -⟩ := h
    rw [hv]
    rfl

theorem tupleItems_cons {entry : Column × TupleDatum} {tuple : Tuple} {value : Option PgValue}
    (h : convertValue u (rawText entry.1.literal entry.2) = .ok value) :
    tupleItems u (entry :: tuple) = (tupleItems u tuple).map ((entry.1.name, value) :: ·) := by
  rw [tupleItems, List.mapM_cons, h]
  show (tupleItems u tuple >>= fun rest => pure ((entry.1.name, value) :: rest)) = _
  cases tupleItems u tuple <;> rfl

/-- RUN: a tuple without brackets in its names and types is read column by column. -/
theorem parseColumns_tuple (hu : u.AsciiExact) {reserved : Str → Bool} {rest : Str}
    (hrest : ∀ c ∈ rest.head?, u.isSpace c = true) (n : ℕ) :
    ∀ {tuple : Tuple} {values : RowData PgValue}, (∀ entry ∈ tuple, '[' ∉ entry.1.name) →
    (∀ entry ∈ tuple, ']' ∉ entry.1.typeName) → WellFormedTuple tuple →
    (∀ entry ∈ tuple, entry.1.name ∉ values.map Prod.fst) →
    parseColumns u (tuple.length + n) (printTuple reserved tuple ++ rest) values =
      (tupleItems u tuple >>= fun items => parseColumns u n rest (values ++ items))
  | [], values, _, _, _, _ => by
    rw [List.length_nil, Nat.zero_add]
    show parseColumns u n rest values = parseColumns u n rest (values ++ [])
    rw [List.append_nil]
  | entry :: tuple, values, hnames, htypes, h, hnew => by
    obtain ⟨hname, hnames⟩ := List.forall_mem_cons.mp hnames
    obtain ⟨htype, htypes⟩ := List.forall_mem_cons.mp htypes
    obtain ⟨hfits, hfitsTail⟩ := List.forall_mem_cons.mp h.fits
    obtain ⟨hfresh, hdistinct⟩ := List.nodup_cons.mp h.distinct
    have hcolumn := parseColumns_column hu reserved hname htype hfits
      (printTuple_head hu reserved tuple hrest) (tuple.length + n) values
    rw [printTuple_cons, List.append_assoc, List.length_cons, Nat.add_right_comm, hcolumn]
    cases hvalue : convertValue u (rawText entry.1.literal entry.2) with
    | error e =>
      rw [tupleItems, List.mapM_cons, hvalue]
      rfl
    | ok value =>
      rw [tupleItems_cons hvalue, ok_bind, setItem_new value (hnew entry (List.mem_cons_self ..)),
        parseColumns_tuple hu hrest n hnames htypes ⟨hdistinct, hfitsTail⟩ ?_]
      · cases tupleItems u tuple with
        | error e => rfl
        | ok items =>
          show parseColumns u n rest _ = parseColumns u n rest _
          rw [List.append_assoc, List.singleton_append]
      · intro entry' hentry'
        have hne : entry'.1.name ≠ entry.1.name := fun heq =>
          hfresh (List.mem_map.mpr ⟨entry', hentry', heq⟩)
        simpa [hne] using hnew entry' (List.mem_cons_of_mem _ hentry')

/-- CORRECT: the columns of a tuple are recovered exactly when each of its data survives. -/
theorem items_recovered_iff (hu : u.AsciiExact) {tuple : Tuple} (h : WellFormedTuple tuple) :
    (∃ data, tupleItems u tuple = .ok data ∧ RecoversTuple data tuple) ↔
      ∀ entry ∈ tuple, Survives u entry.1.literal entry.2 := by
  constructor
  · rintro ⟨data, hdata, hrecovers, -⟩ entry hentry
    obtain ⟨v, hv, hfound⟩ := (lookup_of_mapM hdata h.distinct).1 entry hentry
    refine (datum_recovered_iff hu (h.fits entry hentry)).mp ⟨v, hv, ?_⟩
    rw [← hfound]
    exact hrecovers entry hentry
  · intro hsurvives
    have hvalues := fun entry hentry =>
      (datum_recovered_iff hu (h.fits entry hentry)).mpr (hsurvives entry hentry)
    obtain ⟨data, hdata⟩ : ∃ data, tupleItems u tuple = .ok data :=
      exists_mapM_ok fun entry hentry => by
        obtain ⟨v, hv, -⟩ := hvalues entry hentry
        exact ⟨(entry.1.name, v), by rw [hv]; rfl⟩
    obtain ⟨hlookup, honly⟩ := lookup_of_mapM hdata h.distinct
    refine ⟨data, hdata, fun entry hentry => ?_, honly⟩
    obtain ⟨v, hv, hrecovered⟩ := hvalues entry hentry
    obtain ⟨w, hw, hfound⟩ := hlookup entry hentry
    rw [hfound, ← Except.ok.inj (hv.symm.trans hw)]
    exact hrecovered

/-! ### Reading a whole tuple -/

/-- A body is read as a tuple. -/
def ReadsTuple (u : Unicode) (body : Str) (tuple : Tuple) : Prop :=
  ∃ data, parseTuple u body = .ok data ∧ RecoversTuple data tuple

section Whole
variable {reserved : Str → Bool} {tuple : Tuple} {body rest : Str}

/-- The names of the columns of a recovered tuple are keys. -/
theorem names_of_recovers {data : RowData PgValue}
    (h : ∀ entry ∈ tuple, (data.lookup entry.1.name).isSome)
    (hkeys : ∀ item ∈ data, '[' ∉ item.1) : ∀ entry ∈ tuple, '[' ∉ entry.1.name := by
  intro entry hentry
  obtain ⟨v, hv⟩ := Option.isSome_iff_exists.mp (h entry hentry)
  exact hkeys _ (Dict.mem_of_lookup hv)

/-- A recovered tuple has no type that ends the loop. -/
theorem types_of_recovers (hu : u.AsciiExact) (hrest : ∀ c ∈ rest.head?, u.isSpace c = true)
    {n : ℕ} {data : RowData PgValue} : ∀ {tuple : Tuple} {values : RowData PgValue},
    (∀ entry ∈ tuple, '[' ∉ entry.1.name) → UnmixedTuple tuple → WellFormedTuple tuple →
    (∀ entry ∈ tuple, entry.1.name ∉ values.map Prod.fst) →
    parseColumns u (tuple.length + n) (printTuple reserved tuple ++ rest) values = .ok data →
    (∀ entry ∈ tuple, (data.lookup entry.1.name).isSome) →
    ∀ entry ∈ tuple, ']' ∉ entry.1.typeName
  | [], _, _, _, _, _, _, _ => nofun
  | entry :: tuple, values, hnames, hunmixed, h, hnew, hparse, hfound => by
    obtain ⟨hname, hnames⟩ := List.forall_mem_cons.mp hnames
    obtain ⟨hcolon, hunmixed⟩ := List.forall_mem_cons.mp hunmixed
    obtain ⟨hfits, hfitsTail⟩ := List.forall_mem_cons.mp h.fits
    obtain ⟨hfresh, hdistinct⟩ := List.nodup_cons.mp h.distinct
    obtain ⟨hhead, hfound⟩ := List.forall_mem_cons.mp hfound
    have hprint : printTuple reserved (entry :: tuple) ++ rest =
        ' ' :: (quoteIdentifier reserved entry.1.name ++ '[' :: (entry.1.typeName ++
          ']' :: (':' :: printDatum entry.1.literal entry.2 ++
            (printTuple reserved tuple ++ rest)))) := by
      simp [printTuple, printColumn]
    have htype : ']' ∉ entry.1.typeName := by
      intro htype
      rw [hprint, parseColumns_broken_type hu hname htype hcolon] at hparse
      obtain ⟨v, hv⟩ := Option.isSome_iff_exists.mp hhead
      rw [← Except.ok.inj hparse] at hv
      exact hnew entry (List.mem_cons_self ..)
        (List.mem_map.mpr ⟨_, Dict.mem_of_lookup hv, rfl⟩)
    have hcolumn := parseColumns_column hu reserved hname htype hfits
      (printTuple_head hu reserved tuple hrest) (tuple.length + n) values
    rw [printTuple_cons, List.append_assoc, List.length_cons, Nat.add_right_comm, hcolumn] at hparse
    obtain ⟨value, -, hparse⟩ := bind_ok.mp hparse
    rw [setItem_new value (hnew entry (List.mem_cons_self ..))] at hparse
    refine List.forall_mem_cons.mpr ⟨htype, types_of_recovers hu hrest hnames hunmixed
      ⟨hdistinct, hfitsTail⟩ (fun entry' hentry' => ?_) hparse hfound⟩
    have hne : entry'.1.name ≠ entry.1.name := fun heq =>
      hfresh (List.mem_map.mpr ⟨entry', hentry', heq⟩)
    simpa [hne] using hnew entry' (List.mem_cons_of_mem _ hentry')

/-- A body that is a printed tuple is parsed with turns to spare. -/
theorem parseTuple_print (hbody : body.dropWhile u.isSpace =
    (printTuple reserved tuple ++ rest).dropWhile u.isSpace) (k : ℕ) :
    parseTuple u body =
      parseColumns u (tuple.length + (k + body.length)) (printTuple reserved tuple ++ rest) [] := by
  rw [← Nat.add_assoc]
  exact parseTuple_eq hbody (tuple.length + k)

/-- CORRECT: a legible tuple is read. -/
theorem reads_of_legible (hu : u.AsciiExact) (h : WellFormedTuple tuple)
    (hbody : body.dropWhile u.isSpace = (printTuple reserved tuple).dropWhile u.isSpace)
    (hlegible : LegibleTuple u tuple) : ReadsTuple u body tuple := by
  obtain ⟨data, hdata, hrecovers⟩ := (items_recovered_iff hu h).mpr hlegible.data
  refine ⟨data, ?_, hrecovers⟩
  rw [← List.append_nil (printTuple reserved tuple)] at hbody
  rw [parseTuple_print hbody 0, parseColumns_tuple hu (by simp) _ hlegible.names hlegible.types h
    (by simp), hdata]
  exact parseColumns_no_bracket (by simp)

/-- CORRECT: a tuple that is read is legible, unless a type goes on after a bracket. -/
theorem legible_of_reads (hu : u.AsciiExact) (h : WellFormedTuple tuple)
    (hbody : body.dropWhile u.isSpace = (printTuple reserved tuple).dropWhile u.isSpace)
    (hunmixed : UnmixedTuple tuple) (hreads : ReadsTuple u body tuple) : LegibleTuple u tuple := by
  obtain ⟨data, hparse, hrecovers⟩ := hreads
  have hfound : ∀ entry ∈ tuple, (data.lookup entry.1.name).isSome :=
    fun entry hentry => recovers_some (hrecovers.1 entry hentry)
  have hkeys := parseColumns_keys hparse (by simp)
  have hnames := names_of_recovers hfound hkeys
  rw [← List.append_nil (printTuple reserved tuple)] at hbody
  rw [parseTuple_print hbody 0] at hparse
  have htypes := types_of_recovers hu (by simp) hnames hunmixed h (by simp) hparse hfound
  rw [parseColumns_tuple hu (by simp) _ hnames htypes h (by simp)] at hparse
  obtain ⟨items, hitems, hparse⟩ := bind_ok.mp hparse
  rw [parseColumns_no_bracket (by simp)] at hparse
  cases hparse
  exact ⟨hnames, htypes, (items_recovered_iff hu h).mp ⟨items, hitems, hrecovers⟩⟩

/-! ### Tuples that are cut -/

/-- Columns before a cut are read, and the rest is parsed behind them. -/
theorem parseTuple_cut (hu : u.AsciiExact) (hrest : ∀ c ∈ rest.head?, u.isSpace c = true)
    (h : WellFormedTuple tuple) (hunmixed : UnmixedTuple tuple)
    (hnames : ∀ entry ∈ tuple, '[' ∉ entry.1.name)
    (hbody : body.dropWhile u.isSpace = (printTuple reserved tuple ++ rest).dropWhile u.isSpace)
    {data : RowData PgValue} (hparse : parseTuple u body = .ok data)
    (hfound : ∀ entry ∈ tuple, (data.lookup entry.1.name).isSome) :
    ∃ items, tupleItems u tuple = .ok items ∧
      parseColumns u (body.length + 1) rest items = .ok data := by
  rw [parseTuple_print hbody 1, Nat.add_comm 1] at hparse
  have htypes := types_of_recovers hu hrest hnames hunmixed h (by simp) hparse hfound
  rw [parseColumns_tuple hu hrest _ hnames htypes h (by simp)] at hparse
  exact bind_ok.mp hparse

/-- A column cut in its name or its type is lost. -/
theorem parseColumns_cut_type (hu : u.AsciiExact) {name type a : Str} (hname : '[' ∉ name)
    (hcolon : ¬ [']', ':'] <:+: type)
    (ha : a <+: quoteIdentifier reserved name ++ '[' :: type) (n : ℕ)
    (values : RowData PgValue) : parseColumns u n (' ' :: a) values = .ok values := by
  obtain ⟨b, hb⟩ := ha
  rcases List.append_eq_append_iff.mp hb with ⟨t, ht, -⟩ | ⟨t, rfl, ht⟩
  · refine parseColumns_no_bracket fun hmem => hname ?_
    rw [List.mem_cons, or_iff_right (by decide)] at hmem
    exact (mem_quoteIdentifier (by decide)).mp (ht ▸ List.mem_append_left _ hmem)
  · cases t with
    | nil =>
      refine parseColumns_no_bracket fun hmem => hname ?_
      rw [List.append_nil, List.mem_cons, or_iff_right (by decide)] at hmem
      exact (mem_quoteIdentifier (by decide)).mp hmem
    | cons c t =>
      obtain ⟨rfl, htype⟩ : '[' = c ∧ type = t ++ b := by simpa using ht
      refine parseColumns_no_colon (by rw [start_column hu reserved, (cut_name reserved hname _).2]) ?_
      intro hhead
      obtain ⟨literal, hliteral⟩ := List.head?_eq_some_iff.mp hhead
      cases hdrop : t.dropWhile (· ≠ ']') with
      | nil => rw [hdrop] at hliteral; cases hliteral
      | cons d r =>
        have hd : d = ']' := by
          have hnot := List.head?_dropWhile_not (· ≠ ']') t
          rw [hdrop] at hnot
          simpa using hnot
        rw [hdrop, List.drop_one, List.tail_cons] at hliteral
        refine hcolon ⟨t.takeWhile (· ≠ ']'), literal ++ b, ?_⟩
        have hjoin := List.takeWhile_append_dropWhile (p := (· ≠ ']')) (l := t)
        rw [hdrop, hliteral, hd] at hjoin
        rw [htype]
        conv_rhs => rw [← hjoin]
        simp only [List.append_assoc, List.cons_append, List.nil_append]

/-- Where a printed column is cut before a blank inside it. -/
theorem column_cut {name type literal a b : Str}
    (h : quoteIdentifier reserved name ++ '[' :: (type ++ ']' :: ':' :: literal) =
      a ++ ' ' :: b) :
    a <+: quoteIdentifier reserved name ++ '[' :: type ∨
      ∃ l, a = quoteIdentifier reserved name ++ '[' :: (type ++ ']' :: ':' :: l) ∧
        literal = l ++ ' ' :: b := by
  have hsplit : (quoteIdentifier reserved name ++ '[' :: type) ++ ']' :: ':' :: literal =
      a ++ ' ' :: b := by
    simpa using h
  rcases List.append_eq_append_iff.mp hsplit with ⟨t, rfl, ht⟩ | ⟨t, ht, -⟩
  · cases t with
    | nil => exact .inl ⟨[], by simp⟩
    | cons c t =>
      obtain ⟨rfl, hcolon⟩ : ']' = c ∧ ':' :: literal = t ++ ' ' :: b := by simpa using ht
      cases t with
      | nil => exact absurd (List.cons.inj hcolon).1 (by decide)
      | cons c t =>
        obtain ⟨rfl, hliteral⟩ : ':' = c ∧ literal = t ++ ' ' :: b := by simpa using hcolon
        exact .inr ⟨t, by simp, hliteral⟩
  · exact .inl ⟨t, ht.symm⟩

/-- A printed datum with a blank in it is a quoted text, cut inside. -/
theorem literal_cut (hu : u.AsciiExact) {literal : LiteralKind} {d : TupleDatum} {l b : Str}
    (hfits : FitsLiteral literal d) (h : printDatum literal d = l ++ ' ' :: b) :
    ∃ t s r, literal = .quoted ∧ d = .text t ∧ t = s ++ ' ' :: r ∧ l = '\'' :: doubled '\'' s := by
  rcases printDatum_cases hu hfits with ⟨t, rfl, rfl⟩ | ⟨-, hblank, -⟩
  · have hprint : '\'' :: (doubled '\'' t ++ ['\'']) = l ++ ' ' :: b := h
    cases l with
    | nil => exact absurd (List.cons.inj hprint).1 (by decide)
    | cons c l =>
      obtain ⟨rfl, hquoted⟩ : '\'' = c ∧ doubled '\'' t ++ ['\''] = l ++ ' ' :: b := by
        simpa using hprint
      rcases List.append_eq_append_iff.mp hquoted with ⟨m, rfl, hm⟩ | ⟨m, hm, htail⟩
      · -- the blank would stand behind the closing quote
        cases m with
        | nil => exact absurd (List.cons.inj hm).1 (by decide)
        | cons c m => simp at hm
      · cases m with
        | nil => exact absurd (List.cons.inj htail).1 (by decide)
        | cons c m =>
          obtain ⟨rfl, -⟩ : ' ' = c ∧ _ := by simpa using htail
          obtain ⟨s, r, rfl, rfl⟩ := doubled_eq_append_cons (by decide) hm
          exact ⟨_, s, r, rfl, rfl, rfl, rfl⟩
  · have hspace : u.isSpace ' ' = true := hu.space ' ' (by decide)
    rw [hblank ' ' (by rw [h]; simp)] at hspace
    cases hspace

/-- A quoted text cut inside, without the blanks before the cut. -/
theorem closed_of_quoted (hu : u.AsciiExact) {s : Str} (h : s = [] ∨ Closed u s) :
    Closed u ('\'' :: doubled '\'' s) := by
  rcases h with rfl | ⟨t, c, rfl, hc⟩
  · exact ⟨[], '\'', rfl, space_false hu (by decide) (by decide)⟩
  · rw [doubled_append]
    by_cases hquote : c = '\''
    · refine ⟨'\'' :: (doubled '\'' t ++ ['\'']), '\'', ?_, hquote ▸ hc⟩
      rw [hquote, doubled_quote]
      simp
    · exact ⟨'\'' :: doubled '\'' t, c, by rw [doubled_plain hquote]; rfl, hc⟩

/-- A shorter text does not recover a quoted one. -/
theorem not_recovered_of_shorter {literal : LiteralKind} {s t : Str} {value : Option PgValue}
    {items : RowData PgValue} {name : Str} (hliteral : literal = .quoted)
    (hnew : name ∉ items.map Prod.fst) (hvalue : convertValue u s = .ok value)
    (hlength : s.length < t.length) :
    ¬ RecoversDatum literal ((items ++ [(name, value)]).lookup name) (.text t) := by
  rintro ⟨v, hv, hdenotes⟩
  have hnone : items.lookup name = none := by
    rw [List.lookup_eq_none_iff]
    intro item hitem
    have hne : name ≠ item.1 := fun heq => hnew (List.mem_map.mpr ⟨item, hitem, heq.symm⟩)
    simpa using hne
  rw [List.lookup_append, hnone, Option.none_or, List.lookup_cons_self] at hv
  cases hv
  rw [hliteral] at hdenotes
  obtain rfl : v = .text t := hdenotes
  rw [(convertValue_text hvalue).1] at hlength
  exact lt_irrefl _ hlength

/-- CORRECT: a tuple cut at a separator inside it is not recovered. -/
theorem not_reads_of_cut (hu : u.AsciiExact) {a b : Str} (h : WellFormedTuple tuple)
    (hunmixed : UnmixedTuple tuple)
    (hcut : printTuple reserved tuple = a ++ (newTupleWord ++ b)) :
    ¬ ReadsTuple u (strip u a) tuple := by
  rintro ⟨data, hparse, hrecovers⟩
  have hfound : ∀ entry ∈ tuple, (data.lookup entry.1.name).isSome :=
    fun entry hentry => recovers_some (hrecovers.1 entry hentry)
  have hnames := names_of_recovers hfound (parseColumns_keys hparse (by simp))
  have hword : newTupleWord ++ b = ' ' :: ("new".toList ++ '-' :: ("tuple:".toList ++ b)) := rfl
  rw [hword] at hcut
  obtain ⟨l₁, entry, l₂, a', b', rfl, rfl, hentry, hb⟩ := flatMap_eq_append_cons hcut
  have hmem : entry ∈ l₁ ++ entry :: l₂ := by simp
  have hl₁ : ∀ e ∈ l₁, e ∈ l₁ ++ entry :: l₂ := fun e he => List.mem_append_left _ he
  have hname := hnames entry hmem
  have hfits := h.fits entry hmem
  have hdistinct := h.distinct
  rw [List.map_append, List.map_cons] at hdistinct
  have hbefore : WellFormedTuple l₁ :=
    ⟨(List.nodup_append.mp hdistinct).1, fun e he => h.fits e (hl₁ e he)⟩
  have hfresh : entry.1.name ∉ l₁.map (·.1.name) := fun hin =>
    (List.nodup_append.mp hdistinct).2.2 _ hin _ (List.mem_cons_self ..) rfl
  -- what is left of the cut column is parsed behind the columns before it
  have hparsed : ∀ {s ws : Str}, a' = ' ' :: (s ++ ws) → Closed u s →
      (∀ c ∈ ws, u.isSpace c = true) → ∃ items n, entry.1.name ∉ items.map Prod.fst ∧
        parseColumns u (n + 1) (' ' :: s) items = .ok data := by
    intro s ws ha' hs hws
    have hclosed : Closed u (printTuple reserved l₁ ++ ' ' :: s) :=
      (hs.append [' ']).append (printTuple reserved l₁)
    have hstrip := strip_closed hclosed hws
    rw [List.append_assoc, List.cons_append, ← ha'] at hstrip
    have hblank : ∀ c ∈ (' ' :: s).head?, u.isSpace c = true := by
      intro c hc
      obtain rfl : ' ' = c := Option.some.inj hc
      exact hu.space ' ' (by decide)
    have hbody := congrArg (List.dropWhile u.isSpace) hstrip
    rw [List.dropWhile_idempotent] at hbody
    obtain ⟨items, hitems, hrest⟩ := parseTuple_cut hu hblank hbefore
      (fun e he => hunmixed e (hl₁ e he)) (fun e he => hnames e (hl₁ e he)) hbody hparse
      (fun e he => hfound e (hl₁ e he))
    refine ⟨items, _, fun hin => hfresh ?_, hrest⟩
    obtain ⟨item, hitem, heq⟩ := List.mem_map.mp hin
    rw [← heq]
    exact (lookup_of_mapM hitems hbefore.distinct).2 item hitem
  have hlost : ∀ {s : Str} {items : RowData PgValue} {n : ℕ}, entry.1.name ∉ items.map Prod.fst →
      parseColumns u (n + 1) (' ' :: s) items = .ok data →
      parseColumns u (n + 1) (' ' :: s) items ≠ .ok items := by
    intro s items n hnew hdata hsame
    obtain ⟨v, hv⟩ := Option.isSome_iff_exists.mp (hfound entry hmem)
    rw [Except.ok.inj (hdata.symm.trans hsame)] at hv
    exact hnew (List.mem_map.mpr ⟨_, Dict.mem_of_lookup hv, rfl⟩)
  have hcolumn : printColumn reserved entry = ' ' :: (quoteIdentifier reserved entry.1.name ++
      '[' :: (entry.1.typeName ++ ']' :: ':' :: printDatum entry.1.literal entry.2)) := rfl
  rw [hcolumn] at hentry
  cases a' with
  | nil =>
    -- the separator would be a name
    obtain ⟨-, rfl⟩ := List.cons.inj hentry
    have hsafe : "new".toList ≠ [] ∧ ∀ c ∈ "new".toList, safeChar c = true :=
      ⟨by decide, List.all_iff_forall_prop.mp (by decide)⟩
    rw [List.append_assoc, List.cons_append] at hb
    exact quoteIdentifier_hyphen hu hsafe.1 hsafe.2 hb.symm
  | cons c a₂ =>
    obtain ⟨rfl, hcut'⟩ : ' ' = c ∧ quoteIdentifier reserved entry.1.name ++ '[' ::
        (entry.1.typeName ++ ']' :: ':' :: printDatum entry.1.literal entry.2) =
          a₂ ++ ' ' :: b' := by
      simpa using hentry
    rcases column_cut hcut' with hshort | ⟨l, rfl, hl⟩
    · -- in the name or the type
      obtain ⟨s, ws, rfl, hws, hs⟩ := exists_trimmed u a₂
      rcases hs with rfl | hs
      · obtain ⟨c, t, hhead, hc⟩ := quoteIdentifier_head hu reserved entry.1.name
        rw [hhead] at hcut'
        cases ws with
        | nil =>
          have hspace : u.isSpace ' ' = true := hu.space ' ' (by decide)
          rw [(List.cons.inj hcut').1, hspace] at hc
          cases hc
        | cons d ws =>
          rw [(List.cons.inj hcut').1, hws d (List.mem_cons_self ..)] at hc
          cases hc
      · obtain ⟨items, n, hnew, hdata⟩ := hparsed rfl hs hws
        exact hlost hnew hdata (parseColumns_cut_type hu hname (hunmixed entry hmem)
          ((List.prefix_append s ws).trans hshort) _ _)
    · -- in the value
      obtain ⟨t, s, r, hliteral, hd, rfl, rfl⟩ := literal_cut hu hfits hl
      obtain ⟨s, ws, rfl, hws, hs⟩ := exists_trimmed u s
      have hquote : '\'' ∉ ws := by
        intro hmem
        have hspace : u.isSpace '\'' = false := space_false hu (by decide) (by decide)
        rw [hws _ hmem] at hspace
        cases hspace
      have hclosed : Closed u (quoteIdentifier reserved entry.1.name ++ '[' ::
          (entry.1.typeName ++ ']' :: ':' :: '\'' :: doubled '\'' s)) := by
        have hvalue := (closed_of_quoted hu hs).append (quoteIdentifier reserved entry.1.name ++
          '[' :: (entry.1.typeName ++ [']', ':']))
        simpa using hvalue
      have hcolumn' : ' ' :: (quoteIdentifier reserved entry.1.name ++ '[' :: (entry.1.typeName ++
          ']' :: ':' :: '\'' :: doubled '\'' (s ++ ws))) = ' ' :: (quoteIdentifier reserved
            entry.1.name ++ '[' :: (entry.1.typeName ++ ']' :: ':' :: '\'' :: doubled '\'' s) ++
              ws) := by
        rw [doubled_append, doubled_of_not_mem hquote]
        simp
      obtain ⟨items, n, hnew, hdata⟩ := hparsed hcolumn' hclosed hws
      by_cases htype : ']' ∈ entry.1.typeName
      · exact hlost hnew hdata
          (parseColumns_broken_type hu hname htype (hunmixed entry hmem) _ _ _)
      · have hstart := start_column hu reserved entry.1.name
          ('[' :: (entry.1.typeName ++ ']' :: ':' :: '\'' :: doubled '\'' s))
        obtain ⟨htake, hdrop⟩ := cut_name reserved hname
          (entry.1.typeName ++ ']' :: ':' :: '\'' :: doubled '\'' s)
        have hturn := parseColumns_turn (u := u) (by rw [hstart, hdrop])
          (cut_type htype _) n items
        rw [hturn, hstart, htake, unquote_quoteIdentifier hu, readValue.eq_1, readDoubled_open]
          at hdata
        obtain ⟨value, hvalue, hdata⟩ := bind_ok.mp hdata
        rw [parseColumns_no_bracket (by simp), setItem_new value hnew] at hdata
        have hrecovered := hrecovers.1 entry hmem
        rw [hd, ← Except.ok.inj hdata] at hrecovered
        refine not_recovered_of_shorter hliteral hnew hvalue ?_ hrecovered
        simp only [List.length_append, List.length_cons]
        omega

end Whole

end Dpone.Cdc.TestDecoding
