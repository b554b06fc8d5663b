import Dpone.Schemes.Numeral

/-! Flat JSON objects as text: what `json.dumps` writes for strings, integers and null without
    blanks, and a reader that takes it back. Characters other than the quote and the backslash are
    written as themselves. -/

namespace Dpone.Schemes.JsonText
open Dpone.Schemes

inductive Scalar where
  | null
  | int (n : ℤ)
  | str (s : Str)
  deriving DecidableEq

/-! ### Writing -/

def escape (c : Char) : Str := if c = '"' ∨ c = '\\' then ['\\', c] else [c]

def quoted (s : Str) : Str := '"' :: (s.flatMap escape ++ ['"'])

def Scalar.dumps : Scalar → Str
  | .null => "null".toList
  | .int n => intText n
  | .str s => quoted s

/-- Fields one after the other, each closed by a comma; the last one by the brace. -/
def dumpFields : List (Str × Scalar) → Str
  | [] => ['}']
  | [(name, value)] => quoted name ++ ':' :: (value.dumps ++ ['}'])
  | (name, value) :: rest => quoted name ++ ':' :: (value.dumps ++ ',' :: dumpFields rest)

def dumps (fields : List (Str × Scalar)) : Str := '{' :: dumpFields fields

/-! ### Reading -/

/-- The rest of a string, up to its closing quote. -/
def readString : Str → Option (Str × Str)
  | [] => none
  | '\\' :: c :: rest => (readString rest).map fun p => (c :: p.1, p.2)
  | c :: rest => if c = '"' then some ([], rest)
      else (readString rest).map fun p => (c :: p.1, p.2)

def closes (c : Char) : Bool := c = ',' || c = '}'

def readScalar : Str → Option (Scalar × Str)
  | '"' :: rest => (readString rest).map fun p => (.str p.1, p.2)
  | text =>
    let word := text.takeWhile fun c => !closes c
    let rest := text.dropWhile fun c => !closes c
    if word = "null".toList then some (.null, rest)
    else (pyInt Unicode.ascii word).map fun n => (.int n, rest)

/-- Fields up to the closing brace; the text gets shorter, so its length is fuel enough. -/
def readFields : ℕ → Str → Option (List (Str × Scalar))
  | 0, _ => none
  | _ + 1, ['}'] => some []
  | fuel + 1, '"' :: text => do
    let (name, text) ← readString text
    match text with
    | ':' :: text =>
      let (value, text) ← readScalar text
      match text with
      | ['}'] => some [(name, value)]
      | ',' :: text => (readFields fuel text).map ((name, value) :: ·)
      | _ => none
    | _ => none
  | _ + 1, _ => none

def loads : Str → Option (List (Str × Scalar))
  | '{' :: text => readFields (text.length + 1) text
  | _ => none

/-! ### Round trip -/

theorem readString_escape (c : Char) (text : Str) :
    readString (escape c ++ text) = (readString text).map fun p => (c :: p.1, p.2) := by
  unfold escape
  split_ifs with h
  · rfl
  · obtain ⟨hquote, hslash⟩ := not_or.mp h
    rw [List.singleton_append, readString.eq_3 _ _ (fun _ _ h => absurd h hslash), if_neg hquote]

theorem readString_quoted : ∀ s rest : Str,
    readString (s.flatMap escape ++ '"' :: rest) = some (s, rest)
  | [], rest => rfl
  | c :: s, rest => by
    rw [List.flatMap_cons, List.append_assoc, readString_escape, readString_quoted s rest]
    rfl

theorem intText_plain (n : ℤ) : ∀ c ∈ intText n, closes c = false ∧ c ≠ '"' ∧ c ≠ 'n' := by
  have hdigits : ∀ d < 10, closes (digitChar d) = false ∧ digitChar d ≠ '"' ∧
      digitChar d ≠ 'n' := by decide
  have hdecimal : ∀ c ∈ decimalText n.natAbs, closes c = false ∧ c ≠ '"' ∧ c ≠ 'n' := by
    intro c hc
    obtain ⟨d, hd, rfl⟩ := mem_numeral _ _ hc
    exact hdigits d hd
  intro c hc
  unfold intText at hc
  split_ifs at hc
  · rcases List.mem_cons.mp hc with rfl | hc
    · decide
    · exact hdecimal c hc
  · exact hdecimal c hc

theorem intText_ne_nil (n : ℤ) : intText n ≠ [] := by
  unfold intText
  split_ifs
  · exact List.cons_ne_nil _ _
  · exact decimalText_ne_nil _

/-- A text that does not open a string is a word up to the next comma or brace. -/
theorem readScalar_word {word rest : Str} {close : Char} (hne : word ≠ [])
    (hplain : ∀ c ∈ word, closes c = false ∧ c ≠ '"') (hclose : closes close = true) :
    readScalar (word ++ close :: rest) =
      if word = "null".toList then some (.null, close :: rest)
      else (pyInt Unicode.ascii word).map fun n => (.int n, close :: rest) := by
  have htake : (word ++ close :: rest).takeWhile (fun c => !closes c) = word := by
    rw [List.takeWhile_append_of_pos fun c hc => by simp [(hplain c hc).1],
      List.takeWhile_cons_of_neg (by simp [hclose]), List.append_nil]
  have hdrop : (word ++ close :: rest).dropWhile (fun c => !closes c) = close :: rest := by
    rw [List.dropWhile_append_of_pos fun c hc => by simp [(hplain c hc).1],
      List.dropWhile_cons_of_neg (by simp [hclose])]
  cases word with
  | nil => exact absurd rfl hne
  | cons c cs =>
    rw [List.cons_append, readScalar.eq_2 _ fun _ h => (hplain c (by simp)).2 (List.cons.inj h).1]
    rw [List.cons_append] at htake hdrop
    rw [htake, hdrop]

theorem readScalar_dumps (value : Scalar) (close : Char) (rest : Str)
    (hclose : closes close = true) :
    readScalar (value.dumps ++ close :: rest) = some (value, close :: rest) := by
  cases value with
  | null =>
    have hword : ∀ c ∈ "null".toList, closes c = false ∧ c ≠ '"' := by simp [closes]
    exact (readScalar_word (by decide) hword hclose).trans (if_pos rfl)
  | int n =>
    have hplain := intText_plain n
    refine (readScalar_word (intText_ne_nil n)
      (fun c hc => ⟨(hplain c hc).1, (hplain c hc).2.1⟩) hclose).trans ?_
    have hnull : intText n ≠ "null".toList := fun hnull =>
      (hplain 'n' (by rw [hnull]; decide)).2.2 rfl
    rw [if_neg hnull, pyInt_intText]
    rfl
  | str s =>
    have hquoted : quoted s ++ close :: rest =
        '"' :: (s.flatMap escape ++ '"' :: close :: rest) := by simp [quoted]
    rw [Scalar.dumps, hquoted, readScalar, readString_quoted]
    rfl

theorem readFields_dumpFields : ∀ (fields : List (Str × Scalar)) (fuel : ℕ),
    fields.length < fuel → readFields fuel (dumpFields fields) = some fields
  | [], fuel + 1, _ => rfl
  | [(name, value)], fuel + 1, _ => by
    have hquoted : dumpFields [(name, value)] =
        '"' :: (name.flatMap escape ++ '"' :: ':' :: (value.dumps ++ '}' :: [])) := by
      simp [dumpFields, quoted]
    rw [hquoted, readFields, readString_quoted, Option.bind_eq_bind, Option.bind_some]
    simp only [readScalar_dumps value '}' [] rfl, Option.bind_eq_bind, Option.bind_some]
  | (name, value) :: field :: rest, fuel + 1, h => by
    have hquoted : dumpFields ((name, value) :: field :: rest) =
        '"' :: (name.flatMap escape ++
          '"' :: ':' :: (value.dumps ++ ',' :: dumpFields (field :: rest))) := by
      simp [dumpFields, quoted]
    rw [hquoted, readFields, readString_quoted, Option.bind_eq_bind, Option.bind_some]
    simp only [readScalar_dumps value ',' _ rfl, Option.bind_eq_bind, Option.bind_some]
    rw [readFields_dumpFields (field :: rest) fuel (by simpa using h)]
    rfl

theorem length_lt_dumpFields : ∀ fields : List (Str × Scalar),
    fields.length < (dumpFields fields).length
  | [] => by simp [dumpFields]
  | [(name, value)] => by simp [dumpFields, quoted]
  | (name, value) :: field :: rest => by
    have ih := length_lt_dumpFields (field :: rest)
    simp only [dumpFields, quoted, List.length_cons, List.length_append] at ih ⊢
    omega

/-- LOSSLESS: a flat object is read back from its text. -/
theorem loads_dumps (fields : List (Str × Scalar)) : loads (dumps fields) = some fields :=
  readFields_dumpFields fields _ ((length_lt_dumpFields fields).trans (Nat.lt_succ_self _))

/-! ### Beginnings of a text -/

theorem dumps_closed (fields : List (Str × Scalar)) : ∃ s, dumps fields = s ++ ['}'] := by
  have hfields : ∀ fields : List (Str × Scalar), ∃ s, dumpFields fields = s ++ ['}'] := by
    intro fields
    induction fields with
    | nil => exact ⟨[], rfl⟩
    | cons field rest ih =>
      obtain ⟨name, value⟩ := field
      cases rest with
      | nil => exact ⟨quoted name ++ ':' :: value.dumps, by simp [dumpFields]⟩
      | cons next rest =>
        obtain ⟨s, hs⟩ := ih
        exact ⟨quoted name ++ ':' :: (value.dumps ++ ',' :: s), by simp [dumpFields, hs]⟩
  obtain ⟨s, hs⟩ := hfields fields
  exact ⟨'{' :: s, by simp [dumps, hs]⟩
theorem readString_append : ∀ {text s rest : Str} (tail : Str), readString text = some (s, rest) →
    readString (text ++ tail) = some (s, rest ++ tail)
  | [], _, _, _, h => nomatch h
  | c :: text, s, rest, tail, h => by
    by_cases hslash : c = '\\'
    · subst hslash
      cases text with
      | nil => simp [readString] at h
      | cons d text =>
        obtain ⟨p, hp, hs⟩ := Option.map_eq_some_iff.mp h
        cases hs
        exact Option.map_eq_some_iff.mpr ⟨_, readString_append tail hp, rfl⟩
    · rw [readString.eq_3 _ _ fun _ _ h => absurd h hslash] at h
      rw [List.cons_append, readString.eq_3 _ _ fun _ _ h => absurd h hslash]
      split_ifs at h ⊢ with hquote
      · cases h; rfl
      · obtain ⟨p, hp, hs⟩ := Option.map_eq_some_iff.mp h
        cases hs
        exact Option.map_eq_some_iff.mpr ⟨_, readString_append tail hp, rfl⟩

/-- A scalar that ends before the text does is the same in a longer text. -/
theorem readScalar_append {text rest : Str} {value : Scalar} {c : Char} (tail : Str)
    (h : readScalar text = some (value, c :: rest)) :
    readScalar (text ++ tail) = some (value, c :: rest ++ tail) := by
  by_cases hquote : ∃ body, text = '"' :: body
  · obtain ⟨body, rfl⟩ := hquote
    obtain ⟨p, hp, hs⟩ := Option.map_eq_some_iff.mp h
    obtain ⟨s, rest'⟩ := p
    cases hs
    exact Option.map_eq_some_iff.mpr ⟨_, readString_append tail hp, rfl⟩
  · have hword : ∀ body, text = '"' :: body → False := fun body hb => hquote ⟨body, hb⟩
    rw [readScalar.eq_2 _ hword] at h
    have hdrop : text.dropWhile (fun c => !closes c) = c :: rest := by
      split_ifs at h
      · exact congrArg Prod.snd (Option.some.inj h)
      · obtain ⟨n, hn, hs⟩ := Option.map_eq_some_iff.mp h
        exact congrArg Prod.snd hs
    have hsplit := List.takeWhile_append_dropWhile (p := fun c => !closes c) (l := text)
    have hplain : ∀ d ∈ text.takeWhile (fun c => !closes c), (!closes d) = true := fun d hd =>
      List.mem_takeWhile_imp (p := fun c => !closes c) hd
    have hclose : (!closes c) = false := by
      have := List.head?_dropWhile_not (fun c => !closes c) text
      rw [hdrop] at this
      simpa using this
    have hlong : text ++ tail =
        text.takeWhile (fun c => !closes c) ++ c :: (rest ++ tail) := by
      conv_lhs => rw [← hsplit, hdrop]
      simp
    have htake' : (text ++ tail).takeWhile (fun c => !closes c) =
        text.takeWhile (fun c => !closes c) := by
      rw [hlong, List.takeWhile_append_of_pos hplain,
        List.takeWhile_cons_of_neg (by simp [hclose]), List.append_nil]
    have hdrop' : (text ++ tail).dropWhile (fun c => !closes c) = c :: (rest ++ tail) := by
      rw [hlong, List.dropWhile_append_of_pos hplain, List.dropWhile_cons_of_neg (by simp [hclose])]
    have hword' : ∀ body, text ++ tail = '"' :: body → False := by
      intro body hb
      cases text with
      | nil => simp at hdrop
      | cons d text => cases hb; exact hword _ rfl
    rw [readScalar.eq_2 _ hword']
    rw [htake', hdrop']
    rw [hdrop] at h
    split_ifs at h ⊢
    · cases h; rfl
    · obtain ⟨n, hn, hs⟩ := Option.map_eq_some_iff.mp h
      cases hs
      exact Option.map_eq_some_iff.mpr ⟨n, hn, rfl⟩

/-- Nothing may follow the closing brace. -/
theorem readFields_append : ∀ {fuel : ℕ} {text : Str} {fields : List (Str × Scalar)}
    (fuel' : ℕ) {tail : Str}, tail ≠ [] → readFields fuel text = some fields →
    readFields fuel' (text ++ tail) = none
  | 0, _, _, _, _, _, h => nomatch h
  | _ + 1, _, _, 0, _, _, _ => rfl
  | fuel + 1, text, fields, fuel' + 1, tail, htail, h => by
    obtain ⟨c, tail, rfl⟩ := List.exists_cons_of_ne_nil htail
    rw [readFields.eq_def] at h
    split at h
    · contradiction
    · rfl
    · rename_i body heq
      cases heq
      simp only [Option.bind_eq_bind, Option.bind_eq_some_iff] at h
      obtain ⟨⟨name, rest⟩, hname, h⟩ := h
      rw [List.cons_append, readFields, readString_append _ hname, Option.bind_eq_bind,
        Option.bind_some]
      split at h
      · rename_i text' heq
        simp only at heq
        subst heq
        obtain ⟨⟨value, rest⟩, hvalue, h⟩ := Option.bind_eq_some_iff.mp h
        split at h
        · rename_i heq
          simp only at heq
          subst heq
          simp [readScalar_append _ hvalue]
        · rename_i heq
          simp only at heq
          subst heq
          obtain ⟨fields', hfields, -⟩ := Option.map_eq_some_iff.mp h
          simp [readScalar_append _ hvalue, readFields_append fuel' htail hfields]
        · contradiction
      · contradiction
    · contradiction

/-- A text that is read is not the beginning of a longer one. -/
theorem loads_append {text tail : Str} {fields : List (Str × Scalar)} (htail : tail ≠ [])
    (h : loads text = some fields) : loads (text ++ tail) = none := by
  rw [loads.eq_def] at h
  split at h
  · exact readFields_append _ htail h
  · contradiction

end Dpone.Schemes.JsonText
