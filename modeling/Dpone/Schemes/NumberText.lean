import Dpone.Schemes.DecimalFloat

/-! Numbers as text: what `Decimal(text)` and `float(text)` read.

    The readers take surrounding blanks, underscores, digits of any script, exponents and the names
    of the special values. `NumberText` is the narrower form in which databases print numbers; every
    text of that form is read as the number it prints (`readNumber_text`). -/

namespace Dpone.Schemes

section Readers
variable (u : Unicode)

/-- Digits, `n` being the value so far. -/
def digitsFrom : ℕ → Str → Option ℕ
  | n, [] => some n
  | n, c :: cs => (u.digit c).bind fun d => digitsFrom (10 * n + d) cs

/-- Digits around an optional point: their value, and how many stand after the point. -/
def readMantissa (s : Str) : Option (ℕ × ℕ) :=
  let whole := s.takeWhile (· ≠ '.')
  let fraction := (s.dropWhile (· ≠ '.')).drop 1
  if whole ++ fraction = [] then none
  else (digitsFrom u 0 (whole ++ fraction)).map fun n => (n, fraction.length)

/-- An optional exponent, from its letter on. -/
def readExponent : Str → Option ℤ
  | [] => some 0
  | _ :: '-' :: ds => if ds = [] then none else (digitsFrom u 0 ds).map fun n : ℕ => -(n : ℤ)
  | _ :: '+' :: ds => if ds = [] then none else (digitsFrom u 0 ds).map fun n : ℕ => (n : ℤ)
  | _ :: ds => if ds = [] then none else (digitsFrom u 0 ds).map fun n : ℕ => (n : ℤ)

def exponentLetter (c : Char) : Bool := c = 'e' || c = 'E'

def readMagnitude (s : Str) : Option (ℕ × ℤ) := do
  let (coefficient, places) ← readMantissa u (s.takeWhile fun c => !exponentLetter c)
  let exponent ← readExponent u (s.dropWhile fun c => !exponentLetter c)
  return (coefficient, exponent - places)

/-- An optional sign, and the rest. -/
def cutSign : Str → Bool × Str
  | '-' :: t => (true, t)
  | '+' :: t => (false, t)
  | t => (false, t)

/-- A numeral or the name of a special value, without blanks and underscores. -/
def readNumber (s : Str) : Option PyNumber :=
  let body := (cutSign s).2
  let name := body.map Char.toLower
  if name = "inf".toList ∨ name = "infinity".toList then some (.infinite (cutSign s).1)
  else if name = "nan".toList then some .nan
  else (readMagnitude u body).map fun m => .finite (cutSign s).1 m.1 m.2

/-- `nan` with a payload, which only decimals have. -/
def nanPayload (s : Str) : Bool :=
  let name := (cutSign s).2.map Char.toLower
  name.take 3 = "nan".toList && (digitsFrom u 0 (name.drop 3)).isSome

/-- `Decimal(text)`, for comparisons: a signalling NaN raises there as a bad text does here. -/
def pyDecimal (s : Str) : Option PyNumber :=
  let t := (strip u s).filter (· ≠ '_')
  if nanPayload u t then some .nan else readNumber u t

/-- Underscores between two digits, taken out; `last` is the character before. -/
def joinDigits : Option Char → Str → Option Str
  | _, [] => some []
  | last, c :: cs =>
    if c = '_' then
      if last.any (fun d => (u.digit d).isSome) ∧ cs.head?.any (fun d => (u.digit d).isSome) then
        joinDigits (some c) cs
      else none
    else (joinDigits (some c) cs).map (c :: ·)

/-- `float(text)`. -/
def pyFloat (s : Str) : Option PyFloat :=
  ((joinDigits u none (strip u s)).bind (readNumber u)).map PyNumber.toFloat

end Readers

/-! ### Printed numbers -/

/-- A printed number: a sign, digits, digits after the point and an exponent, the last two only
    where they are needed; or the name of a special value. -/
inductive NumberText where
  | finite (negative : Bool) (whole fraction : List (Fin 10))
    (exponent : Option (Bool × List (Fin 10)))
  | infinity (negative : Bool)
  | nan
  deriving DecidableEq

namespace NumberText

def digitText (ds : List (Fin 10)) : Str := ds.map fun d => digitChar d.val

def signText (negative : Bool) : Str := if negative then ['-'] else []

def pointText (fraction : List (Fin 10)) : Str :=
  if fraction = [] then [] else '.' :: digitText fraction

def exponentText : Option (Bool × List (Fin 10)) → Str
  | none => []
  | some (negative, ds) => 'e' :: (if negative then '-' else '+') :: digitText ds

def text : NumberText → Str
  | .finite negative whole fraction exponent =>
    signText negative ++ (digitText whole ++ pointText fraction ++ exponentText exponent)
  | .infinity negative => signText negative ++ "Infinity".toList
  | .nan => "NaN".toList

/-- There is a digit before the point, and in an exponent. -/
def WellFormed : NumberText → Prop
  | .finite _ whole _ exponent => whole ≠ [] ∧ ∀ e ∈ exponent, e.2 ≠ []
  | _ => True

/-- Without an exponent. -/
def Plain : NumberText → Prop
  | .finite _ _ _ exponent => exponent = none
  | _ => True

def exponentValue : Option (Bool × List (Fin 10)) → ℤ
  | none => 0
  | some (negative, ds) => if negative then -spelled ds else spelled ds

def number : NumberText → PyNumber
  | .finite negative whole fraction exponent =>
    .finite negative (spelled (whole ++ fraction)) (exponentValue exponent - fraction.length)
  | .infinity negative => .infinite negative
  | .nan => .nan

end NumberText

open NumberText

variable {u : Unicode}

theorem digit_digitChar (d : Fin 10) : u.digit (digitChar d.val) = some d.val := by
  obtain ⟨hdigit, -, -, -, hvalue⟩ := digitChar_isDigit d.val d.isLt
  rw [u.digit_ascii _ hdigit, hvalue]

theorem digitsFrom_digitText : ∀ (ds : List (Fin 10)) (n : ℕ),
    digitsFrom u n (digitText ds) = some (ds.foldl (fun n d => n * 10 + d.val) n)
  | [], _ => rfl
  | d :: ds, n => by
    rw [digitText, List.map_cons, digitsFrom, digit_digitChar, Option.bind_some, List.foldl_cons,
      Nat.mul_comm n 10]
    exact digitsFrom_digitText ds _

/-- Characters of a numeral that its readers look for. -/
theorem digitChar_facts : ∀ d : Fin 10, digitChar d.val ≠ '.' ∧
    exponentLetter (digitChar d.val) = false ∧ digitChar d.val ≠ '-' ∧ digitChar d.val ≠ '+' ∧
    digitChar d.val ≠ '_' ∧
    (digitChar d.val).toLower = digitChar d.val ∧ (digitChar d.val).isDigit := by decide

theorem digitChar_not_name : ∀ d : Fin 10, digitChar d.val ≠ 'n' ∧ digitChar d.val ≠ 'i' := by
  decide

theorem mem_digitText {ds : List (Fin 10)} {c : Char} (h : c ∈ digitText ds) :
    ∃ d : Fin 10, c = digitChar d.val := by
  obtain ⟨d, -, rfl⟩ := List.mem_map.mp h
  exact ⟨d, rfl⟩

/-- A run of characters is cut where the first other one stands. -/
theorem taken_run {α : Type} {p : α → Bool} {s t : List α} (hs : ∀ c ∈ s, p c = true)
    (ht : ∀ c ∈ t.head?, p c = false) :
    (s ++ t).takeWhile p = s ∧ (s ++ t).dropWhile p = t := by
  rw [List.takeWhile_append_of_pos hs, List.dropWhile_append_of_pos hs]
  cases t with
  | nil => simp
  | cons c cs => simp [ht c rfl]

theorem readMantissa_text {whole : List (Fin 10)} (fraction : List (Fin 10)) (hwhole : whole ≠ []) :
    readMantissa u (digitText whole ++ pointText fraction) =
      some (spelled (whole ++ fraction), fraction.length) := by
  have hdigits : ∀ c ∈ digitText whole, (decide (c ≠ '.')) = true := by
    intro c hc
    obtain ⟨d, rfl⟩ := mem_digitText hc
    exact decide_eq_true (digitChar_facts d).1
  have hpoint : ∀ c ∈ (pointText fraction).head?, (decide (c ≠ '.')) = false := by
    intro c hc
    unfold pointText at hc
    split_ifs at hc
    · cases hc
    · cases hc
      rfl
  have hdrop : (pointText fraction).drop 1 = digitText fraction := by
    unfold pointText
    split_ifs with hnil
    · rw [hnil]; rfl
    · rfl
  have hnil : digitText whole ++ digitText fraction ≠ [] := by
    simp [digitText, hwhole]
  have hread : digitsFrom u 0 (digitText whole ++ digitText fraction) =
      some (spelled (whole ++ fraction)) := by
    rw [digitText, digitText, ← List.map_append]
    exact digitsFrom_digitText _ 0
  obtain ⟨htake, hrest⟩ := taken_run hdigits hpoint
  simp only [readMantissa, htake, hrest, hdrop, if_neg hnil, hread, Option.map_some]
  simp [digitText]

theorem readExponent_text {exponent : Option (Bool × List (Fin 10))}
    (h : ∀ e ∈ exponent, e.2 ≠ []) :
    readExponent u (exponentText exponent) = some (exponentValue exponent) := by
  cases exponent with
  | none => rfl
  | some e =>
    obtain ⟨negative, ds⟩ := e
    have hne : digitText ds ≠ [] := by simpa [digitText] using h _ rfl
    have hread : digitsFrom u 0 (digitText ds) = some (spelled ds) := digitsFrom_digitText ds 0
    cases negative
    · simp [exponentText, readExponent, hne, hread, exponentValue]
    · simp [exponentText, readExponent, hne, hread, exponentValue]

/-- The digits of a numeral, with its point, as one run. -/
theorem mantissa_chars {whole fraction : List (Fin 10)} {c : Char}
    (h : c ∈ digitText whole ++ pointText fraction) :
    c = '.' ∨ ∃ d : Fin 10, c = digitChar d.val := by
  rcases List.mem_append.mp h with h | h
  · exact .inr (mem_digitText h)
  · unfold pointText at h
    split_ifs at h
    · cases h
    · rcases List.mem_cons.mp h with rfl | h
      · exact .inl rfl
      · exact .inr (mem_digitText h)

theorem readMagnitude_text {whole fraction : List (Fin 10)}
    {exponent : Option (Bool × List (Fin 10))} (hwhole : whole ≠ [])
    (hexponent : ∀ e ∈ exponent, e.2 ≠ []) :
    readMagnitude u (digitText whole ++ pointText fraction ++ exponentText exponent) =
      some (spelled (whole ++ fraction), exponentValue exponent - fraction.length) := by
  have hmantissa : ∀ c ∈ digitText whole ++ pointText fraction, (!exponentLetter c) = true := by
    intro c hc
    rcases mantissa_chars hc with rfl | ⟨d, rfl⟩
    · rfl
    · rw [(digitChar_facts d).2.1]; rfl
  have hletter : ∀ c ∈ (exponentText exponent).head?, (!exponentLetter c) = false := by
    intro c hc
    cases exponent with
    | none => cases hc
    | some e => cases hc; rfl
  obtain ⟨htake, hdrop⟩ := taken_run hmantissa hletter
  simp only [readMagnitude, htake, hdrop, readMantissa_text fraction hwhole,
    readExponent_text hexponent]
  rfl

/-- A numeral begins with a digit. -/
theorem numeral_head {whole : List (Fin 10)} (rest : Str) (hwhole : whole ≠ []) :
    ∃ (d : Fin 10) (t : Str), digitText whole ++ rest = digitChar d.val :: t := by
  cases whole with
  | nil => exact absurd rfl hwhole
  | cons d ds => exact ⟨d, digitText ds ++ rest, rfl⟩

theorem cutSign_text (negative : Bool) {s : Str} (h : ∀ c ∈ s.head?, c ≠ '-' ∧ c ≠ '+') :
    cutSign (signText negative ++ s) = (negative, s) := by
  cases negative
  · cases s with
    | nil => rfl
    | cons c cs =>
      obtain ⟨hminus, hplus⟩ := h c rfl
      simp only [signText, Bool.false_eq_true, if_false, List.nil_append]
      unfold cutSign
      split <;> simp_all
  · rfl

section Numeral
variable {negative : Bool} {whole fraction : List (Fin 10)}
  {exponent : Option (Bool × List (Fin 10))}

theorem cutSign_numeral (hwhole : whole ≠ []) :
    cutSign (NumberText.finite negative whole fraction exponent).text =
      (negative, digitText whole ++ pointText fraction ++ exponentText exponent) := by
  obtain ⟨d, t, hhead⟩ := numeral_head (pointText fraction ++ exponentText exponent) hwhole
  rw [← List.append_assoc] at hhead
  refine cutSign_text negative fun c hc => ?_
  rw [hhead] at hc
  cases hc
  exact ⟨(digitChar_facts d).2.2.1, (digitChar_facts d).2.2.2.1⟩

/-- Folding the case of a numeral keeps its first digit, so it is no name. -/
theorem lower_numeral (fraction : List (Fin 10)) (exponent : Option (Bool × List (Fin 10)))
    (hwhole : whole ≠ []) :
    ∃ (d : Fin 10) (t : Str),
      (digitText whole ++ pointText fraction ++ exponentText exponent).map Char.toLower =
        digitChar d.val :: t := by
  obtain ⟨d, t, hhead⟩ := numeral_head (pointText fraction ++ exponentText exponent) hwhole
  rw [← List.append_assoc] at hhead
  exact ⟨d, t.map Char.toLower, by
    rw [hhead, List.map_cons, (digitChar_facts d).2.2.2.2.2.1]⟩

end Numeral

/-- CORRECT: a printed number is read as that number. -/
theorem readNumber_text {n : NumberText} (h : n.WellFormed) :
    readNumber u n.text = some n.number := by
  cases n with
  | nan => rfl
  | infinity negative => cases negative <;> rfl
  | finite negative whole fraction exponent =>
    obtain ⟨hwhole, hexponent⟩ := h
    obtain ⟨d, t, hname⟩ := lower_numeral fraction exponent hwhole
    obtain ⟨hn, hi⟩ := digitChar_not_name d
    unfold readNumber
    rw [cutSign_numeral hwhole]
    dsimp only
    rw [hname, if_neg, if_neg, readMagnitude_text hwhole hexponent]
    · rfl
    · exact fun heq => hn (List.cons.inj heq).1
    · rintro (heq | heq)
      · exact hi (List.cons.inj heq).1
      · exact hi (List.cons.inj heq).1

/-- A text without blanks at its ends is stripped of nothing. -/
theorem strip_of_ends {s t : Str} {c d : Char} (hs : s = c :: t) (hc : ¬ u.isSpace c)
    (hlast : [d] <:+ s) (hd : ¬ u.isSpace d) : strip u s = s := by
  have hdrop : s.dropWhile u.isSpace = s := by
    rw [hs]
    exact List.dropWhile_cons_of_neg (by simpa using hc)
  obtain ⟨r, hr⟩ := hlast
  rw [strip, hdrop, ← hr]
  exact List.rdropWhile_concat_neg _ _ _ (by simpa using hd)

theorem not_space_of_alphanum {c : Char} (h : c.isAlphanum) : ¬ u.isSpace c :=
  fun hs => u.space_not_word c hs (u.word_ascii c h)

theorem digitChar_alphanum : ∀ d : Fin 10, (digitChar d.val).isAlphanum := by decide

theorem digitText_last {ds : List (Fin 10)} (h : ds ≠ []) :
    ∃ c : Char, c.isAlphanum ∧ [c] <:+ digitText ds := by
  refine ⟨_, digitChar_alphanum (ds.getLast h), digitText ds.dropLast, ?_⟩
  conv_rhs => rw [← List.dropLast_append_getLast h]
  simp [digitText]

/-- A printed number begins with a sign, a digit or a letter. -/
theorem text_head {n : NumberText} (h : n.WellFormed) :
    ∃ (c : Char) (t : Str), n.text = c :: t ∧ (c.isAlphanum ∨ c = '-') := by
  cases n with
  | nan => exact ⟨'N', _, rfl, .inl rfl⟩
  | infinity negative =>
    cases negative
    · exact ⟨'I', _, rfl, .inl rfl⟩
    · exact ⟨'-', _, rfl, .inr rfl⟩
  | finite negative whole fraction exponent =>
    obtain ⟨d, t, hhead⟩ := numeral_head (pointText fraction ++ exponentText exponent) h.1
    cases negative
    · exact ⟨_, t, by simpa [text, signText] using hhead, .inl (digitChar_alphanum d)⟩
    · exact ⟨'-', _, rfl, .inr rfl⟩

/-- A printed number ends with a digit or a letter. -/
theorem text_last {n : NumberText} (h : n.WellFormed) :
    ∃ c : Char, c.isAlphanum ∧ [c] <:+ n.text := by
  cases n with
  | nan => exact ⟨'N', rfl, "Na".toList, rfl⟩
  | infinity negative =>
    exact ⟨'y', rfl, List.IsSuffix.trans ⟨"Infinit".toList, rfl⟩ (List.suffix_append _ _)⟩
  | finite negative whole fraction exponent =>
    obtain ⟨hwhole, hexponent⟩ := h
    have hbody : ∃ c : Char, c.isAlphanum ∧
        [c] <:+ digitText whole ++ pointText fraction ++ exponentText exponent := by
      cases exponent with
      | some e =>
        obtain ⟨c, hc, hlast⟩ := digitText_last (hexponent e rfl)
        exact ⟨c, hc, (hlast.trans (List.suffix_append ['e', _] _)).trans (List.suffix_append _ _)⟩
      | none =>
        rw [exponentText, List.append_nil]
        by_cases hfraction : fraction = []
        · obtain ⟨c, hc, hlast⟩ := digitText_last hwhole
          exact ⟨c, hc, by simpa [pointText, hfraction] using hlast⟩
        · obtain ⟨c, hc, hlast⟩ := digitText_last hfraction
          rw [pointText, if_neg hfraction]
          exact ⟨c, hc, (hlast.trans (List.suffix_append ['.'] _)).trans (List.suffix_append _ _)⟩
    obtain ⟨c, hc, hlast⟩ := hbody
    exact ⟨c, hc, hlast.trans (List.suffix_append _ _)⟩

theorem strip_text {n : NumberText} (h : n.WellFormed) : strip u n.text = n.text := by
  obtain ⟨c, t, hhead, hc⟩ := text_head h
  obtain ⟨d, hd, hlast⟩ := text_last h
  refine strip_of_ends hhead ?_ hlast (not_space_of_alphanum hd)
  rcases hc with hc | rfl
  · exact not_space_of_alphanum hc
  · exact u.sign_not_space _ (.inl rfl)

theorem underscore_not_mem_text (n : NumberText) : '_' ∉ n.text := by
  have hdigits : ∀ ds : List (Fin 10), '_' ∉ digitText ds := by
    intro ds h
    obtain ⟨d, hd⟩ := mem_digitText h
    exact (digitChar_facts d).2.2.2.2.1 hd.symm
  cases n with
  | nan => decide
  | infinity negative => cases negative <;> decide
  | finite negative whole fraction exponent =>
    have hsign : '_' ∉ signText negative := by cases negative <;> decide
    have hfraction : '_' ∉ pointText fraction := by
      unfold pointText
      split_ifs
      · exact List.not_mem_nil
      · simp [hdigits]
    have hexponent : '_' ∉ exponentText exponent := by
      rcases exponent with _ | ⟨negative', ds⟩
      · exact List.not_mem_nil
      · cases negative' <;> simp [exponentText, hdigits]
    simp [text, hsign, hdigits, hfraction, hexponent]

/-- CORRECT: a decimal reads a printed number as that number. -/
theorem pyDecimal_text {n : NumberText} (h : n.WellFormed) :
    pyDecimal u n.text = some n.number := by
  have hfilter : n.text.filter (· ≠ '_') = n.text :=
    List.filter_eq_self.mpr fun c hc => by
      have hne : c ≠ '_' := fun heq => underscore_not_mem_text n (heq ▸ hc)
      simpa using hne
  unfold pyDecimal
  rw [strip_text h, hfilter]
  dsimp only
  split_ifs with hpayload
  · -- only the name of no number begins like one with a payload
    obtain ⟨hname, -⟩ := Bool.and_eq_true_iff.mp hpayload
    have hname := of_decide_eq_true hname
    cases n with
    | nan => rfl
    | infinity negative => cases negative <;> cases hname
    | finite negative whole fraction exponent =>
      obtain ⟨d, t, hlower⟩ := lower_numeral fraction exponent h.1
      rw [cutSign_numeral h.1] at hname
      dsimp only at hname
      rw [hlower] at hname
      exact absurd (List.cons.inj hname).1 (digitChar_not_name d).1
  · exact readNumber_text h

theorem joinDigits_eq_self : ∀ {s : Str} {last : Option Char}, '_' ∉ s →
    joinDigits u last s = some s
  | [], _, _ => rfl
  | c :: cs, last, h => by
    rw [List.mem_cons, not_or] at h
    rw [joinDigits, if_neg (Ne.symm h.1), joinDigits_eq_self h.2]
    rfl

/-- CORRECT: a float reads a printed number as the float nearest to it. -/
theorem pyFloat_text {n : NumberText} (h : n.WellFormed) :
    pyFloat u n.text = some n.number.toFloat := by
  rw [pyFloat, strip_text h, joinDigits_eq_self (underscore_not_mem_text n), Option.bind_some,
    readNumber_text h]
  rfl

end Dpone.Schemes
