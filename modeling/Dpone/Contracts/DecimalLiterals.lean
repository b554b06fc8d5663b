import Dpone.Contracts.PortableScope
import Dpone.Schemes.DecimalText
import Dpone.Schemes.Json
import Dpone.Schemes.Records

/-! Decimal literals of portable scopes.

    A literal is taken if writing the decimal it spells gives the literal back: once in fixed point,
    after `normalize` rounded it to the context, and once as `str` writes it. So canonical texts are
    refused where the context has no room for their digits, and where `str` turns to an exponent. -/

namespace Dpone.Contracts
open Dpone.Schemes NumberText

/-! ### The grammar -/

/-- `0|[1-9][0-9]*`. -/
def wholePattern (s : Str) : Bool := s = ['0'] || (s.all Char.isDigit && s.head?.any (· ≠ '0'))

/-- `(?:\.[0-9]+)?`, a point standing first in what is not empty. -/
def fractionPattern : Str → Bool
  | [] => true
  | _ :: ds => ds ≠ [] && ds.all Char.isDigit

/-- `_DECIMAL_LITERAL.fullmatch(value)`. -/
def decimalLiteral (s : Str) : Bool :=
  wholePattern ((dropMinus s).takeWhile (· ≠ '.')) &&
    fractionPattern ((dropMinus s).dropWhile (· ≠ '.'))

/-! ### The parser -/

section Parser
variable (u : Unicode) (ctx : DecimalContext)

/-- `_canonical_decimal_text`; nothing catches `decimal.Overflow`. -/
def canonicalDecimalText : PyNumber → Except PyError Str
  | .finite negative c e =>
    match ctx.normalize c e with
    | none => .error .overflowError
    | some (m, f) => .ok (if m = 0 then ['0'] else (fixedText negative m f).text)
  | .infinite negative => .ok (NumberText.infinity negative).text
  | .nan => .ok NumberText.nan.text

/-- `str(value)`. -/
def numberStr : PyNumber → Str
  | .finite negative c e => decimalStr negative c e
  | .infinite negative => (NumberText.infinity negative).text
  | .nan => NumberText.nan.text

def notCanonical (canonical : Str) : PyError :=
  blocked "portable_scope.literal.decimal_canonical"
    s!"decimal value must use canonical form '{String.ofList canonical}'"

/-- `_parse_decimal`. -/
def parseDecimal : Json → Except PyError PyNumber
  | .str value =>
    if decimalLiteral value then
      match pyDecimal u value with
      | none => .error (blocked "portable_scope.literal.decimal" "decimal value is invalid")
      | some parsed => do
        let canonical ← canonicalDecimalText ctx parsed
        if value ≠ canonical then throw (notCanonical canonical)
        return parsed
    else .error (blocked "portable_scope.literal.decimal"
      "decimal value must be a finite base-10 string")
  | _ => .error (blocked "portable_scope.literal.decimal"
    "decimal value must be a finite base-10 string")

/-- A `PortableLiteral` of kind `decimal`. -/
structure PortableDecimal where
  value : PyNumber
  finite : value.value.isSome
  canonical : canonicalDecimalText ctx value = .ok (numberStr value)

/-- `PortableLiteral("decimal", value)`. -/
def PortableDecimal.make (value : PyNumber) : Except PyError (PortableDecimal ctx) :=
  if hfinite : value.value.isSome then
    match hcanonical : canonicalDecimalText ctx value with
    | .error e => .error e
    | .ok canonical =>
      if hstr : numberStr value = canonical then .ok ⟨value, hfinite, by rw [hcanonical, hstr]⟩
      else .error (notCanonical canonical)
  else .error (blocked "portable_scope.literal.decimal" "decimal value must be finite Decimal")

/-- `parse_portable_literal` of a literal of type `decimal`. -/
def parsePortableDecimal (value : Json) : Except PyError (PortableDecimal ctx) := do
  PortableDecimal.make ctx (← parseDecimal u ctx value)

end Parser

/-- The parser has room for a text: the context holds its number, and its leading digit does not
    stand further than six places after the point. -/
def Room (ctx : DecimalContext) : NumberText → Prop
  | .finite _ whole fraction _ =>
    ctx.Holds (spelled (whole ++ fraction)) (-(fraction.length : ℤ)) ∧
      fraction.length < Nat.log 10 (spelled (whole ++ fraction)) + 7
  | _ => True

variable {u : Unicode} {ctx : DecimalContext}

/-! ### Texts of the grammar -/

theorem exists_digitChar {c : Char} (h : c.isDigit) : ∃ d < 10, c = digitChar d := by
  have hbounds : 48 ≤ c.toNat ∧ c.toNat ≤ 57 := by
    simpa [Char.isDigit, UInt32.le_iff_toNat_le] using h
  have hc : c = Char.ofNat c.toNat := (Char.ofNat_toNat c).symm
  obtain ⟨d, hd, hvalue⟩ : ∃ d < 10, c.toNat = 48 + d := ⟨c.toNat - 48, by omega, by omega⟩
  have hchar : ∀ d < 10, Char.ofNat (48 + d) = digitChar d := by decide
  exact ⟨d, hd, by rw [hc, hvalue, hchar d hd]⟩

theorem exists_digits {s : Str} (h : s.all Char.isDigit = true) : ∃ ds, s = digitText ds :=
  exists_digitText fun _ hc => exists_digitChar (List.all_eq_true.mp h _ hc)

theorem digits_all (ds : List (Fin 10)) : (digitText ds).all Char.isDigit = true :=
  List.all_eq_true.mpr fun c hc => by
    obtain ⟨d, rfl⟩ := mem_digitText hc
    exact (digitChar_isDigit d.val d.isLt).1

theorem wholePattern_iff {s : Str} :
    wholePattern s = true ↔ ∃ ds, Unpadded ds ∧ s = digitText ds := by
  unfold wholePattern
  rw [Bool.or_eq_true, decide_eq_true_eq, Bool.and_eq_true]
  constructor
  · rintro (rfl | ⟨hdigits, hhead⟩)
    · exact ⟨[0], by decide, rfl⟩
    · obtain ⟨ds, rfl⟩ := exists_digits hdigits
      rcases ds with _ | ⟨d, t⟩
      · cases hhead
      · have hd : digitChar d.val ≠ '0' := of_decide_eq_true hhead
        exact ⟨d :: t, unpadded_cons (fun h => hd (by rw [h]; rfl)) t, rfl⟩
  · rintro ⟨ds, hds, rfl⟩
    rcases unpadded_cases hds with rfl | ⟨d, t, rfl, hd⟩
    · exact .inl rfl
    · have hchar : ∀ d : Fin 10, d ≠ 0 → digitChar d.val ≠ '0' := by decide
      exact .inr ⟨digits_all _, decide_eq_true (hchar d hd)⟩

theorem fractionPattern_point {ds : Str} : fractionPattern ('.' :: ds) = true ↔
    ∃ fraction, '.' :: ds = pointText fraction := by
  rw [fractionPattern, Bool.and_eq_true, decide_eq_true_eq]
  constructor
  · rintro ⟨hne, hdigits⟩
    obtain ⟨fraction, rfl⟩ := exists_digits hdigits
    exact ⟨fraction, by rw [pointText, if_neg (by rintro rfl; exact hne rfl)]⟩
  · rintro ⟨fraction, h⟩
    unfold pointText at h
    split_ifs at h with hempty
    obtain ⟨-, rfl⟩ := List.cons.inj h
    exact ⟨by simpa [digitText] using hempty, digits_all _⟩

/-- The text of a number without an exponent is cut at its point. -/
theorem cut_text (negative : Bool) {whole : List (Fin 10)} (fraction : List (Fin 10))
    (hwhole : whole ≠ []) :
    (dropMinus (NumberText.finite negative whole fraction none).text).takeWhile (· ≠ '.') =
        digitText whole ∧
      (dropMinus (NumberText.finite negative whole fraction none).text).dropWhile (· ≠ '.') =
        pointText fraction := by
  rw [dropMinus_numeral hwhole, exponentText, List.append_nil]
  refine taken_run (fun c hc => ?_) fun c hc => ?_
  · obtain ⟨d, rfl⟩ := mem_digitText hc
    exact decide_eq_true (digitChar_facts d).1
  · unfold pointText at hc
    split_ifs at hc
    · cases hc
    · cases hc
      rfl

/-- CORRECT: the pattern matches the texts of numbers without an exponent and leading zeros. -/
theorem decimalLiteral_iff {s : Str} : decimalLiteral s = true ↔
    ∃ negative whole fraction, Unpadded whole ∧
      s = (NumberText.finite negative whole fraction none).text := by
  constructor
  · intro h
    obtain ⟨hwhole, hfraction⟩ := Bool.and_eq_true_iff.mp h
    obtain ⟨whole, hunpadded, htake⟩ := wholePattern_iff.mp hwhole
    obtain ⟨fraction, hdrop⟩ :
        ∃ fraction, (dropMinus s).dropWhile (· ≠ '.') = pointText fraction := by
      rcases hrest : (dropMinus s).dropWhile (· ≠ '.') with _ | ⟨c, ds⟩
      · exact ⟨[], rfl⟩
      · have hpoint : c = '.' := by
          have := List.head?_dropWhile_not (· ≠ '.') (dropMinus s)
          rw [hrest] at this
          simpa using this
        subst hpoint
        rw [hrest] at hfraction
        exact fractionPattern_point.mp hfraction
    have hbody : dropMinus s = digitText whole ++ pointText fraction := by
      rw [← htake, ← hdrop, List.takeWhile_append_dropWhile]
    obtain ⟨negative, hs⟩ : ∃ negative, s = signText negative ++ dropMinus s := by
      unfold dropMinus
      split
      · exact ⟨true, rfl⟩
      · exact ⟨false, rfl⟩
    exact ⟨negative, whole, fraction, hunpadded, by
      rw [hs, hbody, text, exponentText, List.append_nil]⟩
  · rintro ⟨negative, whole, fraction, hunpadded, rfl⟩
    obtain ⟨htake, hdrop⟩ := cut_text negative fraction hunpadded.1
    rw [decimalLiteral, htake, hdrop, wholePattern_iff.mpr ⟨whole, hunpadded, rfl⟩, Bool.true_and]
    rcases hpoint : pointText fraction with _ | ⟨c, ds⟩
    · rfl
    · have hc : c = '.' := by
        unfold pointText at hpoint
        split_ifs at hpoint
        exact (List.cons.inj hpoint).1.symm
      subst hc
      exact fractionPattern_point.mpr ⟨fraction, hpoint.symm⟩

/-! ### What is taken -/

theorem make_ok {value : PyNumber} {l : PortableDecimal ctx} :
    PortableDecimal.make ctx value = .ok l ↔ l.value = value := by
  unfold PortableDecimal.make
  constructor
  · intro h
    split_ifs at h with hfinite
    split at h
    · cases h
    · split_ifs at h
      cases h
      rfl
  · rintro rfl
    rw [dif_pos l.finite]
    split
    · next e herror =>
      rw [l.canonical] at herror
      cases herror
    · next canonical hcanonical =>
      rw [l.canonical] at hcanonical
      rw [dif_pos (Except.ok.inj hcanonical)]

theorem parseDecimal_ok {value : Json} {parsed : PyNumber} :
    parseDecimal u ctx value = .ok parsed ↔ ∃ s, value = .str s ∧ decimalLiteral s = true ∧
      pyDecimal u s = some parsed ∧ canonicalDecimalText ctx parsed = .ok s := by
  constructor
  · intro h
    unfold parseDecimal at h
    split at h
    · next s =>
      split_ifs at h with hliteral
      split at h
      · cases h
      · next read hread =>
        obtain ⟨canonical, hcanonical, h⟩ := bind_ok.mp h
        by_cases hne : s ≠ canonical
        · rw [if_pos hne] at h
          cases h
        · rw [if_neg hne] at h
          cases h
          exact ⟨s, rfl, hliteral, hread, by rw [hcanonical, not_not.mp hne]⟩
    · cases h
  · rintro ⟨s, rfl, hliteral, hread, hcanonical⟩
    simp only [parseDecimal, hliteral, if_true, hread, hcanonical, ok_bind, ne_eq, not_true,
      if_false]
    rfl

theorem number_of_text_eq {n n' : NumberText} (h : n.WellFormed) (h' : n'.WellFormed)
    (htext : n.text = n'.text) : n.number = n'.number := by
  have hread := readNumber_text (u := Unicode.ascii) h
  rw [htext, readNumber_text h'] at hread
  exact (Option.some.inj hread).symm

theorem number_plain (negative : Bool) (whole fraction : List (Fin 10)) :
    (NumberText.finite negative whole fraction none).number =
      .finite negative (spelled (whole ++ fraction)) (-(fraction.length : ℤ)) := by
  rw [number, exponentValue, zero_sub]

/-- `str` writes no exponent where the text that it writes has none. -/
theorem place_of_str {negative negative' : Bool} {c p : ℕ} {whole fraction : List (Fin 10)}
    (h : decimalStr negative c (-(p : ℤ)) =
      (NumberText.finite negative' whole fraction none).text) : p < Nat.log 10 c + 7 := by
  unfold decimalStr at h
  simp only [length_digitsOf] at h
  by_contra hsmall
  rw [if_neg (by omega)] at h
  have hmem : 'E' ∈ (NumberText.finite negative' whole fraction none).text := by
    rw [← h]
    exact List.mem_append_right _ (List.mem_cons_self ..)
  rw [text, exponentText, List.append_nil] at hmem
  rcases List.mem_append.mp hmem with hsign | hdigits
  · cases negative'
    · cases hsign
    · exact absurd (List.mem_singleton.mp hsign) (by decide)
  · rcases mantissa_chars hdigits with hpoint | ⟨d, hd⟩
    · exact absurd hpoint (by decide)
    · have hletter : ∀ d : Fin 10, 'E' ≠ digitChar d.val := by decide
      exact hletter d hd

theorem str_of_place {negative : Bool} {c p : ℕ} (h : p < Nat.log 10 c + 7) :
    decimalStr negative c (-(p : ℤ)) = (fixedText negative c (-(p : ℤ))).text := by
  unfold decimalStr
  simp only [length_digitsOf]
  exact if_pos (by omega)

/-- Zero has one canonical text. -/
theorem canonical_zero {negative : Bool} {whole fraction : List (Fin 10)}
    (h : (NumberText.finite negative whole fraction none).Canonical)
    (hzero : spelled (whole ++ fraction) = 0) : negative = false ∧ whole = [0] ∧ fraction = [] := by
  obtain ⟨hwhole, hlast, hsign⟩ := h
  have hsum := hzero
  rw [spelled_append] at hsum
  have hpos : 0 < 10 ^ fraction.length := Nat.pow_pos (by decide)
  have hnil : fraction = [] := by
    by_contra hne
    have hmod := last_mod_ten hne hlast
    omega
  subst hnil
  refine ⟨?_, unpadded_zero hwhole (by simpa using hzero), rfl⟩
  by_contra hneg
  exact hsign (by simpa using hneg) hzero

/-- STEP: the number of a canonical text that there is room for is written as that text, twice. -/
theorem written_back {negative : Bool} {whole fraction : List (Fin 10)}
    (h : (NumberText.finite negative whole fraction none).Canonical)
    (hroom : Room ctx (.finite negative whole fraction none)) :
    canonicalDecimalText ctx (NumberText.finite negative whole fraction none).number =
        .ok (NumberText.finite negative whole fraction none).text ∧
      numberStr (NumberText.finite negative whole fraction none).number =
        (NumberText.finite negative whole fraction none).text := by
  obtain ⟨hholds, hplace⟩ := hroom
  rw [number_plain]
  by_cases hzero : spelled (whole ++ fraction) = 0
  · obtain ⟨rfl, rfl, rfl⟩ := canonical_zero h hzero
    have hdigits : digitsOf 0 = [0] := by
      rw [digitsOf, Nat.log_zero_right]
      rfl
    refine ⟨?_, ?_⟩
    · rw [hzero]
      rfl
    · rw [numberStr, hzero]
      simp only [decimalStr, fixedText, hdigits]
      rfl
  · constructor
    · obtain ⟨m, k, hnormal, hvalue, hend⟩ := DecimalContext.normalize_of_holds hzero hholds
      have hm : m ≠ 0 := by
        rintro rfl
        exact hzero (by simpa using hvalue)
      have hexponent : -(fraction.length : ℤ) + k = k - fraction.length := by ring
      rw [hexponent] at hnormal hend
      have hmax := ctx.emax_nonneg
      simp only [canonicalDecimalText, hnormal, if_neg hm]
      rw [fixedText_eq h hm hvalue (hend.imp_right (by omega))]
    · rw [numberStr, str_of_place hplace]
      have hend : spelled (whole ++ fraction) % 10 ≠ 0 ∨ 0 ≤ ((0 : ℕ) : ℤ) - fraction.length := by
        by_cases hnil : fraction = []
        · rw [hnil]
          exact .inr (by simp)
        · refine .inl (last_mod_ten (List.append_ne_nil_of_right_ne_nil whole hnil) ?_)
          rw [List.getLast?_append_of_ne_nil _ hnil]
          exact h.2.1
      have hfixed := fixedText_eq h hzero (k := 0) (by rw [pow_zero, Nat.mul_one]) hend
      rw [Nat.cast_zero, zero_sub] at hfixed
      rw [hfixed]

/-- STEP: a text that the parser writes back is canonical, and there is room for it. -/
theorem room_of_written_back {negative : Bool} {whole fraction : List (Fin 10)}
    (hwhole : Unpadded whole)
    (hcanonical : canonicalDecimalText ctx (NumberText.finite negative whole fraction none).number =
      .ok (NumberText.finite negative whole fraction none).text)
    (hstr : numberStr (NumberText.finite negative whole fraction none).number =
      (NumberText.finite negative whole fraction none).text) :
    ∃ n : NumberText, n.Canonical ∧ (NumberText.finite negative whole fraction none).text = n.text ∧
      Room ctx n ∧ (NumberText.finite negative whole fraction none).number = n.number := by
  have hwritten : (NumberText.finite negative whole fraction none).WellFormed :=
    wellFormed_plain hwhole.1
  have hzeroText : (NumberText.finite false [0] [] none).text = ['0'] := rfl
  have hzeroCanonical : (NumberText.finite false [0] [] none).Canonical :=
    ⟨by decide, nofun, nofun⟩
  rw [number_plain] at hcanonical hstr
  rw [numberStr] at hstr
  have hplace := place_of_str hstr
  by_cases hzero : spelled (whole ++ fraction) = 0
  · have htext : (NumberText.finite negative whole fraction none).text = ['0'] := by
      rw [hzero] at hcanonical
      exact (Except.ok.inj hcanonical).symm
    refine ⟨_, hzeroCanonical, htext, ⟨.inl rfl, by decide⟩, ?_⟩
    exact number_of_text_eq hwritten (canonical_wellFormed hzeroCanonical) htext
  · rcases hnormal : ctx.normalize (spelled (whole ++ fraction)) (-(fraction.length : ℤ)) with
      _ | ⟨m, f⟩
    · simp only [canonicalDecimalText, hnormal] at hcanonical
      cases hcanonical
    simp only [canonicalDecimalText, hnormal] at hcanonical
    have htext := (Except.ok.inj hcanonical).symm
    by_cases hm : m = 0
    · rw [if_pos hm] at htext
      have hnumber := number_of_text_eq hwritten (canonical_wellFormed hzeroCanonical) htext
      rw [number_plain, number_plain] at hnumber
      exact absurd (PyNumber.finite.inj hnumber).2.1 hzero
    · rw [if_neg hm] at htext
      obtain ⟨hle, hholds, hend⟩ := DecimalContext.holds_of_normalize hzero hnormal hm
      have hmax := ctx.emax_nonneg
      have hfixed := fixedText_canonical negative hm (hend.imp_right hmax.trans)
      have hnumber := number_of_text_eq hwritten (canonical_wellFormed hfixed) htext
      obtain ⟨hspelled, hplaces⟩ := pointed_spec (digitsOf m) f
      refine ⟨fixedText negative m f, hfixed, htext, ?_, hnumber⟩
      rw [fixedText, number_plain, number_plain] at hnumber
      obtain ⟨-, hcoefficient, hexponent⟩ := PyNumber.finite.inj hnumber
      rw [fixedText, Room, ← hcoefficient, ← hexponent]
      rw [hspelled, spelled_digitsOf] at hcoefficient
      refine ⟨hholds ?_, ?_⟩
      · rw [hcoefficient]
        congr 2
        omega
      · have hlen : fraction.length = (pointed (digitsOf m) f).2.length := by omega
        rw [← hlen]
        exact hplace

/-- CORRECT: a text is taken if and only if it is canonical and there is room for it, and it is
    taken for the number that it prints. -/
theorem parsePortableDecimal_ok {value : Json} {l : PortableDecimal ctx} :
    parsePortableDecimal u ctx value = .ok l ↔
      ∃ n : NumberText, n.Canonical ∧ value = .str n.text ∧ Room ctx n ∧ l.value = n.number := by
  unfold parsePortableDecimal
  rw [bind_ok]
  constructor
  · rintro ⟨parsed, hparsed, hmake⟩
    obtain ⟨s, rfl, hliteral, hread, hcanonical⟩ := parseDecimal_ok.mp hparsed
    obtain ⟨negative, whole, fraction, hwhole, rfl⟩ := decimalLiteral_iff.mp hliteral
    rw [pyDecimal_text (wellFormed_plain hwhole.1)] at hread
    cases hread
    have hvalue := make_ok.mp hmake
    have hstr := l.canonical
    rw [hvalue, hcanonical] at hstr
    obtain ⟨n, hn, htext, hroom, hnumber⟩ :=
      room_of_written_back hwhole hcanonical (Except.ok.inj hstr).symm
    exact ⟨n, hn, by rw [htext], hroom, by rw [hvalue, hnumber]⟩
  · rintro ⟨n, hn, rfl, hroom, hvalue⟩
    refine ⟨n.number, parseDecimal_ok.mpr ?_, make_ok.mpr hvalue⟩
    refine ⟨n.text, rfl, ?_, pyDecimal_text (canonical_wellFormed hn), ?_⟩
    all_goals rcases n with ⟨negative, whole, fraction, _ | _⟩ | _ | _
    · exact decimalLiteral_iff.mpr ⟨negative, whole, fraction, hn.1, rfl⟩
    any_goals exact hn.elim
    exact (written_back hn hroom).1

/-- Canonical texts of the same characters are of the same number, and of the same room. -/
theorem room_of_text {n n' : NumberText} (h : n.Canonical) (h' : n'.Canonical)
    (htext : n.text = n'.text) (hroom : Room ctx n) : Room ctx n' := by
  have hnumber := number_of_text_eq (canonical_wellFormed h) (canonical_wellFormed h') htext
  rcases n with ⟨negative, whole, fraction, _ | _⟩ | _ | _
  any_goals exact h.elim
  rcases n' with ⟨negative', whole', fraction', _ | _⟩ | _ | _
  any_goals exact h'.elim
  rw [number_plain, number_plain] at hnumber
  obtain ⟨-, hcoefficient, hexponent⟩ := PyNumber.finite.inj hnumber
  have hlen : fraction.length = fraction'.length := by omega
  rw [Room, hcoefficient, hlen] at hroom
  exact hroom

/-- The canonical texts are taken and nothing else is, each for the number that it writes. -/
def ReadsExactly (u : Unicode) (ctx : DecimalContext) (value : Json) : Prop :=
  ((∃ l, parsePortableDecimal u ctx value = .ok l) ↔
      ∃ n : NumberText, n.Canonical ∧ value = .str n.text) ∧
    ∀ l (n : NumberText), parsePortableDecimal u ctx value = .ok l → n.Canonical →
      value = .str n.text → l.value.value = n.written

theorem json_text {n n' : NumberText} (h : Json.str n.text = .str n'.text) : n.text = n'.text :=
  Json.str.inj h

/-- CORRECT: the parser takes exactly the canonical decimals, and for exactly the numbers that they
    write, if and only if it has room for the text when that is canonical. -/
theorem portable_decimals_iff (u : Unicode) (ctx : DecimalContext) (value : Json) :
    ReadsExactly u ctx value ↔
      ∀ n : NumberText, n.Canonical → value = .str n.text → Room ctx n := by
  constructor
  · rintro ⟨htaken, -⟩ n hn rfl
    obtain ⟨l, hl⟩ := htaken.mpr ⟨n, hn, rfl⟩
    obtain ⟨n', hn', htext, hroom, -⟩ := parsePortableDecimal_ok.mp hl
    exact room_of_text hn' hn (json_text htext).symm hroom
  · intro hroom
    refine ⟨⟨?_, ?_⟩, ?_⟩
    · rintro ⟨l, hl⟩
      obtain ⟨n, hn, htext, -⟩ := parsePortableDecimal_ok.mp hl
      exact ⟨n, hn, htext⟩
    · rintro ⟨n, hn, rfl⟩
      obtain ⟨hcanonical, hstr⟩ : canonicalDecimalText ctx n.number = .ok n.text ∧
          numberStr n.number = n.text := by
        rcases n with ⟨negative, whole, fraction, _ | _⟩ | _ | _
        any_goals exact hn.elim
        exact written_back hn (hroom _ hn rfl)
      have hfinite : n.number.value.isSome := by
        rcases n with ⟨negative, whole, fraction, _ | _⟩ | _ | _
        any_goals exact hn.elim
        rfl
      exact ⟨⟨n.number, hfinite, by rw [hcanonical, hstr]⟩,
        parsePortableDecimal_ok.mpr ⟨n, hn, rfl, hroom n hn rfl, rfl⟩⟩
    · rintro l n hl hn rfl
      obtain ⟨n', hn', htext, -, hvalue⟩ := parsePortableDecimal_ok.mp hl
      rw [hvalue, number_of_text_eq (canonical_wellFormed hn') (canonical_wellFormed hn)
        (json_text htext).symm, number_value hn]

/-- `0.0000001`, which `str` writes as `1E-7`, and a number of twenty-nine digits are refused. -/
theorem small_and_long_decimals_refused :
    ¬ ReadsExactly Unicode.ascii .default (.str "0.0000001".toList) ∧
      ¬ ReadsExactly Unicode.ascii .default (.str "12345678901234567890123456789".toList) := by
  have hrefused : ∀ n : NumberText, n.Canonical → ¬ Room .default n →
      ¬ ReadsExactly Unicode.ascii .default (.str n.text) := by
    rintro n hn hroom ⟨htaken, -⟩
    obtain ⟨l, hl⟩ := htaken.mpr ⟨n, hn, rfl⟩
    obtain ⟨n', hn', htext, hroom', -⟩ := parsePortableDecimal_ok.mp hl
    exact hroom (room_of_text hn' hn (json_text htext).symm hroom')
  constructor
  · refine hrefused (.finite false [0] [0, 0, 0, 0, 0, 0, 1] none)
      ⟨by decide, by decide, fun _ h => by cases h⟩ ?_
    rintro ⟨-, hplace⟩
    simp [spelled] at hplace
  · refine hrefused (.finite false
      [1, 2, 3, 4, 5, 6, 7, 8, 9, 0, 1, 2, 3, 4, 5, 6, 7, 8, 9, 0, 1, 2, 3, 4, 5, 6, 7, 8, 9] []
      none) ⟨by decide, by decide, fun _ h => by cases h⟩ ?_
    rintro ⟨hzero | ⟨-, m, k, hvalue, hm, -⟩, -⟩
    · simp [spelled] at hzero
    · -- the last digit is not a zero, so no digit is dropped
      rcases k with _ | k
      · rw [pow_zero, Nat.mul_one] at hvalue
        rw [← hvalue] at hm
        simp [spelled, DecimalContext.default] at hm
      · rw [pow_succ, ← Nat.mul_assoc] at hvalue
        simp only [spelled, List.append_nil, List.foldl_cons, List.foldl_nil] at hvalue
        omega

end Dpone.Contracts
