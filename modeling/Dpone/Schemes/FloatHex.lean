import Dpone.Schemes.DecimalFloat
import Dpone.Schemes.Delimited
import Dpone.Schemes.NumberText

/-! Floats as hexadecimal texts. LOSSLESS: the text of a float that is a number is read back as the
    same pattern, sign of zero included. -/

namespace Dpone.Schemes

/-! ### Patterns and magnitudes -/

/-- A significand of full width, or the unit for a smaller one, tells its power of two. -/
theorem normal_unique {q t q' t' : ℕ} (hq : q < 2 ^ 53) (hnormal : t = 0 ∨ 2 ^ 52 ≤ q)
    (hq' : q' < 2 ^ 53) (hnormal' : t' = 0 ∨ 2 ^ 52 ≤ q') (h : q * 2 ^ t = q' * 2 ^ t') :
    q = q' ∧ t = t' := by
  have hle : ∀ {q t q' t' : ℕ}, q < 2 ^ 53 → (t' = 0 ∨ 2 ^ 52 ≤ q') →
      q * 2 ^ t = q' * 2 ^ t' → t' ≤ t := by
    intro q t q' t' hq hnormal' h
    by_contra hlt
    obtain ⟨s, rfl⟩ : ∃ s, t' = t + (s + 1) := ⟨t' - t - 1, by omega⟩
    have hpos : 0 < 2 ^ t := Nat.two_pow_pos t
    have hscaled : q = q' * (2 ^ s * 2) := by
      refine Nat.eq_of_mul_eq_mul_right hpos ?_
      rw [h, pow_add, pow_succ]
      ring
    have hone : 1 ≤ 2 ^ s := Nat.one_le_two_pow
    have hgrow : q' * 2 ≤ q' * (2 ^ s * 2) := Nat.mul_le_mul_left _ (by omega)
    omega
  obtain rfl : t = t' := le_antisymm (hle hq' hnormal h.symm) (hle hq hnormal' h)
  exact ⟨Nat.eq_of_mul_eq_mul_right (Nat.two_pow_pos t) h, rfl⟩

/-- The number of units that a finite double is, is packed as the double. -/
theorem nearest_magnitude {bits : ℕ} (h : double.finite bits) {d : ℕ} (hd : 0 < d) :
    double.nearest (double.magnitude bits * d) d = some (bits % 2 ^ 63) := by
  obtain ⟨hq, hnormal, hsum, hlt⟩ := double.significand_bounds h
  have ht : (double.significand bits).2 ≤ 2045 := by
    have hbits : bits % 2 ^ (double.fraction + double.exponent) < 2047 * 2 ^ 52 := hlt
    rw [← hsum] at hbits
    have hfull : (double.significand bits).2 = 0 ∨ 2 ^ 52 ≤ (double.significand bits).1 := hnormal
    have hexp : (double.significand bits).2 * 2 ^ 52 + (double.significand bits).1 <
        2047 * 2 ^ 52 := hbits
    omega
  have hroom : (double.significand bits).2 * 2 ^ double.fraction + 2 ^ (double.fraction + 1) ≤
      (2 ^ double.exponent - 1) * 2 ^ double.fraction := by
    show (double.significand bits).2 * 2 ^ 52 + 2 ^ 53 ≤ 2047 * 2 ^ 52
    omega
  obtain ⟨q', t', hq', hnormal', hsame, -, hnearest⟩ := double.nearest_exact hd hq hroom
  obtain ⟨rfl, rfl⟩ := normal_unique hq' hnormal' hq hnormal hsame
  rw [Binary.magnitude, hnearest, hsum]
  rfl

theorem withSign_negative (bits : PyFloat) :
    withSign double (double.negative bits.val) (bits.val % 2 ^ 63) = bits.val := by
  have hlt := bits.property
  have hsign : double.negative bits.val = decide (bits.val / 2 ^ 63 % 2 = 1) := rfl
  rw [withSign, hsign]
  show (if decide (bits.val / 2 ^ 63 % 2 = 1) = true then 2 ^ 63 else 0) + bits.val % 2 ^ 63 = _
  split_ifs with h
  · have h' := of_decide_eq_true h
    omega
  · have h' : ¬ bits.val / 2 ^ 63 % 2 = 1 := fun heq => h (decide_eq_true heq)
    omega
/-! ### Hexadecimal texts -/

/-- The exponent of a finite float as it is written, a power of two. -/
def hexExponent (f : PyFloat) : ℤ :=
  if double.exponentField f.val = 0 then -1022 else double.exponentField f.val - 1023

def hexMantissa (f : PyFloat) : Str :=
  (if double.exponentField f.val = 0 then '0' else '1') :: '.' ::
    numeral 16 13 (double.fractionField f.val)

/-- The text without its sign. -/
def hexMagnitudeText (f : PyFloat) : Str :=
  if double.magnitude f.val = 0 then "0x0.0p+0".toList
  else '0' :: 'x' :: (hexMantissa f ++ 'p' :: (if hexExponent f < 0 then '-' else '+') ::
    decimalText (hexExponent f).natAbs)

/-- `value.hex()`. -/
def floatHex (f : PyFloat) : Str :=
  if double.finite f.val then
    (if double.negative f.val then ['-'] else []) ++ hexMagnitudeText f
  else if double.fractionField f.val ≠ 0 then "nan".toList
  else if double.negative f.val then "-inf".toList
  else "inf".toList

/-- The digits of a mantissa, and how many of them stand after the point. -/
def readHexMantissa (s : Str) : Option (ℕ × ℕ) :=
  let whole := s.takeWhile (· ≠ '.')
  let fraction := (s.dropWhile (· ≠ '.')).drop 1
  if whole ++ fraction = [] then none
  else (numeralValue 16 (whole ++ fraction)).map fun n => (n, fraction.length)

/-- The exponent from its letter on, zero where there is none. -/
def readHexExponent : Str → Option ℤ
  | [] => some 0
  | _ :: s =>
    if (cutSign s).2 = [] then none
    else (decimalValue (cutSign s).2).map fun n : ℕ => if (cutSign s).1 then -(n : ℤ) else (n : ℤ)

def exponentMark (c : Char) : Bool := c = 'p' || c = 'P'

/-- An optional prefix. -/
def cutHexPrefix : Str → Str
  | '0' :: 'x' :: s => s
  | '0' :: 'X' :: s => s
  | s => s

/-- The float nearest to a number of a power of two. -/
def scaledFloat (negative : Bool) (n : ℕ) (shift : ℤ) : Except PyError PyFloat :=
  let bits := nearestBits (n * 2 ^ shift.toNat) (2 ^ (-shift).toNat)
  if bits = infinityBits then .error .overflowError
  else .ok ⟨withSign double negative bits, withSign_lt (nearestBits_lt _ _)⟩

/-- `float.fromhex(text)`. -/
def ofFloatHex (s : Str) : Except PyError PyFloat :=
  let t := (s.dropWhile cSpace).rdropWhile cSpace
  let (negative, body) := cutSign t
  let name := body.map Char.toLower
  if name = "inf".toList ∨ name = "infinity".toList then .ok (PyNumber.infinite negative).toFloat
  else if name = "nan".toList then .ok PyNumber.nan.toFloat
  else
    let digits := cutHexPrefix body
    match readHexMantissa (digits.takeWhile fun c => !exponentMark c),
        readHexExponent (digits.dropWhile fun c => !exponentMark c) with
    | some (n, places), some exponent => scaledFloat negative n (exponent - 4 * places)
    | _, _ => .error (.valueError "invalid hexadecimal floating-point string")

/-! ### Round trip -/

/-- The first digit of a numeral. -/
theorem numeral_succ_eq_cons {b : ℕ} : ∀ w n : ℕ,
    numeral b (w + 1) n = digitChar (n / b ^ w % b) :: numeral b w n
  | 0, n => by simp [numeral]
  | w + 1, n => by
    rw [numeral, numeral_succ_eq_cons w, Nat.div_div_eq_div_mul, ← pow_succ', List.cons_append]
    rfl

/-- The significand of a finite float as fourteen digits. -/
theorem hexSignificand (f : PyFloat) :
    (if double.exponentField f.val = 0 then '0' else '1') ::
        numeral 16 13 (double.fractionField f.val) =
      numeral 16 14 (double.significand f.val).1 ∧
    (double.significand f.val).1 < 16 ^ 14 := by
  have hfraction : double.fractionField f.val < 2 ^ 52 := Nat.mod_lt _ (Nat.two_pow_pos 52)
  have hsame : ∀ w n : ℕ, numeral 16 w (16 ^ w + n) = numeral 16 w n := by
    intro w
    induction w with
    | zero => exact fun n => rfl
    | succ w ih =>
      intro n
      have hdiv : (16 ^ (w + 1) + n) / 16 = 16 ^ w + n / 16 := by rw [pow_succ]; omega
      have hmod : (16 ^ (w + 1) + n) % 16 = n % 16 := by rw [pow_succ]; omega
      rw [numeral, numeral, hdiv, hmod, ih]
  rw [Binary.significand]
  split_ifs with hzero
  · dsimp only
    refine ⟨?_, by omega⟩
    have htop : double.fractionField f.val / 16 ^ 13 = 0 := Nat.div_eq_of_lt (by omega)
    rw [numeral_succ_eq_cons 13 (double.fractionField f.val), htop]
    rfl
  · have hfull : 2 ^ double.fraction + double.fractionField f.val =
        16 ^ 13 + double.fractionField f.val := rfl
    have htop : (16 ^ 13 + double.fractionField f.val) / 16 ^ 13 = 1 := by omega
    dsimp only
    rw [hfull, numeral_succ_eq_cons 13 (16 ^ 13 + double.fractionField f.val), hsame, htop]
    exact ⟨rfl, by omega⟩

theorem digitChar_unmarked : ∀ d < 16, digitChar d ≠ '.' ∧ exponentMark (digitChar d) = false ∧
    cSpace (digitChar d) = false := by decide

/-- The mantissa is read as the significand. -/
theorem readHexMantissa_hexMantissa (f : PyFloat) :
    readHexMantissa (hexMantissa f) = some ((double.significand f.val).1, 13) := by
  obtain ⟨hdigits, hlt⟩ := hexSignificand f
  have hlead : (if double.exponentField f.val = 0 then '0' else '1') ≠ '.' := by
    split_ifs <;> decide
  have hwhole : (hexMantissa f).takeWhile (· ≠ '.') =
      [if double.exponentField f.val = 0 then '0' else '1'] := by
    simp [hexMantissa, hlead]
  have hfraction : ((hexMantissa f).dropWhile (· ≠ '.')).drop 1 =
      numeral 16 13 (double.fractionField f.val) := by
    simp [hexMantissa, hlead]
  rw [readHexMantissa, hwhole, hfraction, List.singleton_append, if_neg (List.cons_ne_nil _ _),
    hdigits, numeralValue_numeral (by decide) (by decide) 14 _ hlt, numeral_length]
  rfl

theorem hexMantissa_unmarked (f : PyFloat) : ∀ c ∈ hexMantissa f, exponentMark c = false := by
  intro c hc
  rcases List.mem_cons.mp hc with rfl | hc
  · split_ifs <;> decide
  · rcases List.mem_cons.mp hc with rfl | hc
    · decide
    · obtain ⟨d, hd, rfl⟩ := mem_numeral_of_base (by decide) _ _ hc
      exact (digitChar_unmarked d hd).2.1

theorem readHexExponent_text (n : ℤ) :
    readHexExponent ('p' :: (if n < 0 then '-' else '+') :: decimalText n.natAbs) = some n := by
  have hne := decimalText_ne_nil n.natAbs
  by_cases hneg : n < 0
  · rw [if_pos hneg, readHexExponent, cutSign]
    dsimp only
    rw [if_neg hne, decimalValue_decimalText, Option.map_some, if_pos rfl]
    exact congrArg some (by omega)
  · rw [if_neg hneg, readHexExponent, cutSign]
    dsimp only
    rw [if_neg hne, decimalValue_decimalText, Option.map_some, if_neg (by decide)]
    exact congrArg some (by omega)

/-- A significand at its exponent is the float, on either side of the point. -/
theorem scaledFloat_significand {f : PyFloat} (h : double.finite f.val) {n : ℕ} {shift : ℤ}
    (hscaled : n * 2 ^ shift.toNat * unitsPerOne = double.magnitude f.val * 2 ^ (-shift).toNat) :
    scaledFloat (double.negative f.val) n shift = .ok f := by
  have hnearest := nearest_magnitude h (Nat.two_pow_pos (-shift).toNat)
  have hbits : nearestBits (n * 2 ^ shift.toNat) (2 ^ (-shift).toNat) = f.val % 2 ^ 63 := by
    rw [nearestBits, hscaled, hnearest, Option.getD_some]
  have hlt : f.val % 2 ^ 63 ≠ infinityBits := (double.nearest_lt hnearest).ne
  simp only [scaledFloat, hbits, if_neg hlt]
  exact congrArg Except.ok (Subtype.ext (withSign_negative f))

theorem significand_scaled (f : PyFloat) :
    (double.significand f.val).1 * 2 ^ (hexExponent f - 52).toNat * unitsPerOne =
      double.magnitude f.val * 2 ^ (-(hexExponent f - 52)).toNat := by
  have hshift : (hexExponent f - 52).toNat + 1074 =
      (double.significand f.val).2 + (-(hexExponent f - 52)).toNat := by
    have hfield : double.exponentField f.val < 2 ^ 11 := Nat.mod_lt _ (Nat.two_pow_pos 11)
    rw [hexExponent, Binary.significand]
    split_ifs with hzero
    · dsimp only
      omega
    · dsimp only
      omega
  rw [Binary.magnitude, unitsPerOne, mul_assoc, mul_assoc, ← pow_add, ← pow_add, hshift]

/-- A text between characters that are no blanks is stripped of nothing. -/
theorem stripped_eq_self {s : Str} {c d : Char} (hc : s.head? = some c) (hd : s.getLast? = some d)
    (hcs : cSpace c = false) (hds : cSpace d = false) :
    (s.dropWhile cSpace).rdropWhile cSpace = s := by
  obtain ⟨t, rfl⟩ := List.head?_eq_some_iff.mp hc
  rw [List.dropWhile_cons_of_neg (by simp [hcs]), List.rdropWhile_eq_self_iff]
  intro hne
  rw [List.getLast?_eq_some_getLast hne] at hd
  rw [Option.some.inj hd, hds]
  decide

/-- The text without its sign is a prefix, a mantissa and an exponent that spell the float. -/
theorem hexMagnitudeText_parts {f : PyFloat} (h : double.finite f.val) :
    ∃ mantissa exponent n places e, hexMagnitudeText f = '0' :: 'x' :: (mantissa ++ exponent) ∧
      (∀ c ∈ mantissa, exponentMark c = false) ∧ (∃ t, exponent = 'p' :: t) ∧
      readHexMantissa mantissa = some (n, places) ∧ readHexExponent exponent = some e ∧
      (∃ d < 10, exponent.getLast? = some (digitChar d)) ∧
      scaledFloat (double.negative f.val) n (e - 4 * places) = .ok f := by
  unfold hexMagnitudeText
  by_cases hzero : double.magnitude f.val = 0
  · rw [if_pos hzero]
    have hunmarked : "0.0".toList.all (fun c => !exponentMark c) = true := rfl
    refine ⟨"0.0".toList, "p+0".toList, 0, 1, 0, rfl,
      fun c hc => by simpa using List.all_eq_true.mp hunmarked c hc, ⟨_, rfl⟩, rfl, rfl,
      ⟨0, by decide, rfl⟩, scaledFloat_significand h ?_⟩
    rw [hzero]
    simp
  · rw [if_neg hzero]
    refine ⟨hexMantissa f, _, _, _, hexExponent f, rfl, hexMantissa_unmarked f, ⟨_, rfl⟩,
      readHexMantissa_hexMantissa f, readHexExponent_text _, ?_, ?_⟩
    · refine ⟨(hexExponent f).natAbs % 10, Nat.mod_lt _ (by decide), ?_⟩
      rw [decimalText, numeral]
      simp [List.getLast?_cons, List.getLast?_append]
    · exact scaledFloat_significand h (significand_scaled f)

/-- LOSSLESS: a finite float is read back from its hexadecimal text, sign of zero included. -/
theorem ofFloatHex_floatHex {f : PyFloat} (h : double.finite f.val) :
    ofFloatHex (floatHex f) = .ok f := by
  obtain ⟨mantissa, exponent, n, places, e, htext, hunmarked, ⟨t, ht⟩, hmantissa, hexponent,
    ⟨d, hd, hlast⟩, hscaled⟩ := hexMagnitudeText_parts h
  have hfloat : floatHex f = (if double.negative f.val then ['-'] else []) ++
      '0' :: 'x' :: (mantissa ++ exponent) := by
    rw [floatHex, if_pos h, htext]
  have hstrip : ((floatHex f).dropWhile cSpace).rdropWhile cSpace = floatHex f := by
    have hend : (floatHex f).getLast? = some (digitChar d) := by
      rw [hfloat, List.getLast?_append, List.getLast?_cons, List.getLast?_cons,
        List.getLast?_append, hlast]
      rfl
    have hplain := (digitChar_unmarked d (by omega)).2.2
    cases hneg : double.negative f.val
    · exact stripped_eq_self (c := '0') (by rw [hfloat, hneg]; rfl) hend rfl hplain
    · exact stripped_eq_self (c := '-') (by rw [hfloat, hneg]; rfl) hend rfl hplain
  have hsign : cutSign (floatHex f) =
      (double.negative f.val, '0' :: 'x' :: (mantissa ++ exponent)) := by
    rw [hfloat]
    cases double.negative f.val <;> rfl
  have htake : (mantissa ++ exponent).takeWhile (fun c => !exponentMark c) = mantissa ∧
      (mantissa ++ exponent).dropWhile (fun c => !exponentMark c) = exponent := by
    have hall : ∀ c ∈ mantissa, (!exponentMark c) = true := fun c hc => by
      rw [hunmarked c hc]
      rfl
    rw [List.takeWhile_append_of_pos hall, List.dropWhile_append_of_pos hall, ht]
    simp [exponentMark]
  have hname : ∀ word : Str, word.head? ≠ some '0' →
      ('0' :: 'x' :: (mantissa ++ exponent)).map Char.toLower ≠ word := by
    rintro word hword rfl
    exact hword rfl
  rw [ofFloatHex, hstrip, hsign]
  dsimp only
  rw [if_neg (not_or.mpr ⟨hname _ (by decide), hname _ (by decide)⟩), if_neg (hname _ (by decide)),
    show cutHexPrefix ('0' :: 'x' :: (mantissa ++ exponent)) = mantissa ++ exponent from rfl,
    htake.1, htake.2, hmantissa, hexponent]
  exact hscaled

/-- A float that the reader of hexadecimal texts may return. -/
def HexRead (f : PyFloat) : Prop :=
  double.finite f.val ∨ f = (PyNumber.infinite false).toFloat ∨
    f = (PyNumber.infinite true).toFloat ∨ f = PyNumber.nan.toFloat

theorem finite_withSign {negative : Bool} {bits : ℕ} (h : bits < infinityBits) :
    double.finite (withSign double negative bits) = true := by
  have hlt : bits < 2047 * 2 ^ 52 := h
  have hfield : (withSign double negative bits) / 2 ^ 52 % 2 ^ 11 ≠ 2047 := by
    show ((if negative then 2 ^ 63 else 0) + bits) / 2 ^ 52 % 2 ^ 11 ≠ 2047
    cases negative
    · rw [if_neg (by decide)]
      omega
    · rw [if_pos rfl]
      omega
  exact decide_eq_true hfield

theorem nearestBits_le (n d : ℕ) : nearestBits n d ≤ infinityBits := by
  unfold nearestBits
  cases hnearest : double.nearest (n * unitsPerOne) d with
  | none => exact le_rfl
  | some bits => exact (double.nearest_lt hnearest).le

/-- A finite float and what the reader makes of the special texts. -/
theorem ofFloatHex_read {s : Str} {f : PyFloat} (h : ofFloatHex s = .ok f) : HexRead f := by
  unfold ofFloatHex at h
  dsimp only at h
  split_ifs at h with hinf hnan
  · cases h
    cases (cutSign ((s.dropWhile cSpace).rdropWhile cSpace)).1
    · exact .inr (.inl rfl)
    · exact .inr (.inr (.inl rfl))
  · cases h
    exact .inr (.inr (.inr rfl))
  · split at h
    · next n places e hmantissa hexponent =>
      unfold scaledFloat at h
      dsimp only at h
      split_ifs at h with hover
      obtain rfl := Except.ok.inj h
      exact .inl (finite_withSign (lt_of_le_of_ne (nearestBits_le _ _) hover))
    · cases h

/-- LOSSLESS: what was read from a hexadecimal text is read back from its own. -/
theorem ofFloatHex_again {f : PyFloat} (h : HexRead f) : ofFloatHex (floatHex f) = .ok f := by
  rcases h with h | rfl | rfl | rfl
  · exact ofFloatHex_floatHex h
  · rfl
  · rfl
  · rfl

end Dpone.Schemes
