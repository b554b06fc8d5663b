import Dpone.NativeWire.Decoder
import Dpone.Schemes.DecimalContext
import Dpone.Schemes.Literals

/-! Decimal cells of a ClickHouse type: `encode_decimal` of the accelerator, which rescales native
    payloads, and `_encode_decimal` of the core, which quantizes Python decimals. The two read the
    declared type by the same pattern; the core also strips it and knows the width aliases. -/

namespace Dpone.NativeWire
open Dpone.Schemes

/-! ### Declared types -/

/-- A letter of a pattern that ignores case: `i` also stands for its dotted capital and its
    dotless form. -/
def letterMatches (letter c : Char) : Bool :=
  c.toLower = letter || letter = 'i' && (c.toNat = 0x130 || c.toNat = 0x131)

/-- A word of a pattern that ignores case. -/
def wordIgnoringCase : Str → Str → Option Str
  | [], s => some s
  | _ :: _, [] => none
  | letter :: word, c :: s => if letterMatches letter c then wordIgnoringCase word s else none

variable (u : Unicode)

/-- `\(\s*(\d+)\s*,\s*(\d+)\s*\)` up to the end of the text. -/
def scalePair (s : Str) : Option (ℕ × ℕ) := do
  let (precision, r) ← digits u (blanks u (← lit '(' s))
  let (scale, r) ← digits u (blanks u (← lit ',' (blanks u r)))
  let r ← lit ')' (blanks u r)
  if r = [] then some (precision, scale) else none

/-- `re.fullmatch(r"Decimal\(\s*(\d+)\s*,\s*(\d+)\s*\)", text, re.IGNORECASE)`. -/
def genericDecimal (s : Str) : Option (ℕ × ℕ) := do
  scalePair u (← wordIgnoringCase "decimal".toList s)

/-- The width aliases and the precision that each stands for. -/
def aliasWords : List (Str × ℕ) :=
  [("32".toList, 9), ("64".toList, 18), ("128".toList, 38), ("256".toList, 76)]

/-- `re.fullmatch(r"Decimal(32|64|128|256)\(\s*(\d+)\s*\)", text, re.IGNORECASE)`. -/
def aliasDecimal (s : Str) : Option (ℕ × ℕ) := do
  let r ← wordIgnoringCase "decimal".toList s
  let (precision, r) ← aliasWords.findSome? fun w => (cutPrefix w.1 r).map fun r => (w.2, r)
  let (scale, r) ← digits u (blanks u (← lit '(' r))
  let r ← lit ')' (blanks u r)
  if r = [] then some (precision, scale) else none

/-- Bytes of a decimal cell. -/
def cellWidth (precision : ℕ) : ℕ :=
  if precision ≤ 9 then 4 else if precision ≤ 18 then 8 else if precision ≤ 38 then 16 else 32

/-! ### The accelerator -/

/-- The integer of a native payload and the scale that it is stored at. -/
def sourceValue (payload : Bytes) : Storage → Except PyError (ℤ × ℕ)
  | .money => .ok (decodeMoney payload, 4)
  | .smallmoney => do
    let value ← unpackSigned 4 payload
    return (value, 4)
  | .decimal | .numeric => do
    let sign ← byteAt payload 2
    let value : ℤ := ofLE (payload.drop 3) * (if sign ≠ 0 then 1 else -1)
    let sourceScale ← byteAt payload 1
    return (value, sourceScale.toNat)
  | _ => .error (.valueError "native_acceleration_unsupported_decimal_source")

/-- Raising or lowering the scale of an integer; a remainder is refused. -/
def rescale (value : ℤ) (sourceScale scale : ℕ) : Except PyError ℤ :=
  if sourceScale ≤ scale then .ok (value * 10 ^ (scale - sourceScale))
  else
    let divisor : ℤ := 10 ^ (sourceScale - scale)
    if value % divisor ≠ 0 then .error (.valueError "native_acceleration_decimal_precision_loss")
    else .ok (value / divisor)

/-- `encode_decimal`. -/
def encodeDecimalAccel (payload : Bytes) (storage : Storage) (target : Str) :
    Except PyError Bytes := do
  match genericDecimal u target with
  | none => .error (.valueError "native_acceleration_unsupported_decimal_target")
  | some (precision, scale) =>
    raiseIf (¬ (1 ≤ precision ∧ precision ≤ 76) ∨ ¬ scale ≤ precision)
      (.valueError "native_acceleration_invalid_decimal_target")
    let (value, sourceScale) ← sourceValue payload storage
    let value ← rescale value sourceScale scale
    raiseIf (10 ^ precision ≤ value.natAbs)
      (.valueError "native_acceleration_decimal_out_of_range")
    toBytes (cellWidth precision) true value

/-! ### The core -/

inductive DecimalError where
  | python (e : PyError)
  | invalidOperation
  deriving DecidableEq

/-- `_decimal_precision_scale`. -/
def decimalPrecisionScale (clickhouseType : Str) : Except PyError (ℕ × ℕ) :=
  match genericDecimal u (strip u clickhouseType) with
  | some declared => .ok declared
  | none =>
    match aliasDecimal u (strip u clickhouseType) with
    | some declared => .ok declared
    | none => .error (.valueError
        "ClickHouse Decimal declaration requires precision/scale or a supported width alias")

/-- Whether the leading digit stands where the precision has no place for it. -/
def leadingOverflow (precision scale : ℕ) : PyDecimal → Bool
  | .special => false
  | .finite _ digits exponent =>
    spelled digits ≠ 0 && (precision : ℤ) - scale ≤ PyDecimal.adjusted digits exponent

/-- `_encode_decimal` from the decimal on; any other value is first read by
    `Decimal(str(value))`. -/
def encodeDecimalCore (value : PyDecimal) (clickhouseType : Str) : Except DecimalError Bytes := do
  let (precision, scale) ← (decimalPrecisionScale u clickhouseType).mapError .python
  (raiseIf (¬ (1 ≤ precision ∧ precision ≤ 76) ∨ ¬ scale ≤ precision)
    (.valueError "ClickHouse Decimal precision/scale is invalid")).mapError .python
  (raiseIf (value.value = none)
    (.valueError "ClickHouse Decimal requires a finite value")).mapError .python
  (raiseIf (leadingOverflow precision scale value = true) (.valueError
    "clickhouse_binary_decimal_out_of_range: ClickHouse Decimal precision overflow")
    ).mapError .python
  match value.quantize (precision + 2) scale with
  | none => .error .invalidOperation
  | some exact =>
    (raiseIf (exact.value ≠ value.value) (.valueError
      "clickhouse_binary_decimal_precision_loss: ClickHouse Decimal scale would lose precision")
      ).mapError .python
    match (exact.scaleb scale).toInt with
    | none => .error .invalidOperation
    | some scaled => (toBytes (cellWidth precision) true scaled).mapError .python

end Dpone.NativeWire

/-! CORRECT: both decimal encoders write a number into a cell exactly when it is a whole number of
    the cell's units within its precision, and then they write the same bytes, which are that
    number of units in two's complement at the width of the precision. -/

namespace Dpone.NativeWire
open Dpone.Schemes

/-- `n` units of a decimal cell are the number `v`, within the precision. -/
def CellUnits (precision scale : ℕ) (v : ℚ) (n : ℤ) : Prop :=
  v * 10 ^ scale = n ∧ n.natAbs < 10 ^ precision

theorem CellUnits.unique {precision scale : ℕ} {v : ℚ} {n m : ℤ}
    (hn : CellUnits precision scale v n) (hm : CellUnits precision scale v m) : n = m := by
  have h : (n : ℚ) = m := hn.1.symm.trans hm.1
  exact_mod_cast h

/-- Units within the precision are numbers below the power of ten that it leaves before the
    point. -/
theorem cellUnits_iff {precision scale : ℕ} (hscale : scale ≤ precision) {v : ℚ} {n : ℤ} :
    CellUnits precision scale v n ↔ v * 10 ^ scale = n ∧ |v| < 10 ^ (precision - scale) := by
  refine and_congr_right fun h => ?_
  have hpos : (0 : ℚ) < 10 ^ scale := by positivity
  have habs : |v| * 10 ^ scale = n.natAbs := by
    rw [← abs_of_pos hpos, ← abs_mul, h, Nat.cast_natAbs, Int.cast_abs]
  have hpow : (10 : ℚ) ^ (precision - scale) * 10 ^ scale = ((10 ^ precision : ℕ) : ℚ) := by
    rw [← pow_add, Nat.sub_add_cancel hscale]
    push_cast
    rfl
  rw [← mul_lt_mul_iff_left₀ hpos, habs, hpow, Nat.cast_lt]

/-- The cell of a precision has room for its numbers and for their sign. -/
theorem width_holds {precision : ℕ} (h : precision ≤ 76) :
    2 * 10 ^ precision ≤ 256 ^ cellWidth precision := by
  have hgrow : ∀ {bound : ℕ}, precision ≤ bound → 2 * 10 ^ precision ≤ 2 * 10 ^ bound :=
    fun hle => Nat.mul_le_mul_left 2 (Nat.pow_le_pow_right (by decide) hle)
  unfold cellWidth
  split_ifs with h9 h18 h38
  · exact (hgrow h9).trans (by norm_num)
  · exact (hgrow h18).trans (by norm_num)
  · exact (hgrow h38).trans (by norm_num)
  · exact (hgrow h).trans (by norm_num)

/-- Units within the precision never overflow the cell. -/
theorem units_fit {precision : ℕ} (h : precision ≤ 76) {n : ℤ} (hn : n.natAbs < 10 ^ precision) :
    -(256 ^ cellWidth precision : ℤ) ≤ 2 * n ∧ 2 * n < 256 ^ cellWidth precision := by
  have hwidth : ((2 * 10 ^ precision : ℕ) : ℤ) ≤ ((256 ^ cellWidth precision : ℕ) : ℤ) :=
    Int.ofNat_le.mpr (width_holds h)
  have hlt : ((n.natAbs : ℕ) : ℤ) < ((10 ^ precision : ℕ) : ℤ) := Int.ofNat_lt.mpr hn
  push_cast at hwidth hlt
  obtain ⟨hlow, hhigh⟩ := abs_lt.mp hlt
  constructor <;> linarith

theorem toBytes_units {precision : ℕ} (h : precision ≤ 76) {n : ℤ}
    (hn : n.natAbs < 10 ^ precision) :
    toBytes (cellWidth precision) true n = .ok (toLESigned (cellWidth precision) n) := by
  rw [toBytes, if_pos rfl, if_pos (units_fit h hn)]

/-! ### The accelerator -/

/-- CORRECT: an integer is rescaled exactly when it is a whole number at the new scale. -/
theorem rescale_eq_ok {value n : ℤ} {sourceScale scale : ℕ} :
    rescale value sourceScale scale = .ok n ↔ (value : ℚ) / 10 ^ sourceScale * 10 ^ scale = n := by
  unfold rescale
  split_ifs with hle
  · obtain ⟨k, rfl⟩ := Nat.exists_eq_add_of_le hle
    have hvalue : (value : ℚ) / 10 ^ sourceScale * 10 ^ (sourceScale + k) =
        ((value * 10 ^ k : ℤ) : ℚ) := by
      push_cast
      rw [pow_add]
      field_simp
    rw [hvalue, Except.ok.injEq, Nat.add_sub_cancel_left]
    exact_mod_cast Iff.rfl
  · obtain ⟨k, rfl⟩ := Nat.exists_eq_add_of_le (Nat.le_of_not_le hle)
    rw [Nat.add_sub_cancel_left]
    have hpow : (10 : ℤ) ^ k ≠ 0 := by positivity
    have hvalue : (value : ℚ) / 10 ^ (scale + k) * 10 ^ scale = n ↔ value = n * 10 ^ k := by
      rw [pow_add]
      have hcancel : (value : ℚ) / (10 ^ scale * 10 ^ k) * 10 ^ scale = value / 10 ^ k := by
        field_simp
      rw [hcancel, div_eq_iff (by positivity)]
      exact_mod_cast Iff.rfl
    rw [hvalue]
    dsimp only
    split_ifs with hrem
    · refine ⟨nofun, ?_⟩
      rintro rfl
      exact absurd (Int.mul_emod_left ..) hrem
    · rw [Except.ok.injEq]
      constructor
      · rintro rfl
        exact (Int.ediv_mul_cancel (Int.dvd_of_emod_eq_zero (not_not.mp hrem))).symm
      · rintro rfl
        exact Int.mul_ediv_cancel _ hpow

/-- A column of a storage type whose payload carries its own scale. -/
def payloadLayout (storage : Storage) (payload : Bytes) : NativeWireColumnLayout :=
  { name := [], sourceType := [], targetType := [], nullable := false, storageType := storage,
    prefixWidth := 1, scale := (payload[1]?).map UInt8.toNat }

/-- Storage types of decimal numbers. -/
def decimalSource : Storage → Bool
  | .decimal | .numeric | .money | .smallmoney => true
  | _ => false

/-- The number that a native payload holds, as the core decodes it; a payload that is too short for
    its storage type holds none. -/
def payloadValue (storage : Storage) (payload : Bytes) : Option ℚ :=
  match decimalSource storage, decodePayload payload (payloadLayout storage payload) with
  | true, .ok (.decimal d) => d.value
  | _, _ => none

/-- The accelerator reads the number that the core decodes. -/
theorem sourceValue_of_payloadValue {storage : Storage} {payload : Bytes} {v : ℚ}
    (h : payloadValue storage payload = some v) :
    ∃ value sourceScale, sourceValue payload storage = .ok (value, sourceScale) ∧
      v = value / 10 ^ sourceScale := by
  have hdecimal : ∀ {s : Storage}, s = .decimal ∨ s = .numeric →
      payloadValue s payload = some v → ∃ value sourceScale,
        sourceValue payload s = .ok (value, sourceScale) ∧ v = value / 10 ^ sourceScale := by
    intro s hs hv
    have hlayout : payloadValue s payload =
        match true, decodeDecimal payload (((payload[1]?).map UInt8.toNat).getD 0) with
        | true, .ok (.decimal d) => d.value
        | _, _ => none := by
      rcases hs with rfl | rfl <;> rfl
    have hsource : sourceValue payload s = sourceValue payload .decimal := by
      rcases hs with rfl | rfl <;> rfl
    rw [hlayout] at hv
    rw [hsource]
    cases hsign : payload[2]? with
    | none =>
      simp [decodeDecimal, byteAt, hsign, bind, Except.bind] at hv
    | some sign =>
      have hlength : 2 < payload.length := (List.getElem?_eq_some_iff.mp hsign).1
      have hscale : payload[1]? = some payload[1] := List.getElem?_eq_getElem (by omega)
      simp only [decodeDecimal, byteAt, hsign, hscale, bind, Except.bind, pure, Except.pure,
        Option.map_some, Option.getD_some, value_scaled, Option.some.injEq] at hv
      refine ⟨_, _, ?_, hv.symm⟩
      simp only [sourceValue, byteAt, hsign, hscale, bind, Except.bind, pure, Except.pure]
  cases storage with
  | decimal => exact hdecimal (.inl rfl) h
  | numeric => exact hdecimal (.inr rfl) h
  | money =>
    simp only [payloadValue, decimalSource, payloadLayout, decodePayload, value_scaled,
      Option.some.injEq] at h
    exact ⟨_, _, rfl, h.symm⟩
  | smallmoney =>
    simp only [payloadValue, decimalSource, payloadLayout, decodePayload] at h
    cases hn : unpackSigned 4 payload with
    | error e => simp [hn, Except.map] at h
    | ok n =>
      simp only [hn, Except.map, value_scaled, Option.some.injEq] at h
      exact ⟨n, 4, by simp [sourceValue, hn, bind, Except.bind, pure, Except.pure], h.symm⟩
  | _ => simp [payloadValue, decimalSource] at h

variable (u : Unicode)

/-- CORRECT: the accelerator encodes exactly the numbers that are units of the cell. -/
theorem encodeDecimalAccel_eq_ok {payload : Bytes} {storage : Storage} {v : ℚ}
    (hv : payloadValue storage payload = some v) {target : Str} {precision scale : ℕ}
    (htarget : genericDecimal u target = some (precision, scale))
    (hprecision : 1 ≤ precision ∧ precision ≤ 76) (hscale : scale ≤ precision) {out : Bytes} :
    encodeDecimalAccel u payload storage target = .ok out ↔
      ∃ n, CellUnits precision scale v n ∧ out = toLESigned (cellWidth precision) n := by
  obtain ⟨value, sourceScale, hsource, rfl⟩ := sourceValue_of_payloadValue hv
  have hvalid : ¬ (¬ (1 ≤ precision ∧ precision ≤ 76) ∨ ¬ scale ≤ precision) := by
    push Not
    exact ⟨hprecision, hscale⟩
  unfold encodeDecimalAccel
  simp only [htarget, raiseIf_neg hvalid, hsource, bind, Except.bind]
  cases hrescaled : rescale value sourceScale scale with
  | error e =>
    refine ⟨fun h => (by cases h), ?_⟩
    rintro ⟨n, hn, -⟩
    rw [rescale_eq_ok.mpr hn.1] at hrescaled
    cases hrescaled
  | ok n =>
    have hunits := rescale_eq_ok.mp hrescaled
    dsimp only
    by_cases hlt : n.natAbs < 10 ^ precision
    · have hn : CellUnits precision scale (value / 10 ^ sourceScale) n := ⟨hunits, hlt⟩
      rw [raiseIf_neg (Nat.not_le.mpr hlt)]
      dsimp only
      rw [toBytes_units hprecision.2 hlt, Except.ok.injEq]
      refine ⟨fun h => ⟨n, hn, h.symm⟩, ?_⟩
      rintro ⟨m, hm, rfl⟩
      rw [hn.unique hm]
    · rw [raiseIf_pos (Nat.not_lt.mp hlt)]
      refine ⟨fun h => (by cases h), ?_⟩
      rintro ⟨m, hm, -⟩
      have hsame : (n : ℚ) = m := hunits.symm.trans hm.1
      obtain rfl : n = m := by exact_mod_cast hsame
      exact absurd hm.2 hlt

/-- TOTAL: a number that is not encoded was refused by one of the two documented errors; the bytes
    of the cell are never too few. -/
theorem encodeDecimalAccel_error {payload : Bytes} {storage : Storage} {v : ℚ}
    (hv : payloadValue storage payload = some v) {target : Str} {precision scale : ℕ}
    (htarget : genericDecimal u target = some (precision, scale))
    (hprecision : 1 ≤ precision ∧ precision ≤ 76) (hscale : scale ≤ precision) {e : PyError}
    (h : encodeDecimalAccel u payload storage target = .error e) :
    e = .valueError "native_acceleration_decimal_precision_loss" ∨
      e = .valueError "native_acceleration_decimal_out_of_range" := by
  obtain ⟨value, sourceScale, hsource, rfl⟩ := sourceValue_of_payloadValue hv
  have hvalid : ¬ (¬ (1 ≤ precision ∧ precision ≤ 76) ∨ ¬ scale ≤ precision) := by
    push Not
    exact ⟨hprecision, hscale⟩
  unfold encodeDecimalAccel at h
  simp only [htarget, raiseIf_neg hvalid, hsource, bind, Except.bind] at h
  cases hrescaled : rescale value sourceScale scale with
  | error e' =>
    rw [hrescaled] at h
    obtain rfl : e' = e := Except.error.inj h
    unfold rescale at hrescaled
    dsimp only at hrescaled
    split_ifs at hrescaled
    exact .inl (Except.error.inj hrescaled).symm
  | ok n =>
    rw [hrescaled] at h
    dsimp only at h
    by_cases hlt : n.natAbs < 10 ^ precision
    · rw [raiseIf_neg (Nat.not_le.mpr hlt)] at h
      dsimp only at h
      rw [toBytes_units hprecision.2 hlt] at h
      cases h
    · rw [raiseIf_pos (Nat.not_lt.mp hlt)] at h
      exact .inr (Except.error.inj h).symm

/-! ### The core -/

/-- A text that reads as a decimal type begins with a letter and ends with a bracket, so stripping
    leaves it alone. -/
theorem lit_suffix {c : Char} {s r : Str} (h : lit c s = some r) : c :: r = s := by
  cases s with
  | nil => cases h
  | cons d s =>
    simp only [lit] at h
    split_ifs at h with hd
    rw [hd, Option.some.inj h]

theorem digits_suffix {s r : Str} {n : ℕ} (h : digits u s = some (n, r)) : r <:+ s := by
  unfold digits at h
  dsimp only at h
  split_ifs at h with hd
  rw [← (Prod.mk.inj (Option.some.inj h)).2]
  exact List.dropWhile_suffix _

theorem blanks_suffix (s : Str) : blanks u s <:+ s := List.dropWhile_suffix _

theorem scalePair_suffix {s : Str} {declared : ℕ × ℕ} (h : scalePair u s = some declared) :
    [')'] <:+ s := by
  simp only [scalePair, Option.bind_eq_bind, Option.bind_eq_some_iff] at h
  obtain ⟨r₁, h₁, ⟨p, r₂⟩, h₂, r₃, h₃, ⟨q, r₄⟩, h₄, r₅, h₅, hlast⟩ := h
  split_ifs at hlast with hnil
  subst hnil
  calc [')'] = blanks u r₄ := lit_suffix h₅
    _ <:+ r₄ := blanks_suffix u r₄
    _ <:+ blanks u r₃ := digits_suffix u h₄
    _ <:+ r₃ := blanks_suffix u r₃
    _ <:+ ',' :: r₃ := List.suffix_cons ..
    _ = blanks u r₂ := lit_suffix h₃
    _ <:+ r₂ := blanks_suffix u r₂
    _ <:+ blanks u r₁ := digits_suffix u h₂
    _ <:+ r₁ := blanks_suffix u r₁
    _ <:+ '(' :: r₁ := List.suffix_cons ..
    _ = s := lit_suffix h₁

theorem wordIgnoringCase_suffix : ∀ {word s r : Str}, wordIgnoringCase word s = some r → r <:+ s
  | [], s, r, h => by
    cases h
    exact List.suffix_refl _
  | letter :: word, [], r, h => by cases h
  | letter :: word, c :: s, r, h => by
    unfold wordIgnoringCase at h
    split_ifs at h
    exact (wordIgnoringCase_suffix h).trans (List.suffix_cons ..)

theorem alphanum_of_toLower {c : Char} (h : c.toLower = 'd') : c.isAlphanum := by
  unfold Char.toLower at h
  split at h
  · next hupper =>
    have hval := congrArg Char.val h
    have hD : c.val = 68 := by
      simp only [] at hval
      rw [← UInt32.toNat_inj] at hval ⊢
      simp only [ge_iff_le, UInt32.le_iff_toNat_le] at hupper
      simp at hval hupper ⊢
      omega
    have hc : c = 'D' := Char.ext hD
    rw [hc]
    decide
  · rw [h]
    decide

theorem strip_genericDecimal {s : Str} {declared : ℕ × ℕ} (h : genericDecimal u s = some declared) :
    strip u s = s := by
  simp only [genericDecimal, Option.bind_eq_bind, Option.bind_eq_some_iff] at h
  obtain ⟨r, hword, hpair⟩ := h
  obtain ⟨front, hend⟩ : [')'] <:+ s :=
    (scalePair_suffix u hpair).trans (wordIgnoringCase_suffix hword)
  cases s with
  | nil => cases hword
  | cons c s =>
    have hhead : ¬ u.isSpace c := by
      change wordIgnoringCase ('d' :: "ecimal".toList) (c :: s) = some r at hword
      unfold wordIgnoringCase at hword
      split_ifs at hword with hc
      have hlower : c.toLower = 'd' := by simpa [letterMatches] using hc
      exact fun hspace => u.space_not_word c hspace (u.word_ascii c (alphanum_of_toLower hlower))
    have hlast : ¬ u.isSpace ')' := fun hspace => u.space_not_bracket ')' hspace (by decide)
    rw [strip, List.dropWhile_cons_of_neg hhead, ← hend]
    exact List.rdropWhile_concat_neg _ _ _ hlast

theorem decimalPrecisionScale_generic {s : Str} {declared : ℕ × ℕ}
    (h : genericDecimal u s = some declared) : decimalPrecisionScale u s = .ok declared := by
  rw [decimalPrecisionScale, strip_genericDecimal u h, h]

/-- The quantized decimal is the decimal itself exactly when that is a whole number of units. -/
theorem quantize_value (negative : Bool) {digits : List (Fin 10)} {exponent : ℤ}
    {precision scale : ℕ}
    (hlow : magnitudeOf digits exponent < 10 ^ ((precision : ℤ) - scale)) :
    ∃ units : ℕ, (PyDecimal.finite negative digits exponent).quantize (precision + 2) scale =
        some (.finite negative (digitsOf units) (-scale)) ∧
      (PyDecimal.finite negative (digitsOf units) (-scale)).value =
        some (signed negative (units / 10 ^ scale)) ∧
      ∀ n : ℕ, magnitudeOf digits exponent * 10 ^ scale = n → units = n := by
  have hbelow : magnitudeOf digits exponent * 10 ^ scale < ((10 ^ precision : ℕ) : ℚ) := by
    have hpow : (10 : ℚ) ^ ((precision : ℤ) - scale) * 10 ^ scale = ((10 ^ precision : ℕ) : ℚ) := by
      rw [← zpow_natCast, ← zpow_add₀ (by norm_num), Int.sub_add_cancel, zpow_natCast]
      push_cast
      rfl
    rw [← hpow]
    exact mul_lt_mul_of_pos_right hlow (by positivity)
  have hle := rescaled_le hbelow
  have hroom : PyDecimal.rescaled (spelled digits) (exponent + scale) < 10 ^ (precision + 2) :=
    hle.trans_lt (Nat.pow_lt_pow_right (by decide) (by omega))
  refine ⟨PyDecimal.rescaled (spelled digits) (exponent + scale), if_pos hroom, ?_, ?_⟩
  · rw [value_finite, magnitudeOf, spelled_digitsOf, zpow_neg, zpow_natCast, div_eq_mul_inv]
  · exact fun n hn => rescaled_exact hn

theorem leadingOverflow_iff {negative : Bool} {digits : List (Fin 10)} {exponent : ℤ}
    {precision scale : ℕ} :
    leadingOverflow precision scale (.finite negative digits exponent) = true ↔
      (10 : ℚ) ^ ((precision : ℤ) - scale) ≤ magnitudeOf digits exponent := by
  by_cases hzero : spelled digits = 0
  · have hpos : (0 : ℚ) < 10 ^ ((precision : ℤ) - scale) := zpow_pos (by norm_num) _
    simp only [leadingOverflow, hzero, ne_eq, not_true_eq_false, decide_false, Bool.false_and,
      Bool.false_eq_true, magnitudeOf, Nat.cast_zero, zero_mul, false_iff, not_le]
    exact hpos
  · simp only [leadingOverflow, hzero, ne_eq, not_false_eq_true, decide_true, Bool.true_and,
      decide_eq_true_eq]
    exact le_adjusted hzero exponent _

theorem signed_inj {negative : Bool} {x y : ℚ} : signed negative x = signed negative y ↔ x = y := by
  cases negative <;> simp [signed]

/-- The sign of a decimal and of its units. -/
def signedUnits (negative : Bool) (units : ℕ) : ℤ := if negative then -(units : ℤ) else units

theorem signedUnits_cast (negative : Bool) (units : ℕ) :
    ((signedUnits negative units : ℤ) : ℚ) = signed negative units := by
  cases negative <;> simp [signedUnits, signed]

theorem signed_mul (negative : Bool) (x y : ℚ) :
    signed negative x * y = signed negative (x * y) := by
  cases negative <;> simp [signed]

theorem natAbs_signedUnits (negative : Bool) (units : ℕ) :
    (signedUnits negative units).natAbs = units := by
  cases negative <;> simp [signedUnits]

/-- The units of a decimal are those of its magnitude, with its sign. -/
theorem cellUnits_signed {negative : Bool} {x : ℚ} (hx : 0 ≤ x) {precision scale : ℕ} {n : ℤ} :
    CellUnits precision scale (signed negative x) n ↔
      ∃ units : ℕ, x * 10 ^ scale = units ∧ units < 10 ^ precision ∧
        n = signedUnits negative units := by
  constructor
  · rintro ⟨hn, hlt⟩
    have habs : x * 10 ^ scale = n.natAbs := by
      have h := congrArg abs hn
      rw [signed_mul, abs_signed negative (by positivity)] at h
      rw [h, Nat.cast_natAbs, Int.cast_abs]
    refine ⟨n.natAbs, habs, hlt, ?_⟩
    have hcast : (n : ℚ) = (signedUnits negative n.natAbs : ℤ) := by
      rw [← hn, signed_mul, habs, signedUnits_cast]
    exact_mod_cast hcast
  · rintro ⟨units, hunits, hlt, rfl⟩
    refine ⟨?_, by rwa [natAbs_signedUnits]⟩
    rw [signed_mul, hunits, signedUnits_cast]

/-- The integer of a quantized decimal. -/
theorem scaleb_toInt (negative : Bool) (units scale : ℕ) :
    ((PyDecimal.finite negative (digitsOf units) (-scale)).scaleb scale).toInt =
      some (signedUnits negative units) := by
  simp [PyDecimal.scaleb, PyDecimal.toInt, spelled_digitsOf, signedUnits]

/-- CORRECT: the core encodes exactly the numbers that are units of the cell. -/
theorem encodeDecimalCore_eq_ok {d : PyDecimal} {v : ℚ} (hv : d.value = some v) {target : Str}
    {precision scale : ℕ} (htarget : genericDecimal u target = some (precision, scale))
    (hprecision : 1 ≤ precision ∧ precision ≤ 76) (hscale : scale ≤ precision) {out : Bytes} :
    encodeDecimalCore u d target = .ok out ↔
      ∃ n, CellUnits precision scale v n ∧ out = toLESigned (cellWidth precision) n := by
  cases d with
  | special => cases hv
  | finite negative digits exponent =>
    have hvalid : ¬ (¬ (1 ≤ precision ∧ precision ≤ 76) ∨ ¬ scale ≤ precision) := by
      push Not
      exact ⟨hprecision, hscale⟩
    have hfinite : ¬ (PyDecimal.finite negative digits exponent).value = none := by
      rw [hv]
      exact Option.some_ne_none v
    have hx := magnitudeOf_nonneg digits exponent
    obtain rfl : signed negative (magnitudeOf digits exponent) = v := by
      rw [value_finite] at hv
      exact Option.some.inj hv
    simp only [encodeDecimalCore, decimalPrecisionScale_generic u htarget, raiseIf_neg hvalid,
      raiseIf_neg hfinite, Except.mapError, bind, Except.bind, cellUnits_signed hx]
    by_cases hover : leadingOverflow precision scale (.finite negative digits exponent) = true
    · -- the leading digit is worth more than the whole cell
      rw [raiseIf_pos hover]
      refine ⟨fun h => (by cases h), ?_⟩
      rintro ⟨n, ⟨units, hunits, hlt, rfl⟩, -⟩
      have hlow := leadingOverflow_iff.mp hover
      have hcell : CellUnits precision scale (magnitudeOf digits exponent) units :=
        ⟨by rw [hunits]; rfl, by simpa using hlt⟩
      have habs := ((cellUnits_iff hscale).mp hcell).2
      rw [abs_of_nonneg hx, ← zpow_natCast, Nat.cast_sub hscale] at habs
      exact absurd hlow (not_le.mpr habs)
    · obtain ⟨units, hquantize, hexact, hwhole⟩ := quantize_value negative
        (not_le.mp (leadingOverflow_iff.not.mp hover))
      rw [raiseIf_neg hover]
      simp only [hquantize, hexact, hv, ne_eq, Option.some.injEq, signed_inj]
      by_cases hsame : (units : ℚ) / 10 ^ scale = magnitudeOf digits exponent
      · have hunits : magnitudeOf digits exponent * 10 ^ scale = units := by
          rw [← hsame]
          field_simp
        have hlt : units < 10 ^ precision := by
          have hlow := not_le.mp (leadingOverflow_iff.not.mp hover)
          rw [← abs_of_nonneg hx, ← Nat.cast_sub hscale, zpow_natCast] at hlow
          have hcell := (cellUnits_iff (n := units) hscale).mpr ⟨by rw [hunits]; rfl, hlow⟩
          simpa using hcell.2
        have hnat : (signedUnits negative units).natAbs < 10 ^ precision := by
          rwa [natAbs_signedUnits]
        rw [raiseIf_neg (not_not.mpr hsame)]
        simp only [scaleb_toInt, toBytes_units hprecision.2 hnat, Except.ok.injEq]
        refine ⟨fun h => ⟨_, ⟨units, hunits, hlt, rfl⟩, h.symm⟩, ?_⟩
        rintro ⟨n, ⟨units', hunits', -, rfl⟩, rfl⟩
        rw [hwhole units' hunits']
      · rw [raiseIf_pos hsame]
        refine ⟨fun h => (by cases h), ?_⟩
        rintro ⟨n, ⟨units', hunits, -, rfl⟩, -⟩
        refine absurd ?_ hsame
        rw [hwhole units' hunits, ← hunits]
        field_simp

/-! ### Agreement -/

/-- CORRECT: for every native payload of the value `v` and every decimal target, the accelerator
    succeeds exactly when `v` is a whole number of the cell's units below the power of ten that the
    precision leaves before the point. The bytes have the width of the precision and are the units
    in two's complement; the core writes the same bytes for the same value. Any other value is
    refused as a loss of scale or of range, never as an overflow of the bytes. -/
theorem encode_decimal_exact {payload : Bytes} {storage : Storage} {v : ℚ}
    (hv : payloadValue storage payload = some v) {target : Str} {precision scale : ℕ}
    (htarget : genericDecimal u target = some (precision, scale))
    (hprecision : 1 ≤ precision ∧ precision ≤ 76) (hscale : scale ≤ precision) :
    ((∃ out, encodeDecimalAccel u payload storage target = .ok out) ↔
      (∃ n : ℤ, v * 10 ^ scale = n) ∧ |v| < 10 ^ (precision - scale)) ∧
    (∀ out, encodeDecimalAccel u payload storage target = .ok out →
      out.length = cellWidth precision ∧ (ofLESigned out : ℚ) = v * 10 ^ scale) ∧
    (∀ e, encodeDecimalAccel u payload storage target = .error e →
      e = .valueError "native_acceleration_decimal_precision_loss" ∨
        e = .valueError "native_acceleration_decimal_out_of_range") ∧
    (∀ d : PyDecimal, d.value = some v → ∀ out,
      encodeDecimalAccel u payload storage target = .ok out ↔
        encodeDecimalCore u d target = .ok out) := by
  have haccel : ∀ {out : Bytes}, encodeDecimalAccel u payload storage target = .ok out ↔
      ∃ n, CellUnits precision scale v n ∧ out = toLESigned (cellWidth precision) n :=
    encodeDecimalAccel_eq_ok u hv htarget hprecision hscale
  refine ⟨?_, ?_, ?_, ?_⟩
  · constructor
    · rintro ⟨out, hout⟩
      obtain ⟨n, hn, -⟩ := haccel.mp hout
      obtain ⟨hunits, habs⟩ := (cellUnits_iff hscale).mp hn
      exact ⟨⟨n, hunits⟩, habs⟩
    · rintro ⟨⟨n, hunits⟩, habs⟩
      exact ⟨_, haccel.mpr ⟨n, (cellUnits_iff hscale).mpr ⟨hunits, habs⟩, rfl⟩⟩
  · intro out hout
    obtain ⟨n, hn, rfl⟩ := haccel.mp hout
    obtain ⟨hlow, hhigh⟩ := units_fit hprecision.2 hn.2
    rw [toLESigned_length, ofLESigned_toLESigned hlow hhigh, hn.1]
    exact ⟨rfl, rfl⟩
  · exact fun e => encodeDecimalAccel_error u hv htarget hprecision hscale
  · intro d hd out
    rw [haccel, encodeDecimalCore_eq_ok u hd htarget hprecision hscale]

/-- 1.2345 as `money`, in a cell that has exactly room for its digits. -/
theorem encode_decimal_exact_money :
    ((∃ out, encodeDecimalAccel .ascii [0, 0, 0, 0, 57, 48, 0, 0] .money
        "Decimal(5, 4)".toList = .ok out) ↔
      (∃ n : ℤ, (12345 / 10000 : ℚ) * 10 ^ 4 = n) ∧ |(12345 / 10000 : ℚ)| < 10 ^ (5 - 4)) ∧
    (∀ out, encodeDecimalAccel .ascii [0, 0, 0, 0, 57, 48, 0, 0] .money
        "Decimal(5, 4)".toList = .ok out →
      out.length = cellWidth 5 ∧ (ofLESigned out : ℚ) = (12345 / 10000 : ℚ) * 10 ^ 4) ∧
    (∀ e, encodeDecimalAccel .ascii [0, 0, 0, 0, 57, 48, 0, 0] .money
        "Decimal(5, 4)".toList = .error e →
      e = .valueError "native_acceleration_decimal_precision_loss" ∨
        e = .valueError "native_acceleration_decimal_out_of_range") ∧
    (∀ d : PyDecimal, d.value = some (12345 / 10000) → ∀ out,
      encodeDecimalAccel .ascii [0, 0, 0, 0, 57, 48, 0, 0] .money
          "Decimal(5, 4)".toList = .ok out ↔
        encodeDecimalCore .ascii d "Decimal(5, 4)".toList = .ok out) :=
  encode_decimal_exact .ascii (by decide +kernel) (by decide +kernel) (by decide) (by decide)

end Dpone.NativeWire
