import Dpone.Schemes.DecimalNormal
import Dpone.Schemes.Literals

/-! Decimals written out: in fixed point, and as `str` writes them.

    A printed number is canonical if it has no digit that could be left out. A value has one
    canonical text (`canonical_ext`), and that is what fixed point writes of a decimal without
    trailing zeros (`fixedText_canonical`). -/

namespace Dpone.Schemes

/-! ### Digits without leading zeros -/

def Unpadded (ds : List (Fin 10)) : Prop := ds ≠ [] ∧ (ds.head? = some 0 → ds = [0])

instance : DecidablePred Unpadded := fun _ => inferInstanceAs (Decidable (_ ∧ _))

theorem length_lastDigits : ∀ w n : ℕ, (lastDigits w n).length = w
  | 0, _ => rfl
  | w + 1, n => by rw [lastDigits, List.length_append, length_lastDigits w, List.length_singleton]

theorem length_digitsOf (n : ℕ) : (digitsOf n).length = Nat.log 10 n + 1 := length_lastDigits _ _

theorem lastDigits_spelled (ds : List (Fin 10)) : lastDigits ds.length (spelled ds) = ds := by
  induction ds using List.reverseRecOn with
  | nil => rfl
  | append_singleton ds d ih =>
    have hd := d.isLt
    have hdiv : (spelled ds * 10 + d.val) / 10 = spelled ds := by omega
    have hmod : (spelled ds * 10 + d.val) % 10 = d.val := by omega
    rw [List.length_append, List.length_singleton, lastDigits, spelled_append_singleton, hdiv, ih]
    simp only [hmod]

/-- Digits are known by their number and by what they spell. -/
theorem spelled_inj {ds es : List (Fin 10)} (hlen : ds.length = es.length)
    (h : spelled ds = spelled es) : ds = es := by
  rw [← lastDigits_spelled ds, hlen, h, lastDigits_spelled]

theorem pow_le_spelled {d : Fin 10} (hd : d ≠ 0) (t : List (Fin 10)) :
    10 ^ t.length ≤ spelled (d :: t) := by
  have hpos : 0 < d.val := Nat.pos_of_ne_zero fun h => hd (Fin.ext h)
  rw [show d :: t = [d] ++ t from rfl, spelled_append]
  have hone : spelled [d] = d.val := by simp [spelled]
  rw [hone]
  exact Nat.le_add_right_of_le (Nat.le_mul_of_pos_left _ hpos)

theorem unpadded_cases {ds : List (Fin 10)} (h : Unpadded ds) :
    ds = [0] ∨ ∃ d t, ds = d :: t ∧ d ≠ 0 := by
  rcases ds with _ | ⟨d, t⟩
  · exact absurd rfl h.1
  · by_cases hd : d = 0
    · exact .inl (h.2 (by rw [hd]; rfl))
    · exact .inr ⟨d, t, rfl, hd⟩

theorem unpadded_zero {ds : List (Fin 10)} (h : Unpadded ds) (hzero : spelled ds = 0) :
    ds = [0] := by
  rcases unpadded_cases h with rfl | ⟨d, t, rfl, hd⟩
  · rfl
  · have hpos : 0 < 10 ^ t.length := Nat.pow_pos (by decide)
    exact absurd (pow_le_spelled hd t) (by omega)

theorem length_le_of_spelled {d : Fin 10} (hd : d ≠ 0) {t es : List (Fin 10)}
    (h : spelled (d :: t) = spelled es) : (d :: t).length ≤ es.length := by
  have hlow := pow_le_spelled hd t
  have hhigh := spelled_lt es
  rw [h] at hlow
  exact (Nat.pow_lt_pow_iff_right (by decide)).mp (hlow.trans_lt hhigh)

/-- A number has one run of digits without leading zeros. -/
theorem unpadded_inj {ds es : List (Fin 10)} (hds : Unpadded ds) (hes : Unpadded es)
    (h : spelled ds = spelled es) : ds = es := by
  rcases unpadded_cases hds with rfl | ⟨d, t, rfl, hd⟩
  · exact (unpadded_zero hes (h.symm.trans rfl)).symm
  · rcases unpadded_cases hes with rfl | ⟨e, r, rfl, he⟩
    · exact unpadded_zero hds (h.trans rfl)
    · exact spelled_inj (le_antisymm (length_le_of_spelled hd h) (length_le_of_spelled he h.symm)) h

theorem digitsOf_head {n : ℕ} (hn : n ≠ 0) : ∃ d t, digitsOf n = d :: t ∧ d ≠ 0 := by
  have hlen := length_digitsOf n
  rcases hdigits : digitsOf n with _ | ⟨d, t⟩
  · rw [hdigits] at hlen
    cases hlen
  · refine ⟨d, t, rfl, ?_⟩
    rintro rfl
    rw [hdigits, List.length_cons] at hlen
    have hspelled : spelled t = n := by
      rw [← spelled_digitsOf n, hdigits, show (0 : Fin 10) :: t = [0] ++ t from rfl, spelled_append]
      simp [spelled]
    have hlt := spelled_lt t
    rw [hspelled, show t.length = Nat.log 10 n by omega] at hlt
    exact absurd (Nat.pow_log_le_self 10 hn) (by omega)

theorem digitsOf_last (n : ℕ) :
    (digitsOf n).getLast? = some ⟨n % 10, Nat.mod_lt _ (by decide)⟩ := by
  rw [digitsOf, lastDigits, List.getLast?_concat]

/-! ### The point set into the digits -/

/-- The digits before the point and after it: a whole part of no digits is written as zero. -/
def pointed (ds : List (Fin 10)) (e : ℤ) : List (Fin 10) × List (Fin 10) :=
  let place := ds.length + e
  if place ≤ 0 then ([0], List.replicate (-place).toNat 0 ++ ds)
  else if ds.length ≤ place then (ds ++ List.replicate e.toNat 0, [])
  else (ds.take place.toNat, ds.drop place.toNat)

/-- `format(d, "f")`. -/
def fixedText (negative : Bool) (c : ℕ) (e : ℤ) : NumberText :=
  .finite negative (pointed (digitsOf c) e).1 (pointed (digitsOf c) e).2 none

/-- `"%+d" % n`. -/
def plusText (n : ℤ) : Str := (if n < 0 then '-' else '+') :: decimalText n.natAbs

/-- `str(d)`: the leading digit may stand six places after the point, and no further. -/
def decimalStr (negative : Bool) (c : ℕ) (e : ℤ) : Str :=
  let place := (digitsOf c).length + e
  if e ≤ 0 ∧ -6 < place then (fixedText negative c e).text
  else (NumberText.finite negative ((digitsOf c).take 1) ((digitsOf c).drop 1) none).text ++
    'E' :: plusText (place - 1)

theorem spelled_replicate (z : ℕ) : spelled (List.replicate z 0) = 0 :=
  spelled_eq_zero fun _ h => List.eq_of_mem_replicate h

/-- CORRECT: setting the point keeps the digits, and the fraction has the places of the exponent. -/
theorem pointed_spec (ds : List (Fin 10)) (e : ℤ) :
    spelled ((pointed ds e).1 ++ (pointed ds e).2) = spelled ds * 10 ^ e.toNat ∧
      (pointed ds e).2.length = (-e).toNat := by
  unfold pointed
  simp only
  by_cases hlow : (ds.length : ℤ) + e ≤ 0
  · rw [if_pos hlow]
    have hzero : e.toNat = 0 := by omega
    refine ⟨?_, ?_⟩
    · rw [hzero, pow_zero, Nat.mul_one, ← List.append_assoc, spelled_append]
      have hpad : spelled ([0] ++ List.replicate (-((ds.length : ℤ) + e)).toNat 0) = 0 :=
        spelled_eq_zero fun d hd => by
          rcases List.mem_append.mp hd with hd | hd
          · exact List.mem_singleton.mp hd
          · exact List.eq_of_mem_replicate hd
      rw [hpad, Nat.zero_mul, Nat.zero_add]
    · simp only [List.length_append, List.length_replicate]
      omega
  · rw [if_neg hlow]
    by_cases hhigh : (ds.length : ℤ) ≤ ds.length + e
    · rw [if_pos hhigh]
      refine ⟨?_, ?_⟩
      · rw [List.append_nil, spelled_append, spelled_replicate, List.length_replicate, Nat.add_zero]
      · simp only [List.length_nil]
        omega
    · rw [if_neg hhigh]
      have hzero : e.toNat = 0 := by omega
      refine ⟨?_, ?_⟩
      · rw [List.take_append_drop, hzero, pow_zero, Nat.mul_one]
      · simp only [List.length_drop]
        omega

/-! ### Canonical texts -/

namespace NumberText

/-- No zero that could be left out, no exponent and no sign before zero. -/
def Canonical : NumberText → Prop
  | .finite negative whole fraction none => Unpadded whole ∧ fraction.getLast? ≠ some 0 ∧
      (negative = true → spelled (whole ++ fraction) ≠ 0)
  | _ => False

/-- The number that is written down: the whole part and the fraction behind the point. -/
def written : NumberText → Option ℚ
  | .finite negative whole fraction none =>
    some (signed negative (spelled whole + spelled fraction / 10 ^ fraction.length))
  | _ => none

end NumberText

open NumberText

theorem canonical_wellFormed {n : NumberText} (h : n.Canonical) : n.WellFormed := by
  rcases n with ⟨negative, whole, fraction, _ | _⟩ | _ | _
  · exact wellFormed_plain h.1.1
  all_goals exact h.elim

theorem number_value {n : NumberText} (h : n.Canonical) : n.number.value = n.written := by
  rcases n with ⟨negative, whole, fraction, _ | _⟩ | _ | _
  · have hpow : (10 : ℚ) ^ fraction.length ≠ 0 := pow_ne_zero _ (by norm_num)
    rw [number, exponentValue, zero_sub, PyNumber.value, written, scaledFraction, spelled_append]
    simp only [neg_neg, Int.toNat_natCast, Int.toNat_neg_natCast, pow_zero, Nat.mul_one]
    push_cast
    rw [add_div, mul_div_cancel_right₀ _ hpow]
  all_goals exact h.elim

theorem last_mod_ten {ds : List (Fin 10)} (hds : ds ≠ []) (h : ds.getLast? ≠ some 0) :
    spelled ds % 10 ≠ 0 := by
  obtain ⟨front, d, rfl⟩ := List.eq_nil_or_concat' ds |>.resolve_left hds
  rw [List.getLast?_concat] at h
  have hd : d.val ≠ 0 := fun hd => h (congrArg some (Fin.ext hd))
  have hlt := d.isLt
  rw [spelled_append_singleton]
  omega

/-- CORRECT: a value has one canonical text. -/
theorem canonical_ext {negative : Bool} {whole whole' fraction fraction' : List (Fin 10)}
    (hwhole : Unpadded whole) (hwhole' : Unpadded whole')
    (hlen : fraction.length = fraction'.length)
    (h : spelled (whole ++ fraction) = spelled (whole' ++ fraction')) :
    NumberText.finite negative whole fraction none = .finite negative whole' fraction' none := by
  rw [spelled_append, spelled_append, hlen] at h
  have hlt := spelled_lt fraction
  have hlt' := spelled_lt fraction'
  rw [hlen] at hlt
  have hspelled : spelled whole = spelled whole' ∧ spelled fraction = spelled fraction' := by
    constructor
    · have hdiv := congrArg (· / 10 ^ fraction'.length) h
      simp only [Nat.mul_comm _ (10 ^ fraction'.length)] at hdiv
      rwa [Nat.mul_add_div (Nat.pow_pos (by decide)), Nat.mul_add_div (Nat.pow_pos (by decide)),
        Nat.div_eq_of_lt hlt, Nat.div_eq_of_lt hlt', Nat.add_zero, Nat.add_zero] at hdiv
    · have hmod := congrArg (· % 10 ^ fraction'.length) h
      simp only [Nat.mul_comm _ (10 ^ fraction'.length)] at hmod
      rwa [Nat.mul_add_mod, Nat.mul_add_mod, Nat.mod_eq_of_lt hlt, Nat.mod_eq_of_lt hlt'] at hmod
  rw [unpadded_inj hwhole hwhole' hspelled.1, spelled_inj hlen hspelled.2]

theorem unpadded_cons {d : Fin 10} (hd : d ≠ 0) (t : List (Fin 10)) : Unpadded (d :: t) :=
  ⟨List.cons_ne_nil _ _, fun h => absurd (Option.some.inj h) hd⟩

/-- CORRECT: a decimal without trailing zeros after the point is written canonically. -/
theorem fixedText_canonical (negative : Bool) {m : ℕ} (hm : m ≠ 0) {f : ℤ}
    (h : m % 10 ≠ 0 ∨ 0 ≤ f) : (fixedText negative m f).Canonical := by
  obtain ⟨d, t, hdigits, hd⟩ := digitsOf_head hm
  obtain ⟨hspelled, hplaces⟩ := pointed_spec (digitsOf m) f
  have hlast : (digitsOf m).getLast? = some 0 → m % 10 = 0 := by
    rw [digitsOf_last]
    intro hzero
    exact congrArg Fin.val (Option.some.inj hzero)
  refine ⟨?_, ?_, fun _ => ?_⟩
  · unfold pointed
    simp only
    split_ifs
    · exact ⟨List.cons_ne_nil _ _, fun _ => rfl⟩
    · rw [hdigits]
      exact unpadded_cons hd _
    · obtain ⟨k, hk⟩ : ∃ k, ((digitsOf m).length + f).toNat = k + 1 :=
        ⟨((digitsOf m).length + f).toNat - 1, by omega⟩
      rw [hk, hdigits]
      exact unpadded_cons hd _
  · unfold pointed
    simp only
    split_ifs with hlow hhigh
    · rw [List.getLast?_append_of_ne_nil _ (by rw [hdigits]; exact List.cons_ne_nil _ _)]
      intro hzero
      have hlen : 0 < (digitsOf m).length := by rw [hdigits]; exact Nat.succ_pos _
      exact h.elim (fun hne => hne (hlast hzero)) (by omega)
    · exact nofun
    · rw [List.getLast?_drop, if_neg (by omega)]
      intro hzero
      exact h.elim (fun hne => hne (hlast hzero)) (by omega)
  · rw [hspelled, spelled_digitsOf]
    exact Nat.mul_ne_zero hm (Nat.pow_pos (by decide)).ne'

/-- CORRECT: the decimal that a canonical text prints is written as that text, trailing zeros of its
    coefficient taken into the exponent or not. -/
theorem fixedText_eq {negative : Bool} {whole fraction : List (Fin 10)}
    (h : (NumberText.finite negative whole fraction none).Canonical) {m k : ℕ} (hm : m ≠ 0)
    (hvalue : spelled (whole ++ fraction) = m * 10 ^ k)
    (hend : m % 10 ≠ 0 ∨ 0 ≤ (k : ℤ) - fraction.length) :
    fixedText negative m (k - fraction.length) = .finite negative whole fraction none := by
  have hcanonical := fixedText_canonical negative hm hend
  obtain ⟨hspelled, hplaces⟩ := pointed_spec (digitsOf m) (k - fraction.length)
  rw [spelled_digitsOf] at hspelled
  -- a fraction leaves no zero to take out
  have hk : fraction = [] ∨ k = 0 := by
    by_cases hfraction : fraction = []
    · exact .inl hfraction
    · refine .inr (Nat.eq_zero_of_not_pos fun hpos => ?_)
      obtain ⟨i, rfl⟩ : ∃ i, k = i + 1 := ⟨k - 1, by omega⟩
      have hlast := last_mod_ten (List.append_ne_nil_of_right_ne_nil whole hfraction)
        (by rw [List.getLast?_append_of_ne_nil _ hfraction]; exact h.2.1)
      rw [hvalue, pow_succ, ← Nat.mul_assoc, Nat.mul_mod_left] at hlast
      exact hlast rfl
  refine canonical_ext hcanonical.1 h.1 ?_ ?_
  · rcases hk with rfl | rfl
    · rw [hplaces]
      simp
    · rw [hplaces]
      omega
  · rw [hspelled, hvalue]
    rcases hk with rfl | rfl
    · simp
    · rw [show (((0 : ℕ) : ℤ) - fraction.length).toNat = 0 by omega]

/-! ### Reading back -/

variable {u : Unicode}

theorem cutSign_append : ∀ {a : Str} (t : Str), a ≠ [] →
    cutSign (a ++ t) = ((cutSign a).1, (cutSign a).2 ++ t)
  | [], _, h => absurd rfl h
  | c :: a, t, _ => by
    by_cases hminus : c = '-'
    · rw [hminus]
      rfl
    by_cases hplus : c = '+'
    · rw [hplus]
      rfl
    have hcut : ∀ s, cutSign (c :: s) = (false, c :: s) := by
      intro s
      unfold cutSign
      split <;> simp_all
    rw [List.cons_append, hcut, hcut, List.cons_append]

theorem readExponent_letter (c d : Char) (b : Str) :
    readExponent u (c :: b) = readExponent u (d :: b) := by
  cases b with
  | nil => rfl
  | cons x b =>
    unfold readExponent
    split <;> split <;> simp_all

/-- The letter of an exponent may be a capital one. -/
theorem pyDecimal_letter {a b : Str} (ha : a ≠ [])
    (hclean : ∀ c ∈ (cutSign a).2, exponentLetter c = false)
    (hkept : ∀ c, exponentLetter c = true →
      (strip u (a ++ c :: b)).filter (· ≠ '_') = a ++ c :: b) :
    pyDecimal u (a ++ 'E' :: b) = pyDecimal u (a ++ 'e' :: b) := by
  have hlower : (cutSign (a ++ 'E' :: b)).2.map Char.toLower =
      (cutSign (a ++ 'e' :: b)).2.map Char.toLower := by
    rw [cutSign_append _ ha, cutSign_append _ ha, List.map_append, List.map_append]
    rfl
  have hmagnitude : readMagnitude u (cutSign (a ++ 'E' :: b)).2 =
      readMagnitude u (cutSign (a ++ 'e' :: b)).2 := by
    have hrun : ∀ c, exponentLetter c = true →
        ((cutSign a).2 ++ c :: b).takeWhile (fun c => !exponentLetter c) = (cutSign a).2 ∧
          ((cutSign a).2 ++ c :: b).dropWhile (fun c => !exponentLetter c) = c :: b := by
      intro c hc
      refine taken_run (fun d hd => by rw [hclean d hd]; rfl) fun d hd => ?_
      cases hd
      rw [hc]
      rfl
    rw [cutSign_append _ ha, cutSign_append _ ha]
    simp only [readMagnitude, (hrun 'E' rfl).1, (hrun 'E' rfl).2, (hrun 'e' rfl).1,
      (hrun 'e' rfl).2, readExponent_letter 'E' 'e' b]
  have hsign : (cutSign (a ++ 'E' :: b)).1 = (cutSign (a ++ 'e' :: b)).1 := by
    rw [cutSign_append _ ha, cutSign_append _ ha]
  simp only [pyDecimal, hkept 'E' rfl, hkept 'e' rfl, nanPayload, readNumber, hlower, hmagnitude,
    hsign]

theorem strip_filter_text {n : NumberText} (h : n.WellFormed) :
    (strip u n.text).filter (· ≠ '_') = n.text := by
  rw [strip_text h]
  refine List.filter_eq_self.mpr fun c hc => ?_
  have hne : c ≠ '_' := fun heq => underscore_not_mem_text n (heq ▸ hc)
  simpa using hne

theorem numeral_eq_digitText : ∀ w n : ℕ, numeral 10 w n = NumberText.digitText (lastDigits w n)
  | 0, _ => rfl
  | w + 1, n => by
    rw [numeral, numeral_eq_digitText w, lastDigits, NumberText.digitText, NumberText.digitText,
      List.map_append]
    rfl

/-- An integer is printed as its digits. -/
theorem intText_eq (n : ℤ) :
    intText n = (NumberText.finite (n < 0) (digitsOf n.natAbs) [] none).text := by
  have hdigits : decimalText n.natAbs = NumberText.digitText (digitsOf n.natAbs) :=
    numeral_eq_digitText _ _
  have hplain : ∀ negative, (NumberText.finite negative (digitsOf n.natAbs) [] none).text =
      NumberText.signText negative ++ decimalText n.natAbs := by
    intro negative
    simp only [NumberText.text, NumberText.pointText, NumberText.exponentText, if_true,
      List.append_nil, hdigits]
  rw [intText, hplain]
  by_cases hneg : n < 0
  · simp [hneg, NumberText.signText]
  · simp [hneg, NumberText.signText]

theorem digitsOf_ne_nil (n : ℕ) : digitsOf n ≠ [] := fun h => by
  have := length_digitsOf n
  rw [h] at this
  cases this

/-- LOSSLESS: `Decimal(str(d))` is `d`, with its coefficient and exponent. -/
theorem pyDecimal_decimalStr (negative : Bool) (c : ℕ) (e : ℤ) :
    pyDecimal u (decimalStr negative c e) = some (.finite negative c e) := by
  have hdigits := digitsOf_ne_nil c
  unfold decimalStr
  simp only
  split_ifs with hfixed
  · obtain ⟨hspelled, hplaces⟩ := pointed_spec (digitsOf c) e
    have hwhole : (pointed (digitsOf c) e).1 ≠ [] := by
      unfold pointed
      simp only
      split_ifs with hlow hhigh
      · simp
      · simp [hdigits]
      · have : (digitsOf c).length ≠ 0 := fun h => hdigits (List.length_eq_zero_iff.mp h)
        simp only [ne_eq, List.take_eq_nil_iff, hdigits, or_false]
        omega
    have htext : (fixedText negative c e).WellFormed := ⟨hwhole, nofun⟩
    have he : e.toNat = 0 := by omega
    rw [pyDecimal_text htext, fixedText, number, hspelled, spelled_digitsOf, hplaces, he, pow_zero,
      Nat.mul_one, exponentValue]
    congr 2
    omega
  · obtain ⟨d, ds, hcons⟩ := List.exists_cons_of_ne_nil hdigits
    let k := (digitsOf c).length + e - 1
    let n := NumberText.finite negative [d] ds (some (k < 0, digitsOf k.natAbs))
    have htext : n.WellFormed := ⟨by simp, fun x hx => by
      cases hx
      exact digitsOf_ne_nil _⟩
    have hexponent : decimalText k.natAbs = digitText (digitsOf k.natAbs) :=
      numeral_eq_digitText _ _
    have hletter : (NumberText.finite negative [d] ds none).text ++ 'e' :: plusText k = n.text := by
      simp [n, NumberText.text, exponentText, plusText, hexponent]
    have hread : pyDecimal u n.text = some (.finite negative c e) := by
      have hspelled : spelled ([d] ++ ds) = c := by
        rw [List.singleton_append, ← hcons, spelled_digitsOf]
      rw [pyDecimal_text htext]
      simp only [n, number, hspelled, exponentValue]
      congr 2
      have hlen : (digitsOf c).length = ds.length + 1 := by rw [hcons, List.length_cons]
      have hk : spelled (digitsOf k.natAbs) = k.natAbs := spelled_digitsOf _
      by_cases hneg : k < 0
      · simp only [hneg, decide_true, if_true, hk]
        omega
      · simp only [hneg, decide_false, Bool.false_eq_true, if_false, hk]
        omega
    rw [← hread, ← hletter]
    simp only [hcons, List.take_succ_cons, List.take_zero, List.drop_succ_cons, List.drop_zero]
    rw [show ((d :: ds).length : ℤ) + e - 1 = k by rw [← hcons]]
    have ha : (NumberText.finite negative [d] ds none).text ≠ [] := by
      simp [NumberText.text, digitText]
    refine pyDecimal_letter ha (fun x hx => ?_) fun x hx => ?_
    · rw [cutSign_numeral (by simp), exponentText, List.append_nil] at hx
      rcases mantissa_chars hx with rfl | ⟨d, rfl⟩
      · rfl
      · exact (digitChar_facts d).2.1
    · have hplain : (NumberText.finite negative [d] ds none).WellFormed := ⟨by simp, nofun⟩
      obtain ⟨y, t, hhead, hy⟩ := text_head hplain
      obtain ⟨z, hz, hlast⟩ := digitText_last (digitsOf_ne_nil k.natAbs)
      rw [← hexponent] at hlast
      have hends : [z] <:+ (NumberText.finite negative [d] ds none).text ++ x :: plusText k :=
        (hlast.trans (List.suffix_cons _ _)).trans
          ((List.suffix_cons x _).trans (List.suffix_append _ _))
      have hunder : '_' ∉ (NumberText.finite negative [d] ds none).text ++ x :: plusText k := by
        have := underscore_not_mem_text n
        rw [← hletter] at this
        have hx' : x ≠ '_' := by
          rintro rfl
          cases hx
        simp only [List.mem_append, List.mem_cons, not_or] at this ⊢
        exact ⟨this.1, fun h => hx' h.symm, this.2.2⟩
      rw [strip_of_ends (by rw [hhead]; rfl) (hy.elim not_space_of_alphanum fun h => h ▸
        u.sign_not_space _ (.inl rfl)) hends (not_space_of_alphanum hz)]
      exact List.filter_eq_self.mpr fun c hc => by
        have hne : c ≠ '_' := fun heq => hunder (heq ▸ hc)
        simpa using hne

end Dpone.Schemes
