import Mathlib.Data.Nat.Log
import Dpone.Schemes.Text

/-! Numerals: fixed-width texts in bases up to sixteen, most significant digit first, decimal texts
    without leading zeros, and reading both back. -/

namespace Dpone.Schemes

/-- The lower-case digit of a value below sixteen. -/
def digitChar (n : ℕ) : Char := "0123456789abcdef".toList.getD n '0'

/-- The value of a digit of either case. -/
def digitOf (c : Char) : Option ℕ :=
  if '0' ≤ c ∧ c ≤ '9' then some (c.toNat - 48)
  else if 'a' ≤ c ∧ c ≤ 'f' then some (c.toNat - 87)
  else if 'A' ≤ c ∧ c ≤ 'F' then some (c.toNat - 55)
  else none

variable (b : ℕ)

/-- The low `w` digits of `n`. -/
def numeral : ℕ → ℕ → Str
  | 0, _ => []
  | w + 1, n => numeral w (n / b) ++ [digitChar (n % b)]

/-- Reading digits from the left, `n` being the value so far. -/
def numeralValueFrom : ℕ → Str → Option ℕ
  | n, [] => some n
  | n, c :: cs => (digitOf c).bind fun d => if d < b then numeralValueFrom (b * n + d) cs else none

def numeralValue (s : Str) : Option ℕ := numeralValueFrom b 0 s

theorem digitOf_digitChar : ∀ n < 16, digitOf (digitChar n) = some n := by decide

theorem numeralValueFrom_append : ∀ (n : ℕ) (s t : Str),
    numeralValueFrom b n (s ++ t) =
      (numeralValueFrom b n s).bind fun m => numeralValueFrom b m t
  | _, [], _ => rfl
  | n, c :: cs, t => by
      rw [List.cons_append, numeralValueFrom, numeralValueFrom, Option.bind_assoc]
      congr 1; funext d
      split
      · exact numeralValueFrom_append _ cs t
      · rfl

@[simp] theorem numeral_length : ∀ w n, (numeral b w n).length = w
  | 0, _ => rfl
  | w + 1, n => by rw [numeral, List.length_append, numeral_length w]; rfl

variable {b}

/-- LOSSLESS: a number that fits the width is read back. -/
theorem numeralValue_numeral (hpos : 0 < b) (hb : b ≤ 16) :
    ∀ (w n : ℕ), n < b ^ w → numeralValue b (numeral b w n) = some n
  | 0, n, h => by
      rw [show n = 0 by simpa using h]; rfl
  | w + 1, n, h => by
      have hq : n / b < b ^ w := by
        rw [pow_succ] at h; exact (Nat.div_lt_iff_lt_mul hpos).mpr h
      have hr : n % b < b := Nat.mod_lt _ hpos
      have ih : numeralValueFrom b 0 (numeral b w (n / b)) = some (n / b) :=
        numeralValue_numeral hpos hb w _ hq
      rw [numeralValue, numeral, numeralValueFrom_append, ih, Option.bind_some, numeralValueFrom,
        digitOf_digitChar _ (hr.trans_le hb), Option.bind_some, if_pos hr, numeralValueFrom,
        Nat.div_add_mod]

theorem digitChar_lt : ∀ m < 16, ∀ n < 16, m < n → digitChar m < digitChar n := by decide

/-- Texts of one length are ordered by their first difference, whatever follows them. -/
theorem append_lt_append {α : Type} [LT α] : ∀ {s t : List α} (u v : List α), s.length = t.length →
    s < t → s ++ u < t ++ v
  | [], [], _, _, _, h => (List.not_lt_nil _ h).elim
  | a :: s, c :: t, u, v, hlen, h => by
      rcases List.cons_lt_cons_iff.mp h with hhead | ⟨rfl, htail⟩
      · exact List.cons_lt_cons_iff.mpr (.inl hhead)
      · exact List.cons_lt_cons_iff.mpr (.inr ⟨rfl,
          append_lt_append u v (by simpa using hlen) htail⟩)

/-- MONOTONE: fixed-width numerals are ordered as texts like their numbers. -/
theorem numeral_lt (hpos : 0 < b) (hb : b ≤ 16) : ∀ (w : ℕ) {m n : ℕ}, m < n → n < b ^ w →
    numeral b w m < numeral b w n
  | 0, m, n, hlt, hn => by simp at hn; omega
  | w + 1, m, n, hlt, hn => by
      have hq : n / b < b ^ w := by
        rw [pow_succ] at hn; exact (Nat.div_lt_iff_lt_mul hpos).mpr hn
      rw [numeral, numeral]
      rcases (Nat.div_le_div_right (c := b) hlt.le).lt_or_eq with h | h
      · exact append_lt_append _ _ (by simp) (numeral_lt hpos hb w h hq)
      · have hr : m % b < n % b := by
          have hm := Nat.div_add_mod m b
          have hn := Nat.div_add_mod n b
          rw [h] at hm
          omega
        have hdigit := digitChar_lt _ ((Nat.mod_lt m hpos).trans_le hb) _
          ((Nat.mod_lt n hpos).trans_le hb) hr
        rw [h]
        exact List.append_left_lt (List.cons_lt_cons_iff.mpr (.inl hdigit))

/-- The leading digits of a number are the digits of its quotient. -/
theorem take_numeral (b : ℕ) : ∀ (w k n : ℕ), (numeral b (w + k) n).take w = numeral b w (n / b ^ k)
  | w, 0, n => by
      rw [pow_zero, Nat.div_one, List.take_of_length_le (by simp)]
      rfl
  | w, k + 1, n => by
      rw [← Nat.add_assoc, numeral, List.take_append_of_le_length (by simp), take_numeral b w k,
        Nat.div_div_eq_div_mul, pow_succ']

/-- Multiplying by a power of the base moves the leading digit. -/
theorem log_mul_pow {b n : ℕ} (hb : 1 < b) (hn : n ≠ 0) :
    ∀ k, Nat.log b (n * b ^ k) = Nat.log b n + k
  | 0 => by rw [pow_zero, Nat.mul_one, Nat.add_zero]
  | k + 1 => by
      have hpos : n * b ^ k ≠ 0 := Nat.mul_ne_zero hn (Nat.pow_pos (by omega)).ne'
      rw [pow_succ, ← Nat.mul_assoc, Nat.log_mul_base hb hpos, log_mul_pow hb hn k, Nat.add_assoc]

/-- `str(n)` of a natural number. -/
def decimalText (n : ℕ) : Str := numeral 10 (Nat.log 10 n + 1) n

/-- `int(text)` of a run of ASCII digits. -/
def decimalValue (s : Str) : Option ℕ := numeralValue 10 s

theorem decimalValue_decimalText (n : ℕ) : decimalValue (decimalText n) = some n :=
  numeralValue_numeral (by decide) (by decide) _ _ (Nat.lt_pow_succ_log_self (by decide) n)

/-! ### Python integers as text -/

/-- Digits with single underscores between them, `after` telling whether a digit came last. -/
def intDigits (u : Unicode) : Bool → ℕ → Str → Option ℕ
  | after, n, [] => if after then some n else none
  | after, n, c :: cs =>
    if c = '_' then if after then intDigits u false n cs else none
    else (u.digit c).bind fun d => intDigits u true (10 * n + d) cs

/-- `int(text)`. -/
def pyInt (u : Unicode) (s : Str) : Option ℤ :=
  match strip u s with
  | '-' :: t => (intDigits u false 0 t).map fun n : ℕ => -(n : ℤ)
  | '+' :: t => (intDigits u false 0 t).map fun n : ℕ => (n : ℤ)
  | t => (intDigits u false 0 t).map fun n : ℕ => (n : ℤ)

/-- `str(n)`. -/
def intText (n : ℤ) : Str :=
  if n < 0 then '-' :: decimalText n.natAbs else decimalText n.natAbs

theorem digitChar_isDigit : ∀ d < 10, (digitChar d).isDigit ∧ digitChar d ≠ '_' ∧
    digitChar d ≠ '-' ∧ digitChar d ≠ '+' ∧ (digitChar d).toNat - 48 = d := by decide

theorem mem_numeral_of_base {b : ℕ} (hb : 0 < b) : ∀ (w n : ℕ) {c : Char}, c ∈ numeral b w n →
    ∃ d < b, c = digitChar d
  | 0, _, _, h => by cases h
  | w + 1, n, c, h => by
      rcases List.mem_append.mp h with h | h
      · exact mem_numeral_of_base hb w _ h
      · exact ⟨n % b, Nat.mod_lt _ hb, List.mem_singleton.mp h⟩

theorem mem_numeral (w n : ℕ) {c : Char} (h : c ∈ numeral 10 w n) : ∃ d < 10, c = digitChar d :=
  mem_numeral_of_base (by decide) w n h

theorem intDigits_numeral (u : Unicode) : ∀ (s : Str) (after : Bool) (n : ℕ),
    (∀ c ∈ s, ∃ d < 10, c = digitChar d) → s ≠ [] ∨ after = true →
    intDigits u after n s = numeralValueFrom 10 n s
  | [], after, n, _, h => by simpa [intDigits, numeralValueFrom] using h
  | c :: cs, after, n, hdigits, _ => by
      obtain ⟨d, hd, rfl⟩ := hdigits c (by simp)
      obtain ⟨hdigit, hunderscore, _, _, hvalue⟩ := digitChar_isDigit d hd
      rw [intDigits, if_neg hunderscore, u.digit_ascii _ hdigit, hvalue, Option.bind_some,
        numeralValueFrom, digitOf_digitChar d (by omega), Option.bind_some, if_pos hd]
      exact intDigits_numeral u cs true _ (fun c hc => hdigits c (by simp [hc])) (.inr rfl)

theorem decimalText_ne_nil (n : ℕ) : decimalText n ≠ [] := by
  intro h
  have := congrArg List.length h
  simp [decimalText] at this

theorem intDigits_decimalText (u : Unicode) (n : ℕ) :
    intDigits u false 0 (decimalText n) = some n := by
  rw [intDigits_numeral u (decimalText n) _ _ (fun _ hc => mem_numeral _ _ hc)
    (.inl (decimalText_ne_nil n))]
  exact decimalValue_decimalText n

/-- A text without blanks at its ends is stripped of nothing. -/
theorem strip_eq_self {u : Unicode} {s : Str} (h : ∀ c ∈ s, ¬ u.isSpace c) : strip u s = s := by
  have hdrop : s.dropWhile u.isSpace = s := by
    cases s with
    | nil => rfl
    | cons c cs => exact List.dropWhile_cons_of_neg (by simpa using h c (by simp))
  rw [strip, hdrop, List.rdropWhile_eq_self_iff]
  exact fun hne => by simpa using h _ (List.getLast_mem hne)

theorem decimalText_not_space (u : Unicode) (n : ℕ) : ∀ c ∈ decimalText n, ¬ u.isSpace c := by
  intro c hc
  obtain ⟨d, hd, rfl⟩ := mem_numeral _ _ hc
  have hdigit := u.digit_ascii _ (digitChar_isDigit d hd).1
  exact u.digit_not_space _ (by rw [hdigit]; rfl)

/-- LOSSLESS: an integer is read back from its text. -/
theorem pyInt_intText (u : Unicode) (n : ℤ) : pyInt u (intText n) = some n := by
  have hdigits := intDigits_decimalText u n.natAbs
  unfold pyInt intText
  by_cases hneg : n < 0
  · have hstrip : strip u ('-' :: decimalText n.natAbs) = '-' :: decimalText n.natAbs :=
      strip_eq_self fun c hc => by
        rcases List.mem_cons.mp hc with rfl | hc
        · exact u.sign_not_space _ (.inl rfl)
        · exact decimalText_not_space u _ c hc
    rw [if_pos hneg, hstrip]
    simp only [hdigits, Option.map_some]
    exact congrArg some (by omega)
  · rw [if_neg hneg, strip_eq_self (decimalText_not_space u _)]
    have hsign : ∀ c ∈ decimalText n.natAbs, c ≠ '-' ∧ c ≠ '+' := by
      intro c hc
      obtain ⟨d, hd, rfl⟩ := mem_numeral _ _ hc
      exact ⟨(digitChar_isDigit d hd).2.2.1, (digitChar_isDigit d hd).2.2.2.1⟩
    split
    · next t ht => exact absurd rfl (hsign '-' (by rw [ht]; simp)).1
    · next t ht => exact absurd rfl (hsign '+' (by rw [ht]; simp)).2
    · rw [hdigits, Option.map_some]
      exact congrArg some (Int.natAbs_of_nonneg (by omega))

end Dpone.Schemes
