import Mathlib.Data.List.DropRight
import Dpone.Schemes.Utf

/-! Python text over an arbitrary Unicode character database.

    A `str` is a list of characters. The character classes behind `str.isspace`, `\w`, `\d` and
    `str.lower` are tables of the Unicode database, so they are the fields of a structure, together
    with the few facts about them that hold in every Unicode version: blanks and brackets are
    caseless and cut the context lower-casing looks at, and no text shrinks. Everything below is a
    function of such a database, and every result holds for all of them.

    Regular expressions of the form used here never back up over a repetition, since the class that
    repeats and the character that follows it are disjoint; each is a left-to-right scanner. -/

namespace Dpone.Schemes

abbrev Str := List Char

instance : LawfulBEq Str := inferInstance

/-- The characters the patterns below break on. -/
def bracket (c : Char) : Bool := c = '(' || c = ')' || c = ','

structure Unicode where
  /-- Value of a decimal digit (`\d`). -/
  digit : Char → Option ℕ
  /-- `str.isspace`. -/
  isSpace : Char → Bool
  /-- `\w`. -/
  isWord : Char → Bool
  /-- `str.lower`. -/
  lower : Str → Str
  lower_break : ∀ a c b, isSpace c ∨ bracket c → lower (a ++ c :: b) = lower a ++ c :: lower b
  lower_mem : ∀ a c, isSpace c ∨ bracket c → c ∈ lower a → c ∈ a
  lower_eq_nil : ∀ a, lower a = [] ↔ a = []
  lower_ascii : ∀ a, (∀ c ∈ lower a, c.toNat < 128) → (lower a).length = a.length
  word_ascii : ∀ c, c.isAlphanum → isWord c
  space_not_word : ∀ c, isSpace c → ¬ isWord c
  space_not_bracket : ∀ c, isSpace c → ¬ bracket c
  digit_not_space : ∀ c, (digit c).isSome → ¬ isSpace c
  digit_not_bracket : ∀ c, (digit c).isSome → ¬ bracket c
  digit_ascii : ∀ c, c.isDigit → digit c = some (c.toNat - 48)
  sign_not_space : ∀ c, c = '-' ∨ c = '+' → ¬ isSpace c

/-- A separator that no tail contains cuts a text in one way. -/
theorem cut_at_last {c : Char} {s t x y : Str} (hx : c ∉ x) (hy : c ∉ y)
    (h : s ++ c :: x = t ++ c :: y) : s = t ∧ x = y := by
  rcases List.append_eq_append_iff.mp h with ⟨w, rfl, hw⟩ | ⟨w, rfl, hw⟩
  · cases w with
    | nil => exact ⟨(List.append_nil s).symm, by simpa using hw⟩
    | cons d w => exact absurd (by simp_all) hx
  · cases w with
    | nil => exact ⟨List.append_nil t, by simpa using hw.symm⟩
    | cons d w => exact absurd (by simp_all) hy

variable (u : Unicode)

/-- `str.strip()`. -/
def strip (s : Str) : Str := (s.dropWhile u.isSpace).rdropWhile u.isSpace

/-- `str.split("(", 1)[0]`. -/
def beforeParen (s : Str) : Str := s.takeWhile (· ≠ '(')

/-- One literal character. -/
def lit (c : Char) : Str → Option Str
  | [] => none
  | d :: r => if d = c then some r else none

/-- `\s*`. -/
def blanks (s : Str) : Str := s.dropWhile u.isSpace

/-- `int()` of a run of decimal digits. -/
def digitsValue (ds : Str) : ℕ := ds.foldl (fun n c => 10 * n + (u.digit c).getD 0) 0

/-- `(\d+)`: the value of a nonempty run of digits, and what follows it. -/
def digits (s : Str) : Option (ℕ × Str) :=
  let ds := s.takeWhile fun c => (u.digit c).isSome
  if ds = [] then none else some (digitsValue u ds, s.dropWhile fun c => (u.digit c).isSome)

/-- `re.search`: the leftmost position where the scanner succeeds. -/
def search {α} (p : Str → Option α) : Str → Option α
  | [] => p []
  | c :: cs => p (c :: cs) <|> search p cs

/-- `\((\d+)\)`. -/
def parenNumber (s : Str) : Option ℕ := do
  let (n, r) ← digits u (← lit '(' s)
  let _ ← lit ')' r
  return n

/-- `\((\d+)\s*,\s*(\d+)\)`. -/
def parenPair (s : Str) : Option (ℕ × ℕ) := do
  let (p, r) ← digits u (← lit '(' s)
  let (q, r) ← digits u (blanks u (← lit ',' (blanks u r)))
  let _ ← lit ')' r
  return (p, q)

/-- `needle in s`. -/
def contains (needle : Str) : Str → Bool
  | [] => needle.isPrefixOf []
  | c :: cs => needle.isPrefixOf (c :: cs) || contains needle cs

/-- ASCII blanks of `str.isspace`: tab to carriage return, the four separators, space. -/
def asciiSpace (c : Char) : Bool :=
  (9 ≤ c.toNat && c.toNat ≤ 13) || (28 ≤ c.toNat && c.toNat ≤ 32)

/-- The database restricted to ASCII, every other character being a caseless symbol. -/
def Unicode.ascii : Unicode where
  digit c := if c.isDigit then some (c.toNat - 48) else none
  isSpace := asciiSpace
  isWord c := c.isAlphanum || c = '_'
  lower s := s.map Char.toLower
  lower_break a c b h := by
    have hc : c.toLower = c := by
      unfold Char.toLower
      rw [dif_neg]
      simp only [asciiSpace, bracket, Bool.or_eq_true, Bool.and_eq_true,
        decide_eq_true_eq] at h
      rintro ⟨h1, h2⟩
      simp only [ge_iff_le, UInt32.le_iff_toNat_le] at h1 h2
      rcases h with h | (rfl | rfl) | rfl
      · simp at h1 h2; omega
      all_goals simp at h1
    simp [hc]
  lower_mem a c h hc := by
    obtain ⟨d, hd, rfl⟩ := List.mem_map.mp hc
    have : d.toLower = d := by
      unfold Char.toLower at h ⊢
      split
      · next hu =>
        exfalso
        rw [dif_pos hu] at h
        obtain ⟨h1, h2⟩ := hu
        simp only [ge_iff_le, UInt32.le_iff_toNat_le] at h1 h2
        simp only [asciiSpace, bracket, Bool.or_eq_true, Bool.and_eq_true, decide_eq_true_eq,
          Char.toNat, Char.ext_iff, ← UInt32.toNat_inj] at h
        simp only [UInt32.toNat_add] at h
        simp at h1 h2 h; omega
      · rfl
    rwa [this]
  lower_eq_nil a := by simp
  lower_ascii a _ := by simp
  word_ascii c h := by simp [h]
  space_not_word c h hw := by
    unfold Char.isAlphanum Char.isAlpha Char.isUpper Char.isLower Char.isDigit at hw
    simp only [asciiSpace, Bool.or_eq_true, Bool.and_eq_true, decide_eq_true_eq, Char.ext_iff,
      ← UInt32.toNat_inj, ge_iff_le, UInt32.le_iff_toNat_le] at h hw
    simp at hw; omega
  space_not_bracket c h hb := by
    simp only [asciiSpace, bracket, Bool.or_eq_true, Bool.and_eq_true, decide_eq_true_eq] at h hb
    rcases hb with (rfl | rfl) | rfl <;> simp at h
  digit_not_space c h hs := by
    have hd : c.isDigit := by by_contra hn; simp [hn] at h
    simp only [asciiSpace, Bool.or_eq_true, Bool.and_eq_true, decide_eq_true_eq,
      Char.isDigit, ge_iff_le, UInt32.le_iff_toNat_le] at hd hs
    simp at hd; omega
  digit_not_bracket c h hb := by
    have hd : c.isDigit := by by_contra hn; simp [hn] at h
    simp only [bracket, Bool.or_eq_true, decide_eq_true_eq] at hb
    rcases hb with (rfl | rfl) | rfl <;> simp at hd
  digit_ascii c h := by simp [h]
  sign_not_space c h := by rcases h with rfl | rfl <;> decide

end Dpone.Schemes
