import Dpone.Schemes.Numeral

/-! JSON texts in ASCII: what `json.dumps` writes of strings and of arrays without blanks.

    Characters outside of ASCII are written as the code units of UTF-16. The texts are
    self-delimiting: where one begins a text, neither what was written nor what follows it is in
    doubt, so a digest of such a text is a digest of the values. -/

namespace Dpone.Schemes

/-- Two values written in front of something are told apart. -/
def SelfDelimiting {α : Type} (write : α → Str) : Prop :=
  ∀ a b x y, write a ++ x = write b ++ y → a = b ∧ x = y

namespace JsonAscii

/-! ### Strings -/

/-- The characters with an escape of two characters. -/
def shortEscape (c : Char) : Option Char :=
  if c = '"' then some '"'
  else if c = '\\' then some '\\'
  else if c = '\n' then some 'n'
  else if c = '\r' then some 'r'
  else if c = '\t' then some 't'
  else if c = Char.ofNat 12 then some 'f'
  else if c = Char.ofNat 8 then some 'b'
  else none

def unitText (n : ℕ) : Str := '\\' :: 'u' :: numeral 16 4 n

def escape (c : Char) : Str :=
  match shortEscape c with
  | some k => ['\\', k]
  | none =>
    if 32 ≤ c.toNat ∧ c.toNat ≤ 126 then [c]
    else if c.toNat < 0x10000 then unitText c.toNat
    else unitText (0xD800 + (c.toNat - 0x10000) / 1024) ++
      unitText (0xDC00 + (c.toNat - 0x10000) % 1024)

def quoted (s : Str) : Str := '"' :: (s.flatMap escape ++ ['"'])

/-- What two characters escape. -/
def longEscape : Char → Option Char
  | '"' => some '"'
  | '\\' => some '\\'
  | 'n' => some '\n'
  | 'r' => some '\r'
  | 't' => some '\t'
  | 'f' => some (Char.ofNat 12)
  | 'b' => some (Char.ofNat 8)
  | _ => none

/-- The four digits of a code unit. -/
def readUnit (s : Str) : ℕ := (numeralValue 16 (s.take 4)).getD 0

/-- The character that a text begins with. -/
def readEscaped : Str → Option (Char × Str)
  | '\\' :: 'u' :: s =>
    let n := readUnit s
    if 0xD800 ≤ n ∧ n < 0xDC00 then
      some (Char.ofNat (0x10000 + (n - 0xD800) * 1024 + (readUnit (s.drop 6) - 0xDC00)), s.drop 10)
    else some (Char.ofNat n, s.drop 4)
  | '\\' :: k :: s => (longEscape k).map fun c => (c, s)
  | c :: s => some (c, s)
  | [] => none

theorem readEscaped_plain {c : Char} (h : c ≠ '\\') (s : Str) :
    readEscaped (c :: s) = some (c, s) := by
  rw [readEscaped]
  · exact fun s' heq => absurd heq h
  · exact fun k s' heq => absurd heq h

theorem readUnit_numeral {n : ℕ} (h : n < 0x10000) (s : Str) :
    readUnit (numeral 16 4 n ++ s) = n := by
  rw [readUnit, List.take_left' (numeral_length ..),
    numeralValue_numeral (by decide) (by decide) 4 n h]
  rfl

theorem readEscaped_short {c k : Char} (h : shortEscape c = some k) (s : Str) :
    readEscaped ('\\' :: k :: s) = some (c, s) := by
  unfold shortEscape at h
  split_ifs at h with h₁ h₂ h₃ h₄ h₅ h₆ h₇ <;> cases h
  · rw [h₁]; rfl
  · rw [h₂]; rfl
  · rw [h₃]; rfl
  · rw [h₄]; rfl
  · rw [h₅]; rfl
  · rw [h₆]; rfl
  · rw [h₇]; rfl

/-- LOSSLESS: an escaped character is read back, whatever follows. -/
theorem readEscaped_escape (c : Char) (s : Str) : readEscaped (escape c ++ s) = some (c, s) := by
  have hvalid : c.toNat < 0xD800 ∨ 0xDFFF < c.toNat ∧ c.toNat < 0x110000 := c.valid
  unfold escape
  split
  · next k hk => exact readEscaped_short hk s
  next hnone =>
  split_ifs with hprintable hbasic
  · refine readEscaped_plain (fun hc => ?_) s
    rw [hc] at hnone
    cases hnone
  · -- one code unit, which is no surrogate
    have hread := readUnit_numeral hbasic s
    have hdrop : (numeral 16 4 c.toNat ++ s).drop 4 = s := List.drop_left' (numeral_length ..)
    simp only [unitText, List.cons_append, readEscaped, hread, hdrop, Char.ofNat_toNat]
    rw [if_neg (by omega)]
  · -- two code units
    set v := c.toNat - 0x10000 with hv
    have hhigh : 0xD800 + v / 1024 < 0x10000 := by omega
    have hlow : 0xDC00 + v % 1024 < 0x10000 := by omega
    set low := numeral 16 4 (0xDC00 + v % 1024) with hlowdef
    have hread := readUnit_numeral hhigh ('\\' :: 'u' :: (low ++ s))
    have hdrop : (numeral 16 4 (0xD800 + v / 1024) ++ '\\' :: 'u' :: (low ++ s)).drop 6 =
        low ++ s := by
      rw [← List.drop_drop (i := 2) (j := 4), List.drop_left' (numeral_length ..)]
      rfl
    have hread' : readUnit (low ++ s) = 0xDC00 + v % 1024 := readUnit_numeral hlow s
    have hdrop' : (numeral 16 4 (0xD800 + v / 1024) ++ '\\' :: 'u' :: (low ++ s)).drop 10 = s := by
      rw [← List.drop_drop (i := 4) (j := 6), hdrop, List.drop_left' (numeral_length ..)]
    have hchar : 0x10000 + (0xD800 + v / 1024 - 0xD800) * 1024 + (0xDC00 + v % 1024 - 0xDC00) =
        c.toNat := by omega
    simp only [unitText, List.cons_append, List.append_assoc, readEscaped, ← hlowdef, hread, hdrop,
      hread', hdrop', hchar, Char.ofNat_toNat]
    rw [if_pos (by omega)]

/-- A quote inside of a string is escaped. -/
theorem escape_not_quote {c : Char} {x y : Str} : '"' :: x ≠ escape c ++ y := by
  intro h
  have hread := readEscaped_escape c y
  rw [← h, readEscaped_plain (by decide)] at hread
  obtain ⟨rfl, -⟩ := Prod.mk.inj (Option.some.inj hread)
  cases h

theorem flatMap_escape_inj : ∀ {s t x y : Str},
    s.flatMap escape ++ '"' :: x = t.flatMap escape ++ '"' :: y → s = t ∧ x = y
  | [], [], _, _, h => ⟨rfl, (List.cons.inj h).2⟩
  | [], _ :: _, _, _, h => by
    rw [List.flatMap_cons, List.append_assoc] at h
    exact absurd h escape_not_quote
  | _ :: _, [], _, _, h => by
    rw [List.flatMap_cons, List.append_assoc] at h
    exact absurd h.symm escape_not_quote
  | c :: s, d :: t, x, y, h => by
    rw [List.flatMap_cons, List.flatMap_cons, List.append_assoc, List.append_assoc] at h
    have hread := readEscaped_escape c (s.flatMap escape ++ '"' :: x)
    rw [h, readEscaped_escape] at hread
    obtain ⟨rfl, hrest⟩ := Prod.mk.inj (Option.some.inj hread)
    obtain ⟨rfl, rfl⟩ := flatMap_escape_inj hrest.symm
    exact ⟨rfl, rfl⟩

theorem quoted_selfDelimiting : SelfDelimiting quoted := by
  intro s t x y h
  simp only [quoted, List.cons_append, List.append_assoc, List.nil_append, List.cons.injEq,
    true_and] at h
  exact flatMap_escape_inj h

/-! ### Arrays -/

/-- The items after the first, and the bracket. -/
def dumpTail : List Str → Str
  | [] => [']']
  | item :: rest => ',' :: (item ++ dumpTail rest)

def dumpArray : List Str → Str
  | [] => ['[', ']']
  | item :: rest => '[' :: (item ++ dumpTail rest)

variable {α : Type} {write : α → Str}

theorem dumpTail_selfDelimiting (h : SelfDelimiting write) :
    SelfDelimiting fun items : List α => dumpTail (items.map write) := by
  intro as
  induction as with
  | nil =>
    intro bs x y heq
    cases bs with
    | nil => exact ⟨rfl, (List.cons.inj heq).2⟩
    | cons b bs => cases heq
  | cons a as ih =>
    intro bs x y heq
    cases bs with
    | nil => cases heq
    | cons b bs =>
      simp only [List.map_cons, dumpTail, List.cons_append, List.append_assoc, List.cons.injEq,
        true_and] at heq
      obtain ⟨rfl, hrest⟩ := h a b _ _ heq
      obtain ⟨rfl, rfl⟩ := ih bs x y hrest
      exact ⟨rfl, rfl⟩

/-- An array is self-delimiting when its items are, and none looks like its end. -/
theorem dumpArray_selfDelimiting (h : SelfDelimiting write)
    (hclosed : ∀ a, (write a).head? ≠ some ']' ∧ write a ≠ []) :
    SelfDelimiting fun items : List α => dumpArray (items.map write) := by
  have hempty : ∀ a x y, [']'] ++ x ≠ write a ++ y := by
    intro a x y heq
    obtain ⟨hhead, hne⟩ := hclosed a
    cases hwrite : write a with
    | nil => exact hne hwrite
    | cons c cs =>
      rw [hwrite] at heq hhead
      obtain ⟨rfl, -⟩ := List.cons.inj heq
      exact hhead rfl
  intro as bs x y heq
  cases as with
  | nil =>
    cases bs with
    | nil => exact ⟨rfl, List.append_cancel_left heq⟩
    | cons b bs =>
      simp only [List.map_nil, List.map_cons, dumpArray, List.cons_append, List.append_assoc,
        List.cons.injEq, true_and] at heq
      exact absurd heq (hempty b _ _)
  | cons a as =>
    cases bs with
    | nil =>
      simp only [List.map_nil, List.map_cons, dumpArray, List.cons_append, List.append_assoc,
        List.cons.injEq, true_and] at heq
      exact absurd heq.symm (hempty a _ _)
    | cons b bs =>
      simp only [List.map_cons, dumpArray, List.cons_append, List.append_assoc, List.cons.injEq,
        true_and] at heq
      obtain ⟨rfl, hrest⟩ := h a b _ _ heq
      obtain ⟨rfl, rfl⟩ := dumpTail_selfDelimiting h as bs x y hrest
      exact ⟨rfl, rfl⟩

end JsonAscii

end Dpone.Schemes
