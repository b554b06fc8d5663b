import Dpone.Schemes.Bytes
import Dpone.Schemes.Numeral

/-! UUIDs: their text, reading a text leniently as Python does, and the mixed-endian bytes.

    `UUID(text)` drops `urn:` and `uuid:`, braces at the ends and all hyphens, wants 32 characters,
    and gives them to `int(text, 16)`. CORRECT: the text a UUID is written as is read back, and so
    are its bytes. -/

namespace Dpone.Schemes

/-- A number of 128 bits. -/
abbrev Uuid := {n : ℕ // n < 256 ^ 16}

variable (u : Unicode)

/-! ### Reading -/

/-- Deleting every occurrence from left to right; the counter runs over the text of one. -/
def removeAll (needle : Str) : ℕ → Str → Str
  | _, [] => []
  | skip + 1, _ :: cs => removeAll needle skip cs
  | 0, c :: cs =>
    if needle.isPrefixOf (c :: cs) then removeAll needle (needle.length - 1) cs
    else c :: removeAll needle 0 cs

def brace (c : Char) : Bool := c = '{' || c = '}'

/-- A digit of base sixteen; Python also takes decimal digits of other scripts. -/
def hexDigit (c : Char) : Option ℕ := digitOf c <|> u.digit c

/-- Digits with single underscores between them, `after` telling whether one may follow. -/
def hexDigits : Bool → ℕ → Str → Option ℕ
  | after, n, [] => if after then some n else none
  | after, n, c :: cs =>
    if c = '_' then if after then hexDigits false n cs else none
    else (hexDigit u c).bind fun d => hexDigits true (16 * n + d) cs

/-- `int(text, 16)` without the sign: an optional `0x` may be followed by an underscore. -/
def hexMagnitude : Str → Option ℕ
  | '0' :: 'x' :: t => if t = [] then none else hexDigits u true 0 t
  | '0' :: 'X' :: t => if t = [] then none else hexDigits u true 0 t
  | t => hexDigits u false 0 t

/-- `int(text, 16)`. -/
def pyHexInt (s : Str) : Option ℤ :=
  match strip u s with
  | '-' :: t => (hexMagnitude u t).map fun n : ℕ => -(n : ℤ)
  | '+' :: t => (hexMagnitude u t).map fun n : ℕ => (n : ℤ)
  | t => (hexMagnitude u t).map fun n : ℕ => (n : ℤ)

namespace Uuid

/-- `UUID(text)`. -/
def ofText (s : Str) : Option Uuid := do
  let bare := removeAll "uuid:".toList 0 (removeAll "urn:".toList 0 s)
  let hex := ((bare.dropWhile brace).rdropWhile brace).filter (· ≠ '-')
  if hex.length = 32 then
    let n ← pyHexInt u hex
    if h : 0 ≤ n ∧ n.toNat < 256 ^ 16 then some ⟨n.toNat, h.2⟩ else none
  else none

/-! ### Writing -/

/-- `str(uuid)`. -/
def text (x : Uuid) : Str :=
  let hex := numeral 16 32 x.val
  hex.take 8 ++ '-' :: (hex.drop 8).take 4 ++ '-' :: (hex.drop 12).take 4 ++
    '-' :: (hex.drop 16).take 4 ++ '-' :: hex.drop 20

/-- The order of a GUID's bytes in memory: the first three fields reversed. -/
def guidOrder (b : Bytes) : Bytes :=
  (b.take 4).reverse ++ ((b.drop 4).take 2).reverse ++ ((b.drop 6).take 2).reverse ++ b.drop 8

/-- `uuid.bytes_le`. -/
def bytesLe (x : Uuid) : Bytes := guidOrder (toLE 16 x.val).reverse

/-- `UUID(bytes_le=payload)`. -/
def ofBytesLe (payload : Bytes) : Option Uuid :=
  if h : payload.length = 16 then
    some ⟨ofLE (guidOrder payload).reverse, by
      have := ofLE_lt (guidOrder payload).reverse
      simpa [guidOrder, h] using this⟩
  else none

/-! ### Round trips -/

theorem guidOrder_guidOrder {b : Bytes} (h : b.length = 16) : guidOrder (guidOrder b) = b := by
  match b, h with
  | [_, _, _, _, _, _, _, _, _, _, _, _, _, _, _, _], _ => rfl

theorem bytesLe_length (x : Uuid) : x.bytesLe.length = 16 := by
  simp [bytesLe, guidOrder]

/-- LOSSLESS: the bytes of a UUID are read back. -/
theorem ofBytesLe_bytesLe (x : Uuid) : ofBytesLe x.bytesLe = some x := by
  rw [ofBytesLe, dif_pos (bytesLe_length x)]
  refine congrArg some (Subtype.ext ?_)
  show ofLE (guidOrder (guidOrder (toLE 16 x.val).reverse)).reverse = x.val
  rw [guidOrder_guidOrder (by simp), List.reverse_reverse, ofLE_toLE 16 x.val x.property]

end Uuid

theorem removeAll_eq_self {c : Char} {needle : Str} : ∀ {s : Str}, c ∉ s →
    removeAll (c :: needle) 0 s = s
  | [], _ => rfl
  | d :: s, h => by
      obtain ⟨hd, hs⟩ := not_or.mp (List.mem_cons.not.mp h)
      rw [removeAll, if_neg, removeAll_eq_self hs]
      rw [List.isPrefixOf_cons_cons]
      simp [hd]

theorem mem_hexNumeral : ∀ (w n : ℕ) {c : Char}, c ∈ numeral 16 w n → ∃ d < 16, c = digitChar d
  | 0, _, _, h => by cases h
  | w + 1, n, c, h => by
      rcases List.mem_append.mp h with h | h
      · exact mem_hexNumeral w _ h
      · exact ⟨n % 16, Nat.mod_lt _ (by decide), List.mem_singleton.mp h⟩

theorem hexChar_facts : ∀ d < 16, (digitChar d).isAlphanum ∧ digitChar d ≠ '_' ∧
    digitChar d ≠ '-' ∧ digitChar d ≠ '+' ∧ digitChar d ≠ 'x' ∧ digitChar d ≠ 'X' ∧
    digitChar d ≠ 'u' ∧ brace (digitChar d) = false := by decide

theorem hexDigits_numeral : ∀ (s : Str) (after : Bool) (n : ℕ),
    (∀ c ∈ s, ∃ d < 16, c = digitChar d) → s ≠ [] ∨ after = true →
    hexDigits u after n s = numeralValueFrom 16 n s
  | [], after, n, _, h => by simpa [hexDigits, numeralValueFrom] using h
  | c :: cs, after, n, hdigits, _ => by
      obtain ⟨d, hd, rfl⟩ := hdigits c (by simp)
      obtain ⟨-, hunderscore, -⟩ := hexChar_facts d hd
      have hdigit : hexDigit u (digitChar d) = some d := by
        rw [hexDigit, digitOf_digitChar d hd]
        rfl
      rw [hexDigits, if_neg hunderscore, hdigit, Option.bind_some, numeralValueFrom,
        digitOf_digitChar d hd, Option.bind_some, if_pos hd]
      exact hexDigits_numeral cs true _ (fun c hc => hdigits c (by simp [hc])) (.inr rfl)

/-- A numeral of base sixteen is read as an integer. -/
theorem pyHexInt_numeral {w n : ℕ} (hw : w ≠ 0) (hn : n < 16 ^ w) :
    pyHexInt u (numeral 16 w n) = some n := by
  have hmem := fun c (hc : c ∈ numeral 16 w n) => mem_hexNumeral w n hc
  have hstrip : strip u (numeral 16 w n) = numeral 16 w n := strip_eq_self fun c hc => by
    obtain ⟨d, hd, rfl⟩ := hmem c hc
    exact fun hs => u.space_not_word _ hs (u.word_ascii _ (hexChar_facts d hd).1)
  have hne : numeral 16 w n ≠ [] := by
    intro h
    have := congrArg List.length h
    simp at this
    exact hw this
  have hvalue : hexMagnitude u (numeral 16 w n) = some n := by
    have hplain := hexDigits_numeral u (numeral 16 w n) false 0 hmem (.inl hne)
    rw [← numeralValue, numeralValue_numeral (by decide) (by decide) w n hn] at hplain
    unfold hexMagnitude
    split
    · next t h =>
      obtain ⟨d, hd, e⟩ := hmem 'x' (by rw [h]; simp)
      exact absurd e.symm (hexChar_facts d hd).2.2.2.2.1
    · next t h =>
      obtain ⟨d, hd, e⟩ := hmem 'X' (by rw [h]; simp)
      exact absurd e.symm (hexChar_facts d hd).2.2.2.2.2.1
    · exact hplain
  rw [pyHexInt, hstrip]
  split
  · next t h =>
    obtain ⟨d, hd, e⟩ := hmem '-' (by rw [h]; simp)
    exact absurd e.symm (hexChar_facts d hd).2.2.1
  · next t h =>
    obtain ⟨d, hd, e⟩ := hmem '+' (by rw [h]; simp)
    exact absurd e.symm (hexChar_facts d hd).2.2.2.1
  · rw [hvalue]
    rfl

namespace Uuid

/-- The text of a UUID is its digits and hyphens. -/
theorem mem_text {x : Uuid} {c : Char} (h : c ∈ x.text) : c = '-' ∨ ∃ d < 16, c = digitChar d := by
  have hdigit : c ∈ numeral 16 32 x.val → c = '-' ∨ ∃ d < 16, c = digitChar d :=
    fun hc => .inr (mem_hexNumeral 32 _ hc)
  have htake : ∀ i j, c ∈ ((numeral 16 32 x.val).drop i).take j → c ∈ numeral 16 32 x.val :=
    fun i j hc => List.mem_of_mem_drop (List.mem_of_mem_take hc)
  simp only [text, List.cons_append, List.append_assoc, List.mem_append, List.mem_cons] at h
  rcases h with h | h | h | h | h | h | h | h | h
  · exact hdigit (List.mem_of_mem_take h)
  · exact .inl h
  · exact hdigit (htake _ _ h)
  · exact .inl h
  · exact hdigit (htake _ _ h)
  · exact .inl h
  · exact hdigit (htake _ _ h)
  · exact .inl h
  · exact hdigit (List.mem_of_mem_drop h)

theorem filter_text (x : Uuid) : x.text.filter (· ≠ '-') = numeral 16 32 x.val := by
  have hkeep : ∀ s : Str, s ⊆ numeral 16 32 x.val → s.filter (· ≠ '-') = s := by
    intro s hs
    refine List.filter_eq_self.mpr fun c hc => ?_
    obtain ⟨d, hd, rfl⟩ := mem_hexNumeral 32 _ (hs hc)
    exact decide_eq_true (hexChar_facts d hd).2.2.1
  have htake : ∀ i j, ((numeral 16 32 x.val).drop i).take j ⊆ numeral 16 32 x.val :=
    fun i j _ hc => List.mem_of_mem_drop (List.mem_of_mem_take hc)
  have hhyphen : ∀ s : Str, ('-' :: s).filter (· ≠ '-') = s.filter (· ≠ '-') :=
    fun s => List.filter_cons_of_neg (by simp)
  rw [text]
  simp only [List.cons_append, List.append_assoc, List.filter_append, hhyphen]
  rw [hkeep _ (List.take_subset _ _), hkeep _ (htake _ _), hkeep _ (htake _ _),
    hkeep _ (htake _ _), hkeep _ (List.drop_subset _ _)]
  have hdrop : ∀ i j, ((numeral 16 32 x.val).drop i).take j ++ (numeral 16 32 x.val).drop (i + j) =
      (numeral 16 32 x.val).drop i := by
    intro i j
    rw [← List.drop_drop, List.take_append_drop]
  rw [hdrop 16 4, hdrop 12 4, hdrop 8 4, List.take_append_drop]

/-- LOSSLESS: the text of a UUID is read back. -/
theorem ofText_text (x : Uuid) : ofText u x.text = some x := by
  have hno : ∀ c, c ≠ '-' → (∀ d < 16, digitChar d ≠ c) → c ∉ x.text := by
    intro c hhyphen hdigit hc
    rcases mem_text hc with rfl | ⟨d, hd, rfl⟩
    · exact hhyphen rfl
    · exact hdigit d hd rfl
  have hu : 'u' ∉ x.text := hno 'u' (by decide) (by decide)
  have hfirst : ∀ s : Str, (∀ c ∈ s, c ∈ x.text) → s.dropWhile brace = s := by
    intro s hs
    cases s with
    | nil => rfl
    | cons c s =>
      refine List.dropWhile_cons_of_neg ?_
      rcases mem_text (hs c (by simp)) with rfl | ⟨d, hd, rfl⟩
      · decide
      · rw [(hexChar_facts d hd).2.2.2.2.2.2.2]
        decide
  have hlast : x.text.rdropWhile brace = x.text := by
    rw [List.rdropWhile, hfirst _ (by simp), List.reverse_reverse]
  have hlt : x.val < 16 ^ 32 := x.property.trans_eq (by norm_num)
  have hbound : (0 : ℤ) ≤ (x.val : ℤ) ∧ (x.val : ℤ).toNat < 256 ^ 16 :=
    ⟨Int.natCast_nonneg _, by simpa using x.property⟩
  unfold ofText
  rw [show "urn:".toList = 'u' :: "rn:".toList from rfl, removeAll_eq_self hu,
    show "uuid:".toList = 'u' :: "uid:".toList from rfl, removeAll_eq_self hu]
  dsimp only
  rw [hfirst _ fun _ hc => hc, hlast, filter_text, if_pos (numeral_length ..), pyHexInt_numeral u (by decide) hlt]
  show (if h : 0 ≤ (x.val : ℤ) ∧ (x.val : ℤ).toNat < 256 ^ 16 then _ else _) = _
  rw [dif_pos hbound]
  rfl

end Uuid

end Dpone.Schemes
