import Dpone.Schemes.Numeral
import Dpone.Schemes.Utf

/-! Delimited records: words split at a separator, lines read up to a terminator, bytes as pairs of
    hexadecimal digits. LOSSLESS: parts without the separator are split again where they were
    joined, lines are read again where they were ended, and a hexadecimal text is the bytes it was
    written from. -/

namespace Dpone.Schemes

section Words
variable {α : Type} [DecidableEq α]

/-- `c` in front of the first part. -/
def consPart (c : α) : List (List α) → List (List α)
  | [] => [[c]]
  | part :: parts => (c :: part) :: parts

/-- Splitting after `k` more characters of a separator have been passed. -/
def splitFrom (sep : List α) : ℕ → List α → List (List α)
  | _, [] => [[]]
  | k + 1, _ :: s => splitFrom sep k s
  | 0, c :: s =>
    if sep.isPrefixOf (c :: s) then [] :: splitFrom sep (sep.length - 1) s
    else consPart c (splitFrom sep 0 s)

/-- `s.split(sep)` for a non-empty separator. -/
def splitWord (sep s : List α) : List (List α) := splitFrom sep 0 s

theorem splitWord_part {x : α} : ∀ {part : List α}, x ∉ part → splitWord [x] part = [part]
  | [], _ => rfl
  | c :: part, h => by
    have hc : ¬ [x].isPrefixOf (c :: part) = true := by
      rw [List.isPrefixOf_iff_prefix]
      exact fun hp => h (List.mem_cons.mpr (.inl (List.cons_prefix_cons.mp hp).1))
    have htail : splitWord [x] part = [part] :=
      splitWord_part fun hx => h (List.mem_cons_of_mem _ hx)
    rw [splitWord, splitFrom, if_neg hc, ← splitWord, htail, consPart]

theorem splitWord_append {x : α} : ∀ {part : List α} (s : List α), x ∉ part →
    splitWord [x] (part ++ x :: s) = part :: splitWord [x] s
  | [], s, _ => by
    have hx : [x].isPrefixOf (x :: s) = true := List.isPrefixOf_iff_prefix.mpr ⟨s, rfl⟩
    rw [List.nil_append, splitWord, splitFrom, if_pos hx]
    rfl
  | c :: part, s, h => by
    have hc : ¬ [x].isPrefixOf (c :: (part ++ x :: s)) = true := by
      rw [List.isPrefixOf_iff_prefix]
      exact fun hp => h (List.mem_cons.mpr (.inl (List.cons_prefix_cons.mp hp).1))
    have htail := splitWord_append s fun hx => h (List.mem_cons_of_mem _ hx)
    rw [List.cons_append, splitWord, splitFrom, if_neg hc, ← splitWord, htail, consPart]

/-- No part contains the separator. -/
theorem notMem_splitWord {x : α} : ∀ {s part : List α}, part ∈ splitWord [x] s → x ∉ part
  | [], part, h => by
    rw [List.mem_singleton.mp h]
    exact List.not_mem_nil
  | c :: s, part, h => by
    have ih : ∀ part ∈ splitWord [x] s, x ∉ part := fun part hpart => notMem_splitWord hpart
    rw [splitWord, splitFrom] at h
    by_cases hc : [x].isPrefixOf (c :: s) = true
    · rw [if_pos hc] at h
      rcases List.mem_cons.mp h with rfl | h
      · exact List.not_mem_nil
      · exact ih part h
    · rw [if_neg hc, ← splitWord] at h
      have hne : x ≠ c := fun hxc => hc (List.isPrefixOf_iff_prefix.mpr ⟨s, by rw [hxc]; rfl⟩)
      rcases hparts : splitWord [x] s with _ | ⟨first, rest⟩ <;> rw [hparts] at h ih
      · rw [List.mem_singleton.mp h, List.mem_singleton]
        exact hne
      · rcases List.mem_cons.mp h with rfl | h
        · rw [List.mem_cons, not_or]
          exact ⟨hne, ih first (List.mem_cons_self ..)⟩
        · exact ih part (List.mem_cons_of_mem _ h)

/-- LOSSLESS: parts are split again where they were joined. -/
theorem splitWord_intercalate {x : α} : ∀ {parts : List (List α)}, parts ≠ [] →
    (∀ part ∈ parts, x ∉ part) → splitWord [x] ([x].intercalate parts) = parts
  | [], h, _ => absurd rfl h
  | [part], _, hmem => by
    rw [List.intercalate_singleton]
    exact splitWord_part (hmem part (List.mem_singleton_self part))
  | part :: next :: parts, _, hmem => by
    rw [List.intercalate_cons_cons, List.append_assoc, List.singleton_append,
      splitWord_append _ (hmem part (List.mem_cons_self ..)),
      splitWord_intercalate (List.cons_ne_nil next parts) fun p hp =>
        hmem p (List.mem_cons_of_mem _ hp)]

omit [DecidableEq α] in
theorem mem_of_mem_intercalate {sep : List α} {x : α} : ∀ {parts : List (List α)},
    x ∈ sep.intercalate parts → x ∈ sep ∨ ∃ part ∈ parts, x ∈ part
  | [], h => absurd h List.not_mem_nil
  | [part], h => by
    rw [List.intercalate_singleton] at h
    exact .inr ⟨part, List.mem_singleton_self part, h⟩
  | part :: next :: parts, h => by
    rw [List.intercalate_cons_cons, List.append_assoc, List.mem_append, List.mem_append] at h
    rcases h with h | h | h
    · exact .inr ⟨part, List.mem_cons_self .., h⟩
    · exact .inl h
    · rcases mem_of_mem_intercalate h with h | ⟨p, hp, hx⟩
      · exact .inl h
      · exact .inr ⟨p, List.mem_cons_of_mem _ hp, hx⟩

/-- The text up to and with the first `terminator`. -/
def firstLine (terminator : α) : List α → List α
  | [] => []
  | c :: s => if c = terminator then [c] else c :: firstLine terminator s

theorem firstLine_append {terminator : α} (s : List α) : ∀ {body : List α}, terminator ∉ body →
    firstLine terminator (body ++ terminator :: s) = body ++ [terminator]
  | [], _ => by rw [List.nil_append, firstLine, if_pos rfl, List.nil_append]
  | c :: body, h => by
    have hc : c ≠ terminator := fun hc => h (List.mem_cons.mpr (.inl hc.symm))
    rw [List.cons_append, firstLine, if_neg hc,
      firstLine_append s fun hb => h (List.mem_cons_of_mem _ hb), List.cons_append]

end Words

/-! ### Separators in encoded text -/

theorem encodeUtf8_append (s t : Str) : encodeUtf8 (s ++ t) = encodeUtf8 s ++ encodeUtf8 t :=
  List.flatMap_append

/-- A byte below 0x80 of an encoded character is that character. -/
theorem encodeUtf8Char_ascii {ch : Char} {b : UInt8} (hb : b.toNat < 0x80)
    (h : b ∈ encodeUtf8Char ch) : ch.toNat = b.toNat := by
  have hrange := scalar_toNat ch
  unfold encodeUtf8Char at h
  simp only at h
  have hbyte : ∀ n, n < 256 → b = UInt8.ofNat n → b.toNat = n := by
    rintro n hn rfl
    exact byte_toNat hn
  split_ifs at h with h1 h2 h3
  · rw [List.mem_singleton] at h
    exact (hbyte _ (by omega) h).symm
  all_goals
    exfalso
    simp only [List.mem_cons, List.not_mem_nil, or_false] at h
  · rcases h with h | h <;> have := hbyte _ (by omega) h <;> omega
  · rcases h with h | h | h <;> have := hbyte _ (by omega) h <;> omega
  · rcases h with h | h | h | h <;> have := hbyte _ (by omega) h <;> omega

theorem mem_of_mem_encodeUtf8 {s : Str} {c : Char} (hc : c.toNat < 0x80)
    (h : UInt8.ofNat c.toNat ∈ encodeUtf8 s) : c ∈ s := by
  obtain ⟨d, hd, hmem⟩ := List.mem_flatMap.mp h
  have hbyte : (UInt8.ofNat c.toNat).toNat = c.toNat := byte_toNat (by omega)
  have heq := encodeUtf8Char_ascii (by omega) hmem
  rw [hbyte] at heq
  rwa [← Char.ext (UInt32.toNat.inj heq)]

theorem encodeUtf8_intercalate (sep : Str) : ∀ parts : List Str,
    encodeUtf8 (sep.intercalate parts) = (encodeUtf8 sep).intercalate (parts.map encodeUtf8)
  | [] => rfl
  | [part] => by
    rw [List.map_singleton, List.intercalate_singleton, List.intercalate_singleton]
  | part :: next :: parts => by
    have htail := encodeUtf8_intercalate sep (next :: parts)
    rw [List.map_cons] at htail
    rw [List.intercalate_cons_cons, encodeUtf8_append, encodeUtf8_append, htail, List.map_cons,
      List.map_cons, List.intercalate_cons_cons]

/-! ### Hexadecimal bytes -/

/-- `bytes.hex()`. -/
def hexText (bs : Bytes) : Str := bs.flatMap fun b => numeral 16 2 b.toNat

/-- A blank in the sense of C: tab to carriage return, and space. -/
def cSpace (c : Char) : Bool := (9 ≤ c.toNat && c.toNat ≤ 13) || c.toNat = 32

/-- `bytes.fromhex(text)`, which skips ASCII blanks between bytes. -/
def fromHex : Str → Option Bytes
  | [] => some []
  | [c] => if cSpace c then some [] else none
  | c :: d :: s =>
    if cSpace c then fromHex (d :: s)
    else do
      let high ← digitOf c
      let low ← digitOf d
      (fromHex s).map (UInt8.ofNat (16 * high + low) :: ·)

theorem digitChar_plain : ∀ n < 16, cSpace (digitChar n) = false ∧ digitChar n ≠ '\t' ∧
    digitChar n ≠ '\n' ∧ digitChar n ≠ '\x1d' := by decide

theorem mem_hexText {bs : Bytes} {c : Char} (h : c ∈ hexText bs) : ∃ n < 16, c = digitChar n := by
  obtain ⟨b, -, hb⟩ := List.mem_flatMap.mp h
  simp only [numeral, List.nil_append, List.cons_append, List.mem_cons, List.not_mem_nil,
    or_false] at hb
  rcases hb with rfl | rfl
  · exact ⟨_, Nat.mod_lt _ (by decide), rfl⟩
  · exact ⟨_, Nat.mod_lt _ (by decide), rfl⟩

theorem fromHex_hexText : ∀ bs : Bytes, fromHex (hexText bs) = some bs
  | [] => rfl
  | b :: bs => by
    have hhigh : b.toNat / 16 % 16 < 16 := Nat.mod_lt _ (by decide)
    have hlow : b.toNat % 16 < 16 := Nat.mod_lt _ (by decide)
    have hbyte : 16 * (b.toNat / 16 % 16) + b.toNat % 16 = b.toNat := by
      have := b.toNat_lt
      omega
    rw [hexText, List.flatMap_cons, ← hexText]
    simp only [numeral, List.nil_append, List.cons_append, fromHex,
      (digitChar_plain _ hhigh).1, digitOf_digitChar _ hhigh, digitOf_digitChar _ hlow,
      fromHex_hexText bs, Option.bind_eq_bind, Option.bind_some, Option.map_some, hbyte,
      UInt8.ofNat_toNat, Bool.false_eq_true, if_false]

end Dpone.Schemes
