import Dpone.Schemes.Bytes

/-! Strict UTF-8 and UTF-16LE.

    The decoders reject what a strict codec rejects: truncated sequences, stray continuation bytes,
    overlong forms, surrogates and values past U+10FFFF. CORRECT: encoding a decoded UTF-8 string
    gives the original bytes back, so a decode-then-encode path is a pass-through; and every encoded
    text is read back. -/

namespace Dpone.Schemes

/-- A UTF-8 continuation byte. -/
def tail (b : UInt8) : Bool := 0x80 ≤ b.toNat && b.toNat ≤ 0xBF

/-- A code point that is a character: in range and not a surrogate. -/
def scalar (n : ℕ) : Bool := n < 0xD800 || (0xDFFF < n && n < 0x110000)

def decodeUtf8 : Bytes → Option (List Char)
  | [] => some []
  | a :: r1 =>
    if a.toNat < 0x80 then (decodeUtf8 r1).map (Char.ofNat a.toNat :: ·)
    else match r1 with
      | [] => none
      | b :: r2 =>
        if 0xC2 ≤ a.toNat ∧ a.toNat ≤ 0xDF ∧ tail b then
          (decodeUtf8 r2).map (Char.ofNat ((a.toNat - 0xC0) * 64 + (b.toNat - 0x80)) :: ·)
        else match r2 with
          | [] => none
          | c :: r3 =>
            let n := (a.toNat - 0xE0) * 4096 + (b.toNat - 0x80) * 64 + (c.toNat - 0x80)
            if 0xE0 ≤ a.toNat ∧ a.toNat ≤ 0xEF ∧ tail b ∧ tail c ∧ 0x800 ≤ n ∧ scalar n then
              (decodeUtf8 r3).map (Char.ofNat n :: ·)
            else match r3 with
              | [] => none
              | d :: r4 =>
                let n := (a.toNat - 0xF0) * 262144 + (b.toNat - 0x80) * 4096
                  + (c.toNat - 0x80) * 64 + (d.toNat - 0x80)
                if 0xF0 ≤ a.toNat ∧ a.toNat ≤ 0xF4 ∧ tail b ∧ tail c ∧ tail d ∧ 0x10000 ≤ n ∧
                    scalar n then
                  (decodeUtf8 r4).map (Char.ofNat n :: ·)
                else none

def encodeUtf8Char (ch : Char) : Bytes :=
  let n := ch.toNat
  if n < 0x80 then [UInt8.ofNat n]
  else if n < 0x800 then [UInt8.ofNat (0xC0 + n / 64), UInt8.ofNat (0x80 + n % 64)]
  else if n < 0x10000 then
    [UInt8.ofNat (0xE0 + n / 4096), UInt8.ofNat (0x80 + n / 64 % 64), UInt8.ofNat (0x80 + n % 64)]
  else
    [UInt8.ofNat (0xF0 + n / 262144), UInt8.ofNat (0x80 + n / 4096 % 64),
      UInt8.ofNat (0x80 + n / 64 % 64), UInt8.ofNat (0x80 + n % 64)]

def encodeUtf8 (cs : List Char) : Bytes := cs.flatMap encodeUtf8Char

/-- One UTF-16 code unit. -/
def unit16 (lo hi : UInt8) : ℕ := lo.toNat + 256 * hi.toNat

def decodeUtf16le : Bytes → Option (List Char)
  | [] => some []
  | [_] => none
  | lo :: hi :: rest =>
    let u := unit16 lo hi
    if scalar u then (decodeUtf16le rest).map (Char.ofNat u :: ·)
    else match rest with
      | lo' :: hi' :: rest' =>
        let v := unit16 lo' hi'
        -- only a high surrogate followed by a low one forms a character
        if u < 0xDC00 ∧ 0xDC00 ≤ v ∧ v ≤ 0xDFFF then
          (decodeUtf16le rest').map (Char.ofNat (0x10000 + (u - 0xD800) * 1024 + (v - 0xDC00)) :: ·)
        else none
      | _ => none

theorem toNat_ofNat_scalar {n : ℕ} (h : scalar n) : (Char.ofNat n).toNat = n := by
  have hv : n.isValidChar := by
    simp only [scalar, Bool.or_eq_true, Bool.and_eq_true, decide_eq_true_eq] at h
    unfold Nat.isValidChar; omega
  rw [Char.ofNat, dif_pos hv]
  rfl

theorem ofNat_byte {b : UInt8} {n : ℕ} (h : n = b.toNat) : UInt8.ofNat n = b := by
  rw [h, UInt8.ofNat_toNat]

/-- The UTF-8 form of a character, from the bytes its code point was read from. -/
theorem encodeUtf8Char_one {a : UInt8} (h : a.toNat < 0x80) :
    encodeUtf8Char (Char.ofNat a.toNat) = [a] := by
  have hs : (Char.ofNat a.toNat).toNat = a.toNat := toNat_ofNat_scalar (by simp [scalar]; omega)
  simp only [encodeUtf8Char, hs, if_pos h, UInt8.ofNat_toNat]

theorem encodeUtf8Char_two {a b : UInt8} (h : 0xC2 ≤ a.toNat ∧ a.toNat ≤ 0xDF ∧ tail b) :
    encodeUtf8Char (Char.ofNat ((a.toNat - 0xC0) * 64 + (b.toNat - 0x80))) = [a, b] := by
  obtain ⟨h1, h2, hb⟩ := h
  simp only [tail, Bool.and_eq_true, decide_eq_true_eq] at hb
  have hs := toNat_ofNat_scalar (n := (a.toNat - 0xC0) * 64 + (b.toNat - 0x80))
    (by simp [scalar]; omega)
  simp only [encodeUtf8Char, hs]
  rw [if_neg (by omega), if_pos (by omega), ofNat_byte (b := a) (by omega),
    ofNat_byte (b := b) (by omega)]

theorem encodeUtf8Char_three {a b c : UInt8}
    (h : 0xE0 ≤ a.toNat ∧ a.toNat ≤ 0xEF ∧ tail b ∧ tail c ∧
      0x800 ≤ (a.toNat - 0xE0) * 4096 + (b.toNat - 0x80) * 64 + (c.toNat - 0x80) ∧
      scalar ((a.toNat - 0xE0) * 4096 + (b.toNat - 0x80) * 64 + (c.toNat - 0x80))) :
    encodeUtf8Char
      (Char.ofNat ((a.toNat - 0xE0) * 4096 + (b.toNat - 0x80) * 64 + (c.toNat - 0x80)))
      = [a, b, c] := by
  obtain ⟨h1, h2, hb, hc, hn, hsc⟩ := h
  simp only [tail, Bool.and_eq_true, decide_eq_true_eq] at hb hc
  simp only [encodeUtf8Char, toNat_ofNat_scalar hsc]
  rw [if_neg (by omega), if_neg (by omega), if_pos (by omega), ofNat_byte (b := a) (by omega),
    ofNat_byte (b := b) (by omega), ofNat_byte (b := c) (by omega)]

theorem encodeUtf8Char_four {a b c d : UInt8}
    (h : 0xF0 ≤ a.toNat ∧ a.toNat ≤ 0xF4 ∧ tail b ∧ tail c ∧ tail d ∧
      0x10000 ≤ (a.toNat - 0xF0) * 262144 + (b.toNat - 0x80) * 4096
        + (c.toNat - 0x80) * 64 + (d.toNat - 0x80) ∧
      scalar ((a.toNat - 0xF0) * 262144 + (b.toNat - 0x80) * 4096
        + (c.toNat - 0x80) * 64 + (d.toNat - 0x80))) :
    encodeUtf8Char (Char.ofNat ((a.toNat - 0xF0) * 262144 + (b.toNat - 0x80) * 4096
        + (c.toNat - 0x80) * 64 + (d.toNat - 0x80))) = [a, b, c, d] := by
  obtain ⟨h1, h2, hb, hc, hd, hn, hsc⟩ := h
  simp only [tail, Bool.and_eq_true, decide_eq_true_eq] at hb hc hd
  simp only [encodeUtf8Char, toNat_ofNat_scalar hsc]
  rw [if_neg (by omega), if_neg (by omega), if_neg (by omega), ofNat_byte (b := a) (by omega),
    ofNat_byte (b := b) (by omega), ofNat_byte (b := c) (by omega), ofNat_byte (b := d) (by omega)]

/-- CORRECT (lossless): re-encoding what the strict decoder accepted gives its input. -/
theorem encodeUtf8_decodeUtf8 : ∀ (bs : Bytes) {cs : List Char},
    decodeUtf8 bs = some cs → encodeUtf8 cs = bs := by
  intro bs
  fun_induction decodeUtf8 bs <;> intro cs hcs
  case case1 => simp at hcs; subst hcs; rfl
  case case2 h ih =>
    obtain ⟨t, ht, rfl⟩ := Option.map_eq_some_iff.mp hcs
    rw [encodeUtf8, List.flatMap_cons, ← encodeUtf8, ih ht, encodeUtf8Char_one h]; rfl
  case case4 h ih =>
    obtain ⟨t, ht, rfl⟩ := Option.map_eq_some_iff.mp hcs
    rw [encodeUtf8, List.flatMap_cons, ← encodeUtf8, ih ht, encodeUtf8Char_two h]; rfl
  case case6 h ih =>
    obtain ⟨t, ht, rfl⟩ := Option.map_eq_some_iff.mp hcs
    rw [encodeUtf8, List.flatMap_cons, ← encodeUtf8, ih ht, encodeUtf8Char_three h]; rfl
  case case8 h ih =>
    obtain ⟨t, ht, rfl⟩ := Option.map_eq_some_iff.mp hcs
    rw [encodeUtf8, List.flatMap_cons, ← encodeUtf8, ih ht, encodeUtf8Char_four h]; rfl
  all_goals simp at hcs

/-! ### Reading encoded text back -/

theorem toNat_lt (ch : Char) : ch.toNat < 0x110000 := by
  rcases ch.valid with h | h
  · exact Nat.lt_trans h (by decide)
  · exact h.2

theorem scalar_toNat (ch : Char) : ch.toNat < 0xD800 ∨ 0xDFFF < ch.toNat ∧ ch.toNat < 0x110000 :=
  ch.valid

theorem byte_toNat {n : ℕ} (h : n < 256) : (UInt8.ofNat n).toNat = n := by
  rw [UInt8.toNat_ofNat']
  omega

theorem decodeUtf8_one {a : UInt8} (r : Bytes) (ha : a.toNat < 0x80) :
    decodeUtf8 (a :: r) = (decodeUtf8 r).map (Char.ofNat a.toNat :: ·) := by
  rw [decodeUtf8.eq_def]
  exact if_pos ha

theorem decodeUtf8_two {a b : UInt8} (r : Bytes)
    (h : 0xC2 ≤ a.toNat ∧ a.toNat ≤ 0xDF ∧ tail b) :
    decodeUtf8 (a :: b :: r) =
      (decodeUtf8 r).map (Char.ofNat ((a.toNat - 0xC0) * 64 + (b.toNat - 0x80)) :: ·) := by
  rw [decodeUtf8.eq_def]
  dsimp only
  rw [if_neg (by omega), if_pos h]

theorem decodeUtf8_three {a b c : UInt8} (r : Bytes)
    (h : 0xE0 ≤ a.toNat ∧ a.toNat ≤ 0xEF ∧ tail b ∧ tail c ∧
      0x800 ≤ (a.toNat - 0xE0) * 4096 + (b.toNat - 0x80) * 64 + (c.toNat - 0x80) ∧
      scalar ((a.toNat - 0xE0) * 4096 + (b.toNat - 0x80) * 64 + (c.toNat - 0x80))) :
    decodeUtf8 (a :: b :: c :: r) = (decodeUtf8 r).map
      (Char.ofNat ((a.toNat - 0xE0) * 4096 + (b.toNat - 0x80) * 64 + (c.toNat - 0x80)) :: ·) := by
  rw [decodeUtf8.eq_def]
  dsimp only
  rw [if_neg (by omega), if_neg (by omega), if_pos h]

theorem decodeUtf8_four {a b c d : UInt8} (r : Bytes)
    (h : 0xF0 ≤ a.toNat ∧ a.toNat ≤ 0xF4 ∧ tail b ∧ tail c ∧ tail d ∧
      0x10000 ≤ (a.toNat - 0xF0) * 262144 + (b.toNat - 0x80) * 4096 + (c.toNat - 0x80) * 64 +
        (d.toNat - 0x80) ∧
      scalar ((a.toNat - 0xF0) * 262144 + (b.toNat - 0x80) * 4096 + (c.toNat - 0x80) * 64 +
        (d.toNat - 0x80))) :
    decodeUtf8 (a :: b :: c :: d :: r) = (decodeUtf8 r).map
      (Char.ofNat ((a.toNat - 0xF0) * 262144 + (b.toNat - 0x80) * 4096 + (c.toNat - 0x80) * 64 +
        (d.toNat - 0x80)) :: ·) := by
  rw [decodeUtf8.eq_def]
  dsimp only
  rw [if_neg (by omega), if_neg (by omega), if_neg (by omega), if_pos h]

/-- One encoded character in front of a text is read as that character. -/
theorem decodeUtf8_char (ch : Char) (r : Bytes) :
    decodeUtf8 (encodeUtf8Char ch ++ r) = (decodeUtf8 r).map (ch :: ·) := by
  have hs := scalar_toNat ch
  obtain ⟨n, hn⟩ : ∃ n, ch.toNat = n := ⟨_, rfl⟩
  have hch : Char.ofNat n = ch := hn ▸ Char.ofNat_toNat ch
  rw [hn] at hs
  rw [encodeUtf8Char, hn]
  split_ifs with h1 h2 h3
  · rw [List.singleton_append, decodeUtf8_one r (by rw [byte_toNat] <;> omega),
      byte_toNat (by omega), hch]
  · have ha := byte_toNat (show 0xC0 + n / 64 < 256 by omega)
    have hb := byte_toNat (show 0x80 + n % 64 < 256 by omega)
    rw [List.cons_append, List.singleton_append,
      decodeUtf8_two r (by simp only [tail, ha, hb, Bool.and_eq_true, decide_eq_true_eq]; omega),
      ha, hb, show (0xC0 + n / 64 - 0xC0) * 64 + (0x80 + n % 64 - 0x80) = n by omega, hch]
  · have ha := byte_toNat (show 0xE0 + n / 4096 < 256 by omega)
    have hb := byte_toNat (show 0x80 + n / 64 % 64 < 256 by omega)
    have hc := byte_toNat (show 0x80 + n % 64 < 256 by omega)
    have hsum : (0xE0 + n / 4096 - 0xE0) * 4096 + (0x80 + n / 64 % 64 - 0x80) * 64 +
        (0x80 + n % 64 - 0x80) = n := by omega
    rw [List.cons_append, List.cons_append, List.singleton_append, decodeUtf8_three r (by
      simp only [tail, scalar, ha, hb, hc, hsum, Bool.and_eq_true, Bool.or_eq_true,
        decide_eq_true_eq]
      omega), ha, hb, hc, hsum, hch]
  · have ha := byte_toNat (show 0xF0 + n / 262144 < 256 by omega)
    have hb := byte_toNat (show 0x80 + n / 4096 % 64 < 256 by omega)
    have hc := byte_toNat (show 0x80 + n / 64 % 64 < 256 by omega)
    have hd := byte_toNat (show 0x80 + n % 64 < 256 by omega)
    have hsum : (0xF0 + n / 262144 - 0xF0) * 262144 + (0x80 + n / 4096 % 64 - 0x80) * 4096 +
        (0x80 + n / 64 % 64 - 0x80) * 64 + (0x80 + n % 64 - 0x80) = n := by omega
    rw [List.cons_append, List.cons_append, List.cons_append, List.singleton_append,
      decodeUtf8_four r (by
        simp only [tail, scalar, ha, hb, hc, hd, hsum, Bool.and_eq_true, Bool.or_eq_true,
          decide_eq_true_eq]
        omega), ha, hb, hc, hd, hsum, hch]

/-- LOSSLESS: an encoded text is read back. -/
theorem decodeUtf8_encodeUtf8 : ∀ cs : List Char, decodeUtf8 (encodeUtf8 cs) = some cs
  | [] => rfl
  | ch :: cs => by
      rw [encodeUtf8, List.flatMap_cons, decodeUtf8_char, ← encodeUtf8, decodeUtf8_encodeUtf8 cs]
      rfl

/-- Little-endian bytes of a code unit. -/
def unitBytes (u : ℕ) : Bytes := [UInt8.ofNat (u % 256), UInt8.ofNat (u / 256)]

def encodeUtf16leChar (ch : Char) : Bytes :=
  let n := ch.toNat
  if n < 0x10000 then unitBytes n
  else unitBytes (0xD800 + (n - 0x10000) / 1024) ++ unitBytes (0xDC00 + (n - 0x10000) % 1024)

def encodeUtf16le (cs : List Char) : Bytes := cs.flatMap encodeUtf16leChar

theorem unit16_unitBytes {u : ℕ} (h : u < 0x10000) :
    unit16 (UInt8.ofNat (u % 256)) (UInt8.ofNat (u / 256)) = u := by
  rw [unit16, byte_toNat (by omega), byte_toNat (by omega)]
  omega

theorem decodeUtf16le_unit {lo hi : UInt8} (r : Bytes) (h : scalar (unit16 lo hi)) :
    decodeUtf16le (lo :: hi :: r) = (decodeUtf16le r).map (Char.ofNat (unit16 lo hi) :: ·) := by
  rw [decodeUtf16le.eq_def]
  exact if_pos h

theorem decodeUtf16le_pair {lo hi lo' hi' : UInt8} (r : Bytes) (h : ¬ scalar (unit16 lo hi))
    (hpair : unit16 lo hi < 0xDC00 ∧ 0xDC00 ≤ unit16 lo' hi' ∧ unit16 lo' hi' ≤ 0xDFFF) :
    decodeUtf16le (lo :: hi :: lo' :: hi' :: r) = (decodeUtf16le r).map
      (Char.ofNat (0x10000 + (unit16 lo hi - 0xD800) * 1024 + (unit16 lo' hi' - 0xDC00)) :: ·) := by
  rw [decodeUtf16le.eq_def]
  exact (if_neg h).trans (if_pos hpair)

theorem decodeUtf16le_char (ch : Char) (r : Bytes) :
    decodeUtf16le (encodeUtf16leChar ch ++ r) = (decodeUtf16le r).map (ch :: ·) := by
  have hs := scalar_toNat ch
  obtain ⟨n, hn⟩ : ∃ n, ch.toNat = n := ⟨_, rfl⟩
  have hch : Char.ofNat n = ch := hn ▸ Char.ofNat_toNat ch
  rw [hn] at hs
  rw [encodeUtf16leChar, hn]
  split_ifs with h1
  · have hu := unit16_unitBytes h1
    rw [unitBytes, List.cons_append, List.singleton_append, decodeUtf16le_unit r (by
      simp only [hu, scalar, Bool.or_eq_true, Bool.and_eq_true, decide_eq_true_eq]
      omega), hu, hch]
  · have hu := unit16_unitBytes (show 0xD800 + (n - 0x10000) / 1024 < 0x10000 by omega)
    have hv := unit16_unitBytes (show 0xDC00 + (n - 0x10000) % 1024 < 0x10000 by omega)
    have hsum : 0x10000 + (0xD800 + (n - 0x10000) / 1024 - 0xD800) * 1024 +
        (0xDC00 + (n - 0x10000) % 1024 - 0xDC00) = n := by omega
    have happend : ∀ a b c d : UInt8, [a, b] ++ [c, d] ++ r = a :: b :: c :: d :: r :=
      fun _ _ _ _ => rfl
    rw [unitBytes, unitBytes, happend, decodeUtf16le_pair r (by
      simp only [hu, scalar, Bool.or_eq_true, Bool.and_eq_true, decide_eq_true_eq]
      omega) (by omega), hu, hv, hsum, hch]

/-- LOSSLESS: a text encoded in UTF-16 is read back. -/
theorem decodeUtf16le_encodeUtf16le : ∀ cs : List Char, decodeUtf16le (encodeUtf16le cs) = some cs
  | [] => rfl
  | ch :: cs => by
      rw [encodeUtf16le, List.flatMap_cons, decodeUtf16le_char, ← encodeUtf16le,
        decodeUtf16le_encodeUtf16le cs]
      rfl

end Dpone.Schemes
