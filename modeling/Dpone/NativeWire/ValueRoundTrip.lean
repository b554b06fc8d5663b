import Dpone.NativeWire.Encoder

/-! Encoding one value and decoding its payload.

    For every storage type the encoder's bounds lie within the decoder's, so that an accepted value
    is read back the same, with two exceptions: a decimal column of declared precision zero, which
    the two sides read differently, and a `datetimeoffset` whose declared precision is checked on
    the local clock by one side and in UTC by the other. -/

namespace Dpone.NativeWire
open Dpone.Schemes

variable (py : Runtime)

/-! ### Derived layouts -/

/-- What a layout has that `_layout` derived: a framing that fits its storage type. -/
structure Derived (c : NativeWireColumnLayout) : Prop where
  admitted : c.storageType ≠ .unsupported
  variable_of : c.storageType.variableLength = true →
    c.fixedLength = none ∧ c.prefixWidth ≠ 0 ∧
      c.encoding = some (if c.storageType.national then .utf16le else .utf8)
  fixed_of : c.storageType.variableLength = false →
    ∃ n, c.fixedLength = some n ∧ fixedLength c.storageType c.scale c.precision = .ok (some n)
  scale_of : c.storageType.temporal = true → c.scale = some 7
  exact_of : c.storageType.exact = true → c.precision.isSome ∧ c.scale.isSome

theorem precisionScale_exact {dtype : Str}
    (h : (Storage.ofName (rootOf py dtype)).exact = true) :
    (precisionScale py dtype).1.isSome ∧ (precisionScale py dtype).2.isSome := by
  unfold precisionScale
  split
  · exact ⟨rfl, rfl⟩
  · dsimp only
    rw [if_pos h]
    exact ⟨rfl, rfl⟩

theorem layoutOf_derived {name dtype target : Str} {c : NativeWireColumnLayout}
    (h : layoutOf py name dtype target = .ok c) (hs : c.storageType ≠ .unsupported) : Derived c := by
  unfold layoutOf at h
  dsimp only at h
  obtain ⟨scale, hscale, h⟩ := bind_ok.mp h
  have hphysical : (Storage.ofName (rootOf py (normalizeType py dtype))).temporal = true →
      scale = some 7 := by
    intro ht
    unfold physicalScale at hscale
    rw [if_pos ht] at hscale
    obtain ⟨_, -, hscale⟩ := bind_ok.mp hscale
    exact (Except.ok.inj hscale).symm
  have hplain : (Storage.ofName (rootOf py (normalizeType py dtype))).temporal = false →
      scale = (precisionScale py (normalizeType py dtype)).2 := by
    intro ht
    unfold physicalScale at hscale
    rw [ht, if_neg (by simp)] at hscale
    exact (Except.ok.inj hscale).symm
  split at h
  · next hvariable =>
    cases h
    have hkinds : ∀ s : Storage, s.variableLength = true → s.temporal = false ∧ s.exact = false := by
      intro s
      cases s <;> simp [Storage.variableLength, Storage.temporal, Storage.exact]
    obtain ⟨htemporal, hexact⟩ := hkinds _ hvariable.1
    refine ⟨hs, fun _ => ⟨rfl, ?_, rfl⟩, fun hno => ?_, fun ht => ?_, fun he => ?_⟩
    · change (if _ then 8 else 2) ≠ 0
      split <;> decide
    · exact absurd hvariable.1 (by simpa using hno)
    · exact absurd htemporal (by simpa using ht)
    · exact absurd hexact (by simpa using he)
  · next hfixed =>
    obtain ⟨fixed, hfix, h⟩ := bind_ok.mp h
    cases fixed with
    | none => cases h; exact absurd rfl hs
    | some n =>
      cases h
      refine ⟨hs, fun hvar => ?_, fun _ => ⟨n, rfl, hfix⟩, hphysical, fun he => ?_⟩
      · -- only an unprefixed `char` comes here, and it has no fixed length
        have hnone : ∀ (s : Storage) (sc p : Option ℕ), s.variableLength = true →
            fixedLength s sc p = .ok none := by
          intro s sc p
          cases s <;> simp [Storage.variableLength, fixedLength, Storage.fixedWidth,
            Storage.temporal]
        rw [hnone _ _ _ hvar] at hfix
        cases hfix
      · have hkinds : ∀ s : Storage, s.exact = true → s.temporal = false := by
          intro s
          cases s <;> simp [Storage.temporal, Storage.exact]
        have hboth := precisionScale_exact py he
        exact ⟨hboth.1, (hplain (hkinds _ he)) ▸ hboth.2⟩

/-- Every column the validator lets through is derived. -/
theorem validateLayout_derived {i : ℕ} {c : NativeWireColumnLayout}
    (h : validateLayout py i c = .ok ()) : Derived c := by
  unfold validateLayout at h
  obtain ⟨expected, he, h⟩ := bind_ok.mp h
  split at h
  · cases h
  · next hok =>
    obtain ⟨hs, hsame⟩ := not_or.mp hok
    rw [not_not, sameFraming, decide_eq_true_eq] at hsame
    obtain ⟨-, hstorage, hframe, hfixed, hprecision, hscale, hencoding⟩ := hsame
    have hexpected := layoutOf_derived py he hs
    constructor
    · rw [hstorage]; exact hexpected.admitted
    · rw [hstorage, hfixed, hframe, hencoding]; exact hexpected.variable_of
    · rw [hstorage, hfixed, hscale, hprecision]; exact hexpected.fixed_of
    · rw [hstorage, hscale]; exact hexpected.scale_of
    · rw [hstorage, hprecision, hscale]; exact hexpected.exact_of

theorem validateLayouts_derived : ∀ {cs : List NativeWireColumnLayout} {i : ℕ},
    validateLayouts py i cs = .ok () → ∀ c ∈ cs, Derived c
  | [], _, _, c, hc => by cases hc
  | d :: ds, i, h, c, hc => by
      obtain ⟨⟨⟩, hd, hds⟩ := bind_ok.mp h
      rcases List.mem_cons.mp hc with rfl | hc
      · exact validateLayout_derived py hd
      · exact validateLayouts_derived hds c hc

/-! ### The same value -/

/-- The number a value is exactly. -/
def exactValue : PyValue → Option ℚ
  | .bool b => some (if b then 1 else 0)
  | .int n => some n
  | .decimal d => d.value
  | _ => none

/-- A decoded value is the given one: the value itself, the same number, the same float, or a text
    of the same UUID. NULL is the same as NULL only. -/
inductive SameValue (storage : Storage) : PyValue → PyValue → Prop
  | same (v : PyValue) : SameValue storage v v
  | number {v w : PyValue} {q : ℚ} (hv : exactValue v = some q) (hw : exactValue w = some q) :
      SameValue storage v w
  | float {a b : PyFloat} (h : floatEq a.val b.val = true) : SameValue storage (.float a) (.float b)
  | uuid {v w : PyValue} {x : Uuid} (hs : storage = .uniqueidentifier)
      (hv : identifier py v = some x) (hw : identifier py w = some x) : SameValue storage v w

/-- A payload the decoder takes, and takes for the given value. -/
def Returns (c : NativeWireColumnLayout) (value : PyValue) (payload : Bytes) : Prop :=
  (∀ context, validatePayload py payload c.field context = .ok ()) ∧
    ∃ w, decodePayload payload c = .ok w ∧ SameValue py c.storageType value w

/-- Columns whose payload has no header to check before its domain. -/
theorem validatePayload_plain {payload : Bytes} {f : Field} {context : String}
    (hexact : f.storageType.exact = false) (hbit : f.storageType ≠ .bit) :
    validatePayload py payload f context = validateScalarDomain py payload f context := by
  unfold validatePayload
  rw [hexact, if_neg (by simp), if_neg hbit]

/-! ### Text and bytes -/

theorem characterWidth_utf8 (c : CodePoint) {ch : Char} (h : c.toChar = some ch) :
    (encodeUtf8Char ch).length = characterWidth c.val false := by
  obtain rfl := ofChar_of_toChar h
  change (encodeUtf8Char ch).length = characterWidth ch.toNat false
  unfold encodeUtf8Char characterWidth
  simp only [Bool.false_eq_true, if_false]
  split_ifs <;> first | rfl | omega

theorem characterWidth_utf16 (c : CodePoint) {ch : Char} (h : c.toChar = some ch) :
    (encodeUtf16leChar ch).length = characterWidth c.val true := by
  obtain rfl := ofChar_of_toChar h
  change (encodeUtf16leChar ch).length = characterWidth ch.toNat true
  unfold encodeUtf16leChar characterWidth
  simp only [if_true]
  split_ifs <;> first | rfl | omega

/-- The text as a codec of the column writes it. -/
def codec (wide : Bool) (cs : Str) : Bytes := if wide then encodeUtf16le cs else encodeUtf8 cs

/-- CORRECT: a text with a size has no surrogate, and the size is that of its bytes. -/
theorem textSize_ok {wide : Bool} {remaining : ℤ} : ∀ {s : List CodePoint} {size n : ℕ},
    textSize wide remaining s size = .ok n →
    ∃ cs, charsOf s = some cs ∧ n = size + (codec wide cs).length
  | [], size, n, h => by
      cases h
      refine ⟨[], rfl, ?_⟩
      cases wide <;> rfl
  | c :: s, size, n, h => by
      obtain ⟨⟨⟩, hsurrogate, h⟩ := bind_ok.mp h
      obtain ⟨⟨⟩, -, h⟩ := bind_ok.mp h
      obtain ⟨cs, hcs, hn⟩ := textSize_ok h
      have hch : c.toChar = some (Char.ofNat c.val) := by
        rw [CodePoint.toChar, if_neg (by simpa using hsurrogate)]
      refine ⟨Char.ofNat c.val :: cs, by rw [charsOf, hch, hcs]; rfl, ?_⟩
      rw [hn]
      cases wide with
      | false =>
        have hwidth := characterWidth_utf8 c hch
        simp only [codec, Bool.false_eq_true, if_false, encodeUtf8, List.flatMap_cons,
          List.length_append, hwidth, Nat.add_assoc]
      | true =>
        have hwidth := characterWidth_utf16 c hch
        simp only [codec, if_true, encodeUtf16le, List.flatMap_cons, List.length_append, hwidth,
          Nat.add_assoc]

theorem nativeValueSize_variable {value : PyValue} {c : NativeWireColumnLayout} {remaining : ℤ}
    {n : ℕ} (hfixed : c.fixedLength = none) (h : nativeValueSize py value c remaining = .ok n) :
    variableSize value c.storageType remaining = .ok n ∧ checkDeclared py c n = .ok () := by
  unfold nativeValueSize at h
  rw [hfixed] at h
  obtain ⟨size, hsize, h⟩ := bind_ok.mp h
  obtain ⟨⟨⟩, -, h⟩ := bind_ok.mp h
  obtain ⟨⟨⟩, hdeclared, h⟩ := bind_ok.mp h
  obtain ⟨⟨⟩, -, h⟩ := bind_ok.mp h
  cases h
  exact ⟨hsize, hdeclared⟩

/-- The decoder's bound of a declared length is no tighter than the encoder's. -/
theorem checkDeclared_admits {c : NativeWireColumnLayout} {n : ℕ} (hfixed : c.fixedLength = none)
    (h : checkDeclared py c n = .ok ()) : Admits py c.field n := by
  refine ⟨Int.natCast_nonneg n, fun m hm => ?_, fun _ m hm => ?_⟩
  · change m ∈ c.fixedLength at hm
    rw [hfixed] at hm
    cases hm
  · change m ∈ declaredNumber py c.sourceType at hm
    change (n : ℤ) ≤ m * lengthUnit c.storageType
    unfold checkDeclared at h
    rw [Option.mem_def.mp hm] at h
    have hle : n ≤ m * (if c.storageType.national then 2 else 1) := by
      have := (not_or.mp (raiseIf_ok.mp h)).1
      omega
    have hunit : (if c.storageType.national then 2 else 1) ≤ lengthUnit c.storageType := by
      cases c.storageType <;> decide
    exact_mod_cast hle.trans (Nat.mul_le_mul_left m hunit)

/-- A payload of text is read back, whatever its codec. -/
theorem returns_text {c : NativeWireColumnLayout} {s : List CodePoint} {cs : Str} (hd : Derived c)
    (hvariable : c.storageType.variableLength = true) (htext : octets c.storageType = false)
    (hcs : charsOf s = some cs) :
    Returns py c (.text s) (codec c.storageType.national cs) := by
  have hencoding := (hd.variable_of hvariable).2.2
  have hback := textOf_of_charsOf hcs
  have h8 := decodeUtf8_encodeUtf8 cs
  have h16 := decodeUtf16le_encodeUtf16le cs
  have hsame : SameValue py c.storageType (.text s) (.text (textOf cs)) := hback ▸ .same _
  cases hs : c.storageType <;> simp [hs, Storage.variableLength, octets] at hvariable htext
  all_goals
    refine ⟨fun context => ?_, .text (textOf cs), ?_, hsame⟩
    · rw [validatePayload_plain py (by simp [hs, Storage.exact]) (by simp [hs])]
      simp [validateScalarDomain, hs, codec, Storage.national, h8, h16]
    · simp [decodePayload, decodeText, codec, hs, hencoding, Storage.national, h8, h16]

theorem returns_bytes {c : NativeWireColumnLayout} (b : Bytes) (hbytes : octets c.storageType = true) :
    Returns py c (.bytes b) b := by
  cases hs : c.storageType <;> simp [hs, octets] at hbytes
  all_goals
    refine ⟨fun context => ?_, .bytes b, by rw [decodePayload, hs], .same _⟩
    rw [validatePayload_plain py (by simp [hs, Storage.exact]) (by simp [hs])]
    simp [validateScalarDomain, hs, pure, Except.pure]

/-- CORRECT: text and bytes are sized exactly, fit the decoder's bound, and come back. -/
theorem encodeVariable_ok {value : PyValue} {c : NativeWireColumnLayout} {remaining : ℤ}
    {payload : Bytes} (hd : Derived c) (hvariable : c.storageType.variableLength = true)
    (h : encodeVariable py value c remaining = .ok payload) :
    nativeValueSize py value c remaining = .ok payload.length ∧
      Admits py c.field payload.length ∧ Returns py c value payload := by
  obtain ⟨hfixed, -, hencoding⟩ := hd.variable_of hvariable
  obtain ⟨size, hsize, h⟩ := bind_ok.mp h
  obtain ⟨hvar, hdeclared⟩ := nativeValueSize_variable py hfixed hsize
  have hadmits := checkDeclared_admits py hfixed hdeclared
  cases hbytes : octets c.storageType with
  | true =>
    rw [hbytes, if_pos rfl] at h
    simp only [variableSize, hbytes, if_true] at hvar
    cases value with
    | bytes b =>
      cases hvar
      cases h
      exact ⟨hsize, hadmits, returns_bytes py _ hbytes⟩
    | _ => cases h
  | false =>
    rw [hbytes, if_neg (by simp)] at h
    simp only [variableSize, hbytes, Bool.false_eq_true, if_false] at hvar
    cases value with
    | text s =>
      obtain ⟨cs, hcs, hn⟩ := textSize_ok hvar
      have hpayload : payload = codec c.storageType.national cs := by
        rw [hencoding] at h
        cases hwide : c.storageType.national <;> simp [hwide, encodeText, hcs] at h <;>
          simp [codec, h]
      rw [Nat.zero_add] at hn
      rw [hpayload, ← hn]
      exact ⟨hsize, hadmits, returns_text py hd hvariable hbytes hcs⟩
    | _ => cases h

/-! ### Integers and floats -/

/-- The width of a storage type whose payloads all have one. -/
theorem fixedLength_of_width {c : NativeWireColumnLayout} {w : ℕ} (hd : Derived c)
    (hwidth : c.storageType.fixedWidth = some w) (hfloat : c.storageType ≠ .float) :
    c.fixedLength = some w := by
  have hvariable : c.storageType.variableLength = false := by
    cases hs : c.storageType <;> simp [hs, Storage.fixedWidth] at hwidth <;> rfl
  obtain ⟨n, hn, hfix⟩ := hd.fixed_of hvariable
  have hw : fixedLength c.storageType c.scale c.precision = .ok (some w) := by
    unfold fixedLength
    split
    · next hs _ => exact absurd hs hfloat
    · rw [hwidth]
  rw [hn, Option.some.inj (Except.ok.inj (hfix.symm.trans hw))]

theorem fixedLength_float {c : NativeWireColumnLayout} (hd : Derived c)
    (hs : c.storageType = .float) : c.fixedLength = some 4 ∨ c.fixedLength = some 8 := by
  obtain ⟨n, hn, hfix⟩ := hd.fixed_of (by rw [hs]; rfl)
  rw [hs] at hfix
  rw [hn]
  cases hp : c.precision with
  | none =>
    rw [hp] at hfix
    exact .inr (congrArg some (Option.some.inj (Except.ok.inj hfix)).symm)
  | some p =>
    rw [hp, fixedLength] at hfix
    split_ifs at hfix
    · exact .inl (congrArg some (Option.some.inj (Except.ok.inj hfix)).symm)
    · exact .inr (congrArg some (Option.some.inj (Except.ok.inj hfix)).symm)

theorem returns_bit {c : NativeWireColumnLayout} {value : PyValue} {n : ℤ} {payload : Bytes}
    (hs : c.storageType = .bit) (hn : n = 0 ∨ n = 1) (hvalue : exactValue value = some (n : ℚ))
    (h : toBytes 1 false n = .ok payload) : Returns py c value payload := by
  have hpayload : payload = [if n = 0 then 0 else 1] := by
    rcases hn with rfl | rfl <;> exact (Except.ok.inj h).symm
  subst hpayload
  refine ⟨fun context => ?_, .bool (n ≠ 0), ?_, .number hvalue ?_⟩
  · unfold validatePayload
    rcases hn with rfl | rfl <;> simp [hs, Storage.exact, byteAt, validateScalarDomain, pure, Except.pure]
  · rcases hn with rfl | rfl <;> simp [decodePayload, hs, byteAt, Except.map]
  · rcases hn with rfl | rfl <;> simp [exactValue]

theorem encodeInteger_bit {value : PyValue} {c : NativeWireColumnLayout} {payload : Bytes}
    (hs : c.storageType = .bit) (hwidth : c.fixedLength = some 1)
    (h : encodeInteger value c = .ok payload) :
    c.fixedLength = some payload.length ∧ Returns py c value payload := by
  cases value with
  | bool b =>
    have hb : toBytes 1 false b.toNat = .ok payload := by simpa [encodeInteger, hs, hwidth] using h
    refine ⟨by rw [hwidth, toBytes_length hb], returns_bit py hs ?_ ?_ hb⟩
    · cases b <;> simp
    · cases b <;> simp [exactValue]
  | int n =>
    have hint : encodeInteger (.int n) c =
        if n = 0 ∨ n = 1 then toBytes 1 false n else .error refused := by
      simp [encodeInteger, hs, hwidth]
    rw [hint] at h
    split_ifs at h with hn
    exact ⟨by rw [hwidth, toBytes_length h], returns_bit py hs hn rfl h⟩
  | _ => simp [encodeInteger, hs] at h

theorem encodeInteger_tinyint {value : PyValue} {c : NativeWireColumnLayout} {payload : Bytes}
    (hs : c.storageType = .tinyint) (hwidth : c.fixedLength = some 1)
    (h : encodeInteger value c = .ok payload) :
    c.fixedLength = some payload.length ∧ Returns py c value payload := by
  cases value with
  | int n =>
    have hn : toBytes 1 false n = .ok payload := by simpa [encodeInteger, hs, hwidth] using h
    have hlength := toBytes_length hn
    refine ⟨by rw [hwidth, hlength], fun context => ?_, .int n, ?_, .same _⟩
    · rw [validatePayload_plain py (by simp [hs, Storage.exact]) (by simp [hs])]
      simp [validateScalarDomain, hs, pure, Except.pure]
    · simp [decodePayload, hs, unpackUnsigned, hlength, Except.map, ofLE_of_toBytes hn]
  | _ => simp [encodeInteger, hs] at h

theorem encodeInteger_signed {value : PyValue} {c : NativeWireColumnLayout} {payload : Bytes} {w : ℕ}
    (hs : c.storageType = .smallint ∨ c.storageType = .int ∨ c.storageType = .bigint)
    (hwidth : c.fixedLength = some (w + 1))
    (hdecode : decodePayload payload c = (unpackSigned (w + 1) payload).map .int)
    (h : encodeInteger value c = .ok payload) :
    c.fixedLength = some payload.length ∧ Returns py c value payload := by
  cases value with
  | int n =>
    have hn : toBytes (w + 1) true n = .ok payload := by
      rcases hs with hs | hs | hs <;> simpa [encodeInteger, hs, hwidth] using h
    have hlength := toBytes_length hn
    refine ⟨by rw [hwidth, hlength], fun context => ?_, .int n, ?_, .same _⟩
    · rcases hs with hs | hs | hs
      all_goals
        rw [validatePayload_plain py (by simp [hs, Storage.exact]) (by simp [hs])]
        simp [validateScalarDomain, hs, pure, Except.pure]
    · rw [hdecode, unpackSigned, if_pos hlength, ofLESigned_of_toBytes hn]
      rfl
  | _ => rcases hs with hs | hs | hs <;> simp [encodeInteger, hs] at h

/-- CORRECT: an accepted integer fills its width and comes back. -/
theorem encodeInteger_ok {value : PyValue} {c : NativeWireColumnLayout} {payload : Bytes}
    (hd : Derived c) (hs : c.storageType = .bit ∨ c.storageType = .tinyint ∨
      c.storageType = .smallint ∨ c.storageType = .int ∨ c.storageType = .bigint)
    (h : encodeInteger value c = .ok payload) :
    c.fixedLength = some payload.length ∧ Returns py c value payload := by
  have hwidth : ∀ w, c.storageType.fixedWidth = some w → c.storageType ≠ .float →
      c.fixedLength = some w := fun w => fixedLength_of_width hd
  rcases hs with hs | hs | hs | hs | hs
  · exact encodeInteger_bit py hs (hwidth 1 (by rw [hs]; rfl) (by simp [hs])) h
  · exact encodeInteger_tinyint py hs (hwidth 1 (by rw [hs]; rfl) (by simp [hs])) h
  · exact encodeInteger_signed py (.inl hs) (hwidth 2 (by rw [hs]; rfl) (by simp [hs]))
      (by rw [decodePayload, hs]) h
  · exact encodeInteger_signed py (.inr (.inl hs)) (hwidth 4 (by rw [hs]; rfl) (by simp [hs]))
      (by rw [decodePayload, hs]) h
  · exact encodeInteger_signed py (.inr (.inr hs)) (hwidth 8 (by rw [hs]; rfl) (by simp [hs]))
      (by rw [decodePayload, hs]) h

theorem validate_float {c : NativeWireColumnLayout} {payload : Bytes} {context : String}
    (hs : c.storageType = .real ∨ c.storageType = .float) (h : finiteFloat payload = .ok true) :
    validatePayload py payload c.field context = .ok () := by
  rcases hs with hs | hs
  all_goals
    rw [validatePayload_plain py (by simp [hs, Storage.exact]) (by simp [hs])]
    simp [validateScalarDomain, hs, h]

/-- CORRECT: an accepted float comes back equal, packed as a single or as a double. -/
theorem encodeFloat_ok {value : PyValue} {c : NativeWireColumnLayout} {payload : Bytes}
    (hd : Derived c) (hs : c.storageType = .real ∨ c.storageType = .float)
    (h : encodeFloat value c = .ok payload) :
    c.fixedLength = some payload.length ∧ Returns py c value payload := by
  have hwidth : c.fixedLength = some 4 ∨ c.fixedLength = some 8 ∧ c.storageType = .float := by
    rcases hs with hs | hs
    · exact .inl (fixedLength_of_width hd (by rw [hs]; rfl) (by simp [hs]))
    · exact (fixedLength_float hd hs).imp_right fun hw => ⟨hw, hs⟩
  cases value with
  | float value =>
    obtain ⟨⟨⟩, hfinite, h⟩ := bind_ok.mp h
    have hfinite : double.finite value.val = true := by simpa using hfinite
    rcases hwidth with hwidth | ⟨hwidth, hfloat⟩
    · rw [if_pos hwidth] at h
      obtain ⟨packed, hpacked, h⟩ := bind_ok.mp h
      obtain ⟨unpacked, hunpacked, h⟩ := bind_ok.mp h
      obtain ⟨⟨⟩, hequal, h⟩ := bind_ok.mp h
      cases h
      obtain ⟨r, -, hlength, hof, hexponent⟩ := unpackSingle_packSingle hfinite hpacked
      refine ⟨by rw [hwidth, hlength], fun context => validate_float py hs ?_, .float unpacked, ?_,
        .float ?_⟩
      · rw [finiteFloat, if_pos hlength, hof]
        exact congrArg Except.ok (decide_eq_true hexponent)
      · rcases hs with hs | hs <;> simp [decodePayload, hs, hlength, hunpacked, Except.map]
      · rw [floatEq_comm]
        simpa using hequal
    · rw [if_neg (by simp [hwidth])] at h
      obtain ⟨packed, hpacked, h⟩ := bind_ok.mp h
      obtain ⟨unpacked, hunpacked, h⟩ := bind_ok.mp h
      obtain ⟨⟨⟩, hequal, h⟩ := bind_ok.mp h
      cases h
      cases hpacked
      refine ⟨by rw [hwidth, toLE_length], fun context => validate_float py hs ?_, .float unpacked,
        ?_, .float ?_⟩
      · rw [finiteFloat, if_neg (by simp), if_pos (toLE_length ..), ofLE_toLE 8 _ value.property]
        exact congrArg Except.ok (decide_eq_true (of_decide_eq_true hfinite))
      · simp [decodePayload, hfloat, hunpacked, Except.map]
      · rw [floatEq_comm]
        simpa using hequal
  | _ => cases h

/-! ### Decimals -/

theorem anyDigit_eq_false {digits : List (Fin 10)} (h : anyDigit digits = false) :
    spelled digits = 0 := by
  refine spelled_eq_zero fun d hd => ?_
  have hall := List.any_eq_false.mp h d hd
  simpa using hall

theorem shifted_ok {negative : Bool} {digits : List (Fin 10)} {shift precision : ℕ} {n : ℤ}
    (h : shifted negative digits shift precision = .ok n) :
    n = (if negative then -1 else 1) * spelled digits * 10 ^ shift ∧ n.natAbs < 10 ^ precision := by
  unfold shifted at h
  by_cases hlen : precision < digits.length + shift
  · rw [if_pos hlen] at h
    cases h
  · rw [if_neg hlen] at h
    obtain rfl := Except.ok.inj h
    refine ⟨rfl, ?_⟩
    have habs : ((if negative then -1 else 1) * (spelled digits : ℤ) * 10 ^ shift).natAbs =
        spelled digits * 10 ^ shift := by
      cases negative <;> simp [Int.natAbs_mul, Int.natAbs_pow]
    rw [habs]
    calc spelled digits * 10 ^ shift
        < 10 ^ digits.length * 10 ^ shift :=
          Nat.mul_lt_mul_of_pos_right (spelled_lt digits) (by positivity)
      _ = 10 ^ (digits.length + shift) := (pow_add ..).symm
      _ ≤ 10 ^ precision := Nat.pow_le_pow_right (by decide) (by omega)

/-- CORRECT: a coefficient is the decimal at its scale, exactly, and within the precision. -/
theorem coefficientOf_ok {precision scale : ℕ} {d : PyDecimal} {n : ℤ}
    (h : coefficientOf precision scale d = .ok n) :
    d.value = some ((n : ℚ) / 10 ^ scale) ∧ n.natAbs < 10 ^ precision := by
  cases d with
  | special => cases h
  | finite negative digits exponent =>
    have hten : (10 : ℚ) ≠ 0 := by norm_num
    have hexp : ∀ k : ℤ, exponent + scale = k → (10 : ℚ) ^ exponent = 10 ^ k / 10 ^ scale := by
      rintro k rfl
      rw [zpow_add₀ hten, zpow_natCast, mul_div_assoc, div_self (pow_ne_zero _ hten), mul_one]
    unfold coefficientOf at h
    dsimp only at h
    by_cases hzero : ¬ anyDigit digits
    · rw [if_pos hzero] at h
      obtain rfl := Except.ok.inj h
      have hspelled := anyDigit_eq_false (by simpa using hzero)
      refine ⟨?_, by simp⟩
      rw [PyDecimal.value, hspelled]
      simp
    rw [if_neg hzero] at h
    by_cases hneg : exponent + scale < 0
    · -- trailing zeros are cut off
      obtain ⟨k, hk⟩ : ∃ k : ℕ, (-(exponent + scale)).toNat = k := ⟨_, rfl⟩
      rw [if_pos hneg, hk] at h
      by_cases hcut : digits.length ≤ k ∨ anyDigit (digits.drop (digits.length - k))
      · rw [if_pos hcut] at h
        cases h
      rw [if_neg hcut] at h
      obtain ⟨hlen, hzeros⟩ := not_or.mp hcut
      obtain ⟨hn, hlt⟩ := shifted_ok h
      refine ⟨?_, hlt⟩
      have htail : spelled (digits.drop (digits.length - k)) = 0 :=
        anyDigit_eq_false (by simpa using hzeros)
      have hdigits : spelled digits = spelled (digits.take (digits.length - k)) * 10 ^ k := by
        conv_lhs => rw [← List.take_append_drop (digits.length - k) digits]
        rw [spelled_append, htail, Nat.add_zero, List.length_drop]
        congr 2
        omega
      have hk0 : (10 : ℚ) ^ k ≠ 0 := pow_ne_zero _ hten
      rw [PyDecimal.value, hexp (-(k : ℤ)) (by omega), hdigits, hn, zpow_neg, zpow_natCast]
      push_cast
      rw [mul_one, ← mul_assoc, mul_assoc _ ((10 : ℚ) ^ k), mul_div_assoc',
        mul_inv_cancel₀ hk0, mul_one_div]
    · obtain ⟨k, hk⟩ : ∃ k : ℕ, exponent + scale = k :=
        ⟨(exponent + scale).toNat, (Int.toNat_of_nonneg (by omega)).symm⟩
      rw [if_neg hneg, hk, Int.toNat_natCast] at h
      obtain ⟨hn, hlt⟩ := shifted_ok h
      refine ⟨?_, hlt⟩
      rw [PyDecimal.value, hexp k hk, hn, zpow_natCast]
      push_cast
      rw [mul_div_assoc]

theorem coefficient_ok {precision scale : ℕ} {value : PyValue} {n : ℤ}
    (h : coefficient value precision scale = .ok n) :
    exactValue value = some ((n : ℚ) / 10 ^ scale) ∧ n.natAbs < 10 ^ precision := by
  cases value with
  | int m =>
    have h : coefficientOf precision scale (.ofInt m) = .ok n := h
    obtain ⟨hvalue, hlt⟩ := coefficientOf_ok h
    refine ⟨?_, hlt⟩
    rw [← hvalue, PyDecimal.ofInt, value_scaled]
    simp [exactValue]
  | decimal d =>
    have h : coefficientOf precision scale d = .ok n := h
    exact coefficientOf_ok h
  | _ => cases h

/-- A `decimal` or `numeric` column whose declared precision is not zero. -/
def Precise (c : NativeWireColumnLayout) : Prop :=
  c.storageType.exact = true → c.precision ≠ some 0

theorem orDefault_scale {c : NativeWireColumnLayout} : orDefault c.scale 0 = c.scale.getD 0 := by
  cases c.scale with
  | none => rfl
  | some n => cases n <;> rfl

/-- The bytes of a decimal and what the encoder checked of it. -/
theorem encodeDecimal_exact {value : PyValue} {c : NativeWireColumnLayout} {payload : Bytes}
    (hexact : c.storageType.exact = true) (h : encodeDecimal value c = .ok payload) :
    ∃ (number : ℤ) (magnitude : Bytes), let precision := orDefault c.precision 18
      (1 ≤ precision ∧ precision ≤ 38) ∧ c.scale.getD 0 ≤ precision ∧
      coefficient value precision (c.scale.getD 0) = .ok number ∧
      toBytes 16 false number.natAbs = .ok magnitude ∧
      payload = UInt8.ofNat precision :: UInt8.ofNat (c.scale.getD 0) ::
        (if 0 ≤ number then 1 else 0) :: magnitude := by
  unfold encodeDecimal at h
  rw [if_pos hexact, orDefault_scale] at h
  dsimp only at h
  obtain ⟨⟨⟩, hbounds, h⟩ := bind_ok.mp h
  obtain ⟨number, hnumber, h⟩ := bind_ok.mp h
  obtain ⟨magnitude, hmagnitude, h⟩ := bind_ok.mp h
  obtain ⟨hprecision, hscale⟩ := not_or.mp (raiseIf_ok.mp hbounds)
  exact ⟨number, magnitude, not_not.mp hprecision, not_not.mp hscale, hnumber, hmagnitude,
    (Except.ok.inj h).symm⟩

theorem returns_decimal {value : PyValue} {c : NativeWireColumnLayout} {payload : Bytes}
    (hd : Derived c) (hexact : c.storageType.exact = true) (hprecise : Precise c)
    (h : encodeDecimal value c = .ok payload) : Returns py c value payload := by
  obtain ⟨number, magnitude, ⟨hlow, hhigh⟩, hscale, hnumber, hmagnitude, rfl⟩ :=
    encodeDecimal_exact hexact h
  obtain ⟨p, hp⟩ := Option.isSome_iff_exists.mp (hd.exact_of hexact).1
  have hprecision : orDefault c.precision 18 = p := by
    have hne := hprecise hexact
    rw [hp] at hne ⊢
    cases p with
    | zero => exact absurd rfl hne
    | succ p => rfl
  rw [hprecision] at hlow hhigh hscale hnumber ⊢
  obtain ⟨hvalue, hlt⟩ := coefficient_ok hnumber
  have hof : ofLE magnitude = number.natAbs := by exact_mod_cast ofLE_of_toBytes hmagnitude
  have hp' : c.precision.getD 18 = p := by rw [hp]; rfl
  have hheader : ∀ context, validateDecimal (UInt8.ofNat p :: UInt8.ofNat (c.scale.getD 0) ::
      (if 0 ≤ number then 1 else 0) :: magnitude) c.field context = .ok () := by
    intro context
    refine bind_ok.mpr ⟨UInt8.ofNat p, rfl, bind_ok.mpr ⟨(), raiseIf_ok.mpr ?_,
      bind_ok.mpr ⟨UInt8.ofNat (c.scale.getD 0), rfl, bind_ok.mpr ⟨(), raiseIf_ok.mpr ?_,
        bind_ok.mpr ⟨if 0 ≤ number then 1 else 0, rfl, bind_ok.mpr ⟨(), raiseIf_ok.mpr ?_,
          raiseIf_ok.mpr ?_⟩⟩⟩⟩⟩⟩
    · rw [byte_toNat (by omega), not_not]
      exact hp'.symm
    · rw [byte_toNat (by omega), not_not]
      rfl
    · split_ifs <;> decide
    · change ¬ (¬ (1 ≤ c.precision.getD 18 ∧ c.precision.getD 18 ≤ 38) ∨
        c.precision.getD 18 < c.scale.getD 0 ∨ 10 ^ c.precision.getD 18 ≤ ofLE magnitude)
      rw [hp', hof]
      omega
  have hnumber' : (number.natAbs : ℤ) *
      (if (if 0 ≤ number then 1 else 0 : UInt8) ≠ 0 then 1 else -1) = number := by
    by_cases hsign : 0 ≤ number
    · rw [if_pos hsign, if_pos (by decide)]
      omega
    · rw [if_neg hsign, if_neg (by decide)]
      omega
  have hstorage : c.storageType = .decimal ∨ c.storageType = .numeric := by
    cases hs : c.storageType <;> simp [hs, Storage.exact] at hexact ⊢
  refine ⟨fun context => ?_, .decimal (.scaled number (c.scale.getD 0)), ?_, ?_⟩
  · have hrest : validateScalarDomain py (UInt8.ofNat p :: UInt8.ofNat (c.scale.getD 0) ::
        (if 0 ≤ number then 1 else 0) :: magnitude) c.field context = .ok () := by
      rcases hstorage with hs | hs <;> simp [validateScalarDomain, hs, pure, Except.pure]
    have hbit : c.storageType ≠ .bit := by rcases hstorage with hs | hs <;> simp [hs]
    unfold validatePayload
    rw [field_storageType, if_pos hexact, hheader context, ok_bind, if_neg hbit]
    exact hrest
  · have hdecode : decodeDecimal (UInt8.ofNat p :: UInt8.ofNat (c.scale.getD 0) ::
        (if 0 ≤ number then 1 else 0) :: magnitude) (c.scale.getD 0) =
        .ok (.decimal (.scaled number (c.scale.getD 0))) := by
      refine bind_ok.mpr ⟨if 0 ≤ number then 1 else 0, rfl, congrArg (fun n => Except.ok
        (PyValue.decimal (.scaled n (c.scale.getD 0)))) ?_⟩
      change (ofLE magnitude : ℤ) * _ = number
      rw [hof]
      exact hnumber'
    rcases hstorage with hs | hs <;> rw [decodePayload, hs] <;> exact hdecode
  · exact .number hvalue (value_scaled number _)

/-- CORRECT: at a declared precision of zero the encoder writes its default and the decoder expects
    the zero. -/
theorem rejects_decimal {value : PyValue} {c : NativeWireColumnLayout} {payload : Bytes}
    (hexact : c.storageType.exact = true) (hp : c.precision = some 0)
    (h : encodeDecimal value c = .ok payload) (context : String) :
    ∃ e, validatePayload py payload c.field context = .error e := by
  obtain ⟨number, magnitude, -, -, -, -, rfl⟩ := encodeDecimal_exact hexact h
  rw [hp]
  have hheader : (UInt8.ofNat (orDefault (some 0) 18)).toNat ≠ c.field.precision.getD 18 := by
    rw [field_precision, hp]
    decide
  refine ⟨.valueError s!"native_wire_invalid_decimal:{context}", ?_⟩
  unfold validatePayload
  rw [field_storageType, if_pos hexact]
  refine bind_error.mpr (.inl ?_)
  unfold validateDecimal
  refine bind_error.mpr (.inr ⟨UInt8.ofNat (orDefault (some 0) 18), rfl, bind_error.mpr (.inl ?_)⟩)
  exact raiseIf_pos hheader _

theorem returns_money {value : PyValue} {c : NativeWireColumnLayout} {payload : Bytes}
    (hs : c.storageType = .money) (h : encodeDecimal value c = .ok payload) :
    payload.length = 8 ∧ Returns py c value payload := by
  unfold encodeDecimal at h
  rw [if_neg (by simp [hs, Storage.exact])] at h
  obtain ⟨number, hnumber, h⟩ := bind_ok.mp h
  rw [if_neg (by simp [hs])] at h
  obtain ⟨high, hhigh, h⟩ := bind_ok.mp h
  obtain ⟨low, hlow, h⟩ := bind_ok.mp h
  cases h
  have hlength := toBytes_length hhigh
  obtain ⟨hvalue, -⟩ := coefficient_ok hnumber
  have hmoney : decodeMoney (high ++ low) = number := by
    rw [decodeMoney, List.take_left' hlength, List.drop_left' hlength,
      ofLESigned_of_toBytes hhigh, ofLE_of_toBytes hlow]
    omega
  refine ⟨by rw [List.length_append, hlength, toBytes_length hlow], fun context => ?_,
    .decimal (.scaled number 4), ?_, .number hvalue (value_scaled number 4)⟩
  · rw [validatePayload_plain py (by simp [hs, Storage.exact]) (by simp [hs])]
    simp [validateScalarDomain, hs, pure, Except.pure]
  · rw [decodePayload, hs]
    exact congrArg (fun n => Except.ok (PyValue.decimal (.scaled n 4))) hmoney

theorem returns_smallmoney {value : PyValue} {c : NativeWireColumnLayout} {payload : Bytes}
    (hs : c.storageType = .smallmoney) (h : encodeDecimal value c = .ok payload) :
    payload.length = 4 ∧ Returns py c value payload := by
  unfold encodeDecimal at h
  rw [if_neg (by simp [hs, Storage.exact])] at h
  obtain ⟨number, hnumber, h⟩ := bind_ok.mp h
  rw [if_pos hs] at h
  have hlength := toBytes_length h
  obtain ⟨hvalue, -⟩ := coefficient_ok hnumber
  refine ⟨hlength, fun context => ?_, .decimal (.scaled number 4), ?_,
    .number hvalue (value_scaled number 4)⟩
  · rw [validatePayload_plain py (by simp [hs, Storage.exact]) (by simp [hs])]
    simp [validateScalarDomain, hs, pure, Except.pure]
  · simp [decodePayload, hs, unpackSigned, hlength, Except.map, ofLESigned_of_toBytes h]

theorem encodeDecimal_length {value : PyValue} {c : NativeWireColumnLayout} {payload : Bytes}
    (hexact : c.storageType.exact = true) (h : encodeDecimal value c = .ok payload) :
    payload.length = 19 := by
  obtain ⟨number, magnitude, -, -, -, hmagnitude, rfl⟩ := encodeDecimal_exact hexact h
  rw [List.length_cons, List.length_cons, List.length_cons, toBytes_length hmagnitude]

/-! ### UUIDs -/

theorem returns_uuid {value : PyValue} {c : NativeWireColumnLayout} {x : Uuid}
    (hs : c.storageType = .uniqueidentifier) (hx : identifier py value = some x) :
    Returns py c value x.bytesLe := by
  refine ⟨fun context => ?_, .text (textOf x.text), ?_, .uuid hs hx ?_⟩
  · rw [validatePayload_plain py (by simp [hs, Storage.exact]) (by simp [hs])]
    simp [validateScalarDomain, hs, pure, Except.pure]
  · rw [decodePayload, hs, decodeUniqueidentifier, Uuid.ofBytesLe_bytesLe]
  · rw [identifier, charsOf_textOf, Option.bind_some, Uuid.ofText_text]

end Dpone.NativeWire
