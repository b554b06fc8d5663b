import Dpone.NativeWire.TemporalRoundTrip

/-! The native round trip: rows written by the encoder, read back by the decoder.

    A field comes back wherever it is decodable, whatever follows it in the file, and is an error
    where it is not. Fields make rows and rows make files, so that a file of accepted rows comes
    back exactly when every value in it is decodable. -/

namespace Dpone.NativeWire
open Dpone.Schemes

variable (py : Runtime) (digest : Digest)

/-! ### One payload -/

/-- A value that the decoder takes back: its decimal column does not declare precision zero, and
    its UTC time of day is of the declared precision. -/
def Decodable (c : NativeWireColumnLayout) (value : PyValue) : Prop :=
  Precise c ∧ ExactInUtc py c value

/-- What the decoder makes of an accepted payload. -/
structure Decided (c : NativeWireColumnLayout) (value : PyValue) (payload : Bytes) : Prop where
  returns : Decodable py c value → Returns py c value payload
  rejects : ¬ Decodable py c value →
    ∀ context, ∃ e, validatePayload py payload c.field context = .error e

theorem decided_of_returns {c : NativeWireColumnLayout} {value : PyValue} {payload : Bytes}
    (hexact : c.storageType.exact = false) (hs : c.storageType ≠ .datetimeoffset)
    (h : Returns py c value payload) : Decided py c value payload := by
  have hdecodable : Decodable py c value :=
    ⟨fun he => absurd he (by rw [hexact]; simp), fun ho => absurd ho hs⟩
  exact ⟨fun _ => h, fun hno => absurd hdecodable hno⟩

theorem encodeDecimal_decided {value : PyValue} {c : NativeWireColumnLayout} {payload : Bytes}
    (hd : Derived c) (hexact : c.storageType.exact = true)
    (h : encodeDecimal value c = .ok payload) : Decided py c value payload := by
  have hutc : ExactInUtc py c value := fun ho => by
    rw [ho] at hexact
    cases hexact
  refine ⟨fun hdecodable => returns_decimal py hd hexact hdecodable.1 h, fun hno => ?_⟩
  have hzero : c.precision = some 0 := by
    by_contra hne
    exact hno ⟨fun _ => hne, hutc⟩
  exact fun context => rejects_decimal py hexact hzero h context

/-- CORRECT: a value without an offset fills its width and comes back. -/
theorem encodeDatetime_returns {t : PyDateTime} {c : NativeWireColumnLayout} {payload : Bytes}
    (hd : Derived c) (h : encodeDatetime py t c = .ok payload) :
    (c.storageType = .datetime2 ∧ payload.length = 8 ∨
      c.storageType = .smalldatetime ∧ payload.length = 4 ∨
      c.storageType = .datetime ∧ payload.length = 8) ∧ Returns py c (.datetime t) payload := by
  obtain ⟨⟨⟩, haware, h⟩ := bind_ok.mp h
  obtain ⟨ticks, hticks, h⟩ := bind_ok.mp h
  have haware : t.aware = false := by simpa using haware
  dsimp only at h
  split at h
  · next hs =>
    obtain ⟨time, htime, h⟩ := bind_ok.mp h
    obtain ⟨day, hday, h⟩ := bind_ok.mp h
    obtain rfl := Except.ok.inj h
    obtain ⟨hlength, hreturns⟩ := returns_datetime2 py hd hs haware hticks htime hday
    exact ⟨.inl ⟨hs, hlength⟩, hreturns⟩
  · next hs =>
    obtain ⟨⟨⟩, hwhole, h⟩ := bind_ok.mp h
    obtain ⟨day, hday, h⟩ := bind_ok.mp h
    obtain ⟨minutes, hminutes, h⟩ := bind_ok.mp h
    obtain rfl := Except.ok.inj h
    obtain ⟨hlength, hreturns⟩ := returns_smalldatetime py hs haware hticks
      (not_not.mp (raiseIf_ok.mp hwhole)) hday hminutes
    exact ⟨.inr (.inl ⟨hs, hlength⟩), hreturns⟩
  · next hs =>
    obtain ⟨⟨⟩, hdomain, h⟩ := bind_ok.mp h
    obtain ⟨day, hday, h⟩ := bind_ok.mp h
    obtain ⟨time, htime, h⟩ := bind_ok.mp h
    obtain rfl := Except.ok.inj h
    obtain ⟨hyear, hwhole⟩ := not_or.mp (raiseIf_ok.mp hdomain)
    obtain ⟨hlength, hreturns⟩ := returns_datetime py hs haware hticks hyear
      (not_not.mp hwhole) hday htime
    exact ⟨.inr (.inr ⟨hs, hlength⟩), hreturns⟩
  · cases h

/-- The width of a temporal column's payloads. -/
theorem fixedLength_of_temporal {c : NativeWireColumnLayout} (hd : Derived c) :
    (c.storageType = .time → c.fixedLength = some 5) ∧
      (c.storageType = .datetime2 → c.fixedLength = some 8) ∧
      (c.storageType = .datetimeoffset → c.fixedLength = some 10) := by
  have hwidth : ∀ {s : Storage} {n : ℕ}, c.storageType = s → s.temporal = true →
      s.variableLength = false → fixedLength s (some 7) c.precision = .ok (some n) →
      c.fixedLength = some n := by
    intro s n hs ht hvariable hn
    obtain ⟨m, hm, hfix⟩ := hd.fixed_of (by rw [hs]; exact hvariable)
    rw [hs, hd.scale_of (by rw [hs]; exact ht), hn] at hfix
    rw [hm, Option.some.inj (Except.ok.inj hfix)]
  exact ⟨fun hs => hwidth hs rfl rfl rfl, fun hs => hwidth hs rfl rfl rfl,
    fun hs => hwidth hs rfl rfl rfl⟩

theorem encodeTemporal_decided {value : PyValue} {c : NativeWireColumnLayout} {payload : Bytes}
    (hd : Derived c) (h : encodeTemporal py value c = .ok payload)
    (hexact : c.storageType.exact = false) :
    c.fixedLength = some payload.length ∧ Decided py c value payload := by
  obtain ⟨htime, hdatetime2, hoffset⟩ := fixedLength_of_temporal hd
  have hprecise : Precise c := fun he => absurd he (by rw [hexact]; simp)
  unfold encodeTemporal at h
  split at h
  · next hs =>
    obtain ⟨hlength, hreturns⟩ := returns_date py hs h
    have hwidth : c.fixedLength = some 3 :=
      fixedLength_of_width hd (by rw [hs]; rfl) (by simp [hs])
    exact ⟨by rw [hwidth, hlength], decided_of_returns py hexact (by simp [hs]) hreturns⟩
  · cases h
  · next hs =>
    obtain ⟨⟨⟩, haware, h⟩ := bind_ok.mp h
    obtain ⟨ticks, hticks, h⟩ := bind_ok.mp h
    obtain ⟨hlength, hreturns⟩ := returns_time py hd hs (by simpa using haware) hticks h
    exact ⟨by rw [htime hs, hlength], decided_of_returns py hexact (by simp [hs]) hreturns⟩
  · cases h
  · next hs =>
    obtain ⟨hlength, hreturns, hrejects⟩ := returns_datetimeoffset py hd hs h
    exact ⟨by rw [hoffset hs, hlength], fun hdecodable => hreturns hdecodable.2,
      fun hno => hrejects fun hutc => hno ⟨hprecise, hutc⟩⟩
  · obtain ⟨hkinds, hreturns⟩ := encodeDatetime_returns py hd h
    have hwidth : ∀ {n : ℕ}, c.storageType.fixedWidth = some n → c.storageType ≠ .float →
        c.fixedLength = some n := fun {n} => fixedLength_of_width hd
    rcases hkinds with ⟨hs, hlength⟩ | ⟨hs, hlength⟩ | ⟨hs, hlength⟩
    · exact ⟨by rw [hdatetime2 hs, hlength],
        decided_of_returns py hexact (by simp [hs]) hreturns⟩
    · exact ⟨by rw [hwidth (n := 4) (by rw [hs]; rfl) (by simp [hs]), hlength],
        decided_of_returns py hexact (by simp [hs]) hreturns⟩
    · exact ⟨by rw [hwidth (n := 8) (by rw [hs]; rfl) (by simp [hs]), hlength],
        decided_of_returns py hexact (by simp [hs]) hreturns⟩
  · cases h

theorem admits_fixed {c : NativeWireColumnLayout} {n : ℕ} (h : c.fixedLength = some n) :
    Admits py c.field n := by
  refine ⟨Int.natCast_nonneg n, fun m hm => ?_, fun hnone => ?_⟩
  · change m ∈ c.fixedLength at hm
    rw [h, Option.mem_some_iff] at hm
    rw [hm]
  · change c.fixedLength = none at hnone
    rw [h] at hnone
    cases hnone

/-- What an accepted value's payload is: of the size that sizing gives, within the decoder's bound,
    and decided by it. -/
structure Encoded (c : NativeWireColumnLayout) (value : PyValue) (remaining : ℤ)
    (payload : Bytes) : Prop where
  sized : c.fixedLength = some payload.length ∨
    c.fixedLength = none ∧ nativeValueSize py value c remaining = .ok payload.length
  admits : Admits py c.field payload.length
  decided : Decided py c value payload

theorem encoded_fixed {c : NativeWireColumnLayout} {value : PyValue} {remaining : ℤ}
    {payload : Bytes} (hwidth : c.fixedLength = some payload.length)
    (hdecided : Decided py c value payload) : Encoded py c value remaining payload :=
  ⟨.inl hwidth, admits_fixed py hwidth, hdecided⟩

/-- STEP: one value of any storage type. -/
theorem encodePayload_encoded {value : PyValue} {c : NativeWireColumnLayout} {remaining : ℤ}
    {payload : Bytes} (hd : Derived c) (h : encodePayload py value c remaining = .ok payload) :
    Encoded py c value remaining payload := by
  have hvariable : c.storageType.variableLength = true → c.storageType.exact = false →
      c.storageType ≠ .datetimeoffset → encodeVariable py value c remaining = .ok payload →
      Encoded py c value remaining payload := by
    intro hvar hexact hne h
    obtain ⟨hsize, hadmits, hreturns⟩ := encodeVariable_ok py hd hvar h
    exact ⟨.inr ⟨(hd.variable_of hvar).1, hsize⟩, hadmits, decided_of_returns py hexact hne hreturns⟩
  have hinteger : c.storageType.exact = false → c.storageType ≠ .datetimeoffset →
      c.fixedLength = some payload.length ∧ Returns py c value payload →
      Encoded py c value remaining payload :=
    fun hexact hne hboth => encoded_fixed py hboth.1 (decided_of_returns py hexact hne hboth.2)
  have hwidth : ∀ {n : ℕ}, c.storageType.fixedWidth = some n → c.storageType ≠ .float →
      payload.length = n → c.fixedLength = some payload.length :=
    fun {n} hn hne hlength => by rw [fixedLength_of_width hd hn hne, hlength]
  cases hs : c.storageType <;> simp only [encodePayload, hs] at h
  case unsupported => exact absurd hs hd.admitted
  case char | varchar | nchar | nvarchar | binary | varbinary =>
    exact hvariable (by rw [hs]; rfl) (by rw [hs]; rfl) (by simp [hs]) h
  case bit | tinyint | smallint | int | bigint =>
    exact hinteger (by rw [hs]; rfl) (by simp [hs]) (encodeInteger_ok py hd (by simp [hs]) h)
  case real | float =>
    exact hinteger (by rw [hs]; rfl) (by simp [hs]) (encodeFloat_ok py hd (by simp [hs]) h)
  case decimal | numeric =>
    have hexact : c.storageType.exact = true := by rw [hs]; rfl
    exact encoded_fixed py (hwidth (by rw [hs]; rfl) (by simp [hs]) (encodeDecimal_length hexact h))
      (encodeDecimal_decided py hd hexact h)
  case money =>
    obtain ⟨hlength, hreturns⟩ := returns_money py hs h
    exact hinteger (by rw [hs]; rfl) (by simp [hs])
      ⟨hwidth (by rw [hs]; rfl) (by simp [hs]) hlength, hreturns⟩
  case smallmoney =>
    obtain ⟨hlength, hreturns⟩ := returns_smallmoney py hs h
    exact hinteger (by rw [hs]; rfl) (by simp [hs])
      ⟨hwidth (by rw [hs]; rfl) (by simp [hs]) hlength, hreturns⟩
  case uniqueidentifier =>
    cases hx : identifier py value with
    | none => rw [hx] at h; cases h
    | some x =>
      rw [hx] at h
      obtain rfl := Except.ok.inj h
      exact hinteger (by rw [hs]; rfl) (by simp [hs])
        ⟨hwidth (by rw [hs]; rfl) (by simp [hs]) (Uuid.bytesLe_length x), returns_uuid py hs hx⟩
  case date | time | datetime2 | datetimeoffset | datetime | smalldatetime =>
    obtain ⟨hlength, hdecided⟩ := encodeTemporal_decided py hd h (by rw [hs]; rfl)
    exact encoded_fixed py hlength hdecided

/-! ### One field -/

theorem encodeNativeValue_encoded {value : PyValue} {c : NativeWireColumnLayout} {remaining : ℤ}
    {payload : Bytes} (hd : Derived c) (h : encodeNativeValue py value c remaining = .ok payload) :
    nativeValueSize py value c remaining = .ok payload.length ∧
      Encoded py c value remaining payload := by
  obtain ⟨⟨⟩, hfits, h⟩ := bind_ok.mp h
  obtain ⟨encoded, hencoded, h⟩ := bind_ok.mp h
  obtain ⟨⟨⟩, -, h⟩ := bind_ok.mp h
  obtain rfl := Except.ok.inj h
  have hpayload : encodePayload py value c remaining = .ok encoded := by
    cases hp : encodePayload py value c remaining with
    | error e => rw [hp] at hencoded; cases hencoded
    | ok b => rw [hp] at hencoded; exact hencoded
  have hall := encodePayload_encoded py hd hpayload
  refine ⟨?_, hall⟩
  rcases hall.sized with hwidth | ⟨-, hsize⟩
  · have hroom : ¬ remaining < (encoded.length : ℕ) := by
      have := raiseIf_ok.mp hfits
      rw [hwidth] at this
      simpa using this
    unfold nativeValueSize
    rw [hwidth]
    exact bind_ok.mpr ⟨(), raiseIf_ok.mpr hroom, rfl⟩
  · exact hsize

/-- STEP: sizing a field agrees with encoding it. -/
theorem encodeField_sized {maxRowBytes : ℤ} {written : ℕ} {c : NativeWireColumnLayout}
    {value : PyValue} {field : Bytes} (hd : Derived c)
    (h : encodeField py maxRowBytes written c value = .ok field) :
    sizeField py maxRowBytes written c value = .ok (written + field.length) := by
  have hroom : ¬ maxRowBytes < (written + c.prefixWidth : ℕ) := by
    obtain ⟨⟨⟩, hroom, -⟩ := bind_ok.mp h
    have := raiseIf_ok.mp hroom
    omega
  have hremaining : maxRowBytes - (written + c.prefixWidth : ℕ) =
      maxRowBytes - written - c.prefixWidth := by omega
  unfold sizeField
  dsimp only
  rw [raiseIf_neg hroom, ok_bind]
  rcases encodeField_ok py h with ⟨rfl, hnullable, hwidth, rfl⟩ | ⟨payload, hvalue, hpayload, -, rfl⟩
  · rw [if_pos rfl, raiseIf_neg (by simp [hnullable, hwidth]), ok_bind, List.length_replicate]
    rfl
  · obtain ⟨hsize, -⟩ := encodeNativeValue_encoded py hd hpayload
    have hframed : (framed c payload).length = c.prefixWidth + payload.length := by
      unfold framed
      split_ifs with hwidth
      · rw [List.length_append, toLESigned_length]
      · omega
    rw [if_neg hvalue, hremaining, hsize, ok_bind, hframed, ← Nat.add_assoc]
    rfl

theorem readExact_take {h : Handle} {n : ℕ} {bytes rest : Bytes} {context : String}
    (hn : bytes.length = n) (hrest : h.rest = bytes ++ rest) :
    readExact h n context = .ok (bytes, h.advance n) := by
  have hle : n ≤ h.rest.length := by
    rw [hrest, List.length_append]
    omega
  rw [readExact, if_neg (by omega), readWithin_eq, Int.toNat_natCast, if_pos hle, hrest,
    List.take_left' hn]

/-- A run of bytes of all ones is minus one. -/
theorem ofLESigned_ones {w : ℕ} (h : w ≠ 0) : ofLESigned (List.replicate w 0xFF) = -1 := by
  have hof : ∀ w, ofLE (List.replicate w 0xFF) + 1 = 256 ^ w := by
    intro w
    induction w with
    | zero => rfl
    | succ w ih =>
      have hbyte : (0xFF : UInt8).toNat = 255 := rfl
      rw [List.replicate_succ, ofLE, hbyte, pow_succ]
      omega
  have hpow : 2 ≤ 256 ^ w := (show 2 ≤ 256 ^ 1 by decide).trans
    (Nat.pow_le_pow_right (by decide) (Nat.one_le_iff_ne_zero.mpr h))
  have hcast : ((256 : ℤ) ^ w) = ((256 ^ w : ℕ) : ℤ) := by push_cast; rfl
  have hw := hof w
  rw [ofLESigned, List.length_replicate, if_neg (by omega), hcast]
  omega

/-- A framed payload is read up to its check, wherever it stands. -/
theorem readNativePayload_framed {c : NativeWireColumnLayout} {payload : Bytes} {h : Handle}
    {rest : Bytes} (i : ℕ) (hadmits : Admits py c.field payload.length)
    (hframe : c.prefixWidth ≠ 0 → 2 * (payload.length : ℤ) < 256 ^ c.prefixWidth)
    (hbare : c.prefixWidth = 0 → c.fixedLength = some payload.length)
    (hrest : h.rest = framed c payload ++ rest) :
    ∃ context, readNativePayload py h c i = (do
      validatePayload py payload c.field context
      return (some payload, h.advance (framed c payload).length)) := by
  refine ⟨fieldContext c.storageType i h, ?_⟩
  unfold readNativePayload
  dsimp only
  rw [field_prefixWidth, field_storageType]
  by_cases hwidth : c.prefixWidth ≠ 0
  · have hlow : -(256 ^ c.prefixWidth : ℤ) ≤ 2 * (payload.length : ℤ) := by
      have : (0 : ℤ) < 256 ^ c.prefixWidth := by positivity
      omega
    rw [framed, if_pos hwidth, List.append_assoc] at hrest
    have hthere : (h.advance c.prefixWidth).rest = payload ++ rest := by
      rw [Handle.rest_advance, hrest, List.drop_left' (toLESigned_length ..)]
    rw [if_pos hwidth, readExact_take (toLESigned_length ..) hrest, ok_bind]
    dsimp only
    rw [ofLESigned_toLESigned hlow (hframe hwidth), if_neg (by omega),
      readNativeValue_of_admits py _ _ hadmits, readExact_take rfl hthere, ok_bind, framed,
      if_pos hwidth, List.length_append, toLESigned_length, Handle.advance_advance]
  · have hzero : c.prefixWidth = 0 := not_not.mp hwidth
    rw [framed, if_neg hwidth] at hrest
    rw [if_neg hwidth, field_fixedLength, hbare hzero, Option.map_some,
      readNativeValue_of_admits py _ _ hadmits, readExact_take rfl hrest, ok_bind, framed,
      if_neg hwidth]

/-- A NULL comes back, and a value if it is decodable. -/
def FieldGood (c : NativeWireColumnLayout) (value : PyValue) : Prop :=
  value ≠ .none → Decodable py c value

/-- STEP: the decoder decides every field the encoder wrote. -/
theorem readColumn_decides {maxRowBytes : ℤ} {written : ℕ} {c : NativeWireColumnLayout}
    {value : PyValue} {field : Bytes} (hd : Derived c)
    (h : encodeField py maxRowBytes written c value = .ok field) (i : ℕ) :
    (readColumn py c i).Decides field (FieldGood py c value)
      (SameValue py c.storageType value) := by
  rcases encodeField_ok py h with ⟨rfl, hnullable, hwidth, rfl⟩ |
    ⟨payload, hvalue, hpayload, hframe, rfl⟩
  · refine ⟨fun _ h rest hrest => ⟨.none, ?_, .same _⟩, fun hno => absurd (fun hne => ?_) hno⟩
    · unfold readColumn readNativePayload
      dsimp only
      rw [field_prefixWidth, if_pos hwidth, readExact_take (List.length_replicate ..) hrest, ok_bind]
      dsimp only
      rw [ofLESigned_ones hwidth, if_pos rfl, raiseIf_neg (by simp [hnullable]), ok_bind,
        List.length_replicate]
      rfl
    · exact absurd rfl hne
  · obtain ⟨-, hencoded⟩ := encodeNativeValue_encoded py hd hpayload
    have hbare : c.prefixWidth = 0 → c.fixedLength = some payload.length := by
      intro hzero
      rcases hencoded.sized with hw | ⟨hnone, -⟩
      · exact hw
      · cases hvariable : c.storageType.variableLength with
        | true => exact absurd hzero (hd.variable_of hvariable).2.1
        | false =>
          obtain ⟨n, hn, -⟩ := hd.fixed_of hvariable
          rw [hnone] at hn
          cases hn
    constructor
    · intro hgood h rest hrest
      obtain ⟨hvalid, w, hw, hsame⟩ := hencoded.decided.returns (hgood hvalue)
      obtain ⟨context, hread⟩ := readNativePayload_framed py i hencoded.admits hframe hbare hrest
      refine ⟨w, ?_, hsame⟩
      unfold readColumn
      rw [hread, hvalid context]
      change (do let value ← decodePayload payload c; return (value, _)) = _
      rw [hw]
      rfl
    · intro hbad h rest hrest
      obtain ⟨context, hread⟩ := readNativePayload_framed py i hencoded.admits hframe hbare hrest
      obtain ⟨e, he⟩ := hencoded.decided.rejects (fun hgood => hbad fun _ => hgood) context
      refine ⟨e, ?_⟩
      unfold readColumn
      rw [hread, he]
      rfl

/-! ### Rows -/

/-- A field as it was written. -/
structure WrittenField where
  column : NativeWireColumnLayout
  value : PyValue
  bytes : Bytes

theorem rowValues_length {columns : List NativeWireColumnLayout} {row : Row} {values : List PyValue}
    (h : rowValues columns row = .ok values) : columns.length = values.length := by
  cases row with
  | sequence vs =>
    obtain ⟨⟨⟩, hlength, h⟩ := bind_ok.mp h
    obtain rfl := Except.ok.inj h
    exact (not_not.mp (raiseIf_ok.mp hlength)).symm
  | mapping entries =>
    obtain ⟨⟨⟩, -, h⟩ := bind_ok.mp h
    exact (mapM_ok.mp h).length_eq
  | other => cases h

/-- RUN: an encoded row is its fields one after the other, and is sized so. -/
theorem encodeFields_ok {maxRowBytes : ℤ} : ∀ {cs : List NativeWireColumnLayout}
    {vs : List PyValue} {result out : Bytes}, cs.length = vs.length → (∀ c ∈ cs, Derived c) →
    encodeFields py maxRowBytes cs vs result = .ok out →
    sizeFields py maxRowBytes cs vs result.length = .ok out.length ∧
      ∃ ws : List WrittenField, ws.map (·.column) = cs ∧ ws.map (·.value) = vs ∧
        out = result ++ (ws.map (·.bytes)).flatten ∧
        ∀ w ∈ ws, ∃ written, encodeField py maxRowBytes written w.column w.value = .ok w.bytes
  | [], [], result, out, _, _, h => by
      obtain rfl := Except.ok.inj h
      exact ⟨rfl, [], rfl, rfl, by simp, by simp⟩
  | c :: cs, v :: vs, result, out, hlength, hd, h => by
      obtain ⟨field, hfield, h⟩ := bind_ok.mp h
      obtain ⟨hsize, ws, hcolumns, hvalues, hout, hws⟩ := encodeFields_ok
        (Nat.succ.inj hlength) (fun c hc => hd c (by simp [hc])) h
      refine ⟨?_, ⟨c, v, field⟩ :: ws, ?_, ?_, ?_, ?_⟩
      · rw [sizeFields, encodeField_sized py (hd c (by simp)) hfield, ok_bind, ← List.length_append]
        exact hsize
      · rw [List.map_cons, hcolumns]
      · rw [List.map_cons, hvalues]
      · rw [hout, List.map_cons, List.flatten_cons, List.append_assoc]
      · intro w hw
        rcases List.mem_cons.mp hw with rfl | hw
        · exact ⟨_, hfield⟩
        · exact hws w hw

/-- A field of a validated layout takes at least one byte. -/
theorem encodeField_ne_nil {maxRowBytes : ℤ} {written : ℕ} {c : NativeWireColumnLayout}
    {value : PyValue} {field : Bytes} (hd : Derived c) (hocc : Occupied c.field)
    (h : encodeField py maxRowBytes written c value = .ok field) : field ≠ [] := by
  rcases encodeField_ok py h with ⟨-, -, hwidth, rfl⟩ | ⟨payload, -, hpayload, -, rfl⟩
  · simpa using hwidth
  · by_cases hwidth : c.prefixWidth ≠ 0
    · rw [framed, if_pos hwidth]
      intro hnil
      have hlength := congrArg List.length (List.append_eq_nil_iff.mp hnil).1
      rw [toLESigned_length] at hlength
      exact hwidth hlength
    · obtain ⟨n, hn, hpos⟩ := hocc.resolve_left hwidth
      obtain ⟨-, hencoded⟩ := encodeNativeValue_encoded py hd hpayload
      rw [Option.mem_def, field_fixedLength] at hn
      rw [framed, if_neg hwidth]
      rintro rfl
      rcases hencoded.sized with hsize | ⟨hnone, -⟩
      · rw [hn] at hsize
        exact absurd (Option.some.inj hsize) hpos.ne'
      · rw [hn] at hnone
        cases hnone

/-- A decoded row is the given one: under each column's name, in order, the same value. -/
def SameRow (columns : List NativeWireColumnLayout) (row : Row) (decoded : List (Str × PyValue)) :
    Prop :=
  ∃ values, rowValues columns row = .ok values ∧
    List.Forall₂ (fun p q => p.1.name = q.1 ∧ SameValue py p.1.storageType p.2 q.2)
      (columns.zip values) decoded

/-- A row of fields that come back. -/
def RowGood (columns : List NativeWireColumnLayout) (row : Row) : Prop :=
  ∀ values, rowValues columns row = .ok values →
    ∀ p ∈ columns.zip values, FieldGood py p.1 p.2

variable {py digest}

/-- A row as it was written. -/
structure WrittenRow where
  row : Row
  bytes : Bytes

/-- RUN: the decoder decides every row the encoder wrote, and sizing agrees. -/
theorem encodeRow_decides {encoder : MssqlNativeEncoder py digest} {row : Row} {payload : Bytes}
    (h : encoder.encodeRow py digest row = .ok payload) :
    encoder.encodedRowSize py digest row = .ok payload.length ∧ payload ≠ [] ∧
      (readRow (readColumn py) encoder.contract.columns 0).Decides payload
        (RowGood py encoder.contract.columns row) fun decoded =>
          SameRow py encoder.contract.columns row
            ((encoder.contract.columns.map (·.name)).zip decoded) := by
  obtain ⟨hne, -, hlayouts⟩ := validateMssqlNativeContract_ok py digest encoder.valid
  have hderived := validateLayouts_derived py hlayouts
  have hoccupied := validateLayouts_occupied py hlayouts
  obtain ⟨values, hvalues, h⟩ := bind_ok.mp h
  obtain ⟨hsize, ws, hcolumns, hvals, hout, hws⟩ :=
    encodeFields_ok py (rowValues_length hvalues) hderived h
  have hzip : encoder.contract.columns.zip values = ws.map fun w => (w.column, w.value) := by
    rw [← hcolumns, ← hvals, List.zip_map']
  have hmem : ∀ w ∈ ws, w.column ∈ encoder.contract.columns := fun w hw =>
    hcolumns ▸ List.mem_map_of_mem hw
  have hrow : (readRow (readColumn py) (ws.map (·.column)) 0).Decides (ws.map (·.bytes)).flatten
      (∀ w ∈ ws, FieldGood py w.column w.value)
      fun vs => List.Forall₂ (fun w v => SameValue py w.column.storageType w.value v) ws vs :=
    readRow_decides 0 fun w hw i => by
      obtain ⟨written, hfield⟩ := hws w hw
      exact readColumn_decides py (hderived _ (hmem w hw)) hfield i
  have hgood : RowGood py encoder.contract.columns row ↔
      ∀ w ∈ ws, FieldGood py w.column w.value := by
    constructor
    · intro hall w hw
      exact hall values hvalues (w.column, w.value) (by rw [hzip]; exact List.mem_map_of_mem hw)
    · intro hall values' hvalues' p hp
      obtain rfl : values = values' := Except.ok.inj (hvalues.symm.trans hvalues')
      rw [hzip] at hp
      obtain ⟨w, hw, rfl⟩ := List.mem_map.mp hp
      exact hall w hw
  have hnames : encoder.contract.columns.map (·.name) = ws.map (·.column.name) := by
    rw [← hcolumns, List.map_map]
    rfl
  have hsame : ∀ {ws : List WrittenField} {vs : List PyValue},
      List.Forall₂ (fun w v => SameValue py w.column.storageType w.value v) ws vs →
      List.Forall₂ (fun p q => p.1.name = q.1 ∧ SameValue py p.1.storageType p.2 q.2)
        (ws.map fun w => (w.column, w.value)) ((ws.map (·.column.name)).zip vs) := by
    intro ws vs hall
    induction hall with
    | nil => exact .nil
    | cons hw _ ih => exact .cons ⟨rfl, hw⟩ ih
  rw [List.nil_append] at hout
  rw [hcolumns, ← hout] at hrow
  refine ⟨bind_ok.mpr ⟨values, hvalues, hsize⟩, ?_, ?_, ?_⟩
  · cases ws with
    | nil => exact absurd hcolumns.symm hne
    | cons w ws =>
      obtain ⟨written, hfield⟩ := hws w (by simp)
      have hw := hmem w (by simp)
      have hbytes := encodeField_ne_nil py (hderived _ hw) (hoccupied _ hw) hfield
      rw [hout, List.map_cons, List.flatten_cons]
      exact fun hnil => hbytes (List.append_eq_nil_iff.mp hnil).1
  · intro hall h rest hrest
    obtain ⟨vs, hvs, hforall⟩ := hrow.takes (hgood.mp hall) h rest hrest
    refine ⟨vs, hvs, values, hvalues, ?_⟩
    rw [hzip, hnames]
    exact hsame hforall
  · exact fun hbad => hrow.refuses fun hall => hbad (hgood.mpr hall)

/-! ### Files -/

/-- What a round trip of rows is: each is sized as it was encoded, and the file of all of them
    decodes to the same rows in order. -/
structure RoundTrips (encoder : MssqlNativeEncoder py digest) (rows : List Row)
    (payloads : List Bytes) : Prop where
  sized : List.Forall₂ (fun row payload =>
    encoder.encodedRowSize py digest row = .ok payload.length) rows payloads
  decoded : ∃ decoded, decodeArtifact py digest encoder.contract payloads.flatten =
    some (.ok decoded) ∧ List.Forall₂ (SameRow py encoder.contract.columns) rows decoded

theorem decoderChecks_ok {contract : SourceNativeWireContract}
    (h : validateMssqlNativeContract py digest contract = .ok ()) :
    decoderChecks py digest contract = .ok () := by
  obtain ⟨⟨⟩, hprofile, -⟩ := bind_ok.mp h
  simp only [raiseIf_ok, not_or, not_not] at hprofile
  unfold decoderChecks
  rw [raiseIf_neg (not_not.mpr hprofile.2.2.1), ok_bind,
    raiseIf_neg (not_not.mpr hprofile.2.2.2.1), ok_bind]
  exact h

/-- CORRECT: rows the encoder accepted are sized as they were encoded, and come back from the file
    of their bytes if and only if every value in them is decodable: no number in a decimal column
    of declared precision zero, and every UTC time of a `datetimeoffset` column of the declared
    precision. -/
theorem round_trips_iff_decodable {encoder : MssqlNativeEncoder py digest} {rows : List Row}
    {payloads : List Bytes} (h : rows.mapM (encoder.encodeRow py digest) = .ok payloads) :
    RoundTrips encoder rows payloads ↔ ∀ row ∈ rows, RowGood py encoder.contract.columns row := by
  have hall := mapM_ok.mp h
  have hsized : List.Forall₂ (fun row payload =>
      encoder.encodedRowSize py digest row = .ok payload.length) rows payloads :=
    hall.imp fun _ _ hrow => (encodeRow_decides hrow).1
  have hwritten : ∃ ws : List WrittenRow, ws.map (·.row) = rows ∧ ws.map (·.bytes) = payloads ∧
      ∀ w ∈ ws, encoder.encodeRow py digest w.row = .ok w.bytes := by
    clear hsized h
    induction hall with
    | nil => exact ⟨[], rfl, rfl, by simp⟩
    | cons hrow _ ih =>
      obtain ⟨ws, hrows, hbytes, hws⟩ := ih
      refine ⟨⟨_, _⟩ :: ws, by rw [List.map_cons, hrows], by rw [List.map_cons, hbytes], ?_⟩
      intro w hw
      rcases List.mem_cons.mp hw with rfl | hw
      · exact hrow
      · exact hws w hw
  obtain ⟨ws, rfl, rfl, hws⟩ := hwritten
  have hrows : ∀ w ∈ ws, w.bytes ≠ [] ∧
      (readRow (readColumn py) encoder.contract.columns 0).Decides w.bytes
        (RowGood py encoder.contract.columns w.row) fun vs =>
          SameRow py encoder.contract.columns w.row
            ((encoder.contract.columns.map (·.name)).zip vs) :=
    fun w hw => (encodeRow_decides (hws w hw)).2
  have hwhole : Handle.rest { data := (ws.map (·.bytes)).flatten, position := 0 } =
      (ws.map (·.bytes)).flatten := rfl
  have hfuel : (Handle.rest { data := (ws.map (·.bytes)).flatten, position := 0 }).length ≤
      (ws.map (·.bytes)).flatten.length := le_rfl
  have hfile := readRows_decides hrows hwhole hfuel
  have hdecode : decodeArtifact py digest encoder.contract (ws.map (·.bytes)).flatten =
      (iterRows py encoder.contract.columns (ws.map (·.bytes)).flatten).map fun rows =>
        rows.map fun rows => rows.map ((encoder.contract.columns.map (·.name)).zip ·) := by
    rw [decodeArtifact, decoderChecks_ok encoder.valid]
  have hiter : iterRows py encoder.contract.columns (ws.map (·.bytes)).flatten =
      readRows (readRow (readColumn py) encoder.contract.columns 0)
        (ws.map (·.bytes)).flatten.length { data := (ws.map (·.bytes)).flatten, position := 0 } := rfl
  constructor
  · intro hround row hrow
    obtain ⟨decoded, hdecoded, -⟩ := hround.decoded
    by_contra hbad
    obtain ⟨w, hw, rfl⟩ := List.mem_map.mp hrow
    obtain ⟨e, he⟩ := hfile.2 fun hgood => hbad (hgood w hw)
    rw [hdecode, hiter, he] at hdecoded
    cases hdecoded
  · intro hgood
    obtain ⟨rs, hrs, hsame⟩ := hfile.1 fun w hw => hgood w.row (List.mem_map_of_mem hw)
    refine ⟨hsized, rs.map ((encoder.contract.columns.map (·.name)).zip ·), ?_, ?_⟩
    · rw [hdecode, hiter, hrs]
      rfl
    · rw [List.forall₂_map_left_iff, List.forall₂_map_right_iff]
      exact hsame

/-- A digest that tells no contracts apart. -/
def blankDigest : Digest := ⟨fun _ => [], fun _ => []⟩

/-- The encoder of the sample contract. -/
def sampleEncoder : MssqlNativeEncoder Runtime.ascii blankDigest :=
  ⟨sampleContract, 64, by rfl, by decide⟩

/-- A NULL with an empty text, and a number with a text by name. -/
def sampleRows : List Row :=
  [.sequence [.none, .text []],
   .mapping [("tag".toList, .text (textOf "ok".toList)), ("id".toList, .int 7)]]

theorem sample_rows_round_trip :
    RoundTrips sampleEncoder sampleRows [[255, 0, 0], [4, 7, 0, 0, 0, 2, 0, 111, 107]] := by
  refine (round_trips_iff_decodable (by decide)).mpr fun row _ values _ p hp _ => ?_
  have hcolumn : p.1 ∈ sampleLayouts := (List.of_mem_zip hp).1
  have hkinds : ∀ c ∈ sampleLayouts, c.storageType.exact = false ∧
      c.storageType ≠ .datetimeoffset := by decide
  obtain ⟨hexact, hne⟩ := hkinds p.1 hcolumn
  exact ⟨fun he => absurd he (by rw [hexact]; simp), fun ho => absurd ho hne⟩

/-- A decimal column that declares precision zero. -/
def zeroPrecision : NativeWireColumnLayout :=
  { name := "a".toList, sourceType := "decimal(0,0)".toList, targetType := [], nullable := false,
    storageType := .decimal, prefixWidth := 1, fixedLength := some 19, precision := some 0,
    scale := some 0 }

def zeroPrecisionEncoder : MssqlNativeEncoder Runtime.ascii blankDigest :=
  ⟨{ sampleContract with columns := [zeroPrecision] }, 64, by rfl, by decide⟩

/-- One number in that column is accepted, and its bytes are not read back. -/
theorem zero_precision_not_read_back : ∃ payloads,
    [Row.sequence [.decimal (.finite false [1] 0)]].mapM
      (zeroPrecisionEncoder.encodeRow Runtime.ascii blankDigest) = .ok payloads ∧
    ¬ RoundTrips zeroPrecisionEncoder [.sequence [.decimal (.finite false [1] 0)]] payloads := by
  refine ⟨[[19, 18, 0, 1, 1, 0, 0, 0, 0, 0, 0, 0, 0, 0, 0, 0, 0, 0, 0, 0]], by decide, ?_⟩
  intro hround
  obtain ⟨decoded, hdecoded, -⟩ := hround.decoded
  have hnone : (decodeArtifact Runtime.ascii blankDigest zeroPrecisionEncoder.contract
      [[19, 18, 0, 1, 1, 0, 0, 0, 0, 0, 0, 0, 0, 0, 0, 0, 0, 0, 0, 0]].flatten).bind
        Except.toOption = none := by decide
  rw [hdecoded] at hnone
  cases hnone

end Dpone.NativeWire
