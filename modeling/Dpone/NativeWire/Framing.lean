import Dpone.Schemes.Records
import Dpone.NativeWire.Layout

/-! Reading one field of a native BCP file, in the core and in the accelerator.

    Both readers take an optional length prefix, check the length before any payload byte is read,
    and check the payload's domain before it is decoded. They were written apart and word their
    errors differently; what they accept and where they leave the file must not differ. -/

namespace Dpone.NativeWire
open Dpone.Schemes

/-- `Field`: only the framing facts consumed by a bounded field read. -/
structure Field where
  storageType : Storage
  sourceType : Str
  prefixWidth : ℕ
  fixedLength : Option ℕ
  nullable : Bool
  precision : Option ℕ
  scale : Option ℕ
  deriving DecidableEq

def NativeWireColumnLayout.field (c : NativeWireColumnLayout) : Field :=
  { storageType := c.storageType, sourceType := c.sourceType, prefixWidth := c.prefixWidth,
    fixedLength := c.fixedLength, nullable := c.nullable, precision := c.precision,
    scale := c.scale }

def ColumnLayout.field (c : ColumnLayout) : Field :=
  { storageType := c.storageType, sourceType := c.sourceType, prefixWidth := c.prefixWidth,
    fixedLength := c.fixedLength, nullable := c.nullable, precision := c.precision,
    scale := c.scale }

section
variable (c : NativeWireColumnLayout)

@[simp] theorem field_storageType : c.field.storageType = c.storageType := rfl

@[simp] theorem field_sourceType : c.field.sourceType = c.sourceType := rfl

@[simp] theorem field_prefixWidth : c.field.prefixWidth = c.prefixWidth := rfl

@[simp] theorem field_fixedLength : c.field.fixedLength = c.fixedLength := rfl

@[simp] theorem field_nullable : c.field.nullable = c.nullable := rfl

@[simp] theorem field_precision : c.field.precision = c.precision := rfl

@[simp] theorem field_scale : c.field.scale = c.scale := rfl

end

/-- What every field error says about where it happened. -/
def fieldContext (storage : Storage) (ordinal : ℕ) (handle : Handle) : String :=
  s!"type={storage.name}:ordinal={ordinal}:offset={handle.position}:format=native_wire.v1"

variable (py : Runtime)

/-! ### Payload domains, word for word the same in both packages -/

/-- `re.search(r"\((\d+)\)", source_type)`. -/
def declaredNumber (sourceType : Str) : Option ℕ := search (parenNumber py.toUnicode) sourceType

/-- `math.isfinite` of the unpacked payload: the exponent bits are not all ones. -/
def finiteFloat (payload : Bytes) : Except PyError Bool :=
  if payload.length = 4 then .ok (ofLE payload / 2 ^ 23 % 256 ≠ 255)
  else if payload.length = 8 then .ok (ofLE payload / 2 ^ 52 % 2048 ≠ 2047)
  else .error .structError

/-- Bytes of the time of day at a physical scale. -/
def timeWidth (scale : ℕ) : ℕ := if scale ≤ 2 then 3 else if scale ≤ 4 then 4 else 5

/-- Last day number of the calendar, 9999-12-31 counted from 0001-01-01. -/
def maxDay : ℕ := 3652058

/-- `_validate_scalar_domain` for `time`, `datetime2` and `datetimeoffset`. -/
def validateTemporal (payload : Bytes) (field : Field) (context : String) : Except PyError Unit := do
  let bad := PyError.valueError s!"native_wire_invalid_temporal:{context}"
  let scale := field.scale.getD 7
  let width := timeWidth scale
  let ticks := ofLE (payload.take width)
  let dayTicks := 86400 * 10 ^ scale
  let declaredScale := (declaredNumber py field.sourceType).getD 7
  raiseIf (dayTicks ≤ ticks) bad
  raiseIf (← py.remPow10 ticks (7 - declaredScale)) bad
  if field.storageType ≠ .time then
    let days := ofLE ((payload.drop width).take 3)
    raiseIf (maxDay < days) bad
    if field.storageType = .datetimeoffset then
      let offset := ofLESigned (payload.drop (payload.length - 2))
      let local' : ℤ := days * dayTicks + ticks + offset * 60 * 10 ^ scale
      raiseIf (840 < offset.natAbs ∨ ¬ (0 ≤ local' ∧ local' < (maxDay + 1) * dayTicks)) bad

/-- `_validate_scalar_domain`: malformed values are rejected rather than wrapped. -/
def validateScalarDomain (payload : Bytes) (field : Field) (context : String) :
    Except PyError Unit := do
  let bad := PyError.valueError s!"native_wire_invalid_temporal:{context}"
  match field.storageType with
  | .real | .float =>
    raiseIf (¬ (← finiteFloat payload))
      (.valueError s!"native_wire_invalid_float:{context}")
  | .nchar | .nvarchar =>
    raiseIf (decodeUtf16le payload).isNone
      (.valueError s!"native_wire_invalid_text:{context}")
  | .char | .varchar =>
    raiseIf (decodeUtf8 payload).isNone
      (.valueError s!"native_wire_invalid_text:{context}")
  | .time | .datetime2 | .datetimeoffset => validateTemporal py payload field context
  | .date => raiseIf (maxDay < ofLE payload) bad
  | .datetime =>
    let days := ofLESigned (payload.take 4)
    let ticks := ofLESigned (payload.drop 4)
    raiseIf (¬ (-53690 ≤ days ∧ days ≤ 2958463) ∨ ¬ (0 ≤ ticks ∧ ticks < 25920000)) bad
  | .smalldatetime => raiseIf (1440 ≤ ofLE (payload.drop 2)) bad
  | _ => pure ()

/-- The header of a decimal payload: precision, scale, sign, then the magnitude. -/
def validateDecimal (payload : Bytes) (field : Field) (context : String) : Except PyError Unit := do
  let bad := PyError.valueError s!"native_wire_invalid_decimal:{context}"
  let precision := field.precision.getD 18
  let scale := field.scale.getD 0
  raiseIf ((← byteAt payload 0).toNat ≠ precision) bad
  raiseIf ((← byteAt payload 1).toNat ≠ scale) bad
  raiseIf (1 < (← byteAt payload 2).toNat) bad
  raiseIf (¬ (1 ≤ precision ∧ precision ≤ 38) ∨ precision < scale ∨
    10 ^ precision ≤ ofLE (payload.drop 3)) bad

/-- Every check between reading a payload and returning it. -/
def validatePayload (payload : Bytes) (field : Field) (context : String) : Except PyError Unit := do
  if field.storageType.exact then validateDecimal payload field context
  if field.storageType = .bit then
    raiseIf (1 < (← byteAt payload 0).toNat)
      (.valueError s!"native_wire_invalid_bit:{context}")
  validateScalarDomain py payload field context

/-- Bytes a declared character may take. -/
def lengthUnit : Storage → ℕ
  | .nvarchar | .nchar => 2
  | .varchar | .char => 4
  | _ => 1

/-! ### Exact reads -/

/-- A read of `length` bytes: past 64 KiB the file's end is looked up first, then the bounded loop
    collects the bytes. -/
def readWithin (eof : PyError) (handle : Handle) (length : ℕ) : Except PyError (Bytes × Handle) :=
  if 65536 < length ∧ handle.data.length < handle.position + length then .error eof
  else readLoop eof length handle length []

/-- TOTAL: an exact read returns exactly the next bytes or fails for the file's end. -/
theorem readWithin_eq (eof : PyError) (h : Handle) (n : ℕ) :
    readWithin eof h n =
      if n ≤ h.rest.length then .ok (h.rest.take n, h.advance n) else .error eof := by
  have hrest : h.rest.length = h.data.length - h.position := by simp [Handle.rest]
  unfold readWithin
  by_cases hshort : 65536 < n ∧ h.data.length < h.position + n
  · rw [if_pos hshort, if_neg (by omega)]
  · rw [if_neg hshort, readLoop_eq eof n h n [] (by simp) (by simp)]
    simp

/-- `read_exact` of the core. -/
def readExact (handle : Handle) (length : ℤ) (context : String) :
    Except PyError (Bytes × Handle) :=
  if length < 0 then .error (.valueError s!"native_wire_invalid_length:{context}")
  else readWithin (.eofError s!"mssql_bcp_native_unexpected_eof:{context}") handle length.toNat

/-- `_read_exact` of the accelerator; a negative length reads nothing. -/
def readExactAccel (handle : Handle) (length : ℤ) (context : String) :
    Except PyError (Bytes × Handle) :=
  readWithin (.eofError s!"native_acceleration_unexpected_eof:{context}") handle length.toNat

/-! ### The core reader -/

/-- `validate_payload_length`. -/
def validatePayloadLength (layout : Field) (length : Option ℤ) (context : String) :
    Except PyError Unit := do
  match length with
  | none => .error (.valueError s!"native_wire_invalid_length:{context}")
  | some length =>
    raiseIf (length < 0) (.valueError s!"native_wire_invalid_length:{context}")
    match layout.fixedLength with
    | some fixed =>
      raiseIf (length ≠ fixed)
        (.valueError
          s!"native_wire_invalid_length:{context}:expected={fixed}:actual={length}")
    | none =>
      match declaredNumber py layout.sourceType with
      | none => pure ()
      | some n =>
        let maximum := n * lengthUnit layout.storageType
        raiseIf (maximum < length)
          (.valueError
            s!"native_wire_invalid_length:{context}:maximum={maximum}:actual={length}")

/-- `read_native_payload` once the length is known. -/
def readNativeValue (handle : Handle) (layout : Field) (length : Option ℤ) (context : String) :
    Except PyError (Option Bytes × Handle) := do
  validatePayloadLength py layout length context
  match length with
  | none => .error .assertionError
  | some length =>
    let (payload, handle) ← readExact handle length context
    validatePayload py payload layout context
    return (some payload, handle)

/-- `read_native_payload`: one validated field, or a NULL. -/
def readNativePayload (handle : Handle) (layout : NativeWireColumnLayout) (ordinal : ℕ) :
    Except PyError (Option Bytes × Handle) := do
  let field := layout.field
  let context := fieldContext field.storageType ordinal handle
  if field.prefixWidth ≠ 0 then
    let (raw, handle) ← readExact handle field.prefixWidth context
    let indicator := ofLESigned raw
    if indicator = -1 then
      raiseIf (field.nullable = false)
        (.valueError s!"native_wire_unexpected_null:{context}")
      return (none, handle)
    else readNativeValue py handle field (some indicator) context
  else readNativeValue py handle field (field.fixedLength.map Nat.cast) context

/-! ### The accelerator's reader -/

/-- `read_payload` once the length is known. -/
def readValue (handle : Handle) (column : Field) (length : Option ℤ) (context : String) :
    Except PyError (Option Bytes × Handle) := do
  let bad := PyError.valueError s!"native_wire_invalid_length:{context}"
  match length with
  | none => .error bad
  | some length =>
    raiseIf (length < 0 ∨ column.fixedLength.any (fun n : ℕ => length ≠ (n : ℤ))) bad
    raiseIf (column.fixedLength = none ∧ (declaredNumber py column.sourceType).any
      fun n : ℕ => (n * lengthUnit column.storageType : ℤ) < length) bad
    let (payload, handle) ← readExactAccel handle length context
    validatePayload py payload column context
    return (some payload, handle)

/-- `read_payload`: invalid lengths are rejected before allocation. -/
def readPayload (handle : Handle) (column : ColumnLayout) (ordinal : ℕ) :
    Except PyError (Option Bytes × Handle) := do
  let field := column.field
  let context := fieldContext field.storageType ordinal handle
  if field.prefixWidth ≠ 0 then
    let (raw, handle) ← readExactAccel handle field.prefixWidth context
    let length := ofLESigned raw
    if length = -1 then
      raiseIf (field.nullable = false)
        (.valueError s!"native_wire_unexpected_null:{context}")
      return (none, handle)
    else readValue py handle field (some length) context
  else readValue py handle field (field.fixedLength.map Nat.cast) context

/-! ### Agreement -/

theorem readExact_agree (h : Handle) {n : ℤ} (hn : 0 ≤ n) (c : String) :
    (readExact h n c).toOption = (readExactAccel h n c).toOption := by
  rw [readExact, if_neg (by omega), readExactAccel, readWithin_eq, readWithin_eq]
  split <;> rfl

/-- A length both readers take for a field. -/
def Admits (f : Field) (n : ℤ) : Prop :=
  0 ≤ n ∧ (∀ m ∈ f.fixedLength, n = (m : ℤ)) ∧
    (f.fixedLength = none → ∀ m ∈ declaredNumber py f.sourceType, n ≤ m * lengthUnit f.storageType)

theorem readNativeValue_of_admits (h : Handle) {f : Field} {n : ℤ} (c : String)
    (hn : Admits py f n) :
    readNativeValue py h f (some n) c = (do
      let (payload, h') ← readExact h n c
      validatePayload py payload f c
      return (some payload, h')) := by
  obtain ⟨h0, hfix, hmax⟩ := hn
  have hlen : validatePayloadLength py f (some n) c = .ok () := by
    refine bind_ok.mpr ⟨(), raiseIf_ok.mpr (by omega), ?_⟩
    cases hf : f.fixedLength with
    | some m => exact raiseIf_ok.mpr (not_not.mpr (hfix m hf))
    | none =>
      cases hd : declaredNumber py f.sourceType with
      | none => rfl
      | some m => exact raiseIf_ok.mpr (by simpa using hmax hf m hd)
  rw [readNativeValue, hlen]; rfl

theorem readNativeValue_of_not_admits (h : Handle) {f : Field} {n : ℤ} (c : String)
    (hn : ¬ Admits py f n) : (readNativeValue py h f (some n) c).toOption = none := by
  cases hr : readNativeValue py h f (some n) c with
  | error e => rfl
  | ok v =>
    obtain ⟨⟨⟩, hlen, -⟩ := bind_ok.mp hr
    obtain ⟨⟨⟩, h0, hlen⟩ := bind_ok.mp hlen
    refine absurd ⟨by simpa using h0, ?_, ?_⟩ hn
    · intro m hm
      rw [Option.mem_def.mp hm] at hlen
      exact not_not.mp (raiseIf_ok.mp hlen)
    · intro hf m hm
      rw [hf, Option.mem_def.mp hm] at hlen
      simpa using raiseIf_ok.mp hlen

theorem readValue_of_admits (h : Handle) {f : Field} {n : ℤ} (c : String) (hn : Admits py f n) :
    readValue py h f (some n) c = (do
      let (payload, h') ← readExactAccel h n c
      validatePayload py payload f c
      return (some payload, h')) := by
  obtain ⟨h0, hfix, hmax⟩ := hn
  have hany : ¬ f.fixedLength.any (fun m : ℕ => decide (n ≠ (m : ℤ))) := by
    cases hf : f.fixedLength with
    | none => simp
    | some m => simp [hfix m hf]
  have hbound : ¬ (f.fixedLength = none ∧ (declaredNumber py f.sourceType).any
      fun m : ℕ => (m * lengthUnit f.storageType : ℤ) < n) := by
    rintro ⟨hf, hd⟩
    cases hm : declaredNumber py f.sourceType with
    | none => simp [hm] at hd
    | some m =>
      have := hmax hf m hm
      simp only [hm, Option.any_some, decide_eq_true_eq] at hd; omega
  unfold readValue
  simp only [raiseIf_neg (not_or.mpr ⟨Int.not_lt.mpr h0, hany⟩), raiseIf_neg hbound]
  rfl

theorem readValue_of_not_admits (h : Handle) {f : Field} {n : ℤ} (c : String)
    (hn : ¬ Admits py f n) : (readValue py h f (some n) c).toOption = none := by
  cases hr : readValue py h f (some n) c with
  | error e => rfl
  | ok v =>
    obtain ⟨⟨⟩, h0, hr⟩ := bind_ok.mp hr
    obtain ⟨⟨⟩, hbound, -⟩ := bind_ok.mp hr
    obtain ⟨h0, hfix⟩ := not_or.mp (raiseIf_ok.mp h0)
    refine absurd ⟨by omega, ?_, ?_⟩ hn
    · intro m hm
      rw [Option.mem_def.mp hm] at hfix
      simpa using hfix
    · intro hf m hm
      have := not_and.mp (raiseIf_ok.mp hbound) hf
      rw [Option.mem_def.mp hm] at this
      simpa using this

theorem readNativeValue_agree (h : Handle) (f : Field) (length : Option ℤ) (c : String) :
    (readNativeValue py h f length c).toOption = (readValue py h f length c).toOption := by
  cases length with
  | none => rfl
  | some n =>
    by_cases hn : Admits py f n
    · rw [readNativeValue_of_admits py h c hn, readValue_of_admits py h c hn, toOption_bind,
        toOption_bind, readExact_agree h hn.1]
    · rw [readNativeValue_of_not_admits py h c hn, readValue_of_not_admits py h c hn]

theorem fromContract_field {raw : NativeWireColumnLayout} {target : Option Str} {enc : BinaryEncoding}
    {column : ColumnLayout} (h : ColumnLayout.fromContract py raw target enc = .ok column) :
    column.field = raw.field := by
  unfold ColumnLayout.fromContract at h
  cases hv : validateColumn py raw with
  | error e => rw [hv] at h; cases h
  | ok u =>
    rw [hv] at h
    simp only [bind, Except.bind] at h
    split at h
    · cases h
    · cases h; rfl

/-- the two readers agree -/
theorem readers_agree {layout : NativeWireColumnLayout} {column : ColumnLayout} (hf : column.field = layout.field)
    (handle : Handle) (ordinal : ℕ) :
    (readNativePayload py handle layout ordinal).toOption = (readPayload py handle column ordinal).toOption := by
  unfold readNativePayload readPayload
  rw [hf]
  by_cases hp : layout.field.prefixWidth ≠ 0
  · simp only [if_pos hp]
    rw [toOption_bind, toOption_bind, readExact_agree handle (by omega)]
    congr 1; funext read; obtain ⟨raw, h'⟩ := read
    by_cases hnull : ofLESigned raw = -1
    · simp [hnull]
    · simp only [if_neg hnull]
      exact readNativeValue_agree ..
  · simp only [if_neg hp]
    exact readNativeValue_agree ..

/-! ### Progress -/

/-- A field that takes at least one byte of the file. -/
def Occupied (f : Field) : Prop := f.prefixWidth ≠ 0 ∨ ∃ n ∈ f.fixedLength, 0 < n

theorem timeLength_pos {scale n : ℕ} (h : timeLength scale = .ok n) : 0 < n := by
  unfold timeLength at h
  split at h
  · cases h; split <;> [omega; split <;> omega]
  · cases h

theorem fixedLength_pos {storage : Storage} {scale precision : Option ℕ} {n : ℕ}
    (h : fixedLength storage scale precision = .ok (some n)) : 0 < n := by
  unfold fixedLength at h
  split at h
  · split at h
    · cases h; split <;> omega
    · cases h
  · split at h
    · next w hw =>
      cases h
      cases storage <;> simp [Storage.fixedWidth] at hw <;> omega
    · split at h
      · cases ht : timeLength (scale.getD 7) with
        | error e => rw [ht] at h; cases h
        | ok t => rw [ht] at h; cases h; have := timeLength_pos ht; omega
      · cases h

theorem layoutOf_occupied {name dtype target : Str} {c : NativeWireColumnLayout}
    (h : layoutOf py name dtype target = .ok c) (hs : c.storageType ≠ .unsupported) :
    Occupied c.field := by
  unfold layoutOf at h
  simp only [] at h
  obtain ⟨scale, -, h⟩ := bind_ok.mp h
  split at h
  · cases h
    left
    change (if _ then 8 else 2) ≠ 0
    split <;> decide
  · obtain ⟨fixed, hfix, h⟩ := bind_ok.mp h
    cases fixed with
    | none => cases h; exact absurd rfl hs
    | some n => cases h; exact .inr ⟨n, rfl, fixedLength_pos hfix⟩

theorem validateLayout_occupied {i : ℕ} {c : NativeWireColumnLayout}
    (h : validateLayout py i c = .ok ()) : Occupied c.field := by
  unfold validateLayout at h
  obtain ⟨expected, he, h⟩ := bind_ok.mp h
  split at h
  · cases h
  · next hok =>
    simp only [not_or, not_not, sameFraming, decide_eq_true_eq] at hok
    obtain ⟨hs, -, -, hp, hf, -⟩ := hok
    have := layoutOf_occupied py he hs
    simpa only [Occupied, NativeWireColumnLayout.field, hp, hf] using this

theorem validateLayouts_occupied : ∀ {cs : List NativeWireColumnLayout} {i : ℕ},
    validateLayouts py i cs = .ok () → ∀ c ∈ cs, Occupied c.field
  | [], _, _, c, hc => by cases hc
  | d :: ds, i, h, c, hc => by
      obtain ⟨⟨⟩, hd, hds⟩ := bind_ok.mp h
      rcases List.mem_cons.mp hc with rfl | hc
      · exact validateLayout_occupied py hd
      · exact validateLayouts_occupied hds c hc

theorem readExact_ok {h h' : Handle} {n : ℤ} {c : String} {p : Bytes}
    (hr : readExact h n c = .ok (p, h')) :
    0 ≤ n ∧ n.toNat ≤ h.rest.length ∧ p = h.rest.take n.toNat ∧ h' = h.advance n.toNat := by
  unfold readExact at hr
  split at hr
  · cases hr
  · rw [readWithin_eq] at hr
    split at hr
    · cases hr; exact ⟨by omega, by assumption, rfl, rfl⟩
    · cases hr

theorem readNativeValue_ok {h h' : Handle} {f : Field} {n : Option ℤ} {c : String} {v : Option Bytes}
    (hr : readNativeValue py h f n c = .ok (v, h')) :
    ∃ m p : _, n = some m ∧ v = some p ∧ Admits py f m ∧ readExact h m c = .ok (p, h') ∧
      validatePayload py p f c = .ok () := by
  cases n with
  | none => cases hr
  | some m =>
    by_cases hm : Admits py f m
    · rw [readNativeValue_of_admits py h c hm] at hr
      obtain ⟨⟨p, h''⟩, hp, hr⟩ := bind_ok.mp hr
      obtain ⟨⟨⟩, hv, hr⟩ := bind_ok.mp hr
      cases hr
      exact ⟨m, p, rfl, rfl, hm, hp, hv⟩
    · have := readNativeValue_of_not_admits py h c hm
      rw [hr] at this; cases this

/-- FRAME: a field read moves forward only, and past at least one byte when the field has any. -/
theorem readNativePayload_rest {h h' : Handle} {layout : NativeWireColumnLayout} {i : ℕ}
    {v : Option Bytes} (hr : readNativePayload py h layout i = .ok (v, h')) :
    h'.rest.length ≤ h.rest.length ∧
      (Occupied layout.field → h'.rest.length < h.rest.length) := by
  have hval : ∀ {h h' : Handle} {n : Option ℤ} {c : String},
      readNativeValue py h layout.field n c = .ok (v, h') →
      ∃ m, n = some m ∧ h'.rest.length = h.rest.length - m.toNat ∧ m.toNat ≤ h.rest.length := by
    intro h h' n c hr
    obtain ⟨m, p, rfl, -, -, hp, -⟩ := readNativeValue_ok py hr
    obtain ⟨-, hle, -, rfl⟩ := readExact_ok hp
    exact ⟨m, rfl, by simp, hle⟩
  unfold readNativePayload at hr
  simp only [] at hr
  split at hr
  · next hpos =>
    obtain ⟨⟨raw, h₁⟩, hraw, hr⟩ := bind_ok.mp hr
    obtain ⟨-, hle, -, rfl⟩ := readExact_ok hraw
    have hlt : (h.advance (layout.field.prefixWidth : ℤ).toNat).rest.length < h.rest.length := by
      simp only [Handle.rest_advance, List.length_drop, Int.toNat_natCast] at hle ⊢; omega
    simp only [] at hr
    split at hr
    · obtain ⟨⟨⟩, -, hr⟩ := bind_ok.mp hr
      cases hr; exact ⟨hlt.le, fun _ => hlt⟩
    · obtain ⟨m, -, hm, -⟩ := hval hr
      omega
  · next hzero =>
    obtain ⟨m, hm, hlen, hle⟩ := hval hr
    refine ⟨by omega, ?_⟩
    rintro (hp | ⟨n, hn, hpos⟩)
    · exact absurd hp hzero
    · rw [Option.mem_def.mp hn] at hm
      obtain rfl : (n : ℤ) = m := by simpa using hm
      simp only [Int.toNat_natCast] at hlen hle; omega

end Dpone.NativeWire
