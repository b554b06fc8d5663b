import Dpone.Schemes.Calendar
import Dpone.Schemes.Numeral

/-! ISO 8601 texts of dates and date-times.

    What `isoformat` writes is defined here. What `fromisoformat` reads is wider and differs from
    one version of the interpreter to the next, so a reader is any pair of functions that reads back
    what `isoformat` writes; `IsoReader.extended` is one that reads nothing else. -/

namespace Dpone.Schemes

/-- A zero-padded decimal field. -/
def field (width n : ℕ) : Str := numeral 10 width n

def Date.isoformat (d : Date) : Str :=
  field 4 d.year ++ '-' :: (field 2 d.month ++ '-' :: field 2 d.day)

/-- `.ffffff`, where there are microseconds. -/
def fractionText (us : ℕ) : Str := if us = 0 then [] else '.' :: field 6 us

def clockText (us : ℕ) : Str :=
  field 2 (us / 3600000000) ++ ':' :: (field 2 (us / 60000000 % 60) ++
    ':' :: (field 2 (us / 1000000 % 60) ++ fractionText (us % 1000000)))

/-- Seconds of an offset are written only where there are any. -/
def offsetText (o : ℤ) : Str :=
  let us := o.natAbs
  (if o < 0 then '-' else '+') :: (field 2 (us / 3600000000) ++ ':' :: (field 2 (us / 60000000 % 60) ++
    if us % 60000000 = 0 then [] else
      ':' :: (field 2 (us / 1000000 % 60) ++ fractionText (us % 1000000))))

def DateTime.isoformat (sep : Char) (t : DateTime) : Str :=
  t.date.isoformat ++ sep :: (clockText t.micros ++ (t.offset.map offsetText).getD [])

/-- `date.fromisoformat` and `datetime.fromisoformat`, inverse to `isoformat`. -/
structure IsoReader where
  date : Str → Except PyError Date
  datetime : Str → Except PyError DateTime
  date_isoformat : ∀ d, date d.isoformat = .ok d
  datetime_isoformat : ∀ t, datetime (t.isoformat ' ') = .ok t

/-! ### A reader of these texts -/

def readField (width : ℕ) (s : Str) : Option (ℕ × Str) :=
  if width ≤ s.length then (numeralValue 10 (s.take width)).map fun n => (n, s.drop width) else none

theorem readField_field {width n : ℕ} (h : n < 10 ^ width) (rest : Str) :
    readField width (field width n ++ rest) = some (n, rest) := by
  have hlen : (field width n).length = width := numeral_length ..
  have hvalue : numeralValue 10 (field width n) = some n :=
    numeralValue_numeral (by decide) (by decide) width n h
  rw [readField, if_pos (by rw [List.length_append, hlen]; omega), List.take_left' hlen,
    List.drop_left' hlen, hvalue]
  rfl

def readDate (s : Str) : Option (Date × Str) := do
  let (year, s) ← readField 4 s
  let (month, s) ← readField 2 (← lit '-' s)
  let (day, s) ← readField 2 (← lit '-' s)
  let d ← (Date.make year month day).toOption
  return (d, s)

def readFraction : Str → Option (ℕ × Str)
  | '.' :: s => readField 6 s
  | s => some (0, s)

def readClock (s : Str) : Option (ℕ × Str) := do
  let (hours, s) ← readField 2 s
  let (minutes, s) ← readField 2 (← lit ':' s)
  let (seconds, s) ← readField 2 (← lit ':' s)
  let (us, s) ← readFraction s
  return (hours * 3600000000 + minutes * 60000000 + seconds * 1000000 + us, s)

/-- Hours and minutes of an offset, with seconds or without. -/
def readOffset (s : Str) : Option ℕ := do
  let (hours, s) ← readField 2 s
  let (minutes, s) ← readField 2 (← lit ':' s)
  match s with
  | [] => return hours * 3600000000 + minutes * 60000000
  | _ =>
    let (seconds, s) ← readField 2 (← lit ':' s)
    let (us, s) ← readFraction s
    if s = [] then some (hours * 3600000000 + minutes * 60000000 + seconds * 1000000 + us) else none

def readSignedOffset : Str → Option (Option ℤ)
  | [] => some none
  | '+' :: s => (readOffset s).map fun us => some us
  | '-' :: s => (readOffset s).map fun us => some (-us)
  | _ => none

theorem readDate_isoformat (d : Date) (rest : Str) :
    readDate (d.isoformat ++ rest) = some (d, rest) := by
  obtain ⟨⟨_, hyear⟩, ⟨_, hmonth⟩, _, hday⟩ := d.valid
  have hlen : daysInMonth d.year d.month ≤ 31 := by
    unfold daysInMonth monthLength
    split_ifs <;> omega
  have hmake : Date.make d.year d.month d.day = .ok d := dif_pos d.valid
  simp only [readDate, Date.isoformat, List.append_assoc, List.cons_append]
  rw [readField_field (by omega)]
  simp only [Option.bind_eq_bind, Option.bind_some, lit, if_true]
  rw [readField_field (by omega)]
  simp only [Option.bind_some, if_true]
  rw [readField_field (by omega)]
  simp [hmake, Except.toOption]

theorem readFraction_fractionText {us : ℕ} (h : us < 1000000) (rest : Str)
    (hrest : rest.head? ≠ some '.') : readFraction (fractionText us ++ rest) = some (us, rest) := by
  unfold fractionText
  by_cases hus : us = 0
  · rw [if_pos hus, hus, List.nil_append]
    unfold readFraction
    split
    · simp at hrest
    · rfl
  · rw [if_neg hus]
    exact readField_field h rest

theorem readClock_clockText {us : ℕ} (h : us < dayMicros) {rest : Str}
    (hrest : rest.head? ≠ some '.') : readClock (clockText us ++ rest) = some (us, rest) := by
  have hsum : us / 3600000000 * 3600000000 + us / 60000000 % 60 * 60000000 +
      us / 1000000 % 60 * 1000000 + us % 1000000 = us := by omega
  unfold dayMicros at h
  simp only [readClock, clockText, List.append_assoc, List.cons_append]
  rw [readField_field (by omega)]
  simp only [Option.bind_eq_bind, Option.bind_some, lit, if_true]
  rw [readField_field (by omega)]
  simp only [Option.bind_some, if_true]
  rw [readField_field (by omega)]
  simp only [Option.bind_some]
  rw [readFraction_fractionText (by omega) rest hrest]
  simp [hsum]

theorem readOffset_offsetText {us : ℕ} (h : us < dayMicros) :
    readOffset (field 2 (us / 3600000000) ++ ':' :: (field 2 (us / 60000000 % 60) ++
      if us % 60000000 = 0 then [] else
        ':' :: (field 2 (us / 1000000 % 60) ++ fractionText (us % 1000000)))) = some us := by
  unfold dayMicros at h
  simp only [readOffset]
  rw [readField_field (by omega)]
  simp only [Option.bind_eq_bind, Option.bind_some, lit, if_true]
  rw [readField_field (by omega)]
  simp only [Option.bind_some]
  by_cases hwhole : us % 60000000 = 0
  · rw [if_pos hwhole]
    simp only [Option.pure_def, Option.some.injEq]
    omega
  · rw [if_neg hwhole]
    have hfraction := readFraction_fractionText (Nat.mod_lt us (by decide : 0 < 1000000)) []
      (by simp)
    rw [List.append_nil] at hfraction
    simp only [if_true, Option.bind_some]
    rw [readField_field (by omega)]
    simp only [Option.bind_some, hfraction, if_true, Option.some.injEq]
    omega

theorem readSignedOffset_text {o : ℤ} (h : -(dayMicros : ℤ) < o ∧ o < dayMicros) :
    readSignedOffset (offsetText o) = some (some o) := by
  have hread := readOffset_offsetText (by omega : o.natAbs < dayMicros)
  unfold offsetText
  by_cases hneg : o < 0
  · simp only [hneg, if_true, readSignedOffset, hread]
    exact congrArg (fun n => some (some n)) (by omega : -(o.natAbs : ℤ) = o)
  · simp only [hneg, if_false, readSignedOffset, hread]
    exact congrArg (fun n => some (some n)) (by omega : (o.natAbs : ℤ) = o)

def readIsoDate (s : Str) : Except PyError Date :=
  match readDate s with
  | some (d, []) => .ok d
  | _ => .error (.valueError s!"Invalid isoformat string: '{String.ofList s}'")

/-- The date-time of what was read, when the fields are in range. -/
def DateTime.make (d : Date) (us : ℕ) (offset : Option ℤ) : Option DateTime :=
  if h : us < dayMicros ∧ ∀ o ∈ offset, -(dayMicros : ℤ) < o ∧ o < dayMicros then
    some ⟨d, us, offset, h.1, h.2⟩
  else none

def readIsoDateTime (s : Str) : Except PyError DateTime :=
  let read : Option DateTime := do
    let (d, s) ← readDate s
    let (us, s) ← readClock (s.drop 1)
    let offset ← readSignedOffset s
    DateTime.make d us offset
  match read with
  | some t => .ok t
  | none => .error (.valueError s!"Invalid isoformat string: '{String.ofList s}'")

/-- LOSSLESS: a date-time is read back whatever stands between its date and its time. -/
theorem readIsoDateTime_isoformat (sep : Char) (t : DateTime) :
    readIsoDateTime (t.isoformat sep) = .ok t := by
  have hmake : DateTime.make t.date t.micros t.offset = some t :=
    dif_pos ⟨t.micros_lt, t.offset_lt⟩
  have hoffset : readSignedOffset ((t.offset.map offsetText).getD []) = some t.offset := by
    cases ht : t.offset with
    | none => rfl
    | some o => exact readSignedOffset_text (t.offset_lt o (by simp [ht]))
  have hdot : ((t.offset.map offsetText).getD []).head? ≠ some '.' := by
    cases t.offset with
    | none => simp
    | some o =>
      simp only [Option.map_some, Option.getD_some, offsetText, List.head?_cons]
      split_ifs <;> simp
  simp only [readIsoDateTime, DateTime.isoformat, readDate_isoformat, Option.bind_eq_bind,
    Option.bind_some, List.drop_one, List.tail_cons, readClock_clockText t.micros_lt hdot,
    hoffset, hmake]

/-- A reader of the extended format and nothing else. -/
def IsoReader.extended : IsoReader where
  date := readIsoDate
  datetime := readIsoDateTime
  date_isoformat d := by
    have h := readDate_isoformat d []
    rw [List.append_nil] at h
    rw [readIsoDate, h]
  datetime_isoformat t := readIsoDateTime_isoformat ' ' t

end Dpone.Schemes
