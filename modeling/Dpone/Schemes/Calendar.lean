import Mathlib.Data.Nat.Basic
import Mathlib.Tactic.IntervalCases
import Mathlib.Tactic.Linarith
import Dpone.Schemes.Python

/-! The proleptic Gregorian calendar of years 1 to 9999, and date-times in microseconds.

    A date is ordered by its ordinal, day 1 being 0001-01-01. Adding days goes through the ordinal
    and adding months through the month and year, the day cut to the length of the new month; both
    leave the calendar through an exception. A date-time is a date, a time of day and an optional
    offset; it is ordered by its instant. -/

namespace Dpone.Schemes

/-! ### Months and ordinals -/

def isLeap (year : ℕ) : Bool := year % 4 = 0 ∧ (year % 100 ≠ 0 ∨ year % 400 = 0)

def monthLength (leap : Bool) (month : ℕ) : ℕ :=
  if month = 2 then if leap then 29 else 28
  else if month = 4 ∨ month = 6 ∨ month = 9 ∨ month = 11 then 30 else 31

def daysInMonth (year month : ℕ) : ℕ := monthLength (isLeap year) month

def daysBeforeYear (year : ℕ) : ℕ :=
  (year - 1) * 365 + (year - 1) / 4 - (year - 1) / 100 + (year - 1) / 400

/-- Days of a year before a month of 1 to 12. -/
def monthOffset (leap : Bool) (month : ℕ) : ℕ :=
  [0, 31, 59, 90, 120, 151, 181, 212, 243, 273, 304, 334].getD (month - 1) 0 +
    if 2 < month ∧ leap then 1 else 0

def daysBeforeMonth (year month : ℕ) : ℕ := monthOffset (isLeap year) month

def ymdOrdinal (year month day : ℕ) : ℕ := daysBeforeYear year + daysBeforeMonth year month + day

theorem daysInMonth_pos (year month : ℕ) : 28 ≤ daysInMonth year month := by
  unfold daysInMonth monthLength
  split_ifs <;> omega

theorem isLeap_iff {year : ℕ} : isLeap year = true ↔ 4 ∣ year ∧ (¬ 100 ∣ year ∨ 400 ∣ year) := by
  simp [isLeap, Nat.dvd_iff_mod_eq_zero]

theorem daysBeforeYear_succ {year : ℕ} (h : 1 ≤ year) :
    daysBeforeYear (year + 1) = daysBeforeYear year + if isLeap year then 366 else 365 := by
  obtain ⟨n, rfl⟩ := Nat.exists_eq_add_of_le' h
  have hbound : n / 100 ≤ n / 4 := Nat.div_le_div_left (by decide) (by decide)
  simp only [daysBeforeYear, isLeap_iff, Nat.add_sub_cancel, Nat.succ_div]
  by_cases h4 : 4 ∣ n + 1
  · by_cases h100 : 100 ∣ n + 1
    · by_cases h400 : 400 ∣ n + 1
      · simp only [h4, h100, h400, if_true, not_true, false_or, and_true]; omega
      · simp only [h4, h100, h400, if_true, if_false, not_true, false_or, and_false]; omega
    · have h400 : ¬ 400 ∣ n + 1 := fun h => h100 (dvd_trans (by decide) h)
      simp only [h4, h100, h400, if_true, if_false, not_false_iff, true_or, and_true]; omega
  · have h100 : ¬ 100 ∣ n + 1 := fun h => h4 (dvd_trans (by decide) h)
    have h400 : ¬ 400 ∣ n + 1 := fun h => h4 (dvd_trans (by decide) h)
    simp only [h4, h100, h400, if_false, false_and]; omega

theorem daysBeforeMonth_succ (year : ℕ) {month : ℕ} (hlo : 1 ≤ month) (hhi : month < 12) :
    daysBeforeMonth year (month + 1) = daysBeforeMonth year month + daysInMonth year month := by
  unfold daysBeforeMonth daysInMonth
  cases isLeap year <;> interval_cases month <;> rfl

theorem daysBeforeMonth_december (year : ℕ) :
    daysBeforeMonth year 12 + 31 = if isLeap year then 366 else 365 := by
  unfold daysBeforeMonth
  cases isLeap year <;> rfl

/-- The ordinal before the first of a month, the months counted from January of year 1. -/
def monthStart (index : ℕ) : ℕ := ymdOrdinal (index / 12 + 1) (index % 12 + 1) 0

theorem monthStart_succ (index : ℕ) :
    monthStart (index + 1) = monthStart index + daysInMonth (index / 12 + 1) (index % 12 + 1) := by
  have hmonth : index % 12 < 12 := Nat.mod_lt _ (by decide)
  unfold monthStart ymdOrdinal
  by_cases hlast : index % 12 = 11
  · have hyear : (index + 1) / 12 = index / 12 + 1 := by omega
    have hnext : (index + 1) % 12 = 0 := by omega
    have hjan : daysBeforeMonth (index / 12 + 1 + 1) (0 + 1) = 0 := by
      simp [daysBeforeMonth, monthOffset]
    have hdec : daysBeforeMonth (index / 12 + 1) (11 + 1) + 31 = _ :=
      daysBeforeMonth_december (index / 12 + 1)
    have hthirtyone : daysInMonth (index / 12 + 1) (11 + 1) = 31 := rfl
    rw [hyear, hnext, hlast, daysBeforeYear_succ (by omega), hjan, hthirtyone]
    omega
  · have hyear : (index + 1) / 12 = index / 12 := by omega
    have hnext : (index + 1) % 12 = index % 12 + 1 := by omega
    rw [hyear, hnext, daysBeforeMonth_succ _ (by omega) (by omega)]
    omega

theorem monthStart_mono {i j : ℕ} (h : i ≤ j) : monthStart i ≤ monthStart j := by
  induction j, h using Nat.le_induction with
  | base => exact le_rfl
  | succ j _ ih => rw [monthStart_succ]; omega

/-- MONOTONE: a day of an earlier month is an earlier day. -/
theorem ymdOrdinal_lt {year month day year' month' day' : ℕ} (hyear : 1 ≤ year)
    (hmonth : 1 ≤ month) (hmonth' : month ≤ 12) (hday : day ≤ daysInMonth year month)
    (hyear' : 1 ≤ year') (hnext : 1 ≤ month') (hnext' : month' ≤ 12) (hday' : 1 ≤ day')
    (h : 12 * year + month < 12 * year' + month') :
    ymdOrdinal year month day < ymdOrdinal year' month' day' := by
  have hindex : ∀ y m, 1 ≤ y → 1 ≤ m → m ≤ 12 →
      (12 * y + m - 13) / 12 + 1 = y ∧ (12 * y + m - 13) % 12 + 1 = m := by omega
  have hstart : monthStart (12 * year + month - 13 + 1) ≤ monthStart (12 * year' + month' - 13) :=
    monthStart_mono (by omega)
  obtain ⟨hy, hm⟩ := hindex year month hyear hmonth hmonth'
  obtain ⟨hy', hm'⟩ := hindex year' month' hyear' hnext hnext'
  rw [monthStart_succ, monthStart, monthStart, hy, hm, hy', hm'] at hstart
  unfold ymdOrdinal at hstart ⊢
  omega

/-! ### Dates -/

def maxOrdinal : ℕ := 3652059

structure Date where
  year : ℕ
  month : ℕ
  day : ℕ
  valid : (1 ≤ year ∧ year ≤ 9999) ∧ (1 ≤ month ∧ month ≤ 12) ∧ 1 ≤ day ∧ day ≤ daysInMonth year month
  deriving DecidableEq

/-- `date(year, month, day)`; a year past a C integer overflows before it is looked at. -/
def Date.make (year month day : ℕ) : Except PyError Date :=
  if h : (1 ≤ year ∧ year ≤ 9999) ∧ (1 ≤ month ∧ month ≤ 12) ∧ 1 ≤ day ∧
      day ≤ daysInMonth year month then .ok ⟨year, month, day, h⟩
  else if 2 ^ 31 ≤ year then .error .overflowError
  else if 1 ≤ year ∧ year ≤ 9999 then
    if 1 ≤ month ∧ month ≤ 12 then .error (.valueError "day is out of range for month")
    else .error (.valueError "month must be in 1..12")
  else .error (.valueError s!"year {year} is out of range")

theorem Date.make_ok {year month day : ℕ} {d : Date} (h : Date.make year month day = .ok d) :
    d.year = year ∧ d.month = month ∧ d.day = day := by
  unfold Date.make at h
  split_ifs at h
  cases h
  exact ⟨rfl, rfl, rfl⟩

def Date.toordinal (d : Date) : ℕ := ymdOrdinal d.year d.month d.day

theorem Date.toordinal_injective {d e : Date} (h : d.toordinal = e.toordinal) : d = e := by
  obtain ⟨y, m, k, ⟨hy, _⟩, ⟨hm, hm'⟩, hk, hk'⟩ := d
  obtain ⟨y', m', k', ⟨hy', _⟩, ⟨hn, hn'⟩, hl, hl'⟩ := e
  change ymdOrdinal y m k = ymdOrdinal y' m' k' at h
  rcases lt_trichotomy (12 * y + m) (12 * y' + m') with hlt | heq | hlt
  · exact absurd h (ymdOrdinal_lt hy hm hm' hk' hy' hn hn' hl hlt).ne
  · obtain rfl : y = y' := by omega
    obtain rfl : m = m' := by omega
    obtain rfl : k = k' := Nat.add_left_cancel h
    rfl
  · exact absurd h (ymdOrdinal_lt hy' hn hn' hl' hy hm hm' hk hlt).ne'

/-- Month and day of a year from the days before them. -/
def monthDay (leap : Bool) (n : ℕ) : ℕ × ℕ :=
  let month := (n + 50) / 32
  if n < monthOffset leap month then (month - 1, n - monthOffset leap (month - 1) + 1)
  else (month, n - monthOffset leap month + 1)

theorem monthDay_spec : ∀ leap : Bool, ∀ n < 365 + leap.toNat,
    (1 ≤ (monthDay leap n).1 ∧ (monthDay leap n).1 ≤ 12) ∧ 1 ≤ (monthDay leap n).2 ∧
      (monthDay leap n).2 ≤ monthLength leap (monthDay leap n).1 ∧
      monthOffset leap (monthDay leap n).1 + (monthDay leap n).2 = n + 1 := by
  decide +kernel

/-- `_ord2ymd`, from the days before the date: cycles of 400, 100, 4 and 1 years. -/
def ordYmd (n : ℕ) : ℕ × ℕ × ℕ :=
  let n400 := n / 146097
  let n100 := n % 146097 / 36524
  let n4 := n % 146097 % 36524 / 1461
  let n1 := n % 146097 % 36524 % 1461 / 365
  let rest := n % 146097 % 36524 % 1461 % 365
  let year := n400 * 400 + n100 * 100 + n4 * 4 + n1 + 1
  if n1 = 4 ∨ n100 = 4 then (year - 1, 12, 31)
  else (year, monthDay (n1 = 3 ∧ (n4 ≠ 24 ∨ n100 = 3)) rest)

theorem daysBeforeYear_cycles {a b c d : ℕ} (hb : b ≤ 3) (hc : c ≤ 24) (hd : d ≤ 3) :
    daysBeforeYear (400 * a + 100 * b + 4 * c + d + 1) =
      146097 * a + 36524 * b + 1461 * c + 365 * d := by
  have h4 : (400 * a + 100 * b + 4 * c + d) / 4 = 100 * a + 25 * b + c := by omega
  have h100 : (400 * a + 100 * b + 4 * c + d) / 100 = 4 * a + b := by omega
  have h400 : (400 * a + 100 * b + 4 * c + d) / 400 = a := by omega
  rw [daysBeforeYear, Nat.add_sub_cancel, h4, h100, h400]
  omega

theorem isLeap_cycles {a b c d : ℕ} (hb : b ≤ 3) (hc : c ≤ 24) (hd : d ≤ 3) :
    isLeap (400 * a + 100 * b + 4 * c + d + 1) = decide (d = 3 ∧ (c ≠ 24 ∨ b = 3)) := by
  have h4 : 4 ∣ 400 * a + 100 * b + 4 * c + d + 1 ↔ d = 3 := by omega
  have h100 : 100 ∣ 400 * a + 100 * b + 4 * c + d + 1 ↔ d = 3 ∧ c = 24 := by omega
  have h400 : 400 ∣ 400 * a + 100 * b + 4 * c + d + 1 ↔ d = 3 ∧ c = 24 ∧ b = 3 := by omega
  rw [Bool.eq_iff_iff, isLeap_iff, h4, h100, h400, decide_eq_true_eq]
  tauto

/-- The last day of a year, from the year after it. -/
theorem ymdOrdinal_lastDay {year : ℕ} (h : 1 ≤ year) :
    ymdOrdinal year 12 31 = daysBeforeYear (year + 1) := by
  rw [daysBeforeYear_succ h, ← daysBeforeMonth_december, ymdOrdinal, Nat.add_assoc]

/-- The counts of the cycles: the last day of a leap year and of a full 400 years overflow them. -/
theorem cycle_counts (n : ℕ) :
    n = 146097 * (n / 146097) + 36524 * (n % 146097 / 36524) +
      1461 * (n % 146097 % 36524 / 1461) + 365 * (n % 146097 % 36524 % 1461 / 365) +
      n % 146097 % 36524 % 1461 % 365 ∧
    ((n % 146097 / 36524 ≤ 3 ∧ n % 146097 % 36524 / 1461 ≤ 24 ∧
        n % 146097 % 36524 % 1461 / 365 ≤ 3 ∧ n % 146097 % 36524 % 1461 % 365 < 365) ∨
      (n % 146097 / 36524 ≤ 3 ∧ n % 146097 % 36524 / 1461 ≤ 23 ∧
        n % 146097 % 36524 % 1461 / 365 = 4 ∧ n % 146097 % 36524 % 1461 % 365 = 0) ∨
      (n % 146097 / 36524 = 4 ∧ n % 146097 % 36524 / 1461 = 0 ∧
        n % 146097 % 36524 % 1461 / 365 = 0 ∧ n % 146097 % 36524 % 1461 % 365 = 0)) := by
  constructor <;> omega

/-- CORRECT: the date found has the ordinal. -/
theorem ordYmd_spec (n : ℕ) : 1 ≤ (ordYmd n).1 ∧ (1 ≤ (ordYmd n).2.1 ∧ (ordYmd n).2.1 ≤ 12) ∧
    (1 ≤ (ordYmd n).2.2 ∧ (ordYmd n).2.2 ≤ daysInMonth (ordYmd n).1 (ordYmd n).2.1) ∧
      ymdOrdinal (ordYmd n).1 (ordYmd n).2.1 (ordYmd n).2.2 = n + 1 := by
  obtain ⟨hn, hcounts⟩ := cycle_counts n
  unfold ordYmd
  generalize n / 146097 = a at *
  generalize n % 146097 / 36524 = b at *
  generalize n % 146097 % 36524 / 1461 = c at *
  generalize n % 146097 % 36524 % 1461 / 365 = d at *
  generalize n % 146097 % 36524 % 1461 % 365 = r at *
  simp only
  have hthirtyone : ∀ year, daysInMonth year 12 = 31 := fun _ => rfl
  rcases hcounts with ⟨hb, hc, hd, hr⟩ | ⟨hb, hc, rfl, rfl⟩ | ⟨rfl, rfl, rfl, rfl⟩
  · have hyear : a * 400 + b * 100 + c * 4 + d + 1 = 400 * a + 100 * b + 4 * c + d + 1 := by omega
    rw [if_neg (by omega), hyear]
    obtain ⟨hmonth, hday, hlen, hsum⟩ := monthDay_spec
      (decide (d = 3 ∧ (c ≠ 24 ∨ b = 3))) r (by omega)
    rw [daysInMonth, ymdOrdinal, daysBeforeMonth, isLeap_cycles hb hc hd,
      daysBeforeYear_cycles hb hc hd]
    refine ⟨by simp only; omega, hmonth, ⟨hday, hlen⟩, ?_⟩
    simp only
    omega
  · have hyear : a * 400 + b * 100 + c * 4 + 4 + 1 - 1 = 400 * a + 100 * b + 4 * (c + 1) + 0 := by
      omega
    rw [if_pos (.inl rfl), hyear]
    refine ⟨by simp only; omega, by simp, by simp [hthirtyone], ?_⟩
    rw [ymdOrdinal_lastDay (by omega), daysBeforeYear_cycles hb (by omega) (by omega)]
    omega
  · have hyear : a * 400 + 4 * 100 + 0 * 4 + 0 + 1 - 1 =
        400 * (a + 1) + 100 * 0 + 4 * 0 + 0 := by omega
    rw [if_pos (.inr rfl), hyear]
    refine ⟨by simp only; omega, by simp, by simp [hthirtyone], ?_⟩
    rw [ymdOrdinal_lastDay (by omega), daysBeforeYear_cycles (by omega) (by omega) (by omega)]
    omega

/-- `date.fromordinal`. -/
def Date.ofOrdinal (n : ℤ) : Except PyError Date :=
  if 1 ≤ n ∧ n ≤ maxOrdinal then
    let r := ordYmd (n - 1).toNat
    Date.make r.1 r.2.1 r.2.2
  else .error .overflowError

theorem Date.ofOrdinal_ok {n : ℤ} {d : Date} (h : Date.ofOrdinal n = .ok d) : d.toordinal = n := by
  unfold Date.ofOrdinal at h
  split_ifs at h with hn
  obtain ⟨hy, hm, hd⟩ := Date.make_ok h
  have hspec := (ordYmd_spec (n - 1).toNat).2.2.2
  rw [Date.toordinal, hy, hm, hd, hspec]
  omega

/-- TOTAL: every ordinal of the calendar has a date. -/
theorem Date.ofOrdinal_total {n : ℤ} (hlo : 1 ≤ n) (hhi : n ≤ maxOrdinal) :
    ∃ d, Date.ofOrdinal n = .ok d := by
  obtain ⟨hy, hm, hd, hsum⟩ := ordYmd_spec (n - 1).toNat
  have hyear : (ordYmd (n - 1).toNat).1 ≤ 9999 := by
    by_contra hpast
    have hlt : ymdOrdinal 9999 12 31 < _ := ymdOrdinal_lt (by decide) (by decide) (by decide)
      (by decide) hy hm.1 hm.2 hd.1 (by omega)
    have hmax : ymdOrdinal 9999 12 31 = maxOrdinal := by decide
    rw [hsum, hmax] at hlt
    omega
  refine ⟨⟨_, _, _, ⟨hy, hyear⟩, hm, hd⟩, ?_⟩
  rw [Date.ofOrdinal, if_pos ⟨hlo, hhi⟩]
  exact dif_pos ⟨⟨hy, hyear⟩, hm, hd⟩

theorem Date.toordinal_le (d : Date) : 1 ≤ d.toordinal ∧ d.toordinal ≤ maxOrdinal := by
  obtain ⟨y, m, k, ⟨hy, hy'⟩, ⟨hm, hm'⟩, hk, hk'⟩ := d
  refine ⟨Nat.le_add_left_of_le hk, ?_⟩
  have hmax : ymdOrdinal 9999 12 31 = maxOrdinal := by decide
  rcases Nat.lt_or_ge (12 * y + m) (12 * 9999 + 12) with hlt | hge
  · exact hmax ▸ (ymdOrdinal_lt hy hm hm' hk' (by decide) (by decide) (by decide) (by decide) hlt).le
  · obtain rfl : y = 9999 := by omega
    obtain rfl : m = 12 := by omega
    exact hmax ▸ Nat.add_le_add_left hk' _

/-! ### Date-times -/

/-- Microseconds of a day. -/
def dayMicros : ℕ := 86400000000

theorem dayMicros_pos : 0 < dayMicros := by decide

theorem none_offset_lt : ∀ o ∈ (none : Option ℤ), -(dayMicros : ℤ) < o ∧ o < dayMicros := by simp

theorem utc_offset_lt : ∀ o ∈ some (0 : ℤ), -(dayMicros : ℤ) < o ∧ o < dayMicros := by decide

/-- A date, microseconds into it, and an offset in microseconds east of UTC where there is one. -/
structure DateTime where
  date : Date
  micros : ℕ
  offset : Option ℤ
  micros_lt : micros < dayMicros
  offset_lt : ∀ o ∈ offset, -(dayMicros : ℤ) < o ∧ o < dayMicros
  deriving DecidableEq

/-- Microseconds on the local clock. -/
def DateTime.localMicros (t : DateTime) : ℤ := t.date.toordinal * dayMicros + t.micros

/-- What comparison looks at: the local clock, taken to UTC where there is an offset. -/
def DateTime.instant (t : DateTime) : ℤ := t.localMicros - t.offset.getD 0

/-- The date-time of a local clock reading, kept on the offset of another. -/
def DateTime.withLocal (t : DateTime) (us : ℤ) : Except PyError DateTime :=
  match Date.ofOrdinal (us / dayMicros) with
  | .ok d => .ok
    { t with
      date := d
      micros := (us % dayMicros).toNat
      micros_lt := by
        have := Int.emod_nonneg us (b := dayMicros) (by decide)
        have := Int.emod_lt_of_pos us (b := dayMicros) (by decide)
        omega }
  | .error e => .error e

theorem DateTime.withLocal_ok {t t' : DateTime} {us : ℤ} (h : t.withLocal us = .ok t') :
    t'.localMicros = us ∧ t'.offset = t.offset := by
  unfold DateTime.withLocal at h
  split at h
  · next d hd =>
    cases h
    have hordinal := Date.ofOrdinal_ok hd
    have hmod := Int.emod_nonneg us (b := dayMicros) (by decide)
    have hdiv := Int.ediv_mul_add_emod us dayMicros
    refine ⟨?_, rfl⟩
    rw [DateTime.localMicros, hordinal, Int.toNat_of_nonneg hmod, hdiv]
  · cases h

/-- `astimezone(UTC)`; a local date-time is left as it is. -/
def DateTime.toUtc (t : DateTime) : Except PyError DateTime :=
  match t.offset with
  | none => .ok t
  | some _ => DateTime.withLocal { t with offset := some 0, offset_lt := utc_offset_lt } t.instant

theorem DateTime.toUtc_ok {t t' : DateTime} (h : t.toUtc = .ok t') :
    t'.instant = t.instant ∧ t'.offset = t.offset.map fun _ => 0 := by
  unfold DateTime.toUtc at h
  cases hoffset : t.offset with
  | none => rw [hoffset] at h; cases h; simp [hoffset]
  | some o =>
    rw [hoffset] at h
    obtain ⟨hlocal, hutc⟩ := DateTime.withLocal_ok h
    refine ⟨?_, by simp [hutc]⟩
    rw [DateTime.instant, hlocal, hutc]
    simp

/-- `astimezone(timezone(offset))` of a date-time in UTC. -/
def DateTime.atOffset (t : DateTime) (offset : ℤ) : Except PyError DateTime :=
  if h : -(dayMicros : ℤ) < offset ∧ offset < dayMicros then
    DateTime.withLocal
      { t with offset := some offset, offset_lt := fun _ ho => Option.some.inj ho ▸ h }
      (t.localMicros + offset)
  else .error (.valueError "offset must be a timedelta strictly between -24 hours and 24 hours")

/-- TOTAL: every microsecond of the calendar is on some local clock. -/
theorem DateTime.withLocal_total (t : DateTime) {us : ℤ} (hlo : (dayMicros : ℤ) ≤ us)
    (hhi : us < (maxOrdinal + 1) * dayMicros) : ∃ t', t.withLocal us = .ok t' := by
  have hday : (0 : ℤ) < dayMicros := by decide
  obtain ⟨d, hd⟩ : ∃ d, Date.ofOrdinal (us / dayMicros) = .ok d := Date.ofOrdinal_total
    (Int.le_ediv_of_mul_le hday (by rwa [one_mul]))
    (Int.lt_add_one_iff.mp (Int.ediv_lt_of_lt_mul hday hhi))
  unfold DateTime.withLocal
  split
  · exact ⟨_, rfl⟩
  · next e he => rw [hd] at he; cases he

theorem DateTime.atOffset_ok {t t' : DateTime} {offset : ℤ} (h : t.atOffset offset = .ok t') :
    t'.localMicros = t.localMicros + offset ∧ t'.offset = some offset := by
  unfold DateTime.atOffset at h
  split_ifs at h
  obtain ⟨hlocal, hoffset⟩ := DateTime.withLocal_ok h
  exact ⟨hlocal, hoffset⟩

/-- Local clocks read alike only on one date at one time of day. -/
theorem DateTime.localMicros_inj {t t' : DateTime} (h : t.localMicros = t'.localMicros) :
    t.date = t'.date ∧ t.micros = t'.micros := by
  have hlt := t.micros_lt
  have hlt' := t'.micros_lt
  simp only [DateTime.localMicros, dayMicros] at h hlt hlt'
  have hdate : t.date.toordinal = t'.date.toordinal := by omega
  exact ⟨Date.toordinal_injective hdate, by omega⟩

/-- Dates and date-times alike: a place on an axis, a calendar date that can be replaced, and adding
    a timedelta. Steps below the `grain` are lost. -/
class Temporal (T : Type) where
  place : T → ℤ
  date : T → Date
  withDate : T → Date → T
  plus : T → ℤ → Except PyError T
  grain : ℕ
  grain_le : grain ≤ dayMicros
  plus_lt : ∀ {t t' : T} {us : ℤ}, grain ≤ us → plus t us = .ok t' → place t < place t'
  withDate_lt : ∀ {t : T} {d : Date}, (date t).toordinal < d.toordinal →
    place t < place (withDate t d)

instance : Temporal Date where
  place d := d.toordinal
  date d := d
  withDate _ d := d
  plus d us := Date.ofOrdinal (d.toordinal + us / dayMicros)
  grain := dayMicros
  grain_le := le_rfl
  plus_lt {d d' us} hgrain h := by
    have hpos : 1 ≤ us / dayMicros := Int.le_ediv_of_mul_le (by decide) (by simpa using hgrain)
    rw [Date.ofOrdinal_ok h]
    omega
  withDate_lt h := by exact_mod_cast h

instance : Temporal DateTime where
  place t := t.instant
  date t := t.date
  withDate t d := { t with date := d }
  plus t us := t.withLocal (t.localMicros + us)
  grain := 1
  grain_le := by decide
  plus_lt {t t' us} hgrain h := by
    obtain ⟨hlocal, hoffset⟩ := DateTime.withLocal_ok h
    rw [DateTime.instant, DateTime.instant, hlocal, hoffset]
    omega
  withDate_lt {t d} h := by
    simp only [DateTime.instant, DateTime.localMicros]
    have : (t.date.toordinal : ℤ) * dayMicros < d.toordinal * dayMicros :=
      mul_lt_mul_of_pos_right (by exact_mod_cast h) (by decide)
    omega

end Dpone.Schemes
