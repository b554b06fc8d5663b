import Dpone.NativeWire.ValueRoundTrip

/-! Encoding and decoding dates and times.

    Both sides count hundreds of nanoseconds. A `datetimeoffset` is written in UTC: the ticks wrap
    around the day, the day is that of the UTC date, and the offset takes the reader back to the
    local clock. -/

namespace Dpone.NativeWire
open Dpone.Schemes

variable (py : Runtime)

/-! ### Ticks -/

/-- The exponent of the declared precision check, on either side. -/
def declaredExponent (sourceType : Str) : ℤ := 7 - ((declaredNumber py sourceType).getD 7 : ℕ)

theorem ticksOf_ok {micros : ℕ} {submicrosecond : Option ℤ} {c : NativeWireColumnLayout} {ticks : ℕ}
    (h : ticksOf py micros submicrosecond c = .ok ticks) :
    ∃ r : ℕ, submicrosecond = some (r : ℤ) ∧ r ≤ 9 ∧ ticks = micros * 10 + r ∧
      py.remPow10 ticks (declaredExponent py c.sourceType) = .ok false := by
  cases submicrosecond with
  | none => cases h
  | some remainder =>
    obtain ⟨⟨⟩, hrange, h⟩ := bind_ok.mp h
    obtain ⟨inexact, hinexact, h⟩ := bind_ok.mp h
    obtain ⟨⟨⟩, hexact, h⟩ := bind_ok.mp h
    cases h
    obtain ⟨hlow, hhigh⟩ := not_not.mp (raiseIf_ok.mp hrange)
    refine ⟨remainder.toNat, by rw [Int.toNat_of_nonneg hlow], by omega, rfl, ?_⟩
    rw [Bool.eq_false_iff.mpr (raiseIf_ok.mp hexact)] at hinexact
    exact hinexact

theorem ticks_lt {micros r : ℕ} (hmicros : micros < dayMicros) (hr : r ≤ 9) :
    micros * 10 + r < dayTicks := by
  have h : micros < 86400000000 := hmicros
  change micros * 10 + r < 864000000000
  omega

/-- LOSSLESS: ticks are microseconds and a seventh digit. -/
theorem decodeTime_ticks {payload : Bytes} {micros r : ℕ} (hmicros : micros < dayMicros)
    (hr : r ≤ 9) (h : ofLE payload = micros * 10 + r) :
    decodeTime payload 7 =
      .ok { micros := micros, aware := false, submicrosecond := some (r : ℤ), micros_lt := hmicros } := by
  have hdiv : (micros * 10 + r) / 10 = micros := by omega
  have hmod : (micros * 10 + r) % 10 = r := by omega
  obtain ⟨d, hd⟩ : ∃ d, Date.ofOrdinal (1 + (micros / dayMicros : ℕ)) = .ok d := by
    rw [Nat.div_eq_of_lt hmicros]
    exact Date.ofOrdinal_total (by decide) (by decide)
  have hmicroseconds : (if 7 ≤ 6 then ofLE payload * 10 ^ (6 - 7) else ofLE payload / 10 ^ (7 - 6)) =
      micros := by
    rw [if_neg (by decide), h]
    exact hdiv
  refine bind_ok.mpr ⟨d, ?_, congrArg Except.ok (PyTime.ext ?_ rfl ?_)⟩
  · rw [hmicroseconds]
    exact_mod_cast hd
  · dsimp only
    rw [hmicroseconds, Nat.mod_eq_of_lt hmicros]
  · dsimp only
    rw [if_pos rfl, h, hmod]

/-! ### The checks of the decoder -/

theorem validateTemporal_ok {payload : Bytes} {f : Field} {context : String}
    (hscale : f.scale = some 7) (hticks : ofLE (payload.take 5) < dayTicks)
    (hrem : py.remPow10 (ofLE (payload.take 5)) (declaredExponent py f.sourceType) = .ok false)
    (hday : f.storageType ≠ .time → ofLE ((payload.drop 5).take 3) ≤ maxDay)
    (hzone : f.storageType = .datetimeoffset →
      (ofLESigned (payload.drop (payload.length - 2))).natAbs ≤ 840 ∧
        ∃ t : ℤ, 0 ≤ t ∧ t < (maxDay + 1) * dayTicks ∧
          t = ofLE ((payload.drop 5).take 3) * dayTicks + ofLE (payload.take 5) +
            ofLESigned (payload.drop (payload.length - 2)) * 600000000) :
    validateTemporal py payload f context = .ok () := by
  have hwidth : timeWidth (f.scale.getD 7) = 5 := by rw [hscale]; rfl
  have hten : 86400 * 10 ^ f.scale.getD 7 = dayTicks := by rw [hscale]; rfl
  unfold validateTemporal
  simp only [hwidth, hten]
  refine bind_ok.mpr ⟨(), raiseIf_ok.mpr (Nat.not_le.mpr hticks), bind_ok.mpr ⟨false, hrem,
    bind_ok.mpr ⟨(), raiseIf_ok.mpr (by simp), ?_⟩⟩⟩
  by_cases htime : f.storageType ≠ .time
  · rw [if_pos htime]
    refine bind_ok.mpr ⟨(), raiseIf_ok.mpr (Nat.not_lt.mpr (hday htime)), ?_⟩
    by_cases hoffset : f.storageType = .datetimeoffset
    · obtain ⟨habs, t, hlow, hhigh, ht⟩ := hzone hoffset
      rw [if_pos hoffset]
      refine raiseIf_ok.mpr (not_or.mpr ⟨Nat.not_lt.mpr habs, not_not.mpr ?_⟩)
      have hsame : (ofLE ((payload.drop 5).take 3) : ℤ) * dayTicks + ofLE (payload.take 5) +
          ofLESigned (payload.drop (payload.length - 2)) * 60 * 10 ^ f.scale.getD 7 = t := by
        rw [ht, hscale]
        norm_num
        ring
      exact ⟨hsame ▸ hlow, hsame ▸ hhigh⟩
    · rw [if_neg hoffset]
      rfl
  · rw [if_neg htime]
    rfl

/-- A tick that the declared precision does not divide is an error. -/
theorem validateTemporal_inexact {payload : Bytes} {f : Field} {context : String}
    (hscale : f.scale = some 7)
    (hrem : py.remPow10 (ofLE (payload.take 5)) (declaredExponent py f.sourceType) ≠ .ok false) :
    ∃ e, validateTemporal py payload f context = .error e := by
  have hwidth : timeWidth (f.scale.getD 7) = 5 := by rw [hscale]; rfl
  have hten : 86400 * 10 ^ f.scale.getD 7 = dayTicks := by rw [hscale]; rfl
  cases h : validateTemporal py payload f context with
  | error e => exact ⟨e, rfl⟩
  | ok u =>
    unfold validateTemporal at h
    simp only [hwidth, hten] at h
    obtain ⟨⟨⟩, -, h⟩ := bind_ok.mp h
    obtain ⟨inexact, hinexact, h⟩ := bind_ok.mp h
    obtain ⟨⟨⟩, hexact, -⟩ := bind_ok.mp h
    rw [Bool.eq_false_iff.mpr (raiseIf_ok.mp hexact)] at hinexact
    exact absurd hinexact hrem

/-! ### Dates -/

theorem ofOrdinal_toordinal (d : Date) : Date.ofOrdinal d.toordinal = .ok d := by
  obtain ⟨hlow, hhigh⟩ := d.toordinal_le
  obtain ⟨e, he⟩ : ∃ e, Date.ofOrdinal d.toordinal = .ok e :=
    Date.ofOrdinal_total (by exact_mod_cast hlow) (by exact_mod_cast hhigh)
  rw [he, Date.toordinal_injective (show e.toordinal = d.toordinal by
    exact_mod_cast Date.ofOrdinal_ok he)]

/-- The three bytes of a day, read back. -/
theorem day_of_toBytes {d : Date} {payload : Bytes}
    (h : toBytes 3 false (d.toordinal - 1) = .ok payload) :
    payload.length = 3 ∧ ofLE payload ≤ maxDay ∧ Date.ofOrdinal (1 + ofLE payload) = .ok d := by
  have hof : (ofLE payload : ℤ) = d.toordinal - 1 := ofLE_of_toBytes h
  obtain ⟨-, hhigh⟩ := d.toordinal_le
  have hmax : maxOrdinal = maxDay + 1 := rfl
  refine ⟨toBytes_length h, by omega, ?_⟩
  rw [hof, show (1 + ((d.toordinal : ℤ) - 1)) = d.toordinal by omega]
  exact ofOrdinal_toordinal d

theorem returns_date {c : NativeWireColumnLayout} {d : Date} {payload : Bytes}
    (hs : c.storageType = .date) (h : toBytes 3 false (d.toordinal - 1) = .ok payload) :
    payload.length = 3 ∧ Returns py c (.date d) payload := by
  obtain ⟨hlength, hmax, hdate⟩ := day_of_toBytes h
  refine ⟨hlength, fun context => ?_, .date d, ?_, .same _⟩
  · rw [validatePayload_plain py (by simp [hs, Storage.exact]) (by simp [hs])]
    simpa [validateScalarDomain, hs] using hmax
  · rw [decodePayload, hs, hdate]
    rfl

/-! ### Times of day -/

theorem validatePayload_temporal {c : NativeWireColumnLayout} {payload : Bytes} {context : String}
    (ht : c.storageType.temporal = true) :
    validatePayload py payload c.field context = validateTemporal py payload c.field context := by
  have hstorage : c.storageType = .time ∨ c.storageType = .datetime2 ∨
      c.storageType = .datetimeoffset := by
    cases hs : c.storageType <;> simp [hs, Storage.temporal] at ht ⊢
  rcases hstorage with hs | hs | hs
  all_goals
    rw [validatePayload_plain py (by simp [hs, Storage.exact]) (by simp [hs])]
    simp [validateScalarDomain, hs]

theorem returns_time {c : NativeWireColumnLayout} {t : PyTime} {ticks : ℕ} {payload : Bytes}
    (hd : Derived c) (hs : c.storageType = .time) (haware : t.aware = false)
    (hticks : ticksOf py t.micros t.submicrosecond c = .ok ticks)
    (h : toBytes 5 false ticks = .ok payload) :
    payload.length = 5 ∧ Returns py c (.time t) payload := by
  obtain ⟨r, hsub, hr, rfl, hrem⟩ := ticksOf_ok py hticks
  have hlength := toBytes_length h
  have hof : ofLE payload = t.micros * 10 + r := by exact_mod_cast ofLE_of_toBytes h
  have htake : payload.take 5 = payload := List.take_of_length_le hlength.le
  have hscale := hd.scale_of (by rw [hs]; rfl)
  refine ⟨hlength, fun context => ?_, .time t, ?_, .same _⟩
  · rw [validatePayload_temporal py (by rw [hs]; rfl)]
    refine validateTemporal_ok py hscale ?_ ?_ (fun hne => absurd hs hne) fun hoffset => ?_
    · rw [htake, hof]
      exact ticks_lt t.micros_lt hr
    · rw [htake, hof]
      exact hrem
    · rw [field_storageType, hs] at hoffset
      cases hoffset
  · rw [decodePayload, hs, hscale]
    change (decodeTime payload 7).map PyValue.time = .ok (.time t)
    rw [decodeTime_ticks t.micros_lt hr hof]
    exact congrArg (fun t => Except.ok (PyValue.time t)) (PyTime.ext rfl haware.symm hsub.symm)

/-! ### Dates with a time -/

theorem offset_of_naive {t : PyDateTime} (h : t.aware = false) : t.clock.offset = none := by
  cases ho : t.clock.offset with
  | none => rfl
  | some o =>
    have haware := t.aware_of_offset (by rw [ho]; rfl)
    rw [h] at haware
    cases haware

/-- A payload of five bytes of ticks and three of a day. -/
theorem decodeDatetime2_parts {time day : Bytes} {d : Date} {micros r : ℕ}
    (hmicros : micros < dayMicros) (hr : r ≤ 9) (htime : time.length = 5)
    (hof : ofLE time = micros * 10 + r) (hdate : Date.ofOrdinal (1 + ofLE day) = .ok d) :
    decodeDatetime2 (time ++ day) 7 =
      .ok ({ date := d, micros := micros, offset := none, micros_lt := hmicros,
             offset_lt := by simp }, r) := by
  have htake : (time ++ day).take 5 = time := List.take_left' htime
  have hdrop : (time ++ day).drop 5 = day := List.drop_left' htime
  have hlength : timeLength 7 = .ok 5 := rfl
  unfold decodeDatetime2
  rw [hlength, ok_bind, htake, hdrop, decodeTime_ticks hmicros hr hof, ok_bind, hdate, ok_bind, hof,
    if_pos rfl, show (micros * 10 + r) % 10 = r by omega]
  rfl

theorem returns_datetime2 {c : NativeWireColumnLayout} {t : PyDateTime} {ticks : ℕ}
    {time day : Bytes} (hd : Derived c) (hs : c.storageType = .datetime2) (haware : t.aware = false)
    (hticks : ticksOf py t.clock.micros t.submicrosecond c = .ok ticks)
    (htime : toBytes 5 false ticks = .ok time)
    (hday : toBytes 3 false (t.clock.date.toordinal - 1) = .ok day) :
    (time ++ day).length = 8 ∧ Returns py c (.datetime t) (time ++ day) := by
  obtain ⟨r, hsub, hr, rfl, hrem⟩ := ticksOf_ok py hticks
  have hlength := toBytes_length htime
  have hof : ofLE time = t.clock.micros * 10 + r := by exact_mod_cast ofLE_of_toBytes htime
  obtain ⟨hthree, hmax, hdate⟩ := day_of_toBytes hday
  have hscale := hd.scale_of (by rw [hs]; rfl)
  have htake : (time ++ day).take 5 = time := List.take_left' hlength
  have hdrop : ((time ++ day).drop 5).take 3 = day := by
    rw [List.drop_left' hlength, List.take_of_length_le hthree.le]
  have hoffset := offset_of_naive haware
  refine ⟨by rw [List.length_append, hlength, hthree], fun context => ?_, .datetime t, ?_, .same _⟩
  · rw [validatePayload_temporal py (by rw [hs]; rfl)]
    refine validateTemporal_ok py hscale ?_ ?_ (fun _ => by rw [hdrop]; exact hmax) fun hzone => ?_
    · rw [htake, hof]
      exact ticks_lt t.clock.micros_lt hr
    · rw [htake, hof]
      exact hrem
    · rw [field_storageType, hs] at hzone
      cases hzone
  · rw [decodePayload, hs, hscale]
    change (decodeDatetime2 (time ++ day) 7).map (fun t => PyValue.datetime (naive t.1 t.2)) = _
    rw [decodeDatetime2_parts t.clock.micros_lt hr hlength hof hdate]
    refine congrArg (fun t => Except.ok (PyValue.datetime t)) (PyDateTime.ext ?_ haware.symm
      hsub.symm)
    cases hc : t.clock
    rw [hc] at hoffset
    subst hoffset
    rfl

/-! ### Date-times in UTC -/

/-- The ticks of the UTC day a `datetimeoffset` is written with. -/
def utcTicks (t : PyDateTime) : ℤ :=
  (t.clock.micros * 10 + t.submicrosecond.getD 0 -
    t.clock.offset.getD 0 / 60000000 * 600000000) % dayTicks

/-- A value whose UTC time of day the declared precision divides, where it is read back in UTC. -/
def ExactInUtc (c : NativeWireColumnLayout) (value : PyValue) : Prop :=
  c.storageType = .datetimeoffset → ∀ t, value = .datetime t →
    py.remPow10 (utcTicks t).toNat (declaredExponent py c.sourceType) = .ok false

/-- What the encoder established about a `datetimeoffset` and its parts. -/
theorem encodeDatetimeoffset_ok {t : PyDateTime} {c : NativeWireColumnLayout} {payload : Bytes}
    (h : encodeDatetimeoffset py t c = .ok payload) :
    ∃ (m : ℤ) (r : ℕ) (utc : DateTime) (time day zone : Bytes),
      t.clock.offset = some (m * 60000000) ∧ m.natAbs ≤ 840 ∧ t.submicrosecond = some (r : ℤ) ∧
      r ≤ 9 ∧ py.remPow10 (t.clock.micros * 10 + r) (declaredExponent py c.sourceType) = .ok false ∧
      t.clock.toUtc = .ok utc ∧
      toBytes 5 false (utcTicks t) = .ok time ∧ toBytes 3 false (utc.date.toordinal - 1) = .ok day ∧
      toBytes 2 true m = .ok zone ∧ payload = time ++ day ++ zone := by
  unfold encodeDatetimeoffset at h
  cases hoffset : t.clock.offset with
  | none => rw [hoffset] at h; cases h
  | some offset =>
    rw [hoffset] at h
    obtain ⟨⟨⟩, hminutes, h⟩ := bind_ok.mp h
    obtain ⟨ticks, hticks, h⟩ := bind_ok.mp h
    obtain ⟨utc, hutc, h⟩ := bind_ok.mp h
    obtain ⟨time, htime, h⟩ := bind_ok.mp h
    obtain ⟨day, hday, h⟩ := bind_ok.mp h
    obtain ⟨zone, hzone, h⟩ := bind_ok.mp h
    cases h
    obtain ⟨hwhole, habs⟩ := not_or.mp (raiseIf_ok.mp hminutes)
    obtain ⟨r, hsub, hr, rfl, hrem⟩ := ticksOf_ok py hticks
    have hsame : utcTicks t =
        (((t.clock.micros * 10 + r : ℕ) : ℤ) - offset / 60000000 * 600000000) % dayTicks := by
      rw [utcTicks, hsub, hoffset]
      push_cast
      rfl
    exact ⟨offset / 60000000, r, utc, time, day, zone, by congr 1; omega, by omega, hsub, hr, hrem,
      hutc, hsame ▸ htime, hday, hzone, rfl⟩

/-- The UTC time of day and date, against the local ones. -/
theorem utcTicks_eq {t : PyDateTime} {m : ℤ} {r : ℕ} {utc : DateTime}
    (hoffset : t.clock.offset = some (m * 60000000)) (hsub : t.submicrosecond = some (r : ℤ))
    (hr : r ≤ 9) (hutc : t.clock.toUtc = .ok utc) :
    utcTicks t = (utc.micros * 10 + r : ℕ) ∧
      utc.localMicros = t.clock.localMicros - m * 60000000 := by
  obtain ⟨hinstant, hzero⟩ := DateTime.toUtc_ok hutc
  have hlocal : utc.localMicros = t.clock.localMicros - m * 60000000 := by
    simp only [DateTime.instant, hzero, hoffset, Option.map_some, Option.getD_some] at hinstant
    omega
  refine ⟨?_, hlocal⟩
  have hmicros := t.clock.micros_lt
  have hutcMicros := utc.micros_lt
  simp only [DateTime.localMicros, dayMicros] at hlocal hmicros hutcMicros
  rw [utcTicks, hsub, hoffset]
  simp only [Option.getD_some, dayTicks]
  omega

/-- The parts of a `datetimeoffset`, as the decoder cuts them out. -/
theorem decodeDatetimeoffset_parts {t : PyDateTime} {m : ℤ} {r : ℕ} {utc : DateTime}
    {time day zone : Bytes} (hoffset : t.clock.offset = some (m * 60000000))
    (hlocal : utc.localMicros = t.clock.localMicros - m * 60000000) (hr : r ≤ 9)
    (htime : time.length = 5) (hday : day.length = 3) (hzone : zone.length = 2)
    (hof : ofLE time = utc.micros * 10 + r) (hdate : Date.ofOrdinal (1 + ofLE day) = .ok utc.date)
    (hm : ofLESigned zone = m) :
    ∃ t', decodeDatetimeoffset (time ++ day ++ zone) 7 = .ok t' ∧ t'.clock = t.clock ∧
      t'.aware = true ∧ t'.submicrosecond = some (r : ℤ) := by
  have hlength : timeLength 7 = .ok 5 := rfl
  have height : (time ++ day).length = 8 := by rw [List.length_append, htime, hday]
  have htake : (time ++ day ++ zone).take 8 = time ++ day := List.take_left' height
  have hdrop : (time ++ day ++ zone).drop 8 = zone := List.drop_left' height
  obtain ⟨utc', hutc'⟩ : ∃ utc' : DateTime, utc' =
      { date := utc.date, micros := utc.micros, offset := none, micros_lt := utc.micros_lt,
        offset_lt := by simp } := ⟨_, rfl⟩
  have hclock : utc'.localMicros = utc.localMicros := by rw [hutc']; rfl
  have hrange := t.clock.offset_lt _ (Option.mem_def.mpr hoffset)
  have hday' : (0 : ℤ) < dayMicros := by decide
  obtain ⟨aware, haware⟩ : ∃ aware, utc'.atOffset (m * 60000000) = .ok aware := by
    rw [DateTime.atOffset, dif_pos hrange]
    refine DateTime.withLocal_total _ ?_ ?_ <;> rw [hclock, hlocal] <;>
      simp only [DateTime.localMicros]
    · have h1 := t.clock.date.toordinal_le.1
      have h2 : (1 : ℤ) * dayMicros ≤ t.clock.date.toordinal * dayMicros :=
        mul_le_mul_of_nonneg_right (by exact_mod_cast h1) hday'.le
      omega
    · have h1 := t.clock.date.toordinal_le.2
      have h2 : (t.clock.date.toordinal : ℤ) * dayMicros ≤ maxOrdinal * dayMicros :=
        mul_le_mul_of_nonneg_right (by exact_mod_cast h1) hday'.le
      have h3 := t.clock.micros_lt
      rw [add_mul, one_mul]
      omega
  obtain ⟨hlocal', hoffset'⟩ := DateTime.atOffset_ok haware
  have hsame : aware.localMicros = t.clock.localMicros := by rw [hlocal', hclock, hlocal]; omega
  obtain ⟨hsameDate, hsameMicros⟩ := DateTime.localMicros_inj hsame
  refine ⟨⟨aware, true, some (r : ℤ), fun _ => rfl⟩, ?_, ?_, rfl, rfl⟩
  · unfold decodeDatetimeoffset
    rw [hlength, ok_bind, htake, hdrop,
      raiseIf_neg (by rw [List.length_append, height, hzone]; simp), ok_bind,
      decodeDatetime2_parts utc.micros_lt hr htime hof hdate, ok_bind]
    dsimp only
    rw [unpackSigned, if_pos hzone, ok_bind, hm, ← hutc', haware]
    rfl
  · cases aware
    cases hc : t.clock
    rw [hc] at hsameDate hsameMicros hoffset
    dsimp only at hsameDate hsameMicros hoffset hoffset'
    subst hsameDate hsameMicros
    rw [DateTime.mk.injEq]
    exact ⟨rfl, rfl, hoffset'.trans hoffset.symm⟩

/-- CORRECT: a `datetimeoffset` comes back if and only if its UTC time of day is of the declared
    precision. -/
theorem returns_datetimeoffset {c : NativeWireColumnLayout} {t : PyDateTime} {payload : Bytes}
    (hd : Derived c) (hs : c.storageType = .datetimeoffset)
    (h : encodeDatetimeoffset py t c = .ok payload) :
    payload.length = 10 ∧
      (ExactInUtc py c (.datetime t) → Returns py c (.datetime t) payload) ∧
      (¬ ExactInUtc py c (.datetime t) →
        ∀ context, ∃ e, validatePayload py payload c.field context = .error e) := by
  obtain ⟨m, r, utc, time, day, zone, hoffset, hm, hsub, hr, -, hutc, htime, hday, hzone, rfl⟩ :=
    encodeDatetimeoffset_ok py h
  obtain ⟨hticks, hlocal⟩ := utcTicks_eq hoffset hsub hr hutc
  have hlength := toBytes_length htime
  have hthree := toBytes_length hday
  have htwo := toBytes_length hzone
  have hof : ofLE time = utc.micros * 10 + r := by
    have := ofLE_of_toBytes htime
    rw [hticks] at this
    exact_mod_cast this
  obtain ⟨-, hmax, hdate⟩ := day_of_toBytes hday
  have hzoneOf := ofLESigned_of_toBytes hzone
  have hscale := hd.scale_of (by rw [hs]; rfl)
  have htotal : (time ++ day ++ zone).length = 10 := by
    simp only [List.length_append, hlength, hthree, htwo]
  have htake : (time ++ day ++ zone).take 5 = time := by
    rw [List.append_assoc, List.take_left' hlength]
  have hdrop : ((time ++ day ++ zone).drop 5).take 3 = day := by
    rw [List.append_assoc, List.drop_left' hlength, List.take_left' hthree]
  have hlast : (time ++ day ++ zone).drop ((time ++ day ++ zone).length - 2) = zone := by
    rw [htotal, List.drop_left' (by rw [List.length_append, hlength, hthree])]
  have hfield : ∀ context, validatePayload py (time ++ day ++ zone) c.field context =
      validateTemporal py (time ++ day ++ zone) c.field context :=
    fun _ => validatePayload_temporal py (by rw [hs]; rfl)
  refine ⟨htotal, fun hexact => ?_, fun hinexact context => ?_⟩
  · have hrem := hexact hs t rfl
    rw [hticks, Int.toNat_natCast, ← hof] at hrem
    obtain ⟨t', hdecode, hclock, haware, hsub'⟩ :=
      decodeDatetimeoffset_parts hoffset hlocal hr hlength hthree htwo hof hdate hzoneOf
    refine ⟨fun context => ?_, .datetime t, ?_, .same _⟩
    · rw [hfield]
      refine validateTemporal_ok py hscale ?_ ?_ (fun _ => by rw [hdrop]; exact hmax) fun _ => ?_
      · rw [htake, hof]
        exact ticks_lt utc.micros_lt hr
      · rw [htake]
        exact hrem
      · rw [hlast, hzoneOf, hdrop, htake]
        refine ⟨hm, (t.clock.date.toordinal - 1) * dayTicks + (t.clock.micros * 10 + r), ?_⟩
        obtain ⟨hfirst, hlastDay⟩ := t.clock.date.toordinal_le
        have hday0 : (ofLE day : ℤ) = utc.date.toordinal - 1 := ofLE_of_toBytes hday
        have hmicros := t.clock.micros_lt
        rw [hof, hday0]
        simp only [DateTime.localMicros, dayMicros, dayTicks, maxDay, maxOrdinal] at *
        push_cast
        omega
    · rw [decodePayload, hs, hscale]
      change (decodeDatetimeoffset (time ++ day ++ zone) 7).map PyValue.datetime = _
      rw [hdecode]
      have hsome := t.aware_of_offset (by rw [hoffset]; rfl)
      exact congrArg (fun t => Except.ok (PyValue.datetime t))
        (PyDateTime.ext hclock (haware.trans hsome.symm) (hsub'.trans hsub.symm))
  · rw [hfield]
    refine validateTemporal_inexact py hscale fun hrem => hinexact fun _ t' ht' => ?_
    cases ht'
    rw [hticks, Int.toNat_natCast, ← hof, ← htake]
    exact hrem

/-! ### The older types -/

/-- A moment counted from the epoch, on its date. -/
theorem sinceEpoch_eq {clock : DateTime} (hoffset : clock.offset = none) :
    sinceEpoch (clock.date.toordinal - sqlServerEpoch) clock.micros =
      .ok { clock := clock, aware := false, submicrosecond := some 0,
            aware_of_offset := by rw [hoffset]; simp } := by
  have hdate : Date.ofOrdinal (sqlServerEpoch + (clock.date.toordinal - sqlServerEpoch)) =
      .ok clock.date := by
    rw [show (sqlServerEpoch : ℤ) + (clock.date.toordinal - sqlServerEpoch) =
      clock.date.toordinal by omega]
    exact ofOrdinal_toordinal clock.date
  unfold sinceEpoch
  rw [hdate, ok_bind]
  dsimp only
  obtain ⟨hlow, hhigh⟩ := clock.date.toordinal_le
  have hmicros := clock.micros_lt
  obtain ⟨midnight, hmidnight⟩ : ∃ midnight : DateTime, midnight =
      { date := clock.date, micros := 0, offset := none, micros_lt := by decide,
        offset_lt := by simp } := ⟨_, rfl⟩
  have hlocal : midnight.localMicros + clock.micros = clock.localMicros := by
    rw [hmidnight]
    simp [DateTime.localMicros]
  obtain ⟨t, ht⟩ : ∃ t, midnight.withLocal (midnight.localMicros + clock.micros) = .ok t := by
    rw [hlocal]
    simp only [DateTime.localMicros, dayMicros, maxOrdinal] at *
    refine DateTime.withLocal_total _ ?_ ?_ <;> simp only [dayMicros, maxOrdinal] <;> omega
  obtain ⟨htlocal, htoffset⟩ := DateTime.withLocal_ok ht
  obtain ⟨hsameDate, hsameMicros⟩ := DateTime.localMicros_inj (htlocal.trans hlocal)
  rw [← hmidnight, ht]
  refine congrArg Except.ok (PyDateTime.ext ?_ rfl rfl)
  cases t
  cases clock
  dsimp only at hsameDate hsameMicros hoffset
  subst hsameDate hsameMicros hoffset
  rfl

/-- The moment of a value without an offset and without a seventh digit, counted from the epoch. -/
theorem sinceEpoch_naive {t : PyDateTime} (haware : t.aware = false)
    (hsub : t.submicrosecond = some 0) :
    sinceEpoch (t.clock.date.toordinal - sqlServerEpoch) t.clock.micros = .ok t := by
  rw [sinceEpoch_eq (offset_of_naive haware)]
  exact congrArg Except.ok (PyDateTime.ext rfl haware.symm hsub.symm)

theorem returns_smalldatetime {c : NativeWireColumnLayout} {t : PyDateTime} {ticks : ℕ}
    {day minutes : Bytes} (hs : c.storageType = .smalldatetime) (haware : t.aware = false)
    (hticks : ticksOf py t.clock.micros t.submicrosecond c = .ok ticks)
    (hwhole : ticks % 600000000 = 0)
    (hday : toBytes 2 false (t.clock.date.toordinal - sqlServerEpoch) = .ok day)
    (hminutes : toBytes 2 false (ticks / 600000000 : ℕ) = .ok minutes) :
    (day ++ minutes).length = 4 ∧ Returns py c (.datetime t) (day ++ minutes) := by
  obtain ⟨r, hsub, hr, rfl, -⟩ := ticksOf_ok py hticks
  have hlength := toBytes_length hday
  have htwo := toBytes_length hminutes
  have htotal : (day ++ minutes).length = 4 := by rw [List.length_append, hlength, htwo]
  have htake : (day ++ minutes).take 2 = day := List.take_left' hlength
  have hdrop : (day ++ minutes).drop 2 = minutes := List.drop_left' hlength
  have hdays := ofLE_of_toBytes hday
  have hof : ofLE minutes = (t.clock.micros * 10 + r) / 600000000 := by
    exact_mod_cast ofLE_of_toBytes hminutes
  have hmicros : t.clock.micros < 86400000000 := t.clock.micros_lt
  have hzero : r = 0 := by omega
  refine ⟨htotal, fun context => ?_, .datetime t, ?_, .same _⟩
  · have hlt : ¬ 1440 ≤ ofLE ((day ++ minutes).drop 2) := by
      rw [hdrop, hof]
      omega
    rw [validatePayload_plain py (by simp [hs, Storage.exact]) (by simp [hs])]
    simp only [validateScalarDomain, field_storageType, hs, raiseIf_neg hlt]
  · have hclock : (ofLE minutes * 60000000 : ℤ) = t.clock.micros := by
      rw [hof]
      omega
    rw [decodePayload, hs, decodeSmalldatetime, raiseIf_neg (not_not.mpr htotal), ok_bind, htake,
      hdrop, hdays, hclock, sinceEpoch_naive haware (by rw [hsub, hzero]; rfl)]
    rfl

/-- The first day of 1753 is the first that `datetime` has. -/
theorem toordinal_of_year {d : Date} (h : ¬ d.year < 1753) : 639906 ≤ d.toordinal := by
  obtain ⟨y, m, k, ⟨hy, hy'⟩, ⟨hm, hm'⟩, hk, hk'⟩ := d
  have hlt : ymdOrdinal 1752 12 31 < ymdOrdinal y m k :=
    ymdOrdinal_lt (by decide) (by decide) (by decide) (by decide) hy hm hm' hk
      (by have hyear : ¬ y < 1753 := h; omega)
  have hlast : ymdOrdinal 1752 12 31 = 639905 := by decide
  rw [hlast] at hlt
  exact hlt

/-- Whole three-hundredths of a second without a remainder are tens of milliseconds. -/
theorem three_hundredths {micros r q : ℕ} (hmicros : micros < 86400000000) (hr : r ≤ 9)
    (h : (micros * 10 + r) * 300 % 10000000 = 0) (hq : q = (micros * 10 + r) * 300 / 10000000) :
    r = 0 ∧ q < 25920000 ∧ (q * 1000 + 150) / 300 * 1000 = micros := by
  have hsplit := Nat.div_add_mod ((micros * 10 + r) * 300) 10000000
  rw [h, ← hq, Nat.add_zero] at hsplit
  have hthree : 100000 * q = 3 * (micros * 10 + r) := by
    refine Nat.eq_of_mul_eq_mul_left (show 0 < 100 by decide) ?_
    rw [← Nat.mul_assoc, ← Nat.mul_assoc, Nat.mul_comm (100 * 3)]
    exact hsplit
  obtain ⟨k, rfl⟩ : 3 ∣ q :=
    (show Nat.Coprime 3 100000 by decide).dvd_of_dvd_mul_left ⟨_, hthree⟩
  have htens : micros * 10 + r = 10000 * k * 10 :=
    Nat.eq_of_mul_eq_mul_left (show 0 < 3 by decide) (hthree.symm.trans (by ring))
  obtain ⟨hzero, hwhole⟩ : r = 0 ∧ micros = 10000 * k := by
    generalize 10000 * k = j at htens
    clear h hq hsplit hthree
    omega
  have hdiv : (3 * k * 1000 + 150) / 300 = 10 * k := by
    clear h hq hsplit hthree htens hmicros hwhole
    omega
  refine ⟨hzero, ?_, ?_⟩
  · clear h hq hsplit hthree htens hdiv
    omega
  · rw [hdiv, hwhole, Nat.mul_right_comm]

theorem returns_datetime {c : NativeWireColumnLayout} {t : PyDateTime} {ticks : ℕ}
    {day time : Bytes} (hs : c.storageType = .datetime) (haware : t.aware = false)
    (hticks : ticksOf py t.clock.micros t.submicrosecond c = .ok ticks)
    (hyear : ¬ t.clock.date.year < 1753) (hwhole : ticks * 300 % 10000000 = 0)
    (hday : toBytes 4 true (t.clock.date.toordinal - sqlServerEpoch) = .ok day)
    (htime : toBytes 4 false (ticks * 300 / 10000000 : ℕ) = .ok time) :
    (day ++ time).length = 8 ∧ Returns py c (.datetime t) (day ++ time) := by
  obtain ⟨r, hsub, hr, rfl, -⟩ := ticksOf_ok py hticks
  have hlength := toBytes_length hday
  have hfour := toBytes_length htime
  have htotal : (day ++ time).length = 8 := by rw [List.length_append, hlength, hfour]
  have htake : (day ++ time).take 4 = day := List.take_left' hlength
  have hdrop : (day ++ time).drop 4 = time := List.drop_left' hlength
  have hdays := ofLESigned_of_toBytes hday
  have hof : ofLE time = (t.clock.micros * 10 + r) * 300 / 10000000 := by
    exact_mod_cast ofLE_of_toBytes htime
  obtain ⟨hzero, hlt, hback⟩ := three_hundredths t.clock.micros_lt hr hwhole hof
  -- a tick count leaves the sign bit clear, so that it is read as it was written
  have hfits : 2 * ofLE time < 256 ^ time.length := by
    rw [hfour]
    have hroom : (2 * 25920000 : ℕ) ≤ 256 ^ 4 := by norm_num
    exact lt_of_lt_of_le (Nat.mul_lt_mul_of_pos_left hlt two_pos) hroom
  have hsigned : ofLESigned time = ofLE time := by rw [ofLESigned, if_pos hfits]
  obtain ⟨-, hlast⟩ := t.clock.date.toordinal_le
  have hfirst := toordinal_of_year hyear
  refine ⟨htotal, fun context => ?_, .datetime t, ?_, .same _⟩
  · have hdomain : ¬ (¬ (-53690 ≤ ofLESigned ((day ++ time).take 4) ∧
        ofLESigned ((day ++ time).take 4) ≤ 2958463) ∨
        ¬ (0 ≤ ofLESigned ((day ++ time).drop 4) ∧
          ofLESigned ((day ++ time).drop 4) < 25920000)) := by
      simp only [htake, hdrop, hdays, hsigned, sqlServerEpoch]
      simp only [maxOrdinal] at hlast
      clear hof hwhole hback
      omega
    rw [validatePayload_plain py (by simp [hs, Storage.exact]) (by simp [hs])]
    simp only [validateScalarDomain, field_storageType, hs, raiseIf_neg hdomain]
  · have hclock : ((ofLESigned time * 1000 + 150) / 300 * 1000 : ℤ) = t.clock.micros := by
      rw [hsigned]
      exact_mod_cast hback
    rw [decodePayload, hs, decodeDatetime, raiseIf_neg (not_not.mpr htotal), ok_bind]
    dsimp only
    rw [htake, hdrop, hdays, hclock, sinceEpoch_naive haware (by rw [hsub, hzero]; rfl)]
    rfl

end Dpone.NativeWire
