import Dpone.Schemes.IsoText

/-! Timestamps: instants in UTC as texts of fixed length, what
    `isoformat(timespec="microseconds")` writes of them. One instant has one text. -/

namespace Dpone.Schemes

/-- A time of day, its microseconds written also where there are none. -/
def fullClockText (us : ℕ) : Str :=
  field 2 (us / 3600000000) ++ ':' :: (field 2 (us / 60000000 % 60) ++
    ':' :: (field 2 (us / 1000000 % 60) ++ '.' :: field 6 (us % 1000000)))

/-- `isoformat(timespec="microseconds")`. -/
def DateTime.timestamp (t : DateTime) : Str :=
  t.date.isoformat ++ 'T' :: (fullClockText t.micros ++ (t.offset.map offsetText).getD [])

theorem readClock_fullClockText {us : ℕ} (h : us < dayMicros) (rest : Str) :
    readClock (fullClockText us ++ rest) = some (us, rest) := by
  have hsum : us / 3600000000 * 3600000000 + us / 60000000 % 60 * 60000000 +
      us / 1000000 % 60 * 1000000 + us % 1000000 = us := by omega
  unfold dayMicros at h
  simp only [readClock, fullClockText, List.append_assoc, List.cons_append]
  rw [readField_field (by omega)]
  simp only [Option.bind_eq_bind, Option.bind_some, lit, if_true]
  rw [readField_field (by omega)]
  simp only [Option.bind_some, if_true]
  rw [readField_field (by omega)]
  simp only [Option.bind_some, readFraction]
  rw [readField_field (by omega)]
  simp [hsum]

/-- A reader of ISO 8601 that also reads timestamps in UTC back. -/
structure TimestampReader extends IsoReader where
  datetime_timestamp : ∀ t : DateTime, t.offset = some 0 → datetime t.timestamp = .ok t

/-- The reader of the extended format does. -/
def TimestampReader.extended : TimestampReader where
  toIsoReader := IsoReader.extended
  datetime_timestamp t _ := by
    have hmake : DateTime.make t.date t.micros t.offset = some t :=
      dif_pos ⟨t.micros_lt, t.offset_lt⟩
    have hoffset : readSignedOffset ((t.offset.map offsetText).getD []) = some t.offset := by
      cases ht : t.offset with
      | none => rfl
      | some o => exact readSignedOffset_text (t.offset_lt o (by simp [ht]))
    simp only [IsoReader.extended, readIsoDateTime, DateTime.timestamp, readDate_isoformat,
      Option.bind_eq_bind, Option.bind_some, List.drop_one, List.tail_cons,
      readClock_fullClockText t.micros_lt, hoffset, hmake]

/-- LOSSLESS: instants are told apart by their timestamps. -/
theorem TimestampReader.timestamp_inj (iso : TimestampReader) {t t' : DateTime}
    (ht : t.offset = some 0) (ht' : t'.offset = some 0) (h : t.timestamp = t'.timestamp) :
    t = t' := by
  have hread := iso.datetime_timestamp t ht
  rw [h, iso.datetime_timestamp t' ht'] at hread
  exact (Except.ok.inj hread).symm

/-- In UTC the instant is the local clock. -/
theorem DateTime.instant_utc {t : DateTime} (h : t.offset = some 0) :
    t.instant = t.localMicros := by
  simp [DateTime.instant, h]

theorem DateTime.utc_ext {t t' : DateTime} (ht : t.offset = some 0) (ht' : t'.offset = some 0)
    (h : t.instant = t'.instant) : t = t' := by
  rw [DateTime.instant_utc ht, DateTime.instant_utc ht'] at h
  obtain ⟨hdate, hus⟩ := DateTime.localMicros_inj h
  obtain ⟨d, us, o, hd, ho⟩ := t
  obtain ⟨d', us', o', hd', ho'⟩ := t'
  cases hdate
  cases hus
  cases ht.trans ht'.symm
  rfl

theorem DateTime.some_of_instant {o : Option DateTime} {t : DateTime} (ht : t.offset = some 0)
    (hutc : ∀ t' ∈ o, t'.offset = some 0) (h : o.map DateTime.instant = some t.instant) :
    o = some t := by
  obtain ⟨t', ho, hinstant⟩ := Option.map_eq_some_iff.mp h
  rw [ho, DateTime.utc_ext (hutc t' ho) ht hinstant]

/-- A date-time in UTC is left as it is. -/
theorem DateTime.toUtc_of_utc {t : DateTime} (h : t.offset = some 0) : t.toUtc = .ok t := by
  have hday := t.date.toordinal_le
  have hmicros := t.micros_lt
  obtain ⟨t', ht'⟩ : ∃ t', t.toUtc = .ok t' := by
    unfold DateTime.toUtc
    rw [h]
    refine DateTime.withLocal_total _ ?_ ?_ <;>
      rw [DateTime.instant_utc h, DateTime.localMicros] <;> unfold dayMicros at * <;> omega
  obtain ⟨hsame, hutc⟩ := DateTime.toUtc_ok ht'
  rw [h] at hutc
  rw [ht', DateTime.utc_ext hutc h hsame]

end Dpone.Schemes
