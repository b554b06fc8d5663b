import Dpone.BoundedWindow.WindowPlan

/-! Freezing a rolling window: the boundaries are the cuts of the lookback at the chunk interval.

    They are in UTC, so adding a timedelta adds to the instant, and both validators, that of the
    frozen window and that of the plan, accept them. Freezing fails for want of an anchor, above the
    cap, and where the window would start before year 1, and for nothing else. -/

namespace Dpone.BoundedWindow
open Dpone.Schemes

variable {u : Unicode} {iso : IsoReader}

/-! ### Instants -/

theorem anchorUtc_utc {t t' : DateTime} (h : anchorUtc t = .ok t') : t'.offset = some 0 := by
  unfold anchorUtc at h
  split_ifs at h with hnone
  obtain ⟨o, ho⟩ := Option.ne_none_iff_exists'.mp hnone
  rw [(DateTime.toUtc_ok h).2, ho]
  rfl

/-- An anchor is in UTC. -/
theorem anchor_utc {value : AnchorValue} {t : DateTime} (h : anchor u iso value = .ok t) :
    t.offset = some 0 := by
  cases value with
  | text s =>
    obtain ⟨read, -, hutc⟩ := bind_ok.mp h
    exact anchorUtc_utc hutc
  | datetime t' => exact anchorUtc_utc h
  | other => cases h

theorem anchor_of_utc {t : DateTime} (h : t.offset = some 0) :
    anchor u iso (.datetime t) = .ok t := by
  rw [anchor, anchorUtc, if_neg (by simp [h]), DateTime.toUtc_of_utc h]

theorem localMicros_bounds (t : DateTime) :
    (dayMicros : ℤ) ≤ t.localMicros ∧ t.localMicros < (maxOrdinal + 1) * dayMicros := by
  have hday := t.date.toordinal_le
  have hmicros := t.micros_lt
  unfold DateTime.localMicros dayMicros at *
  omega

/-! ### The bounds -/

/-- What the bounds of a window are. -/
structure BoundsOf (stop : DateTime) (lookback chunk : ℕ) (start : DateTime)
    (boundaries : List DateTime) : Prop where
  start_utc : start.offset = some 0
  start_instant : start.instant = stop.instant - lookback
  utc : ∀ t ∈ boundaries, t.offset = some 0
  cuts : boundaries.map DateTime.instant = gridCuts start.instant lookback chunk

theorem withLocal_utc {t t' : DateTime} {us : ℤ} (ht : t.offset = some 0)
    (h : t.withLocal us = .ok t') : t'.offset = some 0 ∧ t'.instant = us := by
  obtain ⟨hlocal, hoffset⟩ := DateTime.withLocal_ok h
  rw [ht] at hoffset
  exact ⟨hoffset, by rw [DateTime.instant_utc hoffset, hlocal]⟩

/-- CORRECT: bounds that are returned are the cuts of the lookback. -/
theorem freezeBounds_ok {stop start : DateTime} {boundaries : List DateTime} {lookback chunk : ℕ}
    (hutc : stop.offset = some 0)
    (h : freezeBounds stop lookback chunk (stepCount lookback chunk) = .ok (start, boundaries)) :
    BoundsOf stop lookback chunk start boundaries := by
  obtain ⟨start', hstart, h⟩ := bind_ok.mp h
  obtain ⟨inner, hinner, h⟩ := bind_ok.mp h
  cases h
  obtain ⟨hsutc, hsinstant⟩ := withLocal_utc hutc hstart
  rw [← DateTime.instant_utc hutc] at hsinstant
  have hstep : ∀ (i : ℕ) (t : DateTime),
      start.withLocal (start.localMicros + (i * chunk : ℕ)) = .ok t →
        t.offset = some 0 ∧ t.instant = start.instant + (i * chunk : ℕ) := by
    intro i t ht
    obtain ⟨htutc, htinstant⟩ := withLocal_utc hsutc ht
    exact ⟨htutc, by rw [htinstant, DateTime.instant_utc hsutc]⟩
  refine ⟨hsutc, hsinstant, ?_, ?_⟩
  · intro t ht
    rcases List.mem_append.mp ht with ht | ht
    · obtain ⟨i, -, hi⟩ := mem_of_mapM hinner t ht
      exact (hstep i t hi).1
    · rw [List.mem_singleton.mp ht]
      exact hutc
  · have hmap : List.Forall₂ (· = ·)
        ((List.range (stepCount lookback chunk)).map fun i : ℕ => start.instant + (i * chunk : ℕ))
        (inner.map DateTime.instant) := by
      rw [List.forall₂_map_left_iff, List.forall₂_map_right_iff]
      exact (mapM_ok.mp hinner).imp fun i t ht => ((hstep i t ht).2).symm
    rw [List.forall₂_eq_eq_eq] at hmap
    rw [List.map_append, ← hmap, gridCuts, hsinstant]
    simp

/-- TOTAL: bounds are returned when the window starts inside of the calendar, and only then. -/
theorem freezeBounds_total {stop : DateTime} {lookback chunk : ℕ} (hutc : stop.offset = some 0)
    (hchunk : 0 < chunk) (hlookback : 0 < lookback) :
    (∃ bounds, freezeBounds stop lookback chunk (stepCount lookback chunk) = .ok bounds) ↔
      (dayMicros : ℤ) ≤ stop.instant - lookback := by
  rw [DateTime.instant_utc hutc]
  constructor
  · rintro ⟨bounds, h⟩
    obtain ⟨start, hstart, -⟩ := bind_ok.mp h
    rw [← (DateTime.withLocal_ok hstart).1]
    exact (localMicros_bounds start).1
  · intro hlo
    have hstop := (localMicros_bounds stop).2
    obtain ⟨start, hstart⟩ := stop.withLocal_total hlo (by omega)
    have hlocal := (DateTime.withLocal_ok hstart).1
    obtain ⟨hpos, hlast, -⟩ := stepCount_spec hchunk hlookback
    obtain ⟨inner, hinner⟩ : ∃ inner, (List.range (stepCount lookback chunk)).mapM
        (fun i : ℕ => start.withLocal (start.localMicros + (i * chunk : ℕ))) = .ok inner := by
      refine exists_mapM_ok fun i hi => start.withLocal_total ?_ ?_
      · omega
      · have hle : i * chunk ≤ (stepCount lookback chunk - 1) * chunk :=
          Nat.mul_le_mul_right chunk (Nat.le_sub_one_of_lt (List.mem_range.mp hi))
        omega
    refine ⟨(start, inner ++ [stop]), ?_⟩
    rw [freezeBounds, hstart, ok_bind]
    exact congrArg (· >>= fun inner => Pure.pure (start, inner ++ [stop])) hinner

/-! ### What the validators see -/

section Bounds
variable {stop start : DateTime} {boundaries : List DateTime} {lookback chunk : ℕ}

theorem BoundsOf.length_eq (h : BoundsOf stop lookback chunk start boundaries) :
    boundaries.length = stepCount lookback chunk + 1 := by
  rw [← gridCuts_length, ← h.cuts, List.length_map]

theorem BoundsOf.first (h : BoundsOf stop lookback chunk start boundaries) (hchunk : 0 < chunk)
    (hlookback : 0 < lookback) :
    boundaries.head?.map DateTime.instant = some start.instant := by
  rw [← List.head?_map, h.cuts, gridCuts_head hchunk hlookback]

theorem BoundsOf.last (h : BoundsOf stop lookback chunk start boundaries) :
    boundaries.getLast?.map DateTime.instant = some stop.instant := by
  rw [← List.getLast?_map, h.cuts, gridCuts_getLast, h.start_instant, Int.sub_add_cancel]

/-- Neighbouring boundaries are one chunk apart, or less at the end. -/
theorem BoundsOf.gap (h : BoundsOf stop lookback chunk start boundaries) (hchunk : 0 < chunk)
    (hlookback : 0 < lookback) {i : ℕ} {a b : DateTime} (ha : boundaries[i]? = some a)
    (hb : boundaries[i + 1]? = some b) :
    a.instant < b.instant ∧ b.instant - a.instant ≤ chunk ∧
      (i + 1 < stepCount lookback chunk → b.instant - a.instant = chunk) := by
  have hcut : ∀ {j : ℕ} {t : DateTime}, boundaries[j]? = some t →
      (gridCuts start.instant lookback chunk)[j]? = some t.instant := by
    intro j t ht
    rw [← h.cuts, List.getElem?_map, ht, Option.map_some]
  exact gridCuts_gap hchunk hlookback (hcut ha) (hcut hb)

theorem BoundsOf.inOrder (h : BoundsOf stop lookback chunk start boundaries) (hchunk : 0 < chunk)
    (hlookback : 0 < lookback) : anyOutOfOrder boundaries = false :=
  inOrder_iff.mpr fun _ _ _ ha hb => (h.gap hchunk hlookback ha hb).1

theorem BoundsOf.all_utc (h : BoundsOf stop lookback chunk start boundaries)
    (hstop : stop.offset = some 0) : ∀ t ∈ start :: stop :: boundaries, t.offset = some 0 := by
  intro t ht
  rcases List.mem_cons.mp ht with rfl | ht
  · exact h.start_utc
  rcases List.mem_cons.mp ht with rfl | ht
  · exact hstop
  · exact h.utc t ht

end Bounds

/-- Boundaries in UTC are taken as they are. -/
theorem anchors_of_utc {boundaries : List DateTime} (h : ∀ t ∈ boundaries, t.offset = some 0) :
    (boundaries.map AnchorValue.datetime).mapM (anchor u iso) = .ok boundaries := by
  have hsame : ∀ t ∈ boundaries, (anchor u iso ∘ AnchorValue.datetime) t = .ok (id t) :=
    fun t ht => anchor_of_utc (h t ht)
  rw [List.mapM_map, mapM_map hsame, List.map_id]

/-- The constructor of a frozen window accepts what it has checked before. -/
theorem FrozenRollingWindow.make_of_valid {column : Str} {start stop : DateTime}
    {boundaries : List DateTime}
    (h : FrozenRollingWindow.Valid column start stop boundaries) :
    FrozenRollingWindow.make u iso column (.datetime start) (.datetime stop)
      (boundaries.map .datetime) = .ok ⟨column, start, stop, boundaries, h⟩ := by
  obtain ⟨hstart, hstop, hboundaries⟩ : start.offset = some 0 ∧ stop.offset = some 0 ∧
      ∀ t ∈ boundaries, t.offset = some 0 := by
    simpa only [List.forall_mem_cons] using h.utc
  rw [FrozenRollingWindow.make, raiseIf_neg (by simp [h.column]),
    raiseIf_neg (by simpa using h.count), anchor_of_utc hstart, anchor_of_utc hstop,
    anchors_of_utc hboundaries]
  simp only [ok_bind, dif_pos h]
  rfl

/-! ### Freezing -/

/-- A window frozen at an instant: one lookback long and cut at the chunk interval. -/
structure FrozenAt (stop : DateTime) (lookback chunk : ℕ) (w : FrozenRollingWindow) : Prop where
  ends : w.stop = stop
  spans : w.stop.instant - w.start.instant = lookback
  first : w.boundaries.head? = some w.start
  last : w.boundaries.getLast? = some w.stop
  gaps : ∀ (i : ℕ) (a b : DateTime), w.boundaries[i]? = some a → w.boundaries[i + 1]? = some b →
    a.instant < b.instant ∧ b.instant - a.instant ≤ chunk ∧
      (i + 1 < lookback ⌈/⌉ chunk → b.instant - a.instant = chunk)
  count : w.boundaries.length = lookback ⌈/⌉ chunk + 1
  cap : lookback ⌈/⌉ chunk ≤ maxChunks

section Freeze
variable {spec : RollingWindowSpec u} {context : Str → AnchorValue} {stop : DateTime}
  {lookback chunk : ℕ}

/-- Bounds below the cap are what the validator of the window checks for. -/
theorem BoundsOf.valid {start : DateTime} {boundaries : List DateTime}
    (h : BoundsOf stop lookback chunk start boundaries) (hstop : stop.offset = some 0)
    (hchunk : 0 < chunk) (hlookback : 0 < lookback) (hcap : stepCount lookback chunk ≤ maxChunks) :
    FrozenRollingWindow.Valid spec.column start stop boundaries where
  column := spec.column_identifier
  utc := h.all_utc hstop
  count := by
    have hpos := stepCount_pos hchunk hlookback
    rw [h.length_eq]
    omega
  first := h.first hchunk hlookback
  last := h.last
  increasing := h.inOrder hchunk hlookback

theorem BoundsOf.frozenAt {start : DateTime} {boundaries : List DateTime}
    (h : BoundsOf stop lookback chunk start boundaries) (hstop : stop.offset = some 0)
    (hchunk : 0 < chunk) (hlookback : 0 < lookback) (hcap : stepCount lookback chunk ≤ maxChunks)
    (hvalid : FrozenRollingWindow.Valid spec.column start stop boundaries) :
    FrozenAt stop lookback chunk ⟨spec.column, start, stop, boundaries, hvalid⟩ := by
  have hcount := stepCount_eq hchunk hlookback
  refine ⟨rfl, ?_, ?_, ?_, ?_, ?_, hcount ▸ hcap⟩
  · rw [h.start_instant]
    exact Int.sub_sub_self _ _
  · exact DateTime.some_of_instant h.start_utc (fun t ht => h.utc t (List.mem_of_mem_head? ht))
      (h.first hchunk hlookback)
  · exact DateTime.some_of_instant hstop (fun t ht => h.utc t (List.mem_of_mem_getLast? ht)) h.last
  · intro i a b ha hb
    rw [← hcount]
    exact h.gap hchunk hlookback ha hb
  · rw [← hcount]
    exact h.length_eq

/-- With an anchor and durations, freezing is checking the cap and building the bounds. -/
theorem freeze_of_anchor (hanchor : anchor u iso (context spec.anchor) = .ok stop)
    (hlookback : duration u spec.lookback = .ok lookback)
    (hchunk : duration u spec.chunkInterval = .ok chunk) :
    (∃ w, spec.freeze iso context = .ok w ∧ w.column = spec.column ∧
          FrozenAt stop lookback chunk w) ∧
        lookback ⌈/⌉ chunk ≤ maxChunks ∧ (dayMicros : ℤ) ≤ stop.instant - lookback ∨
      (∃ e, spec.freeze iso context = .error e) ∧
        ¬ (lookback ⌈/⌉ chunk ≤ maxChunks ∧ (dayMicros : ℤ) ≤ stop.instant - lookback) := by
  have hutc := anchor_utc hanchor
  have hlpos := duration_pos u hlookback
  have hcpos := duration_pos u hchunk
  have hcount : lookback / chunk + (if lookback % chunk = 0 then 0 else 1) =
      stepCount lookback chunk := rfl
  rw [← stepCount_eq hcpos hlpos]
  unfold RollingWindowSpec.freeze
  rw [hanchor, hlookback, hchunk]
  simp only [ok_bind, hcount]
  by_cases hcap : stepCount lookback chunk ≤ maxChunks
  · rw [raiseIf_neg (by omega)]
    by_cases hlo : (dayMicros : ℤ) ≤ stop.instant - lookback
    · obtain ⟨⟨start, boundaries⟩, hbounds⟩ := (freezeBounds_total hutc hcpos hlpos).mpr hlo
      have hB := freezeBounds_ok hutc hbounds
      have hvalid : FrozenRollingWindow.Valid spec.column start stop boundaries :=
        hB.valid hutc hcpos hlpos hcap
      refine .inl ⟨⟨_, ?_, rfl, hB.frozenAt hutc hcpos hlpos hcap hvalid⟩, hcap, hlo⟩
      rw [hbounds]
      exact FrozenRollingWindow.make_of_valid hvalid
    · refine .inr ⟨?_, fun h => hlo h.2⟩
      have hnone := mt (freezeBounds_total hutc hcpos hlpos).mp hlo
      cases hbounds : freezeBounds stop lookback chunk (stepCount lookback chunk) with
      | ok bounds => exact absurd ⟨bounds, hbounds⟩ hnone
      | error e =>
        obtain ⟨e', he'⟩ : ∃ e', boundsInRange (Except.error e : Except PyError
            (DateTime × List DateTime)) = .error e' := by
          unfold boundsInRange
          split
          · exact ⟨_, rfl⟩
          · exact ⟨e, rfl⟩
        exact ⟨e', by rw [he']; rfl⟩
  · refine .inr ⟨?_, fun h => hcap h.1⟩
    rw [raiseIf_pos (by omega)]
    exact ⟨_, rfl⟩

end Freeze

/-- CORRECT: a spec has two durations, and a frozen window is the lookback before the anchor, cut
    at the chunk interval. Freezing returns one whenever the context has an anchor, the chunks are
    within the cap and the window starts inside of the calendar. Both validators accept it. -/
theorem freeze_sound (spec : RollingWindowSpec u) (iso : TimestampReader)
    (context : Str → AnchorValue) :
    ∃ lookback chunk, duration u spec.lookback = .ok lookback ∧
      duration u spec.chunkInterval = .ok chunk ∧
      ((∃ w, spec.freeze iso.toIsoReader context = .ok w) ↔
        ∃ stop, anchor u iso.toIsoReader (context spec.anchor) = .ok stop ∧
          lookback ⌈/⌉ chunk ≤ maxChunks ∧ (dayMicros : ℤ) ≤ stop.instant - lookback) ∧
      ∀ w, spec.freeze iso.toIsoReader context = .ok w →
        w.column = spec.column ∧
        (∃ stop, anchor u iso.toIsoReader (context spec.anchor) = .ok stop ∧
          FrozenAt stop lookback chunk w) ∧
        FrozenRollingWindow.make u iso.toIsoReader w.column (.datetime w.start) (.datetime w.stop)
          (w.boundaries.map .datetime) = .ok w ∧
        ∀ routeId targetId schemaFingerprint sourceVersion parametersFingerprint (workers : ℕ),
          (∀ s ∈ [routeId, targetId, schemaFingerprint, sourceVersion, parametersFingerprint],
            strip u s ≠ []) → 1 ≤ workers ∧ workers ≤ 64 →
          ∃ p, WindowPlan.make u iso ⟨.str routeId, .str targetId, w.start, w.stop, w.boundaries,
              .str schemaFingerprint, .str sourceVersion, .str parametersFingerprint,
              .int workers, .str w.column⟩ = .ok p ∧
            p.start = w.start ∧ p.stop = w.stop ∧ p.boundaries = w.boundaries := by
  obtain ⟨lookback, hlookback⟩ := spec.lookback_duration
  obtain ⟨chunk, hchunk⟩ := spec.chunk_duration
  refine ⟨lookback, chunk, hlookback, hchunk, ⟨?_, ?_⟩, ?_⟩
  · rintro ⟨w, hw⟩
    obtain ⟨stop, hanchor, -⟩ := bind_ok.mp hw
    rcases freeze_of_anchor hanchor hlookback hchunk with ⟨-, hbounded⟩ | ⟨⟨e, he⟩, -⟩
    · exact ⟨stop, hanchor, hbounded⟩
    · rw [he] at hw
      cases hw
  · rintro ⟨stop, hanchor, hbounded⟩
    rcases freeze_of_anchor hanchor hlookback hchunk with ⟨⟨w, hw, -⟩, -⟩ | ⟨-, hnot⟩
    · exact ⟨w, hw⟩
    · exact absurd hbounded hnot
  · intro w hw
    obtain ⟨stop, hanchor, -⟩ := bind_ok.mp hw
    obtain ⟨hcolumn, hat⟩ : w.column = spec.column ∧ FrozenAt stop lookback chunk w := by
      rcases freeze_of_anchor hanchor hlookback hchunk with ⟨⟨w', hw', hfrozen⟩, -⟩ | ⟨⟨e, he⟩, -⟩
      · obtain rfl : w = w' := Except.ok.inj (hw.symm.trans hw')
        exact hfrozen
      · rw [he] at hw
        cases hw
    refine ⟨hcolumn, ⟨stop, hanchor, hat⟩, FrozenRollingWindow.make_of_valid w.valid, ?_⟩
    intro routeId targetId schemaFingerprint sourceVersion parametersFingerprint workers hids
      hworkers
    have hpos := duration_pos u hlookback
    have hspans := hat.spans
    have hv := w.valid
    exact ⟨_, WindowPlan.make_of_valid ⟨hids, hv.column, hv.utc, by omega, hv.count.1, hv.first,
      hv.last, hv.increasing, hworkers⟩, rfl, rfl, rfl⟩

theorem duration_days {n : ℕ} {value : Str}
    (h : matchDuration Unicode.ascii value = some ⟨some n, none, none, none⟩)
    (hend : value.getLast? ≠ some 'T') (hpos : 0 < n) (hmax : n ≤ 999999999) :
    duration Unicode.ascii value = .ok (n * 86400000000) := by
  have hmicros : (⟨some n, none, none, none⟩ : DurationGroups).micros = n * 86400000000 := by
    simp only [DurationGroups.micros, Option.getD_some, Option.getD_none]
    omega
  rw [duration_of_match _ h rfl hend (by omega) (by unfold maxTimedelta dayMicros; omega), hmicros]

/-- Seven days in chunks of two. -/
def weekSpec : RollingWindowSpec Unicode.ascii where
  column := "observed_at".toList
  lookback := "P7D".toList
  chunkInterval := "P2D".toList
  anchor := "data_interval_end".toList
  timezone := "UTC".toList
  column_identifier := by decide
  context_supported := ⟨rfl, rfl⟩
  lookback_duration := ⟨_, duration_days rfl (by decide) (by decide) (by decide)⟩
  chunk_duration := ⟨_, duration_days rfl (by decide) (by decide) (by decide)⟩

/-- 9 September 2026, midnight. -/
def weekEnd : DateTime := ⟨⟨2026, 9, 9, by decide⟩, 0, some 0, dayMicros_pos, utc_offset_lt⟩

theorem freeze_sound_week : ∃ w : FrozenRollingWindow,
    weekSpec.freeze IsoReader.extended (fun _ => .datetime weekEnd) = .ok w ∧
      w.boundaries.length = 5 ∧ w.stop.instant - w.start.instant = 604800000000 := by
  obtain ⟨lookback, chunk, hlookback, hchunk, hiff, hsound⟩ :=
    freeze_sound weekSpec TimestampReader.extended fun _ => .datetime weekEnd
  obtain rfl : 7 * 86400000000 = lookback := Except.ok.inj
    ((duration_days rfl (by decide) (by decide) (by decide)).symm.trans hlookback)
  obtain rfl : 2 * 86400000000 = chunk := Except.ok.inj
    ((duration_days rfl (by decide) (by decide) (by decide)).symm.trans hchunk)
  have hanchor : anchor Unicode.ascii IsoReader.extended (.datetime weekEnd) = .ok weekEnd :=
    anchor_of_utc rfl
  obtain ⟨w, hw⟩ := hiff.mpr ⟨weekEnd, hanchor, by decide, by decide⟩
  obtain ⟨-, ⟨stop, -, hat⟩, -⟩ := hsound w hw
  exact ⟨w, hw, hat.count, hat.spans⟩

end Dpone.BoundedWindow
