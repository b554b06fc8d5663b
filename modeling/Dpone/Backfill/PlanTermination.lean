import Dpone.Backfill.PlanExact

/-! Planning always ends.

    A turn of a plan's loop makes a chunk of a nonempty range, so a turn that returns has moved the
    cursor, whatever the step. A zero step, which acceptance lets through for dates and date-times,
    therefore does not loop: its first turn raises. TOTAL: every accepted spec is planned in finitely
    many turns, into a plan, the `max_chunks` error, or an error of the chunks or the calendar. -/

namespace Dpone.Backfill
open Dpone.Schemes Dpone.Contracts

variable {u : Unicode} {iso : IsoReader} {scopeSha256 : PortableRangeScope → Str}
  {spec : BackfillChunkSpec} {runKey : Str} {step : BackfillStep} {e : PyError}

/-! ### Every turn moves forward -/

/-- A turn that returns moves the cursor on, and not past the end. -/
def Forward {C : Type} (place : C → ℤ) (stop : ℤ)
    (piece : ℕ → C → Except PyError (BackfillChunk × C)) : Prop :=
  ∀ {index cursor chunk next}, place cursor < stop → piece index cursor = .ok (chunk, next) →
    place cursor < place next ∧ place next ≤ stop

variable (u iso scopeSha256 spec runKey) in
/-- The loop of a spec moves forward; the buckets of a UUID plan are a bounded `for`. -/
def LoopForward : Prop :=
  match spec.kind with
  | .integer => ∀ stop count, Forward id (stop + 1)
      (integerPiece u iso scopeSha256 spec runKey stop count)
  | .date => ∀ (stop : Date) step, Forward Temporal.place (Temporal.place stop)
      (temporalPiece u iso scopeSha256 spec runKey Date.isoformat stop step)
  | .timestamp => ∀ (stop : DateTime) step, Forward Temporal.place (Temporal.place stop)
      (temporalPiece u iso scopeSha256 spec runKey (DateTime.isoformat ' ') stop step)
  | .uuid => True

/-- STEP: a chunk of integers holds at least one. -/
theorem integer_forward (hkind : spec.kind = .integer) (stop : ℤ) (count : ℕ) :
    Forward id (stop + 1) (integerPiece u iso scopeSha256 spec runKey stop count) := by
  intro index cursor chunk next _ h
  obtain ⟨chunk', hchunk, h⟩ := bind_ok.mp h
  cases h
  obtain ⟨⟨hbounded, -⟩, hfloor, hceiling⟩ :=
    planChunk_ok (boundLiterals_integer hkind cursor (min (cursor + count - 1) stop)) hchunk
  have hlt := hbounded.floor_lt
  rw [hfloor, hceiling, if_pos hkind] at hlt
  refine ⟨hlt, ?_⟩
  have hmin := min_le_right (cursor + count - 1) stop
  simp only [id_eq]
  omega

/-- STEP: a chunk of dates or date-times ends after it starts. -/
theorem temporal_forward {T : Type} [Temporal T] {render : T → Str} (stop : T)
    (hchunk : ∀ {a b : T} {index : ℕ} {c : BackfillChunk},
      planChunk u iso scopeSha256 spec runKey index (render a) (render b) = .ok c →
        Temporal.place a < Temporal.place b) :
    Forward Temporal.place (Temporal.place stop)
      (temporalPiece u iso scopeSha256 spec runKey render stop step) := by
  intro index cursor chunk next hlt h
  obtain ⟨advanced, hadvance, h⟩ := bind_ok.mp h
  obtain ⟨chunk', hmade, h⟩ := bind_ok.mp h
  cases h
  refine ⟨hchunk hmade, ?_⟩
  split_ifs with hpast
  · exact le_rfl
  · exact not_lt.mp hpast

theorem date_chunk_lt (hkind : spec.kind = .date) {a b : Date} {index : ℕ} {c : BackfillChunk}
    (h : planChunk u iso scopeSha256 spec runKey index a.isoformat b.isoformat = .ok c) :
    Temporal.place a < Temporal.place b := by
  obtain ⟨⟨hbounded, -⟩, hfloor, hceiling⟩ := planChunk_ok (boundLiterals_date hkind a b) h
  have hlt := hbounded.floor_lt
  rwa [hfloor, hceiling, if_neg (by simp [hkind]), add_zero] at hlt

theorem timestamp_chunk_lt (hkind : spec.kind = .timestamp) {a b : DateTime} {index : ℕ}
    {c : BackfillChunk}
    (h : planChunk u iso scopeSha256 spec runKey index (a.isoformat ' ') (b.isoformat ' ') = .ok c) :
    Temporal.place a < Temporal.place b := by
  obtain ⟨scope, hscope, -⟩ := bind_ok.mp h
  obtain ⟨⟨lower, upper⟩, hbounds, -⟩ := bind_ok.mp hscope
  obtain ⟨⟨hbounded, -⟩, hfloor, hceiling⟩ := planChunk_ok hbounds h
  rw [boundLiterals_timestamp hkind] at hbounds
  obtain ⟨-, hplace, hplace'⟩ := timestampLiterals_ok hbounds
  have hlt := hbounded.floor_lt
  rwa [hfloor, hceiling, if_neg (by simp [hkind]), add_zero, hplace, hplace'] at hlt

theorem loop_forward (u : Unicode) (iso : IsoReader) (scopeSha256 : PortableRangeScope → Str)
    (spec : BackfillChunkSpec) (runKey : Str) : LoopForward u iso scopeSha256 spec runKey := by
  unfold LoopForward
  split
  · next hkind => exact integer_forward hkind
  · next hkind => exact fun stop step => temporal_forward stop (date_chunk_lt hkind)
  · next hkind => exact fun stop step => temporal_forward stop (timestamp_chunk_lt hkind)
  · trivial

/-! ### A zero step -/

theorem plus_ordinal (d : Date) : Date.ofOrdinal d.toordinal = .ok d := by
  obtain ⟨hlo, hhi⟩ := d.toordinal_le
  obtain ⟨d', hd'⟩ := Date.ofOrdinal_total (n := d.toordinal) (by omega) (by omega)
  have hsame : d'.toordinal = d.toordinal := by exact_mod_cast Date.ofOrdinal_ok hd'
  rw [hd', Date.toordinal_injective hsame]

/-- CORRECT: the helper counts the days of a month. -/
theorem plannerDaysInMonth_eq (d : Date) :
    plannerDaysInMonth d.year d.month = .ok (daysInMonth d.year d.month) := by
  obtain ⟨⟨hy, hy'⟩, ⟨hm, hm'⟩, -, -⟩ := d.valid
  have hlength := daysInMonth_pos d.year d.month
  unfold plannerDaysInMonth
  split_ifs with hdecember
  · rw [hdecember]
    simp [daysInMonth, monthLength]
  · have hnext := daysInMonth_pos d.year (d.month + 1)
    have hquotient : d.year + d.month / 12 = d.year := by omega
    have hremainder : d.month % 12 = d.month := by omega
    let first : Date := ⟨d.year, d.month + 1, 1, by omega⟩
    let last : Date := ⟨d.year, d.month, daysInMonth d.year d.month, by omega⟩
    have hfirst : Date.make (d.year + d.month / 12) (d.month % 12 + 1) 1 = .ok first := by
      rw [hquotient, hremainder]
      exact dif_pos first.valid
    have hbefore : (first.toordinal : ℤ) + -(dayMicros : ℤ) / dayMicros = last.toordinal := by
      have hstart := daysBeforeMonth_succ d.year hm (by omega)
      simp only [first, last, Date.toordinal, ymdOrdinal, hstart, dayMicros]
      omega
    have hlast : Temporal.plus first (-(dayMicros : ℤ)) = .ok last := by
      change Date.ofOrdinal (first.toordinal + -(dayMicros : ℤ) / dayMicros) = _
      rw [hbefore, plus_ordinal]
    rw [hfirst, ok_bind, hlast]
    rfl

/-- Dates and date-times that a zero step leaves where they are. -/
structure Still (T : Type) [Temporal T] : Prop where
  plus_zero : ∀ t : T, Temporal.plus t 0 = .ok t
  withDate_self : ∀ t : T, Temporal.withDate t (Temporal.date t) = t

theorem still_date : Still Date where
  plus_zero d := by
    change Date.ofOrdinal (d.toordinal + 0 / dayMicros) = _
    rw [Int.zero_ediv, add_zero, plus_ordinal]
  withDate_self _ := rfl

theorem still_dateTime : Still DateTime where
  plus_zero t := by
    obtain ⟨hlo, hhi⟩ := t.date.toordinal_le
    have hmicros := t.micros_lt
    change t.withLocal (t.localMicros + 0) = _
    rw [add_zero]
    obtain ⟨t', ht'⟩ : ∃ t', t.withLocal t.localMicros = .ok t' := t.withLocal_total
      (by simp only [DateTime.localMicros, dayMicros] at *; omega)
      (by simp only [DateTime.localMicros, dayMicros] at *; omega)
    obtain ⟨hlocal, hoffset⟩ := DateTime.withLocal_ok ht'
    obtain ⟨hdate, hclock⟩ := DateTime.localMicros_inj hlocal
    rw [ht']
    obtain ⟨d, m, o, _, _⟩ := t
    obtain ⟨d', m', o', _, _⟩ := t'
    cases hdate
    cases hclock
    cases hoffset
    rfl
  withDate_self _ := rfl

/-- STEP: a zero step goes nowhere. -/
theorem advance_zero {T : Type} [Temporal T] (hstill : Still T) (hzero : step.count = 0)
    (cursor : T) : advance cursor step = .ok cursor := by
  have hmonths : addMonths cursor 0 = .ok cursor := by
    obtain ⟨-, ⟨hm, hm'⟩, -, hd'⟩ := (Temporal.date cursor).valid
    have hyear : (Temporal.date cursor).year + ((Temporal.date cursor).month - 1 + 0) / 12 =
        (Temporal.date cursor).year := by omega
    have hmonth : ((Temporal.date cursor).month - 1 + 0) % 12 + 1 = (Temporal.date cursor).month := by
      omega
    have hmake : Date.make (Temporal.date cursor).year (Temporal.date cursor).month
        (Temporal.date cursor).day = .ok (Temporal.date cursor) :=
      dif_pos (Temporal.date cursor).valid
    simp only [addMonths, hyear, hmonth, plannerDaysInMonth_eq, ok_bind, min_eq_left hd', hmake,
      hstill.withDate_self]
    rfl
  have hplus := hstill.plus_zero cursor
  unfold advance
  split <;> simp only [hzero, Nat.cast_zero, zero_mul, hplus, hmonths]

/-- What an empty half-open window is refused as. -/
def emptyWindow : PyError :=
  blocked "portable_scope.range.empty" "exclusive equal bounds describe an empty scope"

variable (u iso spec) in
/-- Why planning an accepted spec raises: for a reason of `PlanFailure`, or because a zero step asks
    for an empty window. -/
inductive PlanRefusal : PyError → Prop
  | failure {e : PyError} : PlanFailure u iso spec e → PlanRefusal e
  | emptyWindow : ¬ spec.PositiveStep u → PlanRefusal emptyWindow

/-- A half-open chunk between equal bounds is refused. -/
theorem planChunk_empty {index : ℕ} {start stop : Str} {lower upper : PortableLiteral}
    (hkind : spec.kind ≠ .integer) (hzero : ¬ spec.PositiveStep u)
    (hbounds : boundLiterals u iso spec start stop = .ok (lower, upper))
    (hsame : lower.kind = upper.kind) (hplace : lower.place = upper.place)
    (h : planChunk u iso scopeSha256 spec runKey index start stop = .error e) :
    PlanRefusal u iso spec e := by
  rcases bind_error.mp h with h | ⟨scope, -, h⟩
  · rw [buildBackfillChunkScope, hbounds, ok_bind] at h
    by_cases hcolumn : PortableIdentifier spec.column
    · have hempty : ¬ ValidRange (some { value := lower, inclusive := true })
          (some { value := upper, inclusive := decide (spec.kind = .integer) }) := by
        simp [ValidRange, hplace, hkind]
      simp only [PortableRangeScope.make, dif_pos hcolumn, dif_neg hempty, rangeError, hsame, hplace,
        ne_eq, not_true_eq_false, if_false, lt_irrefl] at h
      cases h
      exact .emptyWindow hzero
    · simp only [PortableRangeScope.make, dif_neg hcolumn] at h
      cases h
      exact .failure (.column hcolumn)
  · cases h

theorem planChunk_unreadable {index : ℕ} {start stop : Str} {e' : PyError}
    (hbounds : boundLiterals u iso spec start stop = .error e')
    (h : planChunk u iso scopeSha256 spec runKey index start stop = .error e) : e = e' := by
  rw [planChunk, buildBackfillChunkScope, hbounds] at h
  cases h
  rfl

/-- RUN: the first turn of a loop with a zero step raises. -/
theorem zero_run {T : Type} [Temporal T] {render : T → Str} {stop cursor : T} (hstill : Still T)
    (hzero : step.count = 0) (hlt : Temporal.place cursor < Temporal.place stop)
    (hforward : Forward Temporal.place (Temporal.place stop)
      (temporalPiece u iso scopeSha256 spec runKey render stop step)) :
    ∃ e, planChunk u iso scopeSha256 spec runKey 1 (render cursor) (render cursor) = .error e ∧
      ∀ fuel, temporalChunks u iso scopeSha256 spec runKey render stop step (fuel + 1) cursor =
        some (.error e) := by
  have hturn : temporalPiece u iso scopeSha256 spec runKey render stop step 1 cursor = (do
      let chunk ← planChunk u iso scopeSha256 spec runKey 1 (render cursor) (render cursor)
      return (chunk, cursor)) := by
    rw [temporalPiece, advance_zero hstill hzero, ok_bind, if_neg (not_lt.mpr hlt.le)]
  cases hchunk : planChunk u iso scopeSha256 spec runKey 1 (render cursor) (render cursor) with
  | ok chunk =>
    rw [hchunk] at hturn
    exact absurd (hforward hlt hturn).1 (lt_irrefl _)
  | error e =>
    rw [hchunk] at hturn
    refine ⟨e, rfl, fun fuel => ?_⟩
    rw [temporalChunks, sweep, if_neg (by simpa using hlt), hturn]
    rfl

/-- A plan within its limit that covers the range, or a reason not to have one. -/
def PlanStops (u : Unicode) (iso : IsoReader) (spec : BackfillChunkSpec) :
    Except PyError (List BackfillChunk) → Prop
  | .ok chunks => chunks.length ≤ spec.maxChunks ∧ Covers (spec.Configured u iso) chunks
  | .error e => PlanRefusal u iso spec e

theorem zero_date_stops (hkind : spec.kind = .date) (hzero : step.count = 0)
    (hstep : ¬ spec.PositiveStep u)
    (hbounds : inverted u iso spec.start spec.stop .date = .ok false) :
    ∃ r, (∀ fuel, dateChunks u iso scopeSha256 spec runKey step (fuel + 1) = some r) ∧
      PlanStops u iso spec (r >>= limitChunks spec) := by
  obtain ⟨a, ha, hbounds⟩ := bind_ok.mp hbounds
  obtain ⟨b, hb, hbounds⟩ := bind_ok.mp hbounds
  have hle : a.toordinal ≤ b.toordinal := not_lt.mp (of_decide_eq_false (Except.ok.inj hbounds))
  cases hend : Temporal.plus b (dayMicros : ℤ) with
  | error e =>
    refine ⟨.error e, fun fuel => ?_, .failure (.lastDay b hkind hb hend)⟩
    simp [dateChunks, ha, hb, hend]
  | ok stop =>
    have hstop : (stop.toordinal : ℤ) = b.toordinal + 1 := by
      simpa [dayMicros] using Date.ofOrdinal_ok hend
    have hlt : Temporal.place a < Temporal.place stop := by
      change (a.toordinal : ℤ) < stop.toordinal
      omega
    obtain ⟨e, hchunk, hrun⟩ := zero_run still_date hzero hlt
      (temporal_forward stop (date_chunk_lt hkind))
    refine ⟨.error e, fun fuel => ?_, ?_⟩
    · simp only [dateChunks, ha, hb, hend, ok_bind]
      exact hrun fuel
    · exact planChunk_empty (by simp [hkind]) hstep (boundLiterals_date hkind a a) rfl rfl hchunk

theorem zero_timestamp_stops (hkind : spec.kind = .timestamp) (hzero : step.count = 0)
    (hstep : ¬ spec.PositiveStep u)
    (hbounds : inverted u iso spec.start spec.stop .timestamp = .ok false) :
    ∃ r, (∀ fuel, timestampChunks u iso scopeSha256 spec runKey step (fuel + 1) = some r) ∧
      PlanStops u iso spec (r >>= limitChunks spec) := by
  obtain ⟨a, ha, hbounds⟩ := bind_ok.mp hbounds
  obtain ⟨b, hb, hbounds⟩ := bind_ok.mp hbounds
  unfold datetimeInverted at hbounds
  split_ifs at hbounds with hsame
  have hle : a.instant ≤ b.instant := not_lt.mp (of_decide_eq_false (Except.ok.inj hbounds))
  rcases hle.lt_or_eq with hlt | heq
  · obtain ⟨e, hchunk, hrun⟩ := zero_run still_dateTime hzero hlt
      (temporal_forward b (timestamp_chunk_lt hkind))
    refine ⟨.error e, fun fuel => ?_, ?_⟩
    · simp only [timestampChunks, ha, hb]
      exact hrun fuel
    · cases hliterals : timestampLiterals a a with
      | error e' =>
        obtain rfl := planChunk_unreadable
          ((boundLiterals_timestamp hkind a a).trans hliterals) hchunk
        have hutc : PortableLiteral.makeTimestamptz a = .error e :=
          (timestampLiterals_error rfl hliterals).elim id id
        exact .failure (.utc a b a hkind ha hb le_rfl hle hutc)
      | ok literals =>
        obtain ⟨lower, upper⟩ := literals
        obtain ⟨⟨-, hkinds⟩, hplace, hplace'⟩ := timestampLiterals_ok hliterals
        exact planChunk_empty (by simp [hkind]) hstep
          ((boundLiterals_timestamp hkind a a).trans hliterals) hkinds.symm
          (hplace.trans hplace'.symm) hchunk
  · refine ⟨.ok [], fun fuel => ?_, ?_⟩
    · simp only [timestampChunks, ha, hb, temporalChunks, sweep]
      exact if_pos (decide_eq_true heq.ge)
    · have hrange : ∀ v, spec.Configured u iso v ↔ v.kind = timestampKind a.offset.isSome ∧
          a.instant ≤ v.place ∧ v.place < a.instant := by
        intro v
        simp only [BackfillChunkSpec.Configured, hkind, ha, hb, Except.ok.injEq]
        constructor
        · rintro ⟨_, _, rfl, rfl, hv, hlo, hhi⟩
          exact ⟨hv, hlo, hhi.trans_eq heq.symm⟩
        · rintro ⟨hv, hlo, hhi⟩
          exact ⟨a, b, rfl, rfl, hv, hlo, hhi.trans_eq heq⟩
      have hnone : ∀ c ∈ ([] : List BackfillChunk), Bounded (timestampKind a.offset.isSome) c :=
        fun _ hc => absurd hc List.not_mem_nil
      have hlimited : limitChunks spec [] = .ok [] := if_neg (Nat.not_lt_zero _)
      have hcovers : Covers (spec.Configured u iso) [] :=
        covers_of_chain (.nil a.instant) rfl hnone hrange
      rw [ok_bind, hlimited]
      exact ⟨Nat.zero_le _, hcovers⟩

/-! ### Accepted specs -/

/-- Acceptance has parsed the step. -/
theorem accepted_step {options : BackfillOptions}
    (h : chunkSpecFromOptions u iso options = .ok (some spec)) :
    spec.kind = .uuid ∨ ∃ step, parseStep u spec.step spec.kind = .ok step := by
  unfold chunkSpecFromOptions at h
  split at h <;> try cases h
  obtain ⟨column, -, h⟩ := bind_ok.mp h
  obtain ⟨given, -, h⟩ := bind_ok.mp h
  split_ifs at h with hgiven
  · obtain ⟨spec', hspec, h⟩ := bind_ok.mp h
    cases h
    exact .inl (uuidChunkSpec_ok hspec).1
  · obtain ⟨spec', hspec, h⟩ := bind_ok.mp h
    cases h
    obtain ⟨start, -, hspec⟩ := bind_ok.mp hspec
    obtain ⟨stop, -, hspec⟩ := bind_ok.mp hspec
    obtain ⟨stepText, -, hspec⟩ := bind_ok.mp hspec
    obtain ⟨_, -, hspec⟩ := bind_ok.mp hspec
    split at hspec
    · cases hspec
    · obtain ⟨step, hstep, hspec⟩ := bind_ok.mp hspec
      obtain ⟨_, -, hspec⟩ := bind_ok.mp hspec
      obtain ⟨limit, -, hspec⟩ := bind_ok.mp hspec
      cases hspec
      exact .inr ⟨step, hstep⟩

/-- An integer step is at least one. -/
theorem parseStep_integer (h : parseStep u spec.step .integer = .ok step) : 0 < step.count := by
  unfold parseStep at h
  simp only [reduceCtorEq, if_false, if_true, ne_eq, not_true_eq_false] at h
  split at h
  · cases h
  · split at h
    · cases h
    · split_ifs at h with hcount
      cases h
      simp only
      omega

/-- RUN: a zero step of an accepted spec ends at once. -/
theorem zero_step_stops (scopeSha256 : PortableRangeScope → Str) (runKey : Str)
    {options : BackfillOptions} (haccept : chunkSpecFromOptions u iso options = .ok (some spec))
    (hstep : ¬ spec.PositiveStep u) :
    ∃ r, (∀ fuel, unlimitedChunks u iso scopeSha256 spec runKey (fuel + 1) = some r) ∧
      PlanStops u iso spec (r >>= limitChunks spec) := by
  obtain ⟨hne, hnone⟩ := not_or.mp hstep
  obtain ⟨step, hparse⟩ := (accepted_step haccept).resolve_left hne
  have hzero : step.count = 0 := by
    by_contra hpos
    exact hnone ⟨step, hparse, Nat.pos_of_ne_zero hpos⟩
  obtain ⟨-, hbounds⟩ := (chunkSpecFromOptions_ok haccept).resolve_left fun h => hne h.1
  simp only [unlimitedChunks, if_neg hne, hparse]
  cases hkind : spec.kind with
  | integer =>
    rw [hkind] at hparse
    exact absurd hzero (parseStep_integer hparse).ne'
  | date => exact zero_date_stops hkind hzero hstep (hkind ▸ hbounds)
  | timestamp => exact zero_timestamp_stops hkind hzero hstep (hkind ▸ hbounds)
  | uuid => exact absurd hkind hne

/-- TOTAL: planning an accepted spec ends. -/
theorem accepted_plan_stops (scopeSha256 : PortableRangeScope → Str) (runKey : Str)
    {options : BackfillOptions} (haccept : chunkSpecFromOptions u iso options = .ok (some spec)) :
    ∃ fuel₀ r, (∀ fuel, fuel₀ ≤ fuel → planChunks u iso scopeSha256 spec runKey fuel = some r) ∧
      PlanStops u iso spec r := by
  by_cases hstep : spec.PositiveStep u
  · obtain ⟨fuel₀, r, hrun, hends⟩ := unlimited_plan scopeSha256 runKey hstep
      (chunkSpecFromOptions_ok haccept)
    refine ⟨fuel₀, r >>= limitChunks spec, fun fuel hfuel => ?_, ?_⟩
    · rw [planChunks, hrun fuel hfuel]
      rfl
    · have houtcome := limitChunks_outcome hends
      cases hlimited : r >>= limitChunks spec with
      | ok chunks =>
        rw [hlimited] at houtcome
        exact houtcome
      | error e =>
        rw [hlimited] at houtcome
        exact .failure houtcome
  · obtain ⟨r, hrun, hstops⟩ := zero_step_stops scopeSha256 runKey haccept hstep
    refine ⟨1, r >>= limitChunks spec, fun fuel hfuel => ?_, hstops⟩
    obtain ⟨fuel, rfl⟩ := Nat.exists_eq_add_of_le' hfuel
    rw [planChunks, hrun fuel]
    rfl

/-- TOTAL, RUN: planning an accepted spec ends, every turn of its loop moves the cursor on and not
    past the end, and it ends with a plan, the `max_chunks` error, or another error that the chunks
    or the calendar raise. -/
theorem planning_terminates (u : Unicode) (iso : IsoReader)
    (scopeSha256 : PortableRangeScope → Str) (runKey : Str) {options : BackfillOptions}
    {spec : BackfillChunkSpec} (haccept : chunkSpecFromOptions u iso options = .ok (some spec)) :
    LoopForward u iso scopeSha256 spec runKey ∧
      ∃ fuel₀ r, (∀ fuel, fuel₀ ≤ fuel → planChunks u iso scopeSha256 spec runKey fuel = some r) ∧
        PlanStops u iso spec r :=
  ⟨loop_forward u iso scopeSha256 spec runKey, accepted_plan_stops scopeSha256 runKey haccept⟩

theorem three_days_terminate :
    LoopForward Unicode.ascii IsoReader.extended (fun _ => []) threeDaysSpec "run".toList ∧
      ∃ fuel₀ r, (∀ fuel, fuel₀ ≤ fuel → planChunks Unicode.ascii IsoReader.extended (fun _ => [])
          threeDaysSpec "run".toList fuel = some r) ∧
        PlanStops Unicode.ascii IsoReader.extended threeDaysSpec r :=
  have haccept : chunkSpecFromOptions Unicode.ascii IsoReader.extended threeDays =
      .ok (some threeDaysSpec) := by rfl
  planning_terminates Unicode.ascii IsoReader.extended (fun _ => []) "run".toList haccept

/-- A column that no catalog can name. -/
def nulColumn : BackfillOptions :=
  textBlock [("column", "day\x00"), ("from", "2025-01-01"), ("to", "2025-01-03"), ("step", "1d")]

def nulColumnSpec : BackfillChunkSpec := { threeDaysSpec with column := "day\x00".toList }

/-- An accepted spec whose planning ends with neither a plan nor the `max_chunks` error. -/
theorem nul_column_is_refused :
    chunkSpecFromOptions Unicode.ascii IsoReader.extended nulColumn = .ok (some nulColumnSpec) ∧
      (∀ fuel, planChunks Unicode.ascii IsoReader.extended (fun _ => []) nulColumnSpec []
        (fuel + 1) = some (.error (identifierError nulColumnSpec.column))) ∧
      ∀ n, identifierError nulColumnSpec.column ≠ tooManyChunks nulColumnSpec n := by
  refine ⟨by rfl, fun _ => by rfl, ?_⟩
  intro n h
  have hblocked : identifierError nulColumnSpec.column = blocked "portable_scope.column_nul"
      "column cannot contain NUL" := by decide
  rw [hblocked] at h
  have hfirst := congrArg (·.toList.head?) (PyError.valueError.inj h)
  have hd : (toString "DPONE_PORTABLE_SCOPE_CONTRACT_BLOCKED:").toList.head? = some 'D' := by rfl
  have hb : (toString "backfill would produce ").toList.head? = some 'b' := by rfl
  simp only [String.toList_append, List.append_assoc, List.head?_append, hd, hb,
    Option.some_or] at hfirst
  exact absurd hfirst (by decide)

end Dpone.Backfill
