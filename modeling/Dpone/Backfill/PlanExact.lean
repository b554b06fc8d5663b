import Dpone.Backfill.Planner

/-! Every accepted spec with a positive step has an exact plan.

    Acceptance puts the boundaries in order; a positive step moves every cursor forward; so each
    kind of plan is a sweep over its range. The plan then covers the configured range, or raises
    for one of the reasons of `PlanFailure`. -/

namespace Dpone.Backfill
open Dpone.Schemes Dpone.Contracts

variable {u : Unicode} {iso : IsoReader} {scopeSha256 : PortableRangeScope → Str}
  {spec : BackfillChunkSpec} {runKey : Str} {step : BackfillStep} {e : PyError}

/-! ### What acceptance promises -/

theorem validateBoundaries_ok {start stop : Str} {kind : ChunkKind}
    (h : validateBoundaries u iso start stop kind = .ok ()) :
    inverted u iso start stop kind = .ok false := by
  unfold validateBoundaries at h
  split at h
  · cases h
  · cases h
  · cases h
  · assumption

theorem inferKind_ne_uuid {start : Str} {kind : ChunkKind} (h : inferKind u iso start = some kind) :
    kind ≠ .uuid := by
  unfold inferKind at h
  split_ifs at h
  · cases h; decide
  · cases h; decide
  · split at h <;> cases h
    decide

theorem rangeChunkSpec_ok {entries : List (Str × OptionValue)} {maxChunks : Option OptionValue}
    {column : Str} {given : Option ChunkKind} (hgiven : given ≠ some .uuid)
    (h : rangeChunkSpec u iso entries maxChunks column given = .ok spec) :
    spec.kind ≠ .uuid ∧ inverted u iso spec.start spec.stop spec.kind = .ok false := by
  obtain ⟨start, -, h⟩ := bind_ok.mp h
  obtain ⟨stop, -, h⟩ := bind_ok.mp h
  obtain ⟨stepText, -, h⟩ := bind_ok.mp h
  obtain ⟨_, -, h⟩ := bind_ok.mp h
  cases hkind : given <|> inferKind u iso start with
  | none => rw [hkind] at h; cases h
  | some kind =>
    rw [hkind] at h
    obtain ⟨_, -, h⟩ := bind_ok.mp h
    obtain ⟨_, hvalid, h⟩ := bind_ok.mp h
    obtain ⟨limit, -, h⟩ := bind_ok.mp h
    cases h
    refine ⟨?_, validateBoundaries_ok hvalid⟩
    cases given with
    | none => exact inferKind_ne_uuid hkind
    | some k =>
      cases hkind
      exact fun heq => hgiven (congrArg some heq)

theorem uuidChunkSpec_ok {entries : List (Str × OptionValue)} {maxChunks : Option OptionValue}
    {column : Str} (h : uuidChunkSpec entries maxChunks column = .ok spec) :
    spec.kind = .uuid ∧ ∃ buckets, spec.buckets = some buckets ∧ 1 ≤ buckets := by
  obtain ⟨_, -, h⟩ := bind_ok.mp h
  obtain ⟨buckets, hbuckets, h⟩ := bind_ok.mp h
  obtain ⟨limit, -, h⟩ := bind_ok.mp h
  obtain ⟨_, -, h⟩ := bind_ok.mp h
  cases h
  refine ⟨rfl, buckets, rfl, ?_⟩
  unfold positiveOption at hbuckets
  split at hbuckets
  · split_ifs at hbuckets
    cases hbuckets
    omega
  · cases hbuckets

/-- An accepted spec has buckets or boundaries in order. -/
theorem chunkSpecFromOptions_ok {options : BackfillOptions}
    (h : chunkSpecFromOptions u iso options = .ok (some spec)) :
    (spec.kind = .uuid ∧ ∃ buckets, spec.buckets = some buckets ∧ 1 ≤ buckets) ∨
      spec.kind ≠ .uuid ∧ inverted u iso spec.start spec.stop spec.kind = .ok false := by
  unfold chunkSpecFromOptions at h
  split at h <;> try cases h
  obtain ⟨column, -, h⟩ := bind_ok.mp h
  obtain ⟨kind, -, h⟩ := bind_ok.mp h
  split_ifs at h with hkind
  · obtain ⟨spec', hspec, h⟩ := bind_ok.mp h
    cases h
    exact .inl (uuidChunkSpec_ok hspec)
  · obtain ⟨spec', hspec, h⟩ := bind_ok.mp h
    cases h
    exact .inr (rangeChunkSpec_ok hkind hspec)

/-! ### From sweeps to plans -/

/-- A plan that covers the range, or raises for a reason. -/
def PlanEnds (u : Unicode) (iso : IsoReader) (spec : BackfillChunkSpec) :
    Except PyError (List BackfillChunk) → Prop
  | .ok chunks => Covers (spec.Configured u iso) chunks
  | .error e => PlanFailure u iso spec e

/-- RUN: a sweep of chunks over the configured range is a plan. -/
theorem sweep_plan {C : Type} {done : C → Bool}
    {piece : ℕ → C → Except PyError (BackfillChunk × C)} {I : C → Prop} {place : C → ℤ}
    {kind : PortableLiteralKind} {stop : ℤ} {c : C}
    (h : Sweeps done piece I (Bounded kind) place BackfillChunk.index BackfillChunk.floor
      BackfillChunk.ceiling stop) (hI : I c) (hle : place c ≤ stop)
    (hrange : ∀ v, spec.Configured u iso v ↔ v.kind = kind ∧ place c ≤ v.place ∧ v.place < stop)
    (hfail : ∀ {c' index e}, I c' → place c ≤ place c' → place c' < stop →
      piece index c' = .error e → PlanFailure u iso spec e) :
    ∃ fuel₀ r, (∀ fuel, fuel₀ ≤ fuel → sweep done piece fuel 1 c = some r) ∧
      PlanEnds u iso spec r := by
  obtain ⟨r, hr, hends⟩ := sweep_ends h _ 1 c hI hle (Nat.lt_succ_self _)
  refine ⟨_, r, fun fuel hfuel => sweep_mono hfuel hr, ?_⟩
  cases r with
  | error e =>
    obtain ⟨c', index, hI', hlo, hhi, hraise⟩ := hends
    exact hfail hI' hlo hhi hraise
  | ok chunks =>
    obtain ⟨hchain, hnumbers, hall⟩ := hends
    exact covers_of_chain hchain hnumbers hall hrange

/-! ### Integers -/

@[simp] theorem parseInt_intText (n : ℤ) : parseInt u (intText n) = .ok n := by
  rw [parseInt, pyInt_intText]

theorem boundLiterals_integer (hkind : spec.kind = .integer) (a b : ℤ) :
    boundLiterals u iso spec (intText a) (intText b) = .ok (.integer a, .integer b) := by
  simp [boundLiterals, hkind]

/-- STEP: a turn makes the chunk from the cursor up to the next one. -/
theorem integer_sweeps {count : ℕ} (stop : ℤ) (hkind : spec.kind = .integer) (hpos : 0 < count) :
    Sweeps (fun cursor => decide (stop < cursor))
      (integerPiece u iso scopeSha256 spec runKey stop count) (fun _ => True) (Bounded .integer) id
      BackfillChunk.index BackfillChunk.floor BackfillChunk.ceiling (stop + 1) where
  done_iff c _ := by simp only [decide_eq_true_iff, id_eq]; omega
  step {index c p next} _ hlt h := by
    obtain ⟨chunk, hchunk, h⟩ := bind_ok.mp h
    cases h
    obtain ⟨hgood, hfloor, hceiling⟩ := planChunk_ok (boundLiterals_integer hkind c _) hchunk
    rw [if_pos hkind] at hceiling
    have hnext : c < min (c + count - 1) stop + 1 ∧ min (c + count - 1) stop ≤ stop := by
      simp only [id_eq] at hlt
      omega
    exact ⟨trivial, hgood, ⟨hfloor, hceiling⟩, hnext.1, by simp only [id_eq]; omega⟩

theorem integer_plan (hkind : spec.kind = .integer) (hpos : 0 < step.count)
    (hbounds : inverted u iso spec.start spec.stop .integer = .ok false) :
    ∃ fuel₀ r, (∀ fuel, fuel₀ ≤ fuel →
      integerChunks u iso scopeSha256 spec runKey step fuel = some r) ∧
        PlanEnds u iso spec r := by
  obtain ⟨a, ha, hbounds⟩ := bind_ok.mp hbounds
  obtain ⟨b, hb, hbounds⟩ := bind_ok.mp hbounds
  have hle : a ≤ b := not_lt.mp (of_decide_eq_false (Except.ok.inj hbounds))
  simp only [integerChunks, ha, hb]
  refine sweep_plan (integer_sweeps b hkind hpos) trivial (by simp only [id_eq]; omega) ?_ ?_
  · intro v
    simp only [BackfillChunkSpec.Configured, hkind, ha, hb, Except.ok.injEq, id_eq]
    constructor
    · rintro ⟨_, _, n, rfl, rfl, rfl, hlo, hhi⟩
      exact ⟨rfl, hlo, Int.lt_add_one_of_le hhi⟩
    · rintro ⟨hv, hlo, hhi⟩
      cases v with
      | integer n => exact ⟨a, b, n, rfl, rfl, rfl, hlo, Int.le_of_lt_add_one hhi⟩
      | _ => cases hv
  · intro c index e _ _ hlt h
    rcases bind_error.mp h with h | ⟨chunk, -, h⟩
    · refine planChunk_error (boundLiterals_integer hkind c (min (c + step.count - 1) b)) rfl ?_ h
      simp only [PortableLiteral.place, hkind, and_true, id_eq] at hlt ⊢
      omega
    · cases h

/-! ### Dates and date-times -/

section Temporal
variable {T : Type} [Temporal T]

/-- What a temporal plan rests on: its cursors keep an invariant, and a chunk between two of them
    has their places for its ends. -/
structure Cursors (u : Unicode) (iso : IsoReader) (scopeSha256 : PortableRangeScope → Str)
    (spec : BackfillChunkSpec) (runKey : Str) (render : T → Str) (step : BackfillStep)
    (kind : PortableLiteralKind) (I : T → Prop) : Prop where
  positive : 0 < step.count
  hours : step.unit = some .h → Temporal.grain T ≤ 3600000000
  keeps : ∀ {a b : T}, I a → advance a step = .ok b → I b
  chunk : ∀ {a b : T} {index : ℕ} {c : BackfillChunk}, I a → I b →
    planChunk u iso scopeSha256 spec runKey index (render a) (render b) = .ok c →
      (Bounded kind c ∧ c.index = index) ∧ c.floor = Temporal.place a ∧
        c.ceiling = Temporal.place b

variable {render : T → Str} {kind : PortableLiteralKind} {I : T → Prop}

/-- STEP: the end of a window is past the cursor and not past the end. -/
theorem Cursors.window (h : Cursors u iso scopeSha256 spec runKey render step kind I)
    {cursor advanced stop : T} (hcursor : I cursor) (hstop : I stop)
    (hlt : Temporal.place cursor < Temporal.place stop)
    (hadvance : advance cursor step = .ok advanced) :
    let windowEnd := if Temporal.place stop < Temporal.place advanced then stop else advanced
    I windowEnd ∧ Temporal.place cursor < Temporal.place windowEnd ∧
      Temporal.place windowEnd ≤ Temporal.place stop := by
  have hforward := advance_lt h.positive h.hours hadvance
  intro windowEnd
  by_cases hpast : Temporal.place stop < Temporal.place advanced
  · simp only [windowEnd, if_pos hpast]
    exact ⟨hstop, hlt, le_rfl⟩
  · simp only [windowEnd, if_neg hpast]
    exact ⟨h.keeps hcursor hadvance, hforward, not_lt.mp hpast⟩

theorem temporal_sweeps (h : Cursors u iso scopeSha256 spec runKey render step kind I) (stop : T)
    (hstop : I stop) :
    Sweeps (fun cursor => decide (Temporal.place stop ≤ Temporal.place cursor))
      (temporalPiece u iso scopeSha256 spec runKey render stop step) I (Bounded kind)
      Temporal.place BackfillChunk.index BackfillChunk.floor BackfillChunk.ceiling
      (Temporal.place stop) where
  done_iff c _ := decide_eq_true_iff
  step {index c p next} hI hlt hpiece := by
    obtain ⟨advanced, hadvance, hpiece⟩ := bind_ok.mp hpiece
    obtain ⟨chunk, hchunk, hpiece⟩ := bind_ok.mp hpiece
    cases hpiece
    obtain ⟨hwindow, hmoves, hle⟩ := h.window hI hstop hlt hadvance
    obtain ⟨hgood, hends⟩ := h.chunk hI hwindow hchunk
    exact ⟨hwindow, hgood, hends, hmoves, hle⟩

/-- A turn raises where the cursor cannot advance, or for its chunk. -/
theorem temporalPiece_error (h : Cursors u iso scopeSha256 spec runKey render step kind I)
    {cursor stop : T} {index : ℕ} (hcursor : I cursor) (hstop : I stop)
    (hlt : Temporal.place cursor < Temporal.place stop)
    (hraise : temporalPiece u iso scopeSha256 spec runKey render stop step index cursor = .error e) :
    advance cursor step = .error e ∨
      ∃ windowEnd, I windowEnd ∧ Temporal.place cursor < Temporal.place windowEnd ∧
        Temporal.place windowEnd ≤ Temporal.place stop ∧
        planChunk u iso scopeSha256 spec runKey index (render cursor) (render windowEnd) =
          .error e := by
  rcases bind_error.mp hraise with hadvance | ⟨advanced, hadvance, hraise⟩
  · exact .inl hadvance
  · obtain ⟨hwindow, hmoves, hle⟩ := h.window hcursor hstop hlt hadvance
    rcases bind_error.mp hraise with hchunk | ⟨chunk, -, hraise⟩
    · exact .inr ⟨_, hwindow, hmoves, hle, hchunk⟩
    · cases hraise

end Temporal

theorem boundLiterals_date (hkind : spec.kind = .date) (a b : Date) :
    boundLiterals u iso spec a.isoformat b.isoformat = .ok (.date a, .date b) := by
  simp [boundLiterals, hkind, iso.date_isoformat]

theorem parseStep_date (h : parseStep u spec.step .date = .ok step) : step.unit ≠ some .h := by
  unfold parseStep at h
  simp only [reduceCtorEq, if_false, true_and, not_false_eq_true, if_true, ne_eq] at h
  split at h
  · split_ifs at h with hhours
    cases h
    exact fun heq => hhours (Option.some.inj heq)
  · split at h <;> cases h

theorem date_cursors (iso : IsoReader) (scopeSha256 : PortableRangeScope → Str) (runKey : Str)
    (hkind : spec.kind = .date)
    (hpos : 0 < step.count) (hstep : parseStep u spec.step .date = .ok step) :
    Cursors u iso scopeSha256 spec runKey Date.isoformat step .date fun _ => True where
  positive := hpos
  hours h := absurd h (parseStep_date hstep)
  keeps _ _ := trivial
  chunk {a b index c} _ _ h := by
    obtain ⟨hgood, hfloor, hceiling⟩ := planChunk_ok (boundLiterals_date hkind a b) h
    rw [if_neg (by simp [hkind])] at hceiling
    exact ⟨hgood, hfloor, hceiling.trans (add_zero _)⟩

theorem date_plan (hkind : spec.kind = .date) (hpos : 0 < step.count)
    (hstep : parseStep u spec.step .date = .ok step)
    (hbounds : inverted u iso spec.start spec.stop .date = .ok false) :
    ∃ fuel₀ r, (∀ fuel, fuel₀ ≤ fuel →
      dateChunks u iso scopeSha256 spec runKey step fuel = some r) ∧ PlanEnds u iso spec r := by
  obtain ⟨a, ha, hbounds⟩ := bind_ok.mp hbounds
  obtain ⟨b, hb, hbounds⟩ := bind_ok.mp hbounds
  have hle : a.toordinal ≤ b.toordinal := not_lt.mp (of_decide_eq_false (Except.ok.inj hbounds))
  cases hend : Temporal.plus b (dayMicros : ℤ) with
  | error e =>
    refine ⟨0, .error e, fun fuel _ => ?_, .lastDay b hkind hb hend⟩
    simp [dateChunks, ha, hb, hend]
  | ok stop =>
    have hstop : (stop.toordinal : ℤ) = b.toordinal + 1 := by
      simpa [dayMicros] using Date.ofOrdinal_ok hend
    have hconfigured : ∀ v, spec.Configured u iso v ↔
        v.kind = .date ∧ (a.toordinal : ℤ) ≤ v.place ∧ v.place < stop.toordinal := by
      intro v
      simp only [BackfillChunkSpec.Configured, hkind, ha, hb, Except.ok.injEq]
      constructor
      · rintro ⟨_, _, d, rfl, rfl, rfl, hlo, hhi⟩
        exact ⟨rfl, Int.ofNat_le.mpr hlo, by simp only [PortableLiteral.place]; omega⟩
      · rintro ⟨hv, hlo, hhi⟩
        cases v with
        | date d =>
          simp only [PortableLiteral.place] at hlo hhi
          exact ⟨a, b, d, rfl, rfl, rfl, by omega, by omega⟩
        | _ => cases hv
    have hcursors := date_cursors iso scopeSha256 runKey hkind hpos hstep
    simp only [dateChunks, ha, hb, hend, ok_bind, temporalChunks]
    refine sweep_plan (temporal_sweeps hcursors stop trivial) trivial ?_ hconfigured ?_
    · change (a.toordinal : ℤ) ≤ stop.toordinal
      omega
    · intro c index e _ hlo hhi hraise
      rcases temporalPiece_error hcursors trivial trivial hhi hraise with
        hadvance | ⟨windowEnd, -, hlt, -, hchunk⟩
      · refine .dateStep c step hkind (hkind ▸ hstep) ?_ hadvance
        exact (hconfigured _).mpr ⟨rfl, hlo, hhi⟩
      · exact planChunk_error (boundLiterals_date hkind c windowEnd) rfl (.inl hlt) hchunk

/-- The kind of the literals of a date-time. -/
def timestampKind (aware : Bool) : PortableLiteralKind := if aware then .timestamptz else .timestamp

theorem timestampLiterals_ok {a b : DateTime} {lower upper : PortableLiteral}
    (h : timestampLiterals a b = .ok (lower, upper)) :
    (lower.kind = timestampKind a.offset.isSome ∧ upper.kind = lower.kind) ∧
      lower.place = a.instant ∧ upper.place = b.instant := by
  obtain ⟨_, hsame, h⟩ := bind_ok.mp h
  obtain ⟨l, hl, h⟩ := bind_ok.mp h
  obtain ⟨r, hr, h⟩ := bind_ok.mp h
  cases h
  cases haware : a.offset.isSome with
  | true =>
    rw [if_pos haware] at hl hr
    obtain ⟨hkind, hplace⟩ := PortableLiteral.makeTimestamptz_ok hl
    obtain ⟨hkind', hplace'⟩ := PortableLiteral.makeTimestamptz_ok hr
    exact ⟨⟨hkind, hkind'.trans hkind.symm⟩, hplace, hplace'⟩
  | false =>
    rw [if_neg (by simp [haware])] at hl hr
    obtain ⟨hkind, hplace⟩ := PortableLiteral.makeTimestamp_ok hl
    obtain ⟨hkind', hplace'⟩ := PortableLiteral.makeTimestamp_ok hr
    exact ⟨⟨hkind, hkind'.trans hkind.symm⟩, hplace, hplace'⟩

/-- Two date-times of one form are refused only where one has no UTC form in the calendar. -/
theorem timestampLiterals_error {a b : DateTime} (hsame : a.offset.isSome = b.offset.isSome)
    (h : timestampLiterals a b = .error e) :
    PortableLiteral.makeTimestamptz a = .error e ∨ PortableLiteral.makeTimestamptz b = .error e := by
  rw [timestampLiterals, raiseIf_neg (not_not.mpr hsame), ok_bind] at h
  cases haware : a.offset.isSome with
  | true =>
    rw [if_pos haware] at h
    rcases bind_error.mp h with h | ⟨l, -, h⟩
    · exact .inl h
    · rcases bind_error.mp h with h | ⟨r, -, h⟩
      · exact .inr h
      · cases h
  | false =>
    have ha : a.offset = none := by simpa using haware
    have hb : b.offset = none := by simpa [haware] using hsame
    have hlower : PortableLiteral.makeTimestamp a = .ok (.timestamp a ha) := dif_pos ha
    have hupper : PortableLiteral.makeTimestamp b = .ok (.timestamp b hb) := dif_pos hb
    rw [if_neg (by simp [haware])] at h
    simp only [hlower, hupper, ok_bind] at h
    cases h

theorem boundLiterals_timestamp (hkind : spec.kind = .timestamp) (a b : DateTime) :
    boundLiterals u iso spec (a.isoformat ' ') (b.isoformat ' ') = timestampLiterals a b := by
  simp [boundLiterals, hkind, iso.datetime_isoformat]

theorem timestamp_cursors (u : Unicode) (iso : IsoReader) (scopeSha256 : PortableRangeScope → Str)
    (runKey : Str) (hkind : spec.kind = .timestamp) (hpos : 0 < step.count) (aware : Bool) :
    Cursors u iso scopeSha256 spec runKey (DateTime.isoformat ' ') step (timestampKind aware)
      fun t => t.offset.isSome = aware where
  positive := hpos
  hours _ := by decide
  keeps h hadvance := by rw [advance_offset hadvance, h]
  chunk {a b index c} ha hb h := by
    obtain ⟨scope, hscope, -⟩ := bind_ok.mp h
    obtain ⟨⟨lower, upper⟩, hbounds, -⟩ := bind_ok.mp hscope
    obtain ⟨hgood, hfloor, hceiling⟩ := planChunk_ok hbounds h
    rw [boundLiterals_timestamp hkind] at hbounds
    obtain ⟨⟨hlower, -⟩, hplace, hplace'⟩ := timestampLiterals_ok hbounds
    rw [if_neg (by simp [hkind]), add_zero] at hceiling
    rw [hlower, ha] at hgood
    exact ⟨hgood, hfloor.trans hplace, hceiling.trans hplace'⟩

theorem timestamp_plan (hkind : spec.kind = .timestamp) (hpos : 0 < step.count)
    (hstep : parseStep u spec.step .timestamp = .ok step)
    (hbounds : inverted u iso spec.start spec.stop .timestamp = .ok false) :
    ∃ fuel₀ r, (∀ fuel, fuel₀ ≤ fuel →
      timestampChunks u iso scopeSha256 spec runKey step fuel = some r) ∧ PlanEnds u iso spec r := by
  obtain ⟨a, ha, hbounds⟩ := bind_ok.mp hbounds
  obtain ⟨b, hb, hbounds⟩ := bind_ok.mp hbounds
  unfold datetimeInverted at hbounds
  split_ifs at hbounds with hsame
  have hle : a.instant ≤ b.instant := not_lt.mp (of_decide_eq_false (Except.ok.inj hbounds))
  have hcursors := timestamp_cursors u iso scopeSha256 runKey hkind hpos a.offset.isSome
  simp only [timestampChunks, ha, hb, temporalChunks]
  refine sweep_plan (temporal_sweeps hcursors b hsame.symm) rfl hle ?_ ?_
  · intro v
    simp only [BackfillChunkSpec.Configured, hkind, ha, hb, Except.ok.injEq]
    constructor
    · rintro ⟨_, _, rfl, rfl, hv, hplace⟩
      exact ⟨hv, hplace⟩
    · rintro ⟨hv, hplace⟩
      exact ⟨a, b, rfl, rfl, hv, hplace⟩
  · intro c index e hc hlo hhi hraise
    rcases temporalPiece_error hcursors hc hsame.symm hhi hraise with
      hadvance | ⟨windowEnd, hwindow, hlt, hend, hchunk⟩
    · exact .timestampStep a b c step hkind ha hb (hkind ▸ hstep) hlo hhi hadvance
    · have hform : c.offset.isSome = windowEnd.offset.isSome := hc.trans hwindow.symm
      cases hliterals : timestampLiterals c windowEnd with
      | error e' =>
        have hsame' : e = e' := by
          rcases bind_error.mp hchunk with h | ⟨scope, hscope, -⟩
          · rw [buildBackfillChunkScope, boundLiterals_timestamp hkind, hliterals] at h
            cases h
            rfl
          · rw [buildBackfillChunkScope, boundLiterals_timestamp hkind, hliterals] at hscope
            cases hscope
        subst hsame'
        rcases timestampLiterals_error hform hliterals with h | h
        · exact .utc a b c hkind ha hb hlo hhi.le h
        · exact .utc a b windowEnd hkind ha hb (le_trans hlo hlt.le) hend h
      | ok r =>
        obtain ⟨lower, upper⟩ := r
        obtain ⟨⟨-, hkinds⟩, hplace, hplace'⟩ := timestampLiterals_ok hliterals
        refine planChunk_error ((boundLiterals_timestamp hkind c windowEnd).trans hliterals)
          hkinds.symm (.inl ?_) hchunk
        rw [hplace, hplace']
        exact hlt

/-! ### UUIDs -/

/-- Where a bucket starts. -/
def bucketEdge (buckets k : ℕ) : ℕ := k * 2 ^ 128 / buckets

theorem bucketEdge_last {buckets : ℕ} (h : 1 ≤ buckets) : bucketEdge buckets buckets = 2 ^ 128 :=
  Nat.mul_div_cancel_left _ h

theorem bucketEdge_lt {buckets k : ℕ} (hk : k < buckets) (hb : buckets ≤ 2 ^ 128) :
    bucketEdge buckets k < bucketEdge buckets (k + 1) := by
  have hstep : k * 2 ^ 128 + buckets ≤ (k + 1) * 2 ^ 128 := by rw [Nat.succ_mul]; omega
  calc bucketEdge buckets k < k * 2 ^ 128 / buckets + 1 := Nat.lt_succ_self _
    _ = (k * 2 ^ 128 + buckets) / buckets := (Nat.add_div_right _ (by omega)).symm
    _ ≤ bucketEdge buckets (k + 1) := Nat.div_le_div_right hstep

theorem uuidOfInt_lt {n : ℕ} (h : n < 2 ^ 128) : uuidOfInt n = .ok ⟨n, h⟩ := dif_pos h

theorem bucketEdge_bound {buckets k : ℕ} (hk : k < buckets) : bucketEdge buckets k < 2 ^ 128 := by
  refine Nat.div_lt_of_lt_mul ?_
  rw [Nat.mul_comm buckets]
  omega

/-- A bucket's scope lies between its edges; the last one includes the last UUID. -/
theorem uuidPiece_eq (scopeSha256 : PortableRangeScope → Str) (spec : BackfillChunkSpec)
    (runKey : Str) {buckets k : ℕ} (hk : k < buckets) :
    ∃ lower upper : Fin (2 ^ 128), lower.val = bucketEdge buckets k ∧
      upper.val + (if k = buckets - 1 then 1 else 0) = bucketEdge buckets (k + 1) ∧
      uuidPiece scopeSha256 spec runKey buckets k = (do
        let scope ← PortableRangeScope.make spec.column
          (some { value := .uuid lower, inclusive := true })
          (some { value := .uuid upper, inclusive := decide (k = buckets - 1) })
        return chunkOf scopeSha256 runKey (k + 1) (uuidText lower) (uuidText upper) scope) := by
  have hlower := uuidOfInt_lt (bucketEdge_bound hk)
  have hpiece : ∀ upper : Fin (2 ^ 128), uuidOfInt (if decide (k = buckets - 1) = true then
      2 ^ 128 - 1 else bucketEdge buckets (k + 1)) = .ok upper →
      uuidPiece scopeSha256 spec runKey buckets k = (do
        let scope ← PortableRangeScope.make spec.column
          (some { value := .uuid ⟨_, bucketEdge_bound hk⟩, inclusive := true })
          (some { value := .uuid upper, inclusive := decide (k = buckets - 1) })
        return chunkOf scopeSha256 runKey (k + 1) (uuidText ⟨_, bucketEdge_bound hk⟩)
          (uuidText upper) scope) := by
    intro upper hupper
    unfold uuidPiece
    unfold bucketEdge at hlower hupper
    simp only [hlower, hupper, ok_bind]
    rfl
  by_cases hlast : k = buckets - 1
  · have hend : bucketEdge buckets (k + 1) = 2 ^ 128 := by
      rw [show k + 1 = buckets by omega]
      exact bucketEdge_last (by omega)
    refine ⟨_, ⟨2 ^ 128 - 1, by simp⟩, rfl, ?_, hpiece _ ?_⟩
    · rw [hend, if_pos hlast]
      exact Nat.sub_add_cancel (by simp)
    · rw [if_pos (decide_eq_true hlast)]
      exact uuidOfInt_lt _
  · have hnext : k + 1 < buckets := by omega
    refine ⟨_, ⟨_, bucketEdge_bound hnext⟩, rfl, by rw [if_neg hlast, add_zero], hpiece _ ?_⟩
    rw [if_neg (by simpa using hlast)]
    exact uuidOfInt_lt _

theorem uuidPiece_ok {buckets k : ℕ} {c : BackfillChunk} (hk : k < buckets)
    (h : uuidPiece scopeSha256 spec runKey buckets k = .ok c) :
    (Bounded .uuid c ∧ c.index = k + 1) ∧
      (c.floor = bucketEdge buckets k ∧ c.ceiling = bucketEdge buckets (k + 1)) ∧
      (bucketEdge buckets k : ℤ) < bucketEdge buckets (k + 1) := by
  obtain ⟨lower, upper, hlo, hup, heq⟩ := uuidPiece_eq scopeSha256 spec runKey hk
  rw [heq] at h
  obtain ⟨scope, hscope, h⟩ := bind_ok.mp h
  cases h
  obtain ⟨-, hlower, hupper⟩ := PortableRangeScope.make_ok hscope
  have hgood : Bounded .uuid (chunkOf scopeSha256 runKey (k + 1) (uuidText lower) (uuidText upper)
      scope) := ⟨_, _, hlower, hupper, rfl, rfl⟩
  have hfloor : BackfillChunk.floor (chunkOf scopeSha256 runKey (k + 1) (uuidText lower)
      (uuidText upper) scope) = bucketEdge buckets k := by
    simp [BackfillChunk.floor, chunkOf, hlower, PortableRangeBound.floor, PortableLiteral.place, hlo]
  have hceiling : BackfillChunk.ceiling (chunkOf scopeSha256 runKey (k + 1) (uuidText lower)
      (uuidText upper) scope) = bucketEdge buckets (k + 1) := by
    simp [BackfillChunk.ceiling, chunkOf, hupper, PortableRangeBound.ceiling, PortableLiteral.place,
      ← hup]
  have hlt := hgood.floor_lt
  rw [hfloor, hceiling] at hlt
  exact ⟨⟨hgood, rfl⟩, ⟨hfloor, hceiling⟩, hlt⟩

theorem uuidPiece_error {buckets k : ℕ} (hkind : spec.kind = .uuid)
    (hbuckets : spec.buckets = some buckets) (hk : k < buckets)
    (h : uuidPiece scopeSha256 spec runKey buckets k = .error e) : PlanFailure u iso spec e := by
  rcases Nat.lt_or_ge (2 ^ 128) buckets with hmany | hfew
  · exact .buckets buckets hkind hbuckets hmany
  · obtain ⟨lower, upper, hlo, hup, heq⟩ := uuidPiece_eq scopeSha256 spec runKey hk
    have hlt := bucketEdge_lt hk hfew
    rw [heq] at h
    rcases bind_error.mp h with hmake | ⟨scope, -, h⟩
    · obtain ⟨hcolumn, rfl⟩ := PortableRangeScope.make_error hmake ⟨rfl, by
        simp only [PortableLiteral.place]
        split_ifs at hup with hlast
        · simp only [hlast, decide_true, and_true]; omega
        · simp only [hlast, decide_false]; omega⟩
      exact .column hcolumn
    · cases h

/-- RUN: the buckets cover the UUIDs. -/
theorem uuid_plan (u : Unicode) (iso : IsoReader) (scopeSha256 : PortableRangeScope → Str)
    (runKey : Str) {buckets : ℕ} (hkind : spec.kind = .uuid)
    (hbuckets : spec.buckets = some buckets) (hpos : 1 ≤ buckets) : PlanEnds u iso spec (uuidChunks scopeSha256 spec runKey) := by
  simp only [uuidChunks, hbuckets]
  cases hrun : (List.range buckets).mapM (uuidPiece scopeSha256 spec runKey buckets) with
  | error e =>
    obtain ⟨k, hk, hraise⟩ := mapM_error hrun
    exact uuidPiece_error hkind hbuckets (List.mem_range.mp hk) hraise
  | ok chunks =>
    rw [List.range_eq_range'] at hrun
    obtain ⟨hchain, hnumbers, hall⟩ :=
      mapM_chain (fun k => (bucketEdge buckets k : ℤ)) uuidPiece_ok buckets 0
        (Nat.zero_add _) hrun
    refine covers_of_chain hchain hnumbers hall fun v => ?_
    simp only [BackfillChunkSpec.Configured, hkind]
    refine ⟨fun hv => ⟨hv, ?_⟩, And.left⟩
    cases v with
    | uuid n =>
      rw [bucketEdge_last hpos]
      simp only [bucketEdge, PortableLiteral.place, Nat.zero_mul, Nat.zero_div]
      omega
    | _ => cases hv

/-! ### Accepted specs -/

/-- How `plan_chunks` ends: with at most `max_chunks` chunks that cover the range, or a reason. -/
def PlanOutcome (u : Unicode) (iso : IsoReader) (spec : BackfillChunkSpec) :
    Except PyError (List BackfillChunk) → Prop
  | .ok chunks => chunks.length ≤ spec.maxChunks ∧ Covers (spec.Configured u iso) chunks
  | .error e => PlanFailure u iso spec e

theorem limitChunks_outcome {r : Except PyError (List BackfillChunk)}
    (h : PlanEnds u iso spec r) : PlanOutcome u iso spec (r >>= limitChunks spec) := by
  cases r with
  | error e => exact h
  | ok chunks =>
    rw [ok_bind]
    unfold limitChunks
    split_ifs with hmany
    · exact .tooMany chunks h hmany
    · exact ⟨not_lt.mp hmany, h⟩

theorem unlimited_plan (scopeSha256 : PortableRangeScope → Str) (runKey : Str)
    (hstep : spec.PositiveStep u)
    (haccept : (spec.kind = .uuid ∧ ∃ buckets, spec.buckets = some buckets ∧ 1 ≤ buckets) ∨
      spec.kind ≠ .uuid ∧ inverted u iso spec.start spec.stop spec.kind = .ok false) :
    ∃ fuel₀ r, (∀ fuel, fuel₀ ≤ fuel →
      unlimitedChunks u iso scopeSha256 spec runKey fuel = some r) ∧ PlanEnds u iso spec r := by
  rcases haccept with ⟨hkind, buckets, hbuckets, hpos⟩ | ⟨hne, hbounds⟩
  · refine ⟨0, _, fun fuel _ => ?_, uuid_plan u iso scopeSha256 runKey hkind hbuckets hpos⟩
    simp [unlimitedChunks, hkind]
  · obtain ⟨step, hparse, hpos⟩ := hstep.resolve_left hne
    simp only [unlimitedChunks, if_neg hne, hparse]
    cases hkind : spec.kind with
    | integer => exact integer_plan hkind hpos (hkind ▸ hbounds)
    | date => exact date_plan hkind hpos (hkind ▸ hparse) (hkind ▸ hbounds)
    | timestamp => exact timestamp_plan hkind hpos (hkind ▸ hparse) (hkind ▸ hbounds)
    | uuid => exact absurd hkind hne

/-- CORRECT, TOTAL: planning an accepted spec ends, and either covers exactly the configured range
    with at most `max_chunks` chunks, or raises for one of the reasons of `PlanFailure`. -/
theorem accepted_spec_plan (u : Unicode) (iso : IsoReader) (scopeSha256 : PortableRangeScope → Str)
    (runKey : Str) {options : BackfillOptions} {spec : BackfillChunkSpec}
    (haccept : chunkSpecFromOptions u iso options = .ok (some spec))
    (hstep : spec.PositiveStep u) :
    ∃ fuel₀ r, (∀ fuel, fuel₀ ≤ fuel → planChunks u iso scopeSha256 spec runKey fuel = some r) ∧
      PlanOutcome u iso spec r := by
  obtain ⟨fuel₀, r, hrun, hends⟩ := unlimited_plan scopeSha256 runKey hstep
    (chunkSpecFromOptions_ok haccept)
  refine ⟨fuel₀, r >>= limitChunks spec, fun fuel hfuel => ?_, limitChunks_outcome hends⟩
  rw [planChunks, hrun fuel hfuel]
  rfl

/-- A chunk block of texts. -/
def textBlock (entries : List (String × String)) : BackfillOptions :=
  .mapping (some (.mapping (entries.map fun p => (p.1.toList, .str p.2.toList)))) none

def threeDays : BackfillOptions :=
  textBlock [("column", "day"), ("from", "2025-01-01"), ("to", "2025-01-03"), ("step", "1d")]

/-- What three days are accepted as. -/
def threeDaysSpec : BackfillChunkSpec where
  column := "day".toList
  start := "2025-01-01".toList
  stop := "2025-01-03".toList
  step := "1d".toList
  kind := .date
  maxChunks := 1000
  buckets := none

theorem three_days_are_planned :
    ∃ fuel₀ r, (∀ fuel, fuel₀ ≤ fuel → planChunks Unicode.ascii IsoReader.extended (fun _ => [])
        threeDaysSpec "run".toList fuel = some r) ∧
      PlanOutcome Unicode.ascii IsoReader.extended threeDaysSpec r :=
  have haccept : chunkSpecFromOptions Unicode.ascii IsoReader.extended threeDays =
      .ok (some threeDaysSpec) := by rfl
  have hstep : threeDaysSpec.PositiveStep Unicode.ascii :=
    .inr ⟨{ count := 1, unit := some .d }, by rfl, by decide⟩
  accepted_spec_plan Unicode.ascii IsoReader.extended (fun _ => []) "run".toList haccept hstep

/-- One integer of a column whose name is longer than a portable one. -/
def longColumn : BackfillOptions :=
  textBlock [("column", String.ofList (List.replicate 64 'a')), ("from", "1"), ("to", "1"),
    ("step", "1")]

def longColumnSpec : BackfillChunkSpec where
  column := List.replicate 64 'a'
  start := "1".toList
  stop := "1".toList
  step := "1".toList
  kind := .integer
  maxChunks := 1000
  buckets := none

theorem long_column_raises :
    chunkSpecFromOptions Unicode.ascii IsoReader.extended longColumn = .ok (some longColumnSpec) ∧
      longColumnSpec.PositiveStep Unicode.ascii ∧
      (∀ fuel, planChunks Unicode.ascii IsoReader.extended (fun _ => []) longColumnSpec []
        (fuel + 1) = some (.error (identifierError longColumnSpec.column))) ∧
      ∀ n, identifierError longColumnSpec.column ≠ tooManyChunks longColumnSpec n := by
  refine ⟨by rfl, .inr ⟨{ count := 1, unit := none }, by rfl, by decide⟩, fun _ => by rfl, ?_⟩
  intro n h
  have hblocked : identifierError longColumnSpec.column = blocked "portable_scope.column_length"
      "column exceeds the 63-byte PostgreSQL/MSSQL portable limit" := by decide
  rw [hblocked] at h
  have hfirst := congrArg (·.toList.head?) (PyError.valueError.inj h)
  have hd : (toString "DPONE_PORTABLE_SCOPE_CONTRACT_BLOCKED:").toList.head? = some 'D' := by rfl
  have hb : (toString "backfill would produce ").toList.head? = some 'b' := by rfl
  simp only [String.toList_append, List.append_assoc, List.head?_append, hd, hb,
    Option.some_or] at hfirst
  exact absurd hfirst (by decide)

end Dpone.Backfill
