import Mathlib.Data.List.Chain
import Dpone.Backfill.ChunkSpec
import Dpone.Contracts.PortableScope
import Dpone.Schemes.Sweep

/-! Deterministic backfill chunk plans.

    A plan sweeps the range of its spec: integers by a count, dates and date-times by a calendar step
    that is cut at the exclusive end, and the UUID space by equal buckets. Every chunk is rendered to
    text and its scope is built from that text. The loops of the plan may not end on every spec, so
    they take fuel; the digest of a scope's canonical JSON is a parameter. -/

namespace Dpone.Backfill
open Dpone.Schemes Dpone.Contracts

structure BackfillChunk where
  index : ℕ
  start : Str
  stop : Str
  portableScope : PortableRangeScope
  idempotencyKey : Str

/-! ### Calendar steps -/

/-- `_days_in_month`. -/
def plannerDaysInMonth (year month : ℕ) : Except PyError ℕ :=
  if month = 12 then .ok 31
  else do
    let firstNext ← Date.make (year + month / 12) (month % 12 + 1) 1
    let last ← Temporal.plus firstNext (-dayMicros)
    return last.day

section Temporal
variable {T : Type} [Temporal T]

/-- `_add_months`: the day is cut to the length of the new month. -/
def addMonths (cursor : T) (months : ℕ) : Except PyError T := do
  let d := Temporal.date cursor
  let monthIndex := d.month - 1 + months
  let year := d.year + monthIndex / 12
  let month := monthIndex % 12 + 1
  let length ← plannerDaysInMonth year month
  let replaced ← Date.make year month (min d.day length)
  return Temporal.withDate cursor replaced

/-- `_advance`. -/
def advance (cursor : T) (step : BackfillStep) : Except PyError T :=
  match step.unit.getD .d with
  | .h => Temporal.plus cursor (step.count * 3600000000)
  | .d => Temporal.plus cursor (step.count * dayMicros)
  | .w => Temporal.plus cursor (step.count * (7 * dayMicros))
  | .mo => addMonths cursor step.count
  | .y => addMonths cursor (step.count * 12)

end Temporal

/-! ### Chunks -/

section Plan
variable (u : Unicode) (iso : IsoReader) (scopeSha256 : PortableRangeScope → Str)
  (spec : BackfillChunkSpec) (runKey : Str)

/-- The literals of a timestamp chunk: `_timestamp_literal_kind` and the two constructions. -/
def timestampLiterals (lower upper : DateTime) :
    Except PyError (PortableLiteral × PortableLiteral) := do
  raiseIf (lower.offset.isSome ≠ upper.offset.isSome)
    (.valueError "backfill.chunk timestamp boundaries must use the same timezone form")
  let literal := if lower.offset.isSome then PortableLiteral.makeTimestamptz
    else PortableLiteral.makeTimestamp
  let lower ← literal lower
  let upper ← literal upper
  return (lower, upper)

/-- The literals of a chunk's boundary texts. -/
def boundLiterals (start stop : Str) : Except PyError (PortableLiteral × PortableLiteral) :=
  match spec.kind with
  | .integer => do
    let a ← parseInt u start
    let b ← parseInt u stop
    return (.integer a, .integer b)
  | .date => do
    let a ← iso.date start
    let b ← iso.date stop
    return (.date a, .date b)
  | _ => do
    let a ← iso.datetime start
    let b ← iso.datetime stop
    timestampLiterals a b

/-- `build_backfill_chunk_scope`. -/
def buildBackfillChunkScope (start stop : Str) : Except PyError PortableRangeScope := do
  let (lower, upper) ← boundLiterals u iso spec start stop
  PortableRangeScope.make spec.column (some { value := lower, inclusive := true })
    (some { value := upper, inclusive := decide (spec.kind = .integer) })

/-- The chunk of a scope. -/
def chunkOf (index : ℕ) (start stop : Str) (scope : PortableRangeScope) : BackfillChunk where
  index := index
  start := start
  stop := stop
  portableScope := scope
  idempotencyKey := runKey ++ [':'] ++ decimalText index ++ ":scope:".toList ++ scopeSha256 scope

/-- `_chunk`. -/
def planChunk (index : ℕ) (start stop : Str) : Except PyError BackfillChunk := do
  let scope ← buildBackfillChunkScope u iso spec start stop
  return chunkOf scopeSha256 runKey index start stop scope

/-- One turn of `_integer_chunks`. -/
def integerPiece (stop : ℤ) (count : ℕ) (index : ℕ) (cursor : ℤ) :
    Except PyError (BackfillChunk × ℤ) := do
  let chunkEnd := min (cursor + count - 1) stop
  let chunk ← planChunk u iso scopeSha256 spec runKey index (intText cursor) (intText chunkEnd)
  return (chunk, chunkEnd + 1)

/-- `_integer_chunks`. -/
def integerChunks (step : BackfillStep) (fuel : ℕ) : Option (Except PyError (List BackfillChunk)) :=
  match parseInt u spec.start, parseInt u spec.stop with
  | .ok cursor, .ok stop =>
    sweep (fun cursor => decide (stop < cursor))
      (integerPiece u iso scopeSha256 spec runKey stop step.count) fuel 1 cursor
  | .error e, _ => some (.error e)
  | .ok _, .error e => some (.error e)

/-- One turn of `_temporal_chunks`. -/
def temporalPiece {T : Type} [Temporal T] (render : T → Str) (endExclusive : T)
    (step : BackfillStep) (index : ℕ) (cursor : T) : Except PyError (BackfillChunk × T) := do
  let advanced ← advance cursor step
  let windowEnd := if Temporal.place endExclusive < Temporal.place advanced then endExclusive
    else advanced
  let chunk ← planChunk u iso scopeSha256 spec runKey index (render cursor) (render windowEnd)
  return (chunk, windowEnd)

/-- `_temporal_chunks`. -/
def temporalChunks {T : Type} [Temporal T] (render : T → Str) (endExclusive : T)
    (step : BackfillStep) (fuel : ℕ) (cursor : T) :
    Option (Except PyError (List BackfillChunk)) :=
  sweep (fun cursor => decide (Temporal.place endExclusive ≤ Temporal.place cursor))
    (temporalPiece u iso scopeSha256 spec runKey render endExclusive step) fuel 1 cursor

/-- The date branch of `plan_chunks`. -/
def dateChunks (step : BackfillStep) (fuel : ℕ) : Option (Except PyError (List BackfillChunk)) :=
  let bounds : Except PyError (Date × Date) := do
    let cursor ← iso.date spec.start
    let last ← iso.date spec.stop
    let endExclusive ← Temporal.plus last dayMicros
    return (cursor, endExclusive)
  match bounds with
  | .ok (cursor, endExclusive) => temporalChunks u iso scopeSha256 spec runKey Date.isoformat
      endExclusive step fuel cursor
  | .error e => some (.error e)

/-- The timestamp branch of `plan_chunks`. -/
def timestampChunks (step : BackfillStep) (fuel : ℕ) :
    Option (Except PyError (List BackfillChunk)) :=
  match iso.datetime spec.start, iso.datetime spec.stop with
  | .ok cursor, .ok endExclusive => temporalChunks u iso scopeSha256 spec runKey
      (DateTime.isoformat ' ') endExclusive step fuel cursor
  | .error e, _ => some (.error e)
  | .ok _, .error e => some (.error e)

/-- `UUID(int=n)`. -/
def uuidOfInt (n : ℕ) : Except PyError (Fin (2 ^ 128)) :=
  if h : n < 2 ^ 128 then .ok ⟨n, h⟩
  else .error (.valueError "int is out of range (need a 128-bit value)")

/-- `str(uuid)`. -/
def uuidText (n : Fin (2 ^ 128)) : Str :=
  let hex := numeral 16 32 n
  hex.take 8 ++ ['-'] ++ (hex.drop 8).take 4 ++ ['-'] ++ (hex.drop 12).take 4 ++ ['-'] ++
    (hex.drop 16).take 4 ++ ['-'] ++ hex.drop 20

/-- One turn of `_uuid_chunks`. -/
def uuidPiece (buckets offset : ℕ) : Except PyError BackfillChunk := do
  let isLast := decide (offset = buckets - 1)
  let lower ← uuidOfInt (offset * 2 ^ 128 / buckets)
  let upper ← uuidOfInt (if isLast then 2 ^ 128 - 1 else (offset + 1) * 2 ^ 128 / buckets)
  let scope ← PortableRangeScope.make spec.column
    (some { value := .uuid lower, inclusive := true })
    (some { value := .uuid upper, inclusive := isLast })
  return chunkOf scopeSha256 runKey (offset + 1) (uuidText lower) (uuidText upper) scope

/-- `_uuid_chunks`. -/
def uuidChunks : Except PyError (List BackfillChunk) :=
  match spec.buckets with
  | none => .error (.valueError "backfill.chunk.kind=uuid requires buckets")
  | some buckets => (List.range buckets).mapM (uuidPiece scopeSha256 spec runKey buckets)

def tooManyChunks (count : ℕ) : PyError :=
  .valueError (s!"backfill would produce {count} chunks, above max_chunks={spec.maxChunks}; " ++
    "increase backfill.max_chunks or use a larger step")

/-- The last check of `plan_chunks`. -/
def limitChunks (chunks : List BackfillChunk) : Except PyError (List BackfillChunk) :=
  if spec.maxChunks < chunks.length then .error (tooManyChunks spec chunks.length)
  else .ok chunks

/-- The chunks before the check. -/
def unlimitedChunks (fuel : ℕ) : Option (Except PyError (List BackfillChunk)) :=
  if spec.kind = .uuid then some (uuidChunks scopeSha256 spec runKey)
  else match parseStep u spec.step spec.kind with
    | .error e => some (.error e)
    | .ok step =>
      match spec.kind with
      | .integer => integerChunks u iso scopeSha256 spec runKey step fuel
      | .date => dateChunks u iso scopeSha256 spec runKey step fuel
      | _ => timestampChunks u iso scopeSha256 spec runKey step fuel

/-- `plan_chunks`. -/
def planChunks (fuel : ℕ) : Option (Except PyError (List BackfillChunk)) :=
  (unlimitedChunks u iso scopeSha256 spec runKey fuel).map (· >>= limitChunks spec)

end Plan

end Dpone.Backfill

/-! A chunk plan covers the configured range exactly.

    Every turn of a plan's loop makes a chunk from the cursor to the next cursor, which is further
    on and not past the end; so the loop ends, and unless a turn raises the chunks meet end to end
    over the whole range. A turn raises for the column, or because a date leaves the calendar. -/

namespace Dpone.Backfill
open Dpone.Schemes Dpone.Contracts

/-! ### What a plan is for -/

section Definitions
variable (u : Unicode) (iso : IsoReader) (spec : BackfillChunkSpec)

/-- The configured range, in the convention of each kind: integers and dates up to and including
    the last one, half-open timestamps, all UUIDs. -/
def BackfillChunkSpec.Configured (v : PortableLiteral) : Prop :=
  match spec.kind with
  | .integer => ∃ a b n, parseInt u spec.start = .ok a ∧ parseInt u spec.stop = .ok b ∧
      v = .integer n ∧ a ≤ n ∧ n ≤ b
  | .date => ∃ a b d, iso.date spec.start = .ok a ∧ iso.date spec.stop = .ok b ∧
      v = .date d ∧ a.toordinal ≤ d.toordinal ∧ d.toordinal ≤ b.toordinal
  | .timestamp => ∃ a b, iso.datetime spec.start = .ok a ∧ iso.datetime spec.stop = .ok b ∧
      v.kind = (if a.offset.isSome then .timestamptz else .timestamp) ∧
      a.instant ≤ v.place ∧ v.place < b.instant
  | .uuid => v.kind = .uuid

def BackfillChunkSpec.PositiveStep : Prop :=
  spec.kind = .uuid ∨ ∃ step, parseStep u spec.step spec.kind = .ok step ∧ 0 < step.count

/-- Chunks numbered from one that hold a set of values, each value once, in order and without a
    gap between neighbours. -/
structure Covers (range : PortableLiteral → Prop) (chunks : List BackfillChunk) : Prop where
  numbered : chunks.map (·.index) = List.range' 1 chunks.length
  increasing : chunks.Pairwise fun p q =>
    ∀ v w, p.portableScope.Holds v → q.portableScope.Holds w → v.place < w.place
  disjoint : chunks.Pairwise fun p q =>
    ∀ v, ¬ (p.portableScope.Holds v ∧ q.portableScope.Holds v)
  contiguous : chunks.IsChain fun p q => p.portableScope.Meets q.portableScope
  union : ∀ v, (∃ c ∈ chunks, c.portableScope.Holds v) ↔ range v

/-- Why a plan raises: too many chunks, a column that is not portable, more buckets than UUIDs, or a
    date of the plan outside the calendar. -/
inductive PlanFailure : PyError → Prop
  | tooMany (chunks : List BackfillChunk) : Covers (spec.Configured u iso) chunks →
      spec.maxChunks < chunks.length → PlanFailure (tooManyChunks spec chunks.length)
  | column : ¬ PortableIdentifier spec.column → PlanFailure (identifierError spec.column)
  | buckets {e : PyError} (buckets : ℕ) : spec.kind = .uuid → spec.buckets = some buckets →
      2 ^ 128 < buckets → PlanFailure e
  | lastDay {e : PyError} (last : Date) : spec.kind = .date → iso.date spec.stop = .ok last →
      Temporal.plus last (dayMicros : ℤ) = .error e → PlanFailure e
  | dateStep {e : PyError} (cursor : Date) (step : BackfillStep) : spec.kind = .date →
      parseStep u spec.step spec.kind = .ok step → spec.Configured u iso (.date cursor) →
      advance cursor step = .error e → PlanFailure e
  | timestampStep {e : PyError} (a b cursor : DateTime) (step : BackfillStep) :
      spec.kind = .timestamp → iso.datetime spec.start = .ok a → iso.datetime spec.stop = .ok b →
      parseStep u spec.step spec.kind = .ok step → a.instant ≤ cursor.instant →
      cursor.instant < b.instant → advance cursor step = .error e → PlanFailure e
  | utc {e : PyError} (a b t : DateTime) : spec.kind = .timestamp →
      iso.datetime spec.start = .ok a → iso.datetime spec.stop = .ok b →
      a.instant ≤ t.instant → t.instant ≤ b.instant →
      PortableLiteral.makeTimestamptz t = .error e → PlanFailure e

end Definitions

/-! ### Calendar steps move forward -/

section Temporal
variable {T : Type} [Temporal T]

theorem addMonths_lt {cursor next : T} {months : ℕ} (hpos : 0 < months)
    (h : addMonths cursor months = .ok next) : Temporal.place cursor < Temporal.place next := by
  obtain ⟨length, -, h⟩ := bind_ok.mp h
  obtain ⟨replaced, hreplaced, h⟩ := bind_ok.mp h
  cases h
  refine Temporal.withDate_lt ?_
  obtain ⟨hyear, hmonth, -⟩ := Date.make_ok hreplaced
  obtain ⟨⟨hy, _⟩, ⟨hm, hm'⟩, _, hd⟩ := (Temporal.date cursor).valid
  obtain ⟨⟨hy', _⟩, ⟨hn, hn'⟩, hd', _⟩ := replaced.valid
  exact ymdOrdinal_lt hy hm hm' hd hy' hn hn' hd' (by omega)

/-- STEP: a positive step goes forward, given that hours are not below the grain. -/
theorem advance_lt {cursor next : T} {step : BackfillStep} (hpos : 0 < step.count)
    (hgrain : step.unit = some .h → Temporal.grain T ≤ 3600000000)
    (h : advance cursor step = .ok next) : Temporal.place cursor < Temporal.place next := by
  have hday := Temporal.grain_le (T := T)
  unfold advance at h
  cases hunit : step.unit with
  | none =>
    rw [hunit] at h
    exact Temporal.plus_lt (by nlinarith) h
  | some unit =>
    rw [hunit] at h
    cases unit with
    | h =>
      have := hgrain hunit
      exact Temporal.plus_lt (by nlinarith) h
    | d => exact Temporal.plus_lt (by nlinarith) h
    | w => exact Temporal.plus_lt (by nlinarith) h
    | mo => exact addMonths_lt hpos h
    | y => exact addMonths_lt (by omega) h

end Temporal

/-- FRAME: a step keeps the offset. -/
theorem advance_offset {cursor next : DateTime} {step : BackfillStep}
    (h : advance cursor step = .ok next) : next.offset = cursor.offset := by
  have hmonths : ∀ {months : ℕ}, addMonths cursor months = .ok next →
      next.offset = cursor.offset := by
    intro months h
    obtain ⟨length, -, h⟩ := bind_ok.mp h
    obtain ⟨replaced, -, h⟩ := bind_ok.mp h
    cases h
    rfl
  unfold advance at h
  split at h
  · exact (DateTime.withLocal_ok h).2
  · exact (DateTime.withLocal_ok h).2
  · exact (DateTime.withLocal_ok h).2
  · exact hmonths h
  · exact hmonths h

/-! ### Chunks between their bounds -/

/-- The first place of a chunk. -/
def BackfillChunk.floor (c : BackfillChunk) : ℤ := (c.portableScope.lower.map (·.floor)).getD 0

/-- The first place past a chunk. -/
def BackfillChunk.ceiling (c : BackfillChunk) : ℤ := (c.portableScope.upper.map (·.ceiling)).getD 0

/-- A chunk of a kind with both bounds, the lower one inclusive. -/
def Bounded (kind : PortableLiteralKind) (c : BackfillChunk) : Prop :=
  ∃ lower upper, c.portableScope.lower = some lower ∧ c.portableScope.upper = some upper ∧
    lower.value.kind = kind ∧ lower.inclusive = true

section Bounded
variable {kind : PortableLiteralKind} {c d : BackfillChunk}

theorem Bounded.holds_iff (h : Bounded kind c) (v : PortableLiteral) :
    c.portableScope.Holds v ↔ v.kind = kind ∧ c.floor ≤ v.place ∧ v.place < c.ceiling := by
  obtain ⟨lower, upper, hlower, hupper, hkind, -⟩ := h
  rw [PortableRangeScope.holds_iff hlower hupper, hkind, BackfillChunk.floor,
    BackfillChunk.ceiling, hlower, hupper]
  exact and_congr_left' eq_comm

theorem Bounded.floor_lt (h : Bounded kind c) : c.floor < c.ceiling := by
  obtain ⟨lower, upper, hlower, hupper, -, hclosed⟩ := h
  rw [BackfillChunk.floor, BackfillChunk.ceiling, hlower, hupper]
  exact PortableRangeScope.floor_lt_ceiling hlower hupper hclosed

theorem Bounded.meets (hc : Bounded kind c) (hd : Bounded kind d) (h : c.ceiling = d.floor) :
    c.portableScope.Meets d.portableScope := by
  obtain ⟨lower, upper, hlower, hupper, hkind, -⟩ := hc
  obtain ⟨next, _, hnext, -, hkind', -⟩ := hd
  have hvalid := c.portableScope.nonempty
  rw [hlower, hupper] at hvalid
  refine ⟨upper, hupper, next, hnext, ?_, ?_⟩
  · rw [← hvalid.1, hkind, hkind']
  · rwa [BackfillChunk.ceiling, BackfillChunk.floor, hupper, hnext] at h

/-- CORRECT: chunks that meet end to end, numbered from one, cover the places between the ends. -/
theorem covers_of_chain {a b : ℤ} {chunks : List BackfillChunk} {range : PortableLiteral → Prop}
    (hchain : Chain BackfillChunk.floor BackfillChunk.ceiling a b chunks)
    (hnumbers : chunks.map (·.index) = List.range' 1 chunks.length)
    (hall : ∀ c ∈ chunks, Bounded kind c)
    (hrange : ∀ v, range v ↔ v.kind = kind ∧ a ≤ v.place ∧ v.place < b) :
    Covers range chunks := by
  have hincreasing : chunks.Pairwise fun p q =>
      ∀ v w, p.portableScope.Holds v → q.portableScope.Holds w → v.place < w.place := by
    refine hchain.pairwise.imp_of_mem fun {p q} hp hq hpq v w hv hw => ?_
    obtain ⟨-, -, hv⟩ := ((hall p hp).holds_iff v).mp hv
    obtain ⟨-, hw, -⟩ := ((hall q hq).holds_iff w).mp hw
    omega
  refine ⟨hnumbers, hincreasing, ?_, ?_, ?_⟩
  · exact hincreasing.imp fun h v ⟨hp, hq⟩ => lt_irrefl _ (h v v hp hq)
  · exact hchain.meets.imp_of_mem_imp fun p q hp hq h => (hall p hp).meets (hall q hq) h
  · intro v
    rw [hrange, ← hchain.mem_iff v.place]
    constructor
    · rintro ⟨c, hc, hv⟩
      obtain ⟨hkind, hplace⟩ := ((hall c hc).holds_iff v).mp hv
      exact ⟨hkind, c, hc, hplace⟩
    · rintro ⟨hkind, c, hc, hplace⟩
      exact ⟨c, hc, ((hall c hc).holds_iff v).mpr ⟨hkind, hplace⟩⟩

end Bounded

/-! ### What a chunk is made of -/

section Chunk
variable {u : Unicode} {iso : IsoReader} {scopeSha256 : PortableRangeScope → Str}
  {spec : BackfillChunkSpec} {runKey : Str}

/-- CORRECT: a chunk from two literals lies between them. -/
theorem planChunk_ok {index : ℕ} {start stop : Str} {lower upper : PortableLiteral}
    {c : BackfillChunk} (hbounds : boundLiterals u iso spec start stop = .ok (lower, upper))
    (h : planChunk u iso scopeSha256 spec runKey index start stop = .ok c) :
    (Bounded lower.kind c ∧ c.index = index) ∧ c.floor = lower.place ∧
      c.ceiling = upper.place + if spec.kind = .integer then 1 else 0 := by
  obtain ⟨scope, hscope, hc⟩ := bind_ok.mp h
  cases hc
  rw [buildBackfillChunkScope, hbounds] at hscope
  obtain ⟨-, hlower, hupper⟩ := PortableRangeScope.make_ok hscope
  refine ⟨⟨⟨_, _, hlower, hupper, rfl, rfl⟩, rfl⟩, ?_, ?_⟩
  · simp [BackfillChunk.floor, chunkOf, hlower, PortableRangeBound.floor]
  · simp [BackfillChunk.ceiling, chunkOf, hupper, PortableRangeBound.ceiling]

/-- A chunk from two literals in order raises only for its column. -/
theorem planChunk_error {index : ℕ} {start stop : Str} {lower upper : PortableLiteral}
    {e : PyError} (hbounds : boundLiterals u iso spec start stop = .ok (lower, upper))
    (hkind : lower.kind = upper.kind)
    (hplace : lower.place < upper.place ∨ lower.place = upper.place ∧ spec.kind = .integer)
    (h : planChunk u iso scopeSha256 spec runKey index start stop = .error e) :
    PlanFailure u iso spec e := by
  have hvalid : ValidRange (some { value := lower, inclusive := true })
      (some { value := upper, inclusive := decide (spec.kind = .integer) }) :=
    ⟨hkind, hplace.imp_right fun ⟨heq, hint⟩ => ⟨heq, rfl, decide_eq_true hint⟩⟩
  rcases bind_error.mp h with hscope | ⟨scope, -, hscope⟩
  · rw [buildBackfillChunkScope, hbounds] at hscope
    obtain ⟨hcolumn, rfl⟩ := PortableRangeScope.make_error hscope hvalid
    exact .column hcolumn
  · cases hscope

end Chunk

end Dpone.Backfill
