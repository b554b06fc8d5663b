import Dpone.Schemes.Grid
import Dpone.Schemes.IsoText
import Dpone.Schemes.Records

/-! Rolling windows: a declared lookback, frozen at an anchor instant into a half-open UTC interval
    with the boundaries of its chunks.

    Durations are in microseconds, the resolution of a timedelta. `_duration` computes them with
    `Decimal`, whose 28 digits hold every duration that a timedelta takes. -/

namespace Dpone.BoundedWindow
open Dpone.Schemes

/-- `_IDENTIFIER`. -/
def isIdentifier : Str → Bool
  | [] => false
  | c :: cs => (c.isAlpha || c = '_') && cs.all fun d => d.isAlphanum || d = '_'

def maxChunks : ℕ := 100000

section Durations
variable (u : Unicode)

/-- `(?:(\d+)D)?`, with the letter of the unit. -/
def unitGroup (unit : Char) (s : Str) : Option ℕ × Str :=
  match digits u s with
  | some (n, c :: rest) => if c = unit then (some n, rest) else (none, s)
  | _ => (none, s)

/-- `(?:(\d+(?:\.\d{1,6})?)S)?`, in microseconds. -/
def secondsGroup (s : Str) : Option ℕ × Str :=
  match digits u s with
  | some (n, 'S' :: rest) => (some (n * 1000000), rest)
  | some (n, '.' :: fraction) =>
    let ds := fraction.takeWhile fun c => (u.digit c).isSome
    match fraction.drop ds.length with
    | 'S' :: rest =>
      if 1 ≤ ds.length ∧ ds.length ≤ 6 then
        (some (n * 1000000 + digitsValue u ds * 10 ^ (6 - ds.length)), rest)
      else (none, s)
    | _ => (none, s)
  | _ => (none, s)

/-- The groups of `_DURATION`; the seconds in microseconds. -/
structure DurationGroups where
  days : Option ℕ
  hours : Option ℕ
  minutes : Option ℕ
  seconds : Option ℕ

/-- `_DURATION.fullmatch(value)`. -/
def matchDuration (value : Str) : Option DurationGroups := do
  let s ← lit 'P' value
  let (days, s) := unitGroup u 'D' s
  if s = [] then return ⟨days, none, none, none⟩
  else
    let s ← lit 'T' s
    let (hours, s) := unitGroup u 'H' s
    let (minutes, s) := unitGroup u 'M' s
    let (seconds, s) := secondsGroup u s
    if s = [] then return ⟨days, hours, minutes, seconds⟩ else none

/-- `any(match.groups())`. -/
def DurationGroups.any (g : DurationGroups) : Bool :=
  g.days.isSome || g.hours.isSome || g.minutes.isSome || g.seconds.isSome

def DurationGroups.micros (g : DurationGroups) : ℕ :=
  (g.days.getD 0 * 86400 + g.hours.getD 0 * 3600 + g.minutes.getD 0 * 60) * 1000000 +
    g.seconds.getD 0

/-- `timedelta.max`, in microseconds. -/
def maxTimedelta : ℕ := 1000000000 * dayMicros - 1

/-- `_duration`. -/
def duration (value : Str) : Except PyError ℕ :=
  match matchDuration u value with
  | none => .error (.valueError
      "rolling_window_duration_invalid: use a positive fixed ISO-8601 duration")
  | some g =>
    if ¬ g.any ∨ value.getLast? = some 'T' then .error (.valueError
      "rolling_window_duration_invalid: use a positive fixed ISO-8601 duration")
    else if g.micros = 0 then .error (.valueError "rolling_window_duration_nonpositive")
    else if maxTimedelta < g.micros then
      .error (.valueError "rolling_window_duration_out_of_range")
    else .ok g.micros

theorem duration_pos {value : Str} {us : ℕ} (h : duration u value = .ok us) : 0 < us := by
  unfold duration at h
  split at h
  · cases h
  · split_ifs at h
    cases h
    omega

/-- TOTAL: a matched text with a group is a duration when it is positive and not too long. -/
theorem duration_of_match {value : Str} {g : DurationGroups} (h : matchDuration u value = some g)
    (hany : g.any = true) (hend : value.getLast? ≠ some 'T') (hpos : 0 < g.micros)
    (hmax : g.micros ≤ maxTimedelta) : duration u value = .ok g.micros := by
  have hneither : ¬ (¬ g.any ∨ value.getLast? = some 'T') := by simp [hany, hend]
  simp only [duration, h, if_neg hneither, if_neg hpos.ne', if_neg (Nat.not_lt.mpr hmax)]

end Durations

/-! ### Anchors -/

/-- What a caller may put where an instant is expected. -/
inductive AnchorValue where
  | text (s : Str)
  | datetime (t : DateTime)
  | other

section Anchors
variable (u : Unicode) (iso : IsoReader)

/-- `\d{n}`. -/
def digitRun (n : ℕ) (s : Str) : Option Str :=
  if n ≤ s.length ∧ (s.take n).all fun c => (u.digit c).isSome then some (s.drop n) else none

/-- One character of a class. -/
def oneOf (chars : List Char) : Str → Option Str
  | c :: rest => if c ∈ chars then some rest else none
  | [] => none

/-- `(?:\.\d{1,6})?`; no digit can follow the group. -/
def fractionRun : Str → Option Str
  | '.' :: fraction =>
    let n := (fraction.takeWhile fun c => (u.digit c).isSome).length
    if 1 ≤ n ∧ n ≤ 6 then some (fraction.drop n) else none
  | s => some s

/-- `(?:Z|[+-]\d{2}:\d{2})`. -/
def zoneRun : Str → Option Str
  | 'Z' :: rest => some rest
  | s => do
    let s ← digitRun u 2 (← oneOf ['+', '-'] s)
    digitRun u 2 (← lit ':' s)

/-- The pattern of an anchor text. -/
def anchorPattern (value : Str) : Bool :=
  let read : Option Str := do
    let s ← digitRun u 4 value
    let s ← digitRun u 2 (← lit '-' s)
    let s ← digitRun u 2 (← lit '-' s)
    let s ← digitRun u 2 (← oneOf ['T', ' '] s)
    let s ← digitRun u 2 (← lit ':' s)
    let s ← digitRun u 2 (← lit ':' s)
    zoneRun u (← fractionRun u s)
  read = some []

/-- `value.replace("Z", "+00:00")`. -/
def replaceZ (value : Str) : Str :=
  value.flatMap fun c => if c = 'Z' then "+00:00".toList else [c]

/-- The parsing of an anchor text. -/
def readAnchor (value : Str) : Except PyError DateTime :=
  if anchorPattern u value then
    match iso.datetime (replaceZ value) with
    | .error (.valueError _) => .error (.valueError "rolling_window_anchor_invalid")
    | read => read
  else .error (.valueError
    "rolling_window_anchor_invalid: require an exact timezone-aware timestamp")

def anchorRequired : PyError :=
  .valueError "rolling_window_anchor_required: provide timezone-aware data_interval_end"

/-- The end of `_anchor`: an aware date-time, taken to UTC. -/
def anchorUtc (t : DateTime) : Except PyError DateTime :=
  if t.offset = none then .error anchorRequired else t.toUtc

/-- `_anchor`. -/
def anchor : AnchorValue → Except PyError DateTime
  | .text s => do anchorUtc (← readAnchor u iso s)
  | .datetime t => anchorUtc t
  | .other => .error anchorRequired

end Anchors

/-! ### Frozen windows -/

/-- `any(left >= right for left, right in zip(boundaries, boundaries[1:]))`. -/
def anyOutOfOrder (boundaries : List DateTime) : Bool :=
  (boundaries.zip boundaries.tail).any fun pair => pair.2.instant ≤ pair.1.instant

/-- Boundaries are in order when each is before the next. -/
theorem inOrder_iff {boundaries : List DateTime} : anyOutOfOrder boundaries = false ↔
    ∀ i a b, boundaries[i]? = some a → boundaries[i + 1]? = some b → a.instant < b.instant := by
  simp only [anyOutOfOrder, List.any_eq_false, decide_eq_true_eq, not_le]
  constructor
  · intro h i a b ha hb
    refine h (a, b) (List.mem_iff_getElem?.mpr ⟨i, ?_⟩)
    rw [List.getElem?_zip_eq_some]
    exact ⟨ha, by rwa [List.getElem?_tail]⟩
  · rintro h ⟨a, b⟩ hmem
    obtain ⟨i, hi⟩ := List.mem_iff_getElem?.mp hmem
    rw [List.getElem?_zip_eq_some, List.getElem?_tail] at hi
    exact h i a b hi.1 hi.2

/-- What a frozen window has been checked for. -/
structure FrozenRollingWindow.Valid (column : Str) (start stop : DateTime)
    (boundaries : List DateTime) : Prop where
  column : isIdentifier column = true
  utc : ∀ t ∈ start :: stop :: boundaries, t.offset = some 0
  count : 2 ≤ boundaries.length ∧ boundaries.length ≤ maxChunks + 1
  first : boundaries.head?.map DateTime.instant = some start.instant
  last : boundaries.getLast?.map DateTime.instant = some stop.instant
  increasing : anyOutOfOrder boundaries = false

/-- An immutable half-open interval in UTC. -/
structure FrozenRollingWindow where
  column : Str
  start : DateTime
  stop : DateTime
  boundaries : List DateTime
  valid : FrozenRollingWindow.Valid column start stop boundaries

instance (column : Str) (start stop : DateTime) (boundaries : List DateTime) :
    Decidable (FrozenRollingWindow.Valid column start stop boundaries) :=
  decidable_of_iff (isIdentifier column = true ∧
      (∀ t ∈ start :: stop :: boundaries, t.offset = some 0) ∧
      (2 ≤ boundaries.length ∧ boundaries.length ≤ maxChunks + 1) ∧
      boundaries.head?.map DateTime.instant = some start.instant ∧
      boundaries.getLast?.map DateTime.instant = some stop.instant ∧
      anyOutOfOrder boundaries = false)
    ⟨fun ⟨a, b, c, d, e, f⟩ => ⟨a, b, c, d, e, f⟩, fun ⟨a, b, c, d, e, f⟩ => ⟨a, b, c, d, e, f⟩⟩

section Windows
variable (u : Unicode) (iso : IsoReader)

def boundariesInvalid : PyError := .valueError "rolling_window_boundaries_invalid"

/-- The constructor. The last check repeats the earlier ones, which hold by then: a window carries
    all of them. -/
def FrozenRollingWindow.make (column : Str) (start stop : AnchorValue)
    (boundaries : List AnchorValue) : Except PyError FrozenRollingWindow := do
  raiseIf (¬ isIdentifier column) (.valueError "rolling_window_column_invalid")
  let start ← anchor u iso start
  let stop ← anchor u iso stop
  raiseIf (¬ (2 ≤ boundaries.length ∧ boundaries.length ≤ maxChunks + 1)) boundariesInvalid
  let boundaries ← boundaries.mapM (anchor u iso)
  if h : FrozenRollingWindow.Valid column start stop boundaries then
    return ⟨column, start, stop, boundaries, h⟩
  else throw boundariesInvalid

/-- A declared window. -/
structure RollingWindowSpec where
  column : Str
  lookback : Str
  chunkInterval : Str
  anchor : Str
  timezone : Str
  column_identifier : isIdentifier column = true
  context_supported : anchor = "data_interval_end".toList ∧ timezone = "UTC".toList
  lookback_duration : ∃ us, duration u lookback = .ok us
  chunk_duration : ∃ us, duration u chunkInterval = .ok us

/-- The constructor. -/
def RollingWindowSpec.make (column lookback chunkInterval anchor timezone : Str) :
    Except PyError (RollingWindowSpec u) :=
  if hcolumn : isIdentifier column then
    if hcontext : anchor = "data_interval_end".toList ∧ timezone = "UTC".toList then
      match hlookback : duration u lookback with
      | .error e => .error e
      | .ok us =>
        match hchunk : duration u chunkInterval with
        | .error e => .error e
        | .ok us' => .ok ⟨column, lookback, chunkInterval, anchor, timezone, hcolumn, hcontext,
            ⟨us, hlookback⟩, ⟨us', hchunk⟩⟩
    else .error (.valueError
      "rolling_window_context_unsupported: require data_interval_end and UTC")
  else .error (.valueError "rolling_window_column_invalid: use one unqualified identifier")

/-- `except OverflowError`. -/
def boundsInRange {α : Type} : Except PyError α → Except PyError α
  | .error .overflowError => .error (.valueError "rolling_window_bounds_out_of_range")
  | bounds => bounds

/-- The start and the boundaries. Adding a timedelta keeps to UTC. -/
def freezeBounds (stop : DateTime) (lookback chunk count : ℕ) :
    Except PyError (DateTime × List DateTime) := do
  let start ← stop.withLocal (stop.localMicros - lookback)
  let inner ← (List.range count).mapM fun i : ℕ =>
    start.withLocal (start.localMicros + (i * chunk : ℕ))
  return (start, inner ++ [stop])

/-- `freeze`; the context answers `other` for what it does not hold. -/
def RollingWindowSpec.freeze {u : Unicode} (spec : RollingWindowSpec u)
    (context : Str → AnchorValue) : Except PyError FrozenRollingWindow := do
  let stop ← BoundedWindow.anchor u iso (context spec.anchor)
  let lookback ← duration u spec.lookback
  let chunk ← duration u spec.chunkInterval
  let count := lookback / chunk + if lookback % chunk = 0 then 0 else 1
  raiseIf (maxChunks < count)
    (.valueError "rolling_window_chunk_count_exceeded: increase chunk_interval")
  let (start, boundaries) ← boundsInRange (freezeBounds stop lookback chunk count)
  FrozenRollingWindow.make u iso spec.column (.datetime start) (.datetime stop)
    (boundaries.map .datetime)

end Windows

end Dpone.BoundedWindow
