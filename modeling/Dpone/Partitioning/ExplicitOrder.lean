import Dpone.Partitioning.ExplicitRanges
import Dpone.Partitioning.SourceOrder
import Dpone.Schemes.Ranges
import Dpone.Schemes.Records

/-! Explicit ranges in the order of the source.

    Neighbours are compared, and nothing else is, so the partitions are disjoint in pairs where
    every comparison that is made comes out as the source's would. A run can go wrong at a bound
    that cannot be read and at two bounds that cannot be compared; both are named here, and only
    where the run gets to them. -/

namespace Dpone.Partitioning
open Dpone.Schemes

/-- The readers of ISO texts raise nothing but `ValueError`. -/
structure RaisesValueError (iso : IsoReader) : Prop where
  date : ∀ {s : Str} {e : PyError}, iso.date s = .error e → ∃ text, e = .valueError text
  datetime : ∀ {s : Str} {e : PyError}, iso.datetime s = .error e → ∃ text, e = .valueError text

theorem extended_raises : RaisesValueError IsoReader.extended where
  date {s e} h := by
    rw [IsoReader.extended] at h
    dsimp only at h
    rw [readIsoDate] at h
    split at h
    · cases h
    · cases h
      exact ⟨_, rfl⟩
  datetime {s e} h := by
    rw [IsoReader.extended] at h
    dsimp only [readIsoDateTime] at h
    split at h
    · cases h
    · cases h
      exact ⟨_, rfl⟩

/-! ### Only `ValueError` -/

def OnlyValueErrors {α : Type} (x : Except BoundError α) : Prop :=
  ∀ e, x = .error e → e.IsValueError

section OnlyValueErrors
variable {α β : Type}

theorem onlyValueErrors_ok (a : α) : OnlyValueErrors (.ok a) := nofun

theorem onlyValueErrors_refuse (text : String) :
    OnlyValueErrors (.error (boundValueError text) : Except BoundError α) := by
  rintro e ⟨⟩
  exact ⟨text, rfl⟩

theorem onlyValueErrors_bind {x : Except BoundError α} {f : α → Except BoundError β} :
    OnlyValueErrors (x >>= f) ↔ OnlyValueErrors x ∧ ∀ a, x = .ok a → OnlyValueErrors (f a) := by
  cases x with
  | error e => exact ⟨fun h => ⟨fun e' h' => h e' (Except.error.inj h' ▸ rfl), nofun⟩, fun h => by
      intro e' h'
      exact h.1 e' (Except.error.inj h' ▸ rfl)⟩
  | ok a =>
    refine ⟨fun h => ⟨nofun, ?_⟩, fun h => h.2 a rfl⟩
    rintro _ ⟨⟩
    exact h

theorem onlyValueErrors_refuseIf {p : Prop} [Decidable p] (text : String) :
    OnlyValueErrors (refuseIf p (boundValueError text)) := by
  rw [refuseIf]
  split
  · exact onlyValueErrors_refuse text
  · exact onlyValueErrors_ok ()

theorem onlyValueErrors_lifted {x : Except PyError α} :
    OnlyValueErrors (lifted x) ↔ ∀ e, x = .error e → ∃ text, e = .valueError text := by
  cases x with
  | ok a => exact ⟨nofun, nofun⟩
  | error e =>
    constructor
    · rintro h _ ⟨⟩
      obtain ⟨text, htext⟩ := h (.python e) rfl
      exact ⟨text, BoundError.python.inj htext⟩
    · rintro h _ ⟨⟩
      obtain ⟨text, rfl⟩ := h e rfl
      exact ⟨text, rfl⟩

theorem onlyValueErrors_failed (e : PyError) :
    OnlyValueErrors (lifted (.error e) : Except BoundError α) ↔ ∃ text, e = .valueError text := by
  refine onlyValueErrors_lifted.trans ⟨fun h => h e rfl, ?_⟩
  rintro h _ ⟨⟩
  exact h

end OnlyValueErrors

/-! ### Where the run gets to -/

section Run
variable (u : Unicode) (iso : IsoReader)

/-- The time that a bound is written as, before it is taken to UTC. -/
def writtenTime : BoundValue → Except PyError DateTime
  | .text s =>
    if 6 < fractionalScale u s then preciseForm u s true >>= fun form => iso.datetime form.2.1
    else parseDatetime u iso (.text s)
  | value => parseDatetime u iso value

/-- In UTC the time is in a year from 1 to 9999. -/
def InCalendar (t : DateTime) : Prop :=
  t.offset.isSome →
    (dayMicros : ℤ) ≤ t.instant ∧ t.instant < (Schemes.maxOrdinal + 1) * dayMicros

/-- A text that reads as a number. -/
def IsNumeral (text : Str) : Prop := integerForm u text ∨ (readDecimal u text).isSome

/-- Bounds that are read, or refused with a `ValueError`: under a numeric boundary numbers and
    numerals, and under one with offsets times in the calendar. -/
def Readable (kind : PartitionBoundKind) (value : BoundValue) : Prop :=
  match kind with
  | .numeric => value.isNumber ∨ IsNumeral u (strip u value.str)
  | .datetimeOffset => ∀ t, writtenTime u iso value = .ok t → InCalendar t
  | _ => True

variable (related : PartitionBound → PartitionBound → Prop)

/-- One range: both bounds readable, and what they are read as related. -/
def RangeReads (kind : PartitionBoundKind) (lower upper : BoundValue) : Prop :=
  Readable u iso kind lower ∧ ∀ a, normalizePartitionBound u iso kind lower = .ok a →
    Readable u iso kind upper ∧ ∀ b, normalizePartitionBound u iso kind upper = .ok b → related a b

/-- The ranges, up to the first one that is refused. -/
def RangesRead (kind : PartitionBoundKind) : Bool → List RangeItem → Prop
  | _, [] => True
  | nullSeen, item :: items => ¬ (item.null ∧ nullSeen) →
    if item.null ∧ item.lower.isNone ∧ item.upper.isNone then RangesRead kind true items
    else ∀ lower ∈ item.lower, ∀ upper ∈ item.upper,
      RangeReads u iso related kind lower upper ∧
        ((∃ r, readRange u iso kind lower upper item.includeLower item.includeUpper = .ok r) →
          RangesRead kind (nullSeen || item.null) items)

/-- The neighbours, up to the first two that are refused. -/
def NeighboursRead (policy : GapPolicy) : List ExplicitRange → Prop
  | previous :: current :: ranges => related previous.upper current.lower ∧
      (checkNeighbours policy previous current = .ok () → NeighboursRead policy (current :: ranges))
  | _ => True

end Run

/-- All bounds that are read are readable, and all that are compared are related. -/
structure WellCompared (u : Unicode) (iso : IsoReader)
    (related : PartitionBoundKind → PartitionBound → PartitionBound → Prop)
    (resolved : PartitioningOptions) : Prop where
  ranges : ∀ boundary, resolveBoundary u iso resolved.boundaryType (boundSamples resolved.ranges) =
    .ok boundary → RangesRead u iso (related boundary.kind) boundary.kind false resolved.ranges
  neighbours : ∀ boundary nullSeen ranges,
    resolveBoundary u iso resolved.boundaryType (boundSamples resolved.ranges) = .ok boundary →
    readRanges u iso boundary.kind false resolved.ranges = .ok (nullSeen, ranges) →
    NeighboursRead (related boundary.kind) resolved.gapPolicy ranges

/-! ### What is readable -/

theorem onlyValueErrors_map {α β : Type} {f : α → β} {x : Except BoundError α} :
    OnlyValueErrors (f <$> x) ↔ OnlyValueErrors x := by
  cases x <;> simp [OnlyValueErrors, Functor.map, Except.map]

theorem lifted_bind {α β : Type} (x : Except PyError α) (f : α → Except PyError β) :
    lifted (x >>= f) = lifted x >>= fun a => lifted (f a) := by
  cases x <;> rfl

theorem lifted_map {α β : Type} (f : α → β) (x : Except PyError α) :
    lifted (f <$> x) = f <$> lifted x := by
  cases x <;> rfl

theorem lifted_ok {α : Type} {x : Except PyError α} {a : α} : lifted x = .ok a ↔ x = .ok a := by
  cases x <;> simp [lifted, Except.mapError]

/-- `astimezone(utc)` overflows outside the calendar, and only there. -/
theorem toUtc_cases (t : DateTime) : ((∃ t', t.toUtc = .ok t') ∧ InCalendar t) ∨
    t.toUtc = .error .overflowError ∧ ¬ InCalendar t := by
  cases hoffset : t.offset with
  | none =>
    refine .inl ⟨⟨t, ?_⟩, fun h => ?_⟩
    · rw [DateTime.toUtc, hoffset]
    · rw [hoffset] at h
      cases h
  | some o =>
    have hsome : t.offset.isSome := by rw [hoffset]; rfl
    rw [DateTime.toUtc, hoffset]
    by_cases hin :
        (dayMicros : ℤ) ≤ t.instant ∧ t.instant < (Schemes.maxOrdinal + 1) * dayMicros
    · exact .inl ⟨DateTime.withLocal_total _ hin.1 hin.2, fun _ => hin⟩
    · refine .inr ⟨?_, fun h => hin (h hsome)⟩
      have hday : Date.ofOrdinal (t.instant / dayMicros) = .error .overflowError := by
        refine if_neg ?_
        simp only [dayMicros, Schemes.maxOrdinal] at hin ⊢
        omega
      rw [DateTime.withLocal, hday]

theorem onlyValueErrors_toUtc (t : DateTime) :
    OnlyValueErrors (lifted t.toUtc) ↔ InCalendar t := by
  rcases toUtc_cases t with ⟨⟨t', h⟩, hin⟩ | ⟨h, hout⟩
  · rw [h]
    exact ⟨fun _ => hin, fun _ => onlyValueErrors_ok t'⟩
  · rw [h]
    refine ⟨fun honly => ?_, fun hin => absurd hin hout⟩
    obtain ⟨text, htext⟩ := honly _ rfl
    cases htext

section Readable
variable {u : Unicode} {iso : IsoReader}

theorem onlyValueErrors_raiseIf {p : Prop} [Decidable p] (text : String) :
    OnlyValueErrors (lifted (raiseIf p (.valueError text))) := by
  rw [raiseIf]
  split
  · exact onlyValueErrors_refuse text
  · exact onlyValueErrors_ok ()

theorem preciseForm_onlyValueErrors (s : Str) (withOffset : Bool) :
    OnlyValueErrors (lifted (preciseForm u s withOffset)) := by
  rw [preciseForm]
  split
  · exact onlyValueErrors_refuse _
  · rw [lifted_bind]
    exact onlyValueErrors_bind.mpr ⟨onlyValueErrors_raiseIf _, fun _ _ => onlyValueErrors_ok _⟩

theorem datetime_onlyValueErrors (hiso : RaisesValueError iso) (s : Str) :
    OnlyValueErrors (lifted (iso.datetime s)) :=
  onlyValueErrors_lifted.mpr fun _ => hiso.datetime

theorem parseDatetime_onlyValueErrors (hiso : RaisesValueError iso) (value : BoundValue) :
    OnlyValueErrors (lifted (parseDatetime u iso value)) := by
  cases value with
  | datetime t => exact onlyValueErrors_ok t
  | date d => exact onlyValueErrors_ok _
  | _ => exact datetime_onlyValueErrors hiso _

theorem parseDate_onlyValueErrors (hiso : RaisesValueError iso) (value : BoundValue) :
    OnlyValueErrors (lifted (parseDate u iso value)) := by
  cases value with
  | datetime t => exact onlyValueErrors_ok t.date
  | date d => exact onlyValueErrors_ok d
  | _ => exact onlyValueErrors_lifted.mpr fun _ => hiso.date

theorem rowversion_onlyValueErrors (value : BoundValue) :
    OnlyValueErrors (lifted (rowversionToInt u value)) := by
  have hgiven : ∀ (n : Option ℤ) (base : ℕ) (s : Str), OnlyValueErrors
      (lifted ((n.map Except.ok).getD (.error (invalidLiteral base s)))) := by
    intro n base s
    cases n with
    | none => exact onlyValueErrors_refuse _
    | some n => exact onlyValueErrors_ok n
  have htext : ∀ s : Str, OnlyValueErrors (lifted (if "0x".toList.isPrefixOf (u.lower s) then
      ((pyHexInt u (s.drop 2)).map Except.ok).getD (.error (invalidLiteral 16 (s.drop 2)))
    else ((pyInt u s).map Except.ok).getD (.error (invalidLiteral 10 s)))) := by
    intro s
    split
    · exact hgiven _ _ _
    · exact hgiven _ _ _
  cases value with
  | bool b => exact onlyValueErrors_ok _
  | int n => exact onlyValueErrors_ok n
  | bytes b asText => exact onlyValueErrors_ok _
  | _ => exact htext _

/-- Times that are read and then taken to UTC. -/
theorem inUtc_onlyValueErrors {x : Except PyError DateTime} (hx : OnlyValueErrors (lifted x)) :
    OnlyValueErrors (lifted (x >>= inUtc true)) ↔ ∀ t, x = .ok t → InCalendar t := by
  rw [lifted_bind, onlyValueErrors_bind]
  constructor
  · rintro ⟨-, h⟩ t rfl
    exact (onlyValueErrors_toUtc t).mp (h t rfl)
  · intro h
    exact ⟨hx, fun t ht => (onlyValueErrors_toUtc t).mpr (h t (lifted_ok.mp ht))⟩

theorem inLocal_onlyValueErrors {x : Except PyError DateTime} (hx : OnlyValueErrors (lifted x)) :
    OnlyValueErrors (lifted (x >>= inUtc false)) := by
  rw [lifted_bind, onlyValueErrors_bind]
  exact ⟨hx, fun t _ => onlyValueErrors_ok t⟩

theorem preciseTemporal_eq (s : Str) (withOffset : Bool) :
    preciseTemporal u iso s withOffset = preciseForm u s withOffset >>= fun form =>
      (fun utc => ⟨form.1, utc, form.2.2⟩) <$> (iso.datetime form.2.1 >>= inUtc withOffset) := by
  rw [preciseTemporal]
  cases preciseForm u s withOffset with
  | error e => rfl
  | ok form =>
    rw [ok_bind, ok_bind]
    cases iso.datetime form.2.1 with
    | error e => rfl
    | ok parsed =>
      rw [ok_bind, ok_bind]
      cases inUtc withOffset parsed <;> rfl

theorem precise_onlyValueErrors (hiso : RaisesValueError iso) (s : Str) :
    OnlyValueErrors (lifted (preciseTemporal u iso s true)) ↔
      ∀ t, (preciseForm u s true >>= fun form => iso.datetime form.2.1) = .ok t →
        InCalendar t := by
  have hread : OnlyValueErrors
      (lifted (preciseForm u s true >>= fun form => iso.datetime form.2.1)) := by
    rw [lifted_bind, onlyValueErrors_bind]
    exact ⟨preciseForm_onlyValueErrors s true, fun _ _ => datetime_onlyValueErrors hiso _⟩
  rw [← inUtc_onlyValueErrors hread, preciseTemporal_eq]
  cases preciseForm u s true with
  | error e =>
    exact (onlyValueErrors_failed e).trans (onlyValueErrors_failed e).symm
  | ok form =>
    rw [ok_bind, ok_bind, lifted_map]
    exact onlyValueErrors_map

theorem preciseLocal_onlyValueErrors (hiso : RaisesValueError iso) (s : Str) :
    OnlyValueErrors (lifted (preciseTemporal u iso s false)) := by
  rw [preciseTemporal_eq, lifted_bind, onlyValueErrors_bind]
  refine ⟨preciseForm_onlyValueErrors s false, fun form _ => ?_⟩
  rw [lifted_map, onlyValueErrors_map]
  exact inLocal_onlyValueErrors (datetime_onlyValueErrors hiso _)

theorem temporal_onlyValueErrors (hiso : RaisesValueError iso) (value : BoundValue) :
    OnlyValueErrors (lifted (normalizeTemporal u iso true value)) ↔
      ∀ t, writtenTime u iso value = .ok t → InCalendar t := by
  have hplain : ∀ value : BoundValue,
      OnlyValueErrors (lifted
        (PartitionBound.datetime <$> (parseDatetime u iso value >>= inUtc true))) ↔
        ∀ t, parseDatetime u iso value = .ok t → InCalendar t := by
    intro value
    rw [lifted_map, onlyValueErrors_map]
    exact inUtc_onlyValueErrors (parseDatetime_onlyValueErrors hiso value)
  cases value with
  | text s =>
    rw [normalizeTemporal, writtenTime]
    by_cases hdigits : 6 < fractionalScale u s
    · rw [if_pos hdigits, if_pos hdigits, lifted_map, onlyValueErrors_map]
      exact precise_onlyValueErrors hiso s
    · rw [if_neg hdigits, if_neg hdigits]
      exact hplain _
  | _ => exact hplain _

theorem temporalLocal_onlyValueErrors (hiso : RaisesValueError iso) (value : BoundValue) :
    OnlyValueErrors (lifted (normalizeTemporal u iso false value)) := by
  have hplain : ∀ value : BoundValue,
      OnlyValueErrors (lifted
        (PartitionBound.datetime <$> (parseDatetime u iso value >>= inUtc false))) := by
    intro value
    rw [lifted_map, onlyValueErrors_map]
    exact inLocal_onlyValueErrors (parseDatetime_onlyValueErrors hiso value)
  cases value with
  | text s =>
    rw [normalizeTemporal]
    split
    · rw [lifted_map, onlyValueErrors_map]
      exact preciseLocal_onlyValueErrors hiso s
    · exact hplain _
  | _ => exact hplain _

/-- A numeral is read, and any other text makes `Decimal` raise. -/
theorem numeral_onlyValueErrors (text : Str) :
    OnlyValueErrors (readNumeral u text) ↔ IsNumeral u text := by
  rw [readNumeral]
  by_cases hint : integerForm u text
  · rw [if_pos hint]
    refine ⟨fun _ => .inl hint, fun _ => ?_⟩
    cases pyInt u text with
    | none => exact onlyValueErrors_refuse _
    | some n => exact onlyValueErrors_ok _
  · rw [if_neg hint, IsNumeral, or_iff_right hint]
    cases readDecimal u text with
    | none =>
      refine ⟨fun h => ?_, nofun⟩
      obtain ⟨message, hmessage⟩ := h _ rfl
      cases hmessage
    | some x => exact ⟨fun _ => rfl, fun _ => onlyValueErrors_ok _⟩

theorem numeric_onlyValueErrors (value : BoundValue) :
    OnlyValueErrors (normalizeNumeric u value) ↔
      value.isNumber ∨ IsNumeral u (strip u value.str) := by
  have hnumeral : ¬ value.isNumber → normalizeNumeric u value = readNumeral u (strip u value.str) →
      (OnlyValueErrors (normalizeNumeric u value) ↔
        value.isNumber ∨ IsNumeral u (strip u value.str)) := by
    intro hnumber hread
    rw [hread, or_iff_right hnumber]
    exact numeral_onlyValueErrors _
  cases value with
  | bool b => exact ⟨fun _ => .inl rfl, fun _ => onlyValueErrors_ok _⟩
  | int n => exact ⟨fun _ => .inl rfl, fun _ => onlyValueErrors_ok _⟩
  | float f asText => exact ⟨fun _ => .inl rfl, fun _ => onlyValueErrors_ok _⟩
  | decimal x asText => exact ⟨fun _ => .inl rfl, fun _ => onlyValueErrors_ok _⟩
  | _ => exact hnumeral nofun rfl

/-- CALL RULE: a bound is read or refused with a `ValueError` exactly where it is readable. -/
theorem normalize_onlyValueErrors (hiso : RaisesValueError iso) (kind : PartitionBoundKind)
    (value : BoundValue) :
    OnlyValueErrors (normalizePartitionBound u iso kind value) ↔ Readable u iso kind value := by
  cases kind with
  | numeric =>
    rw [normalizePartitionBound, onlyValueErrors_map]
    exact numeric_onlyValueErrors value
  | date =>
    refine ⟨fun _ => trivial, fun _ => ?_⟩
    rw [normalizePartitionBound, lifted_map, onlyValueErrors_map]
    exact parseDate_onlyValueErrors hiso value
  | datetime => exact ⟨fun _ => trivial, fun _ => temporalLocal_onlyValueErrors hiso value⟩
  | datetimeOffset => exact temporal_onlyValueErrors hiso value
  | rowversion =>
    refine ⟨fun _ => trivial, fun _ => ?_⟩
    rw [normalizePartitionBound, lifted_map, onlyValueErrors_map]
    exact rowversion_onlyValueErrors value
  | uuid =>
    refine ⟨fun _ => trivial, fun _ => ?_⟩
    rw [normalizePartitionBound]
    cases Uuid.ofText u value.str with
    | none => exact onlyValueErrors_refuse _
    | some x => exact onlyValueErrors_ok _
  | timeCyclic => exact ⟨fun _ => trivial, fun _ => onlyValueErrors_refuse _⟩

end Readable

end Dpone.Partitioning
