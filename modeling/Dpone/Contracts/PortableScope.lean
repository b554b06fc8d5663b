import Dpone.Schemes.IsoText

/-! Portable range scopes: a column and two typed bounds, independent of any SQL dialect.

    A literal of each kind is only built from a value of that kind, a `timestamptz` already taken to
    UTC; a scope only from a portable column name and bounds of one kind that describe a nonempty
    range. What a scope holds is a set of literals. -/

namespace Dpone.Contracts
open Dpone.Schemes

/-- `blocked`. -/
def blocked (blocker detail : String) : PyError :=
  .valueError s!"DPONE_PORTABLE_SCOPE_CONTRACT_BLOCKED:{blocker}: {detail}"

inductive PortableLiteralKind where
  | integer | date | timestamp | timestamptz | uuid
  deriving DecidableEq, Repr

/-- A literal of a range kind. -/
inductive PortableLiteral where
  | integer (value : ℤ)
  | date (value : Date)
  | timestamp (value : DateTime) (naive : value.offset = none)
  | timestamptz (value : DateTime) (utc : value.offset = some 0)
  | uuid (value : Fin (2 ^ 128))
  deriving DecidableEq

namespace PortableLiteral

def kind : PortableLiteral → PortableLiteralKind
  | integer _ => .integer
  | date _ => .date
  | timestamp _ _ => .timestamp
  | timestamptz _ _ => .timestamptz
  | uuid _ => .uuid

/-- Where the value stands among the values of its kind. -/
def place : PortableLiteral → ℤ
  | integer n => n
  | date d => d.toordinal
  | timestamp t _ => t.instant
  | timestamptz t _ => t.instant
  | uuid n => n.val

/-- `PortableLiteral("timestamp", value)`. -/
def makeTimestamp (t : DateTime) : Except PyError PortableLiteral :=
  if h : t.offset = none then .ok (timestamp t h)
  else .error (blocked "portable_scope.literal.timestamp_timezone"
    "timestamp cannot carry a timezone")

/-- `PortableLiteral("timestamptz", value)`, which goes through `_as_utc`. -/
def makeTimestamptz (t : DateTime) : Except PyError PortableLiteral :=
  match h : t.toUtc with
  | .ok utc =>
    if ho : t.offset.isSome then
      .ok (timestamptz utc (by
        rw [(DateTime.toUtc_ok h).2]
        obtain ⟨o, ho⟩ := Option.isSome_iff_exists.mp ho
        rw [ho]; rfl))
    else .error (blocked "portable_scope.literal.timestamptz_timezone"
      "timestamptz requires a timezone")
  | .error _ => .error (blocked "portable_scope.literal.timestamptz_range"
      "timestamptz local and UTC values must fit SQL Server years 0001 through 9999")

theorem makeTimestamp_ok {t : DateTime} {l : PortableLiteral} (h : makeTimestamp t = .ok l) :
    l.kind = .timestamp ∧ l.place = t.instant := by
  unfold makeTimestamp at h
  split_ifs at h
  cases h
  exact ⟨rfl, rfl⟩

theorem makeTimestamptz_ok {t : DateTime} {l : PortableLiteral} (h : makeTimestamptz t = .ok l) :
    l.kind = .timestamptz ∧ l.place = t.instant := by
  unfold makeTimestamptz at h
  split at h
  · next utc hutc =>
    split_ifs at h
    cases h
    exact ⟨rfl, (DateTime.toUtc_ok hutc).1⟩
  · cases h

end PortableLiteral

structure PortableRangeBound where
  value : PortableLiteral
  inclusive : Bool
  deriving DecidableEq

/-- The first place that a lower bound lets in. -/
def PortableRangeBound.floor (b : PortableRangeBound) : ℤ :=
  b.value.place + if b.inclusive then 0 else 1

/-- The first place past an upper bound. -/
def PortableRangeBound.ceiling (b : PortableRangeBound) : ℤ :=
  b.value.place + if b.inclusive then 1 else 0

/-- `validate_catalog_identifier`. -/
def PortableIdentifier (column : Str) : Prop :=
  column ≠ [] ∧ Char.ofNat 0 ∉ column ∧ (encodeUtf8 column).length ≤ 63

instance : DecidablePred PortableIdentifier := fun _ => inferInstanceAs (Decidable (_ ∧ _))

def identifierError (column : Str) : PyError :=
  if column = [] then blocked "portable_scope.column_empty" "column cannot be empty"
  else if Char.ofNat 0 ∈ column then
    blocked "portable_scope.column_nul" "column cannot contain NUL"
  else blocked "portable_scope.column_length"
    "column exceeds the 63-byte PostgreSQL/MSSQL portable limit"

/-- `validate_range`: at least one bound, one kind, and something between them. -/
def ValidRange : Option PortableRangeBound → Option PortableRangeBound → Prop
  | none, none => False
  | some lower, some upper => lower.value.kind = upper.value.kind ∧
      (lower.value.place < upper.value.place ∨
        lower.value.place = upper.value.place ∧ lower.inclusive ∧ upper.inclusive)
  | _, _ => True

instance : DecidableRel ValidRange
  | none, none => inferInstanceAs (Decidable False)
  | some _, some _ => inferInstanceAs (Decidable (_ ∧ _))
  | some _, none => inferInstanceAs (Decidable True)
  | none, some _ => inferInstanceAs (Decidable True)

def rangeError : Option PortableRangeBound → Option PortableRangeBound → PyError
  | some lower, some upper =>
    if lower.value.kind ≠ upper.value.kind then
      blocked "portable_scope.range.type_mismatch" "both bounds must use one literal type"
    else if upper.value.place < lower.value.place then
      blocked "portable_scope.range.order" "lower bound cannot exceed upper bound"
    else blocked "portable_scope.range.empty" "exclusive equal bounds describe an empty scope"
  | _, _ => blocked "portable_scope.range.bounds" "at least one bound is required"

structure PortableRangeScope where
  column : Str
  lower : Option PortableRangeBound
  upper : Option PortableRangeBound
  portable : PortableIdentifier column
  nonempty : ValidRange lower upper
  deriving DecidableEq

namespace PortableRangeScope

/-- `PortableRangeScope(column, lower, upper)`. -/
def make (column : Str) (lower upper : Option PortableRangeBound) :
    Except PyError PortableRangeScope :=
  if hc : PortableIdentifier column then
    if hr : ValidRange lower upper then .ok ⟨column, lower, upper, hc, hr⟩
    else .error (rangeError lower upper)
  else .error (identifierError column)

theorem make_ok {column : Str} {lower upper : Option PortableRangeBound} {s : PortableRangeScope}
    (h : make column lower upper = .ok s) :
    s.column = column ∧ s.lower = lower ∧ s.upper = upper := by
  unfold make at h
  split_ifs at h
  cases h
  exact ⟨rfl, rfl, rfl⟩

/-- The values a scope selects. -/
def Holds (s : PortableRangeScope) (v : PortableLiteral) : Prop :=
  (∀ b ∈ s.lower, b.value.kind = v.kind ∧
    (b.value.place < v.place ∨ b.value.place = v.place ∧ b.inclusive)) ∧
  ∀ b ∈ s.upper, b.value.kind = v.kind ∧
    (v.place < b.value.place ∨ v.place = b.value.place ∧ b.inclusive)

/-- The upper bound of one scope ends where the lower bound of the other starts. -/
def Meets (s t : PortableRangeScope) : Prop :=
  ∃ b ∈ s.upper, ∃ c ∈ t.lower, b.value.kind = c.value.kind ∧ b.ceiling = c.floor

/-- CORRECT: a scope with two bounds holds the places between them. -/
theorem holds_iff {s : PortableRangeScope} {b c : PortableRangeBound} (hb : s.lower = some b)
    (hc : s.upper = some c) (v : PortableLiteral) :
    s.Holds v ↔ b.value.kind = v.kind ∧ b.floor ≤ v.place ∧ v.place < c.ceiling := by
  have hvalid := s.nonempty
  rw [hb, hc] at hvalid
  simp only [Holds, hb, hc, Option.mem_def, Option.some.injEq, forall_eq', ← hvalid.1,
    PortableRangeBound.floor, PortableRangeBound.ceiling]
  cases b.inclusive <;> cases c.inclusive <;> grind

theorem floor_lt_ceiling {s : PortableRangeScope} {b c : PortableRangeBound}
    (hb : s.lower = some b) (hc : s.upper = some c) (hclosed : b.inclusive = true) :
    b.floor < c.ceiling := by
  have hvalid := s.nonempty
  rw [hb, hc] at hvalid
  rcases hvalid.2 with hlt | ⟨heq, _, hincl⟩
  · simp only [PortableRangeBound.floor, PortableRangeBound.ceiling, hclosed]
    split_ifs <;> omega
  · simp only [PortableRangeBound.floor, PortableRangeBound.ceiling, hclosed, hincl, heq, if_true]
    omega

/-- A failed construction names the column, where the range is valid. -/
theorem make_error {column : Str} {lower upper : Option PortableRangeBound} {e : PyError}
    (h : make column lower upper = .error e) (hr : ValidRange lower upper) :
    ¬ PortableIdentifier column ∧ e = identifierError column := by
  unfold make at h
  split_ifs at h with hc
  cases h
  exact ⟨hc, rfl⟩

end PortableRangeScope

end Dpone.Contracts
