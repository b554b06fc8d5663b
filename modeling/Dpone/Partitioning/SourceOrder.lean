import Mathlib.Data.Int.ConditionallyCompleteOrder
import Dpone.Partitioning.Bounds

/-! Where the bounds stand in the order of the source database, and when the comparison of
    `partitioning_bounds.py` finds them there.

    Numbers, days, times and rowversions stand where they stand for Python. SQL Server orders a
    `uniqueidentifier` by the groups of its stored bytes, the last group first, and its first three
    fields are stored with their low byte first; PostgreSQL orders UUIDs as numbers. -/

namespace Dpone.Partitioning
open Dpone.Schemes

inductive SourceDatabase where
  | mssql | postgres
  deriving DecidableEq

/-- The stored bytes of a `uniqueidentifier`, the most significant first. -/
def mssqlUuidOrder (x : Uuid) : Bytes :=
  [10, 11, 12, 13, 14, 15, 8, 9, 6, 7, 4, 5, 0, 1, 2, 3].map fun index => x.bytesLe.getD index 0

def SourceDatabase.uuidPlace : SourceDatabase → Uuid → ℕ
  | .mssql, x => ofBigEndian (mssqlUuidOrder x)
  | .postgres, x => x.val

def rational (q : ℚ) : ExtendedRational := ((q : WithTop ℚ) : WithBot (WithTop ℚ))

/-- The place of an integer, a day, a tick of a clock. -/
def placeOf (n : ℤ) : ExtendedRational := rational n

/-- Ticks of a hundred nanoseconds: since the beginning in UTC for a boundary with offsets, and on
    the local clock otherwise, where a rendered bound has no offset. -/
def timePlace (kind : PartitionBoundKind) (t : DateTime) : ℤ :=
  (if kind = .datetimeOffset then t.instant else t.localMicros) * 10

/-- Where a bound stands among the values of its column; nothing where the column has no such value:
    no number, or no rowversion of eight bytes. -/
def SourceDatabase.place (db : SourceDatabase) (kind : PartitionBoundKind) :
    PartitionBound → Option ExtendedRational
  | .number n => n.value
  | .date d => some (placeOf d.toordinal)
  | .datetime t => some (placeOf (timePlace kind t))
  | .precise p => some (placeOf (p.parsed.localMicros * 10 + p.tick.val))
  | .rowversion n => if 0 ≤ n ∧ n < 256 ^ 8 then some (placeOf n) else none
  | .uuid x => some (placeOf (db.uuidPlace x))

/-- Bounds that Python compares without an exception. -/
def Comparable : PartitionBound → PartitionBound → Prop
  | .number x, .number y => (x.value ≠ none ∧ y.value ≠ none) ∨ ¬ (x.isDecimal ∨ y.isDecimal)
  | .datetime s, .datetime t => s.offset.isSome = t.offset.isSome
  | .uuid _, .uuid _ | .precise _, .precise _ | .date _, .date _ | .rowversion _, .rowversion _ =>
    True
  | _, _ => False

/-- Bounds that Python compares as the source does: no NaN, local times of one clock, rowversions of
    eight bytes, and UUIDs that both orders place alike. -/
def SourceDatabase.Agree (db : SourceDatabase) (kind : PartitionBoundKind) :
    PartitionBound → PartitionBound → Prop
  | .number x, .number y => x.value ≠ none ∧ y.value ≠ none
  | .datetime s, .datetime t => s.offset.isSome = t.offset.isSome ∧ (kind = .datetimeOffset ∨
      cmp s.instant t.instant = cmp s.localMicros t.localMicros)
  | .rowversion m, .rowversion n => (0 ≤ m ∧ m < 256 ^ 8) ∧ 0 ≤ n ∧ n < 256 ^ 8
  | .uuid x, .uuid y =>
    cmp (mssqlUuidSortKey x) (mssqlUuidSortKey y) = cmp (db.uuidPlace x) (db.uuidPlace y)
  | .precise _, .precise _ | .date _, .date _ => True
  | _, _ => False

theorem agree_comparable {db : SourceDatabase} {kind : PartitionBoundKind} :
    ∀ {a b : PartitionBound}, db.Agree kind a b → Comparable a b
  | .number _, .number _, h => .inl h
  | .datetime _, .datetime _, h => h.1
  | .rowversion _, .rowversion _, _ | .uuid _, .uuid _, _ | .precise _, .precise _, _
  | .date _, .date _, _ => trivial

/-! ### Exceptions -/

theorem compareNumbers_given {x y : BoundNumber} (h : x.value ≠ none ∧ y.value ≠ none) :
    ∃ o, compareNumbers x y = .ok o := by
  obtain ⟨p, hp⟩ := Option.ne_none_iff_exists'.mp h.1
  obtain ⟨q, hq⟩ := Option.ne_none_iff_exists'.mp h.2
  exact ⟨cmp p q, by rw [compareNumbers, hp, hq]⟩

theorem compareNumbers_missing {x y : BoundNumber} (h : ¬ (x.value ≠ none ∧ y.value ≠ none)) :
    compareNumbers x y =
      if x.isDecimal ∨ y.isDecimal then .error .invalidOperation else .ok .eq := by
  unfold compareNumbers
  cases hx : x.value with
  | none => rfl
  | some p =>
    cases hy : y.value with
    | none => rfl
    | some q => exact absurd ⟨by rw [hx]; exact Option.some_ne_none p,
        by rw [hy]; exact Option.some_ne_none q⟩ h

theorem compareNumbers_ok {x y : BoundNumber} :
    (∃ o, compareNumbers x y = .ok o) ↔
      (x.value ≠ none ∧ y.value ≠ none) ∨ ¬ (x.isDecimal ∨ y.isDecimal) := by
  by_cases hmissing : x.value ≠ none ∧ y.value ≠ none
  · exact ⟨fun _ => .inl hmissing, fun _ => compareNumbers_given hmissing⟩
  · rw [compareNumbers_missing hmissing]
    by_cases hdecimal : x.isDecimal ∨ y.isDecimal
    · rw [if_pos hdecimal]
      refine ⟨fun h => (by obtain ⟨_, h⟩ := h; cases h), fun h => ?_⟩
      exact absurd (h.resolve_left hmissing) (not_not.mpr hdecimal)
    · rw [if_neg hdecimal]
      exact ⟨fun _ => .inr hdecimal, fun _ => ⟨_, rfl⟩⟩

/-- CORRECT: what is comparable. -/
theorem compare_ok : ∀ {a b : PartitionBound},
    (∃ o, comparePartitionBounds a b = .ok o) ↔ Comparable a b := by
  intro a b
  cases a <;> cases b <;> first
    | exact compareNumbers_ok
    | exact ⟨fun _ => trivial, fun _ => ⟨_, rfl⟩⟩
    | exact ⟨fun h => (by obtain ⟨_, h⟩ := h; cases h), False.elim⟩
    | skip
  rename_i s t
  rw [comparePartitionBounds, Comparable]
  by_cases h : s.offset.isSome = t.offset.isSome
  · rw [if_pos h]
    exact ⟨fun _ => h, fun _ => ⟨_, rfl⟩⟩
  · rw [if_neg h]
    exact ⟨fun hok => (by obtain ⟨_, hok⟩ := hok; cases hok), fun hsame => absurd hsame h⟩

theorem compareNumbers_error {x y : BoundNumber} {e : BoundError}
    (h : compareNumbers x y = .error e) : e = .invalidOperation := by
  by_cases hmissing : x.value ≠ none ∧ y.value ≠ none
  · obtain ⟨o, ho⟩ := compareNumbers_given hmissing
    cases ho.symm.trans h
  · rw [compareNumbers_missing hmissing] at h
    split at h
    · cases h
      rfl
    · cases h

/-- No comparison raises a `ValueError`. -/
theorem compare_error {a b : PartitionBound} {e : BoundError}
    (h : comparePartitionBounds a b = .error e) : ¬ e.IsValueError := by
  cases a <;> cases b <;> try (cases h <;> rintro ⟨_, ⟨⟩⟩)
  · rw [compareNumbers_error h]
    rintro ⟨_, ⟨⟩⟩
  · rename_i s t
    rw [comparePartitionBounds] at h
    by_cases hsame : s.offset.isSome = t.offset.isSome
    · rw [if_pos hsame] at h
      cases h
    · rw [if_neg hsame] at h
      cases h
      rintro ⟨_, ⟨⟩⟩

/-! ### The order of the source -/

section Cmp
variable {α β : Type} [LinearOrder α] [LinearOrder β] {a b : α} {x y : β}

/-- Two comparisons come out alike where each outcome of the first is one of the second. -/
theorem cmp_eq_of_imp (hlt : a < b → x < y) (hgt : b < a → y < x) (heq : a = b → x = y) :
    cmp a b = cmp x y := by
  rcases lt_trichotomy a b with h | h | h
  · rw [(cmp_eq_lt_iff _ _).mpr h, (cmp_eq_lt_iff _ _).mpr (hlt h)]
  · rw [(cmp_eq_eq_iff _ _).mpr h, (cmp_eq_eq_iff _ _).mpr (heq h)]
  · rw [(cmp_eq_gt_iff _ _).mpr h, (cmp_eq_gt_iff _ _).mpr (hgt h)]

end Cmp

theorem rational_strictMono : StrictMono rational :=
  WithBot.coe_strictMono.comp WithTop.coe_strictMono

theorem placeOf_strictMono : StrictMono placeOf :=
  rational_strictMono.comp Int.cast_strictMono

theorem cmp_placeOf (m n : ℤ) : cmp (placeOf m) (placeOf n) = cmp m n :=
  placeOf_strictMono.cmp_map_eq m n

/-- An earlier key is an earlier tick. -/
theorem ticks_lt {p q : PreciseTemporalBound} (h : p.comparisonKey < q.comparisonKey) :
    p.parsed.localMicros * 10 + p.tick.val < q.parsed.localMicros * 10 + q.tick.val := by
  have hp := p.parsed.micros_lt
  have hq := q.parsed.micros_lt
  have htick := p.tick.isLt
  have htick' := q.tick.isLt
  obtain ⟨hyear, hmonth, hday⟩ := p.parsed.date.valid
  obtain ⟨hyear', hmonth', hday'⟩ := q.parsed.date.valid
  have hmonths := @ymdOrdinal_lt _ _ p.parsed.date.day _ _ q.parsed.date.day hyear.1
    hmonth.1 hmonth.2 hday.2 hyear'.1 hmonth'.1 hmonth'.2 hday'.1
  simp only [PreciseTemporalBound.comparisonKey, clockFields, List.cons_append, List.nil_append,
    List.cons_lt_cons_iff, List.not_lt_nil, and_false, or_false] at h
  simp only [DateTime.localMicros, Date.toordinal, dayMicros] at hp hq ⊢
  rcases h with hlt | ⟨hyears, hlt | ⟨hmonthsEq, h⟩⟩
  · have := hmonths (by omega)
    omega
  · have := hmonths (by omega)
    omega
  · rw [hyears, hmonthsEq]
    unfold ymdOrdinal
    omega

theorem ticks_eq {p q : PreciseTemporalBound} (h : p.comparisonKey = q.comparisonKey) :
    p.parsed.localMicros * 10 + p.tick.val = q.parsed.localMicros * 10 + q.tick.val := by
  simp only [PreciseTemporalBound.comparisonKey, clockFields, List.cons_append, List.nil_append,
    List.cons.injEq, and_true] at h
  obtain ⟨hyear, hmonth, hday, h⟩ := h
  simp only [DateTime.localMicros, Date.toordinal, hyear, hmonth, hday]
  omega

/-- CORRECT: bounds that agree have places, and Python compares them as the source does. -/
theorem compare_agrees {db : SourceDatabase} {kind : PartitionBoundKind} :
    ∀ {a b : PartitionBound}, db.Agree kind a b → ∃ x y, db.place kind a = some x ∧
      db.place kind b = some y ∧ comparePartitionBounds a b = .ok (cmp x y)
  | .number m, .number n, h => by
    obtain ⟨x, hx⟩ := Option.ne_none_iff_exists'.mp h.1
    obtain ⟨y, hy⟩ := Option.ne_none_iff_exists'.mp h.2
    refine ⟨x, y, hx, hy, ?_⟩
    rw [comparePartitionBounds, compareNumbers, hx, hy]
  | .date d, .date e, _ => by
    refine ⟨_, _, rfl, rfl, ?_⟩
    rw [cmp_placeOf, comparePartitionBounds, Nat.strictMono_cast.cmp_map_eq]
  | .datetime s, .datetime t, h => by
    refine ⟨_, _, rfl, rfl, ?_⟩
    have hticks : StrictMono fun n : ℤ => n * 10 := fun m n hlt => by
      show m * 10 < n * 10
      omega
    rw [cmp_placeOf, comparePartitionBounds, if_pos h.1, timePlace, timePlace]
    refine congrArg Except.ok ((hticks.cmp_map_eq _ _).trans ?_).symm
    by_cases hkind : kind = .datetimeOffset
    · rw [if_pos hkind, if_pos hkind]
    · rw [if_neg hkind, if_neg hkind]
      exact (h.2.resolve_left hkind).symm
  | .precise p, .precise q, _ => by
    refine ⟨_, _, rfl, rfl, ?_⟩
    rw [cmp_placeOf, comparePartitionBounds]
    refine congrArg Except.ok ?_
    -- the order of lists is decided by two functions
    exact (congrArg (fun d => @cmp (List ℕ) List.instLT d p.comparisonKey q.comparisonKey)
      (Subsingleton.elim _ _)).trans (cmp_eq_of_imp ticks_lt ticks_lt ticks_eq)
  | .rowversion m, .rowversion n, h => by
    refine ⟨_, _, if_pos h.1, if_pos h.2, ?_⟩
    rw [cmp_placeOf]
    rfl
  | .uuid x, .uuid y, h => by
    refine ⟨_, _, rfl, rfl, ?_⟩
    rw [cmp_placeOf, comparePartitionBounds, Nat.strictMono_cast.cmp_map_eq, h]

end Dpone.Partitioning
