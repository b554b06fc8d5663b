import Mathlib.Tactic.Ring
import Mathlib.Tactic.Linarith
import Mathlib.Algebra.Order.Field.Rat
import Mathlib.Algebra.Order.Ring.Abs
import Dpone.Contracts.MssqlTypes
import Dpone.Schemes.Records

/-! Which columns of SQL Server can hold the values of which.

    A `Domain` is what a physical type means: `Holds` says which values a column of it has, and two
    types with one domain differ only in their names. Domains are ordered by the widenings that the
    contract allows, and this order is SOUND for `Holds`. The code decides it on texts: an accepted
    projection goes up in the order, and `_comparison_shape` tells domains apart. -/

namespace Dpone.Contracts.Mssql
open Dpone.Schemes

/-! ### The contract -/

/-- `_INTEGER_RANK`. -/
inductive IntegerType where
  | tinyint | smallint | int | bigint
  deriving DecidableEq

namespace IntegerType

def all : List IntegerType := [.tinyint, .smallint, .int, .bigint]

def name : IntegerType → Str
  | .tinyint => "tinyint".toList
  | .smallint => "smallint".toList
  | .int => "int".toList
  | .bigint => "bigint".toList

def rank : IntegerType → ℕ
  | .tinyint => 1
  | .smallint => 2
  | .int => 3
  | .bigint => 4

/-- `_INTEGER_DIGITS`. -/
def digits : IntegerType → ℕ
  | .tinyint => 3
  | .smallint => 5
  | .int => 10
  | .bigint => 19

end IntegerType

/-- What `_comparison_shape` returns. -/
inductive Shape where
  | decimal (precision scale : ℕ)
  | float (precision : ℕ)
  | temporal (family : Str) (scale : ℕ)
  | text (normalized : Str)
  deriving DecidableEq

/-- The character families of a projection whose values are checked one by one. -/
def characterFamilies : List Str :=
  ["char".toList, "nchar".toList, "varchar".toList, "nvarchar".toList]

def binaryFamilies : List Str := ["binary".toList, "varbinary".toList]

def integerType (base : Str) : Option IntegerType := named IntegerType.name IntegerType.all base

section Code
variable (u : Unicode)

/-- `_decimal_shape`. -/
def decimalShape (dtype : Str) : Option (ℕ × ℕ) := (decimalMatch u dtype).map Prod.snd

/-- `_float_precision`. -/
def floatPrecision (dtype : Str) : Option ℕ :=
  if dtype = "real".toList then some 24
  else if dtype = "float".toList then some 53
  else (floatMatch u dtype).map fun precision => if precision ≤ 24 then 24 else 53

/-- `_temporal_shape`. -/
def temporalShape (dtype : Str) : Option (Str × ℕ) :=
  if dtype ∈ ["date".toList, "datetime".toList, "smalldatetime".toList] then some (dtype, 0)
  else (temporalMatch u dtype).map fun parts => (parts.1.name, parts.2)

/-- `_bounded_length`. -/
def boundedLength (dtype : Str) : Option ℕ := (sizedMatch u dtype).bind Prod.snd

/-- The shape of a normalized type. -/
def shapeOf (normalized : Str) : Shape :=
  match decimalShape u normalized, floatPrecision u normalized, temporalShape u normalized with
  | some (precision, scale), _, _ => .decimal precision scale
  | none, some precision, _ => .float precision
  | none, none, some (family, scale) => .temporal family scale
  | none, none, none => .text normalized

/-- `_comparison_shape`. -/
def comparisonShape (dtype : Str) : Except TypeError Shape := do
  let normalized ← normalizePhysicalType u dtype
  return shapeOf u normalized

/-- `mssql_physical_types_equal`. -/
def mssqlPhysicalTypesEqual (left right : Str) : Bool :=
  match comparisonShape u left, comparisonShape u right with
  | .ok a, .ok b => a = b
  | _, _ => false

/-! The rules of `validate_mssql_lossless_projection`, in its order: nothing where a rule does not
    apply, else its verdict. -/

def integerRule (sourceBase targetBase : Str) : Option Bool :=
  (integerType sourceBase).bind fun source => (integerType targetBase).map fun target =>
    decide (source.rank ≤ target.rank)

def integerDecimalRule (sourceBase target : Str) : Option Bool :=
  (integerType sourceBase).bind fun source => (decimalShape u target).map fun parts =>
    decide ((source.digits : ℤ) ≤ (parts.1 : ℤ) - parts.2)

def decimalRule (source target : Str) : Option Bool :=
  (decimalShape u source).bind fun s => (decimalShape u target).map fun t =>
    decide (s.2 ≤ t.2 ∧ (s.1 : ℤ) - s.2 ≤ (t.1 : ℤ) - t.2)

def floatRule (source target : Str) : Option Bool :=
  (floatPrecision u source).bind fun s => (floatPrecision u target).map fun t => decide (s ≤ t)

def temporalRule (source target : Str) : Option Bool :=
  (temporalShape u source).bind fun s => (temporalShape u target).map fun t =>
    decide (s.1 = t.1 ∧ s.2 ≤ t.2)

def guardedRule (allowValueGuarded : Bool) (sourceBase targetBase : Str) : Option Bool :=
  if allowValueGuarded ∧ (sourceBase ∈ characterFamilies ∧ targetBase ∈ characterFamilies ∨
      sourceBase ∈ binaryFamilies ∧ targetBase ∈ binaryFamilies) then some true else none

/-- A length fits if the target has none, or the source has one and it is no greater. -/
def lengthFits : Option ℕ → Option ℕ → Bool
  | _, none => true
  | some source, some target => source ≤ target
  | none, some _ => false

def lengthRule (sourceBase targetBase source target : Str) : Option Bool :=
  if sourceBase = targetBase ∧ sourceBase ∈ characterFamilies ++ binaryFamilies then
    some (lengthFits (boundedLength u source) (boundedLength u target))
  else none

/-- The rules, applied to normalized types. -/
def verdict (source target : Str) (allowValueGuarded : Bool) : Bool :=
  let sourceBase := normalizedBaseType u source
  let targetBase := normalizedBaseType u target
  ([integerRule sourceBase targetBase, integerDecimalRule u sourceBase target,
    decimalRule u source target, floatRule u source target, temporalRule u source target,
    guardedRule allowValueGuarded sourceBase targetBase,
    lengthRule u sourceBase targetBase source target].findSome? id).getD false

/-- `validate_mssql_lossless_projection`. -/
def validateLosslessProjection (sourceType targetType column : Str) (allowValueGuarded : Bool) :
    Except TypeError Unit := do
  let source ← normalizePhysicalType u sourceType
  let target ← normalizePhysicalType u targetType
  let sourceShape ← comparisonShape u source
  let targetShape ← comparisonShape u target
  if sourceShape = targetShape ∨ verdict u source target allowValueGuarded then .ok ()
  else .error (.lossy column source target)

/-- `mssql_is_safe_widening`. -/
def mssqlIsSafeWidening (desiredType existingType : Str) : Bool :=
  if mssqlPhysicalTypesEqual u desiredType existingType then false
  else match validateLosslessProjection u existingType desiredType "<schema-evolution>".toList
      false with
    | .ok () => true
    | .error _ => false

end Code

/-! ### Domains -/

/-- The temporal types. -/
inductive TemporalType where
  | date | datetime | smalldatetime | scaled (family : TemporalFamily)
  deriving DecidableEq

def TemporalType.name : TemporalType → Str
  | .date => "date".toList
  | .datetime => "datetime".toList
  | .smalldatetime => "smalldatetime".toList
  | .scaled family => family.name

/-- What a physical type means. -/
inductive Domain where
  | integer (type : IntegerType)
  | decimal (precision scale : ℕ)
  | float (double : Bool)
  | temporal (type : TemporalType) (scale : ℕ)
  | sized (family : SizedFamily) (length : Option ℕ)
  | bit | money | smallmoney | uniqueidentifier
  deriving DecidableEq

def Parameterless.domain : Parameterless → Domain
  | .tinyint => .integer .tinyint
  | .smallint => .integer .smallint
  | .int => .integer .int
  | .bigint => .integer .bigint
  | .real => .float false
  | .float => .float true
  | .date => .temporal .date 0
  | .datetime => .temporal .datetime 0
  | .smalldatetime => .temporal .smalldatetime 0
  | .bit => .bit
  | .money => .money
  | .smallmoney => .smallmoney
  | .uniqueidentifier => .uniqueidentifier

def PhysicalType.domain : PhysicalType → Domain
  | .plain p => p.domain
  | .decimal _ precision scale _ => .decimal precision scale
  | .float precision _ => .float (24 < precision)
  | .temporal family scale _ => .temporal (.scaled family) scale
  | .bounded family length _ => .sized family (some length)
  | .unbounded family _ => .sized family none

/-- A value of a column. Numbers are exact, moments are counted in units of 100 ns, a text is the
    list of its code units, and a value of a fixed length stands without its padding. -/
inductive Value where
  | number (q : ℚ)
  | date (day : ℕ)
  | datetime (day : ℤ) (threeHundredths : ℕ)
  | smalldatetime (day minute : ℕ)
  | moment (ticks : ℕ)
  | momentWithOffset (ticks : ℕ) (minutes : ℤ)
  | clock (ticks : ℕ)
  | string (family : SizedFamily) (units : List ℕ)
  | identifier (n : ℕ)

namespace IntegerType

def low : IntegerType → ℤ
  | .tinyint => 0
  | .smallint => -2 ^ 15
  | .int => -2 ^ 31
  | .bigint => -2 ^ 63

def high : IntegerType → ℤ
  | .tinyint => 2 ^ 8 - 1
  | .smallint => 2 ^ 15 - 1
  | .int => 2 ^ 31 - 1
  | .bigint => 2 ^ 63 - 1

end IntegerType

namespace SizedFamily

/-- Code units of two bytes. -/
def wide : SizedFamily → Bool
  | .nvarchar | .nchar => true
  | _ => false

/-- What a value of a fixed length is padded with. -/
def padding : SizedFamily → Option ℕ
  | .nchar | .char => some 32
  | .binary => some 0
  | _ => none

/-- The longest value: 2 GB. -/
def longest (family : SizedFamily) : ℕ := if family.wide then 2 ^ 30 - 1 else 2 ^ 31 - 1

end SizedFamily

/-- The ticks of a day. -/
def dayTicks : ℕ := 864000000000

/-- The days of the years 1 to 9999. -/
def calendarDays : ℕ := 3652059

/-- The values of a temporal column. -/
def TemporalType.Holds (scale : ℕ) : TemporalType → Value → Prop
  | .date, .date day => day < calendarDays
  | .datetime, .datetime day part => -53690 ≤ day ∧ day ≤ 2958463 ∧ part < 300 * 86400
  | .smalldatetime, .smalldatetime day minute => day < 2 ^ 16 ∧ minute < 1440
  | .scaled .datetime2, .moment ticks =>
    ticks < calendarDays * dayTicks ∧ 10 ^ (7 - scale) ∣ ticks
  | .scaled .datetimeoffset, .momentWithOffset ticks minutes =>
    ticks < calendarDays * dayTicks ∧ -840 ≤ minutes ∧ minutes ≤ 840 ∧ 10 ^ (7 - scale) ∣ ticks
  | .scaled .time, .clock ticks => ticks < dayTicks ∧ 10 ^ (7 - scale) ∣ ticks
  | _, _ => False

namespace Domain

/-- The values of a column. -/
def Holds : Domain → Value → Prop
  | .integer type, .number q => ∃ n : ℤ, q = n ∧ type.low ≤ n ∧ n ≤ type.high
  | .decimal precision scale, .number q => ∃ n : ℤ, q * 10 ^ scale = n ∧ |n| < 10 ^ precision
  -- binary fractions of 24 and of 53 bits, subnormal ones included
  | .float false, .number q => ∃ m e : ℤ, q = m * 2 ^ e ∧ |m| < 2 ^ 24 ∧ -149 ≤ e ∧ e ≤ 104
  | .float true, .number q => ∃ m e : ℤ, q = m * 2 ^ e ∧ |m| < 2 ^ 53 ∧ -1074 ≤ e ∧ e ≤ 971
  | .temporal type scale, v => type.Holds scale v
  | .sized family length, .string family' units => family = family' ∧
    units.length ≤ family.longest ∧ (∀ n ∈ length, units.length ≤ n) ∧
    (∀ x ∈ units, x < if family.wide then 2 ^ 16 else 2 ^ 8) ∧
    ∀ pad ∈ family.padding, units.getLast? ≠ some pad
  | .bit, .number q => q = 0 ∨ q = 1
  | .money, .number q => ∃ n : ℤ, q * 10 ^ 4 = n ∧ -2 ^ 63 ≤ n ∧ n < 2 ^ 63
  | .smallmoney, .number q => ∃ n : ℤ, q * 10 ^ 4 = n ∧ -2 ^ 31 ≤ n ∧ n < 2 ^ 31
  | .uniqueidentifier, .identifier n => n < 2 ^ 128
  | _, _ => False

/-- The widenings of the contract. -/
def Widens : Domain → Domain → Prop
  | .integer a, .integer b => a.rank ≤ b.rank
  | .integer a, .decimal precision scale => a.digits + scale ≤ precision
  | .decimal p s, .decimal p' s' => s ≤ s' ∧ p + s' ≤ p' + s
  | .float a, .float b => a ≤ b
  | .temporal a s, .temporal b s' => a = b ∧ s ≤ s'
  | .sized a l, .sized b l' => a = b ∧ lengthFits l l'
  | .bit, .bit | .money, .money | .smallmoney, .smallmoney => True
  | .uniqueidentifier, .uniqueidentifier => True
  | _, _ => False

end Domain

theorem lengthFits_refl (l : Option ℕ) : lengthFits l l = true := by
  cases l <;> simp [lengthFits]

theorem lengthFits_trans {l m n : Option ℕ} (h₁ : lengthFits l m = true)
    (h₂ : lengthFits m n = true) : lengthFits l n = true := by
  cases l <;> cases m <;> cases n <;> simp_all [lengthFits]
  omega

theorem lengthFits_antisymm {l m : Option ℕ} (h₁ : lengthFits l m = true)
    (h₂ : lengthFits m l = true) : l = m := by
  cases l <;> cases m <;> simp_all [lengthFits]
  omega

theorem lengthFits_some {l : Option ℕ} {n : ℕ} (h : lengthFits l (some n) = true) :
    ∃ m ∈ l, m ≤ n := by
  cases l with
  | none => cases h
  | some m => exact ⟨m, rfl, of_decide_eq_true h⟩

theorem IntegerType.rank_injective : Function.Injective IntegerType.rank := by
  intro a b h
  cases a <;> cases b <;> first | rfl | cases h

theorem IntegerType.range_mono {a b : IntegerType} (h : a.rank ≤ b.rank) :
    b.low ≤ a.low ∧ a.high ≤ b.high := by
  cases a <;> cases b <;> revert h <;> decide

theorem IntegerType.digits_mono {a b : IntegerType} (h : a.rank ≤ b.rank) :
    a.digits ≤ b.digits := by
  cases a <;> cases b <;> revert h <;> decide

namespace Domain

theorem widens_refl (a : Domain) : a.Widens a := by
  cases a <;> simp [Widens, lengthFits_refl]

theorem widens_trans {a b c : Domain} (hab : a.Widens b) (hbc : b.Widens c) : a.Widens c := by
  cases a <;> cases b <;> try exact hab.elim
  all_goals cases c <;> try exact hbc.elim
  case integer.integer.integer => exact Nat.le_trans hab hbc
  case integer.integer.decimal =>
    exact (Nat.add_le_add_right (IntegerType.digits_mono hab) _).trans hbc
  case integer.decimal.decimal =>
    obtain ⟨hscale, hwhole⟩ := hbc
    simp only [Widens] at hab ⊢
    omega
  case decimal.decimal.decimal =>
    obtain ⟨hscale, hwhole⟩ := hab
    obtain ⟨hscale', hwhole'⟩ := hbc
    exact ⟨hscale.trans hscale', by omega⟩
  case float.float.float => exact le_trans hab hbc
  case temporal.temporal.temporal => exact ⟨hab.1.trans hbc.1, hab.2.trans hbc.2⟩
  case sized.sized.sized => exact ⟨hab.1.trans hbc.1, lengthFits_trans hab.2 hbc.2⟩
  all_goals trivial

theorem widens_antisymm {a b : Domain} (hab : a.Widens b) (hba : b.Widens a) : a = b := by
  cases a <;> cases b <;> try exact hab.elim
  case integer.integer => rw [IntegerType.rank_injective (Nat.le_antisymm hab hba)]
  case integer.decimal => exact hba.elim
  case decimal.decimal p s p' s' =>
    obtain ⟨hscale, hwhole⟩ := hab
    obtain ⟨hscale', hwhole'⟩ := hba
    obtain rfl : s = s' := Nat.le_antisymm hscale hscale'
    obtain rfl : p = p' := by omega
    rfl
  case float.float => rw [le_antisymm hab hba]
  case temporal.temporal => rw [hab.1, Nat.le_antisymm hab.2 hba.2]
  case sized.sized => rw [hab.1, lengthFits_antisymm hab.2 hba.2]
  all_goals rfl

end Domain

/-- Types that widen to each other have one domain. -/
instance : PartialOrder Domain where
  le := Domain.Widens
  le_refl := Domain.widens_refl
  le_trans _ _ _ := Domain.widens_trans
  le_antisymm _ _ := Domain.widens_antisymm

/-! ### Widening is sound -/

theorem integer_holds_decimal {type : IntegerType} {precision scale : ℕ}
    (h : type.digits + scale ≤ precision) {n : ℤ} (hlow : type.low ≤ n) (hhigh : n ≤ type.high) :
    |n * 10 ^ scale| < 10 ^ precision := by
  have hdigits : |n| < 10 ^ type.digits := by
    rw [abs_lt]
    cases type <;> simp only [IntegerType.low, IntegerType.high, IntegerType.digits] at * <;> omega
  have hten : (0 : ℤ) < 10 ^ scale := by positivity
  calc |n * 10 ^ scale| = |n| * 10 ^ scale := by rw [abs_mul, abs_of_pos hten]
    _ < 10 ^ type.digits * 10 ^ scale := mul_lt_mul_of_pos_right hdigits hten
    _ = 10 ^ (type.digits + scale) := (pow_add ..).symm
    _ ≤ 10 ^ precision := pow_le_pow_right₀ (by norm_num) h

theorem decimal_holds_decimal {p s p' s' : ℕ} (hscale : s ≤ s') (hwhole : p + s' ≤ p' + s) {n : ℤ}
    (hn : |n| < 10 ^ p) : |n * 10 ^ (s' - s)| < 10 ^ p' := by
  have hten : (0 : ℤ) < 10 ^ (s' - s) := by positivity
  calc |n * 10 ^ (s' - s)| = |n| * 10 ^ (s' - s) := by rw [abs_mul, abs_of_pos hten]
    _ < 10 ^ p * 10 ^ (s' - s) := mul_lt_mul_of_pos_right hn hten
    _ = 10 ^ (p + (s' - s)) := (pow_add ..).symm
    _ ≤ 10 ^ p' := pow_le_pow_right₀ (by norm_num) (by omega)

theorem temporal_holds {type : TemporalType} {s s' : ℕ} (h : s ≤ s') {v : Value}
    (hv : type.Holds s v) : type.Holds s' v := by
  have hdvd : ∀ ticks : ℕ, 10 ^ (7 - s) ∣ ticks → 10 ^ (7 - s') ∣ ticks := fun ticks hticks =>
    (pow_dvd_pow 10 (Nat.sub_le_sub_left h 7)).trans hticks
  cases type with
  | scaled family =>
    cases family <;> cases v <;> try exact hv.elim
    · exact ⟨hv.1, hdvd _ hv.2⟩
    · exact ⟨hv.1, hv.2.1, hv.2.2.1, hdvd _ hv.2.2.2⟩
    · exact ⟨hv.1, hdvd _ hv.2⟩
  | _ => cases v <;> exact hv

/-- SOUND: a wider domain has all the values of a narrower one. -/
theorem holds_of_le {a b : Domain} (h : a ≤ b) {v : Value} (hv : a.Holds v) : b.Holds v := by
  change a.Widens b at h
  cases a <;> cases b <;> try exact h.elim
  case integer.integer a b =>
    cases v <;> try exact hv.elim
    obtain ⟨n, hq, hlow, hhigh⟩ := hv
    obtain ⟨hlower, hupper⟩ := IntegerType.range_mono h
    exact ⟨n, hq, hlower.trans hlow, hhigh.trans hupper⟩
  case integer.decimal =>
    cases v <;> try exact hv.elim
    obtain ⟨n, rfl, hlow, hhigh⟩ := hv
    exact ⟨n * 10 ^ _, by push_cast; ring, integer_holds_decimal h hlow hhigh⟩
  case decimal.decimal =>
    cases v <;> try exact hv.elim
    obtain ⟨n, hq, hn⟩ := hv
    refine ⟨n * 10 ^ _, ?_, decimal_holds_decimal h.1 h.2 hn⟩
    push_cast
    rw [← hq, mul_assoc, ← pow_add, Nat.add_sub_cancel' h.1]
  case float.float a b =>
    cases v <;> cases a <;> cases b <;> try exact hv.elim
    · exact hv
    · obtain ⟨m, e, hq, hm, hlow, hhigh⟩ := hv
      exact ⟨m, e, hq, hm.trans (by norm_num), by omega, by omega⟩
    · exact absurd (h rfl) Bool.false_ne_true
    · exact hv
  case temporal.temporal =>
    obtain ⟨rfl, hscale⟩ := h
    exact temporal_holds hscale hv
  case sized.sized =>
    obtain ⟨rfl, hlength⟩ := h
    cases v <;> try exact hv.elim
    obtain ⟨rfl, hlongest, hunits, hrest⟩ := hv
    refine ⟨rfl, hlongest, fun n hn => ?_, hrest⟩
    rw [Option.mem_def.mp hn] at hlength
    obtain ⟨m, hm, hle⟩ := lengthFits_some hlength
    exact (hunits m hm).trans hle
  all_goals exact hv

/-! ### The code on canonical spellings -/

namespace Domain

/-! What the code reads off a type with this domain. -/

def integer? : Domain → Option IntegerType
  | .integer type => some type
  | _ => none

def decimal? : Domain → Option (ℕ × ℕ)
  | .decimal precision scale => some (precision, scale)
  | _ => none

def float? : Domain → Option ℕ
  | .float double => some (if double then 53 else 24)
  | _ => none

def temporal? : Domain → Option (Str × ℕ)
  | .temporal type scale => some (type.name, scale)
  | _ => none

def family? : Domain → Option SizedFamily
  | .sized family _ => some family
  | _ => none

def length? : Domain → Option ℕ
  | .sized _ length => length
  | _ => none

/-- The shape of a domain, unless it is the type itself. -/
def shape? : Domain → Option Shape
  | .decimal precision scale => some (.decimal precision scale)
  | .float double => some (.float (if double then 53 else 24))
  | .temporal type scale => some (.temporal type.name scale)
  | _ => none

end Domain

section Texts
variable (u : Unicode) (p q : PhysicalType)

theorem text_ne_name {p : PhysicalType} (h : p.arguments ≠ none) {name : Str}
    (hname : '(' ∉ name) : p.text ≠ name := by
  obtain ⟨a, ha⟩ := Option.ne_none_iff_exists'.mp h
  rintro rfl
  refine hname ?_
  rw [PhysicalType.text, ha]
  exact List.mem_append_right _ (List.mem_cons_self ..)

theorem decimalShape_text : decimalShape u p.text = p.domain.decimal? := by
  rw [decimalShape, decimalMatch_text]
  cases p with
  | plain p => cases p <;> rfl
  | _ => rfl

theorem floatPrecision_text : floatPrecision u p.text = p.domain.float? := by
  unfold floatPrecision
  by_cases ha : p.arguments = none
  · cases p with
    | plain p =>
      rw [floatMatch_text]
      cases p <;> rfl
    | _ => cases ha
  · rw [if_neg (text_ne_name ha (by decide)), if_neg (text_ne_name ha (by decide)),
      floatMatch_text]
    cases p with
    | plain => exact absurd rfl ha
    | float precision =>
      simp only [PhysicalType.floatParts, PhysicalType.domain, Domain.float?, Option.map_some]
      by_cases h : precision ≤ 24
      · rw [if_pos h, if_neg (by simpa using h)]
      · rw [if_neg h, if_pos (by simpa using h)]
    | _ => rfl

theorem temporalShape_text : temporalShape u p.text = p.domain.temporal? := by
  unfold temporalShape
  by_cases ha : p.arguments = none
  · cases p with
    | plain p =>
      rw [temporalMatch_text]
      cases p <;> rfl
    | _ => cases ha
  · have hnone : p.text ∉ ["date".toList, "datetime".toList, "smalldatetime".toList] := by
      simp only [List.mem_cons, List.not_mem_nil, or_false, not_or]
      exact ⟨text_ne_name ha (by decide), text_ne_name ha (by decide),
        text_ne_name ha (by decide)⟩
    rw [if_neg hnone, temporalMatch_text]
    cases p with
    | plain => exact absurd rfl ha
    | _ => rfl

theorem boundedLength_text : boundedLength u p.text = p.domain.length? := by
  rw [boundedLength, sizedMatch_text]
  cases p with
  | plain p => cases p <;> rfl
  | _ => rfl

theorem integerType_base : integerType p.base = p.domain.integer? := by
  cases p with
  | plain p => cases p <;> rfl
  | decimal family => cases family <;> rfl
  | float => rfl
  | temporal family => cases family <;> rfl
  | bounded family => cases family <;> rfl
  | unbounded family => cases family <;> rfl

theorem shapeOf_text : shapeOf u p.text = p.domain.shape?.getD (.text p.text) := by
  rw [shapeOf, decimalShape_text, floatPrecision_text, temporalShape_text]
  cases p.domain <;> rfl

/-- Types with one canonical spelling have one domain. -/
theorem domain_of_text {p q : PhysicalType} (h : p.text = q.text) : p.domain = q.domain := by
  have hdecimal := (decimalMatch_text .ascii p).symm.trans (h ▸ decimalMatch_text .ascii q)
  have hfloat := (floatMatch_text .ascii p).symm.trans (h ▸ floatMatch_text .ascii q)
  have htemporal := (temporalMatch_text .ascii p).symm.trans (h ▸ temporalMatch_text .ascii q)
  have hsized := (sizedMatch_text .ascii p).symm.trans (h ▸ sizedMatch_text .ascii q)
  cases p <;> cases q <;> try simp_all [PhysicalType.decimalParts, PhysicalType.floatParts,
    PhysicalType.temporalParts, PhysicalType.sizedParts, PhysicalType.domain]
  case plain.plain p q =>
    have hname : p.name = q.name := h
    have hsame : some p = some q := by rw [← named_plain p, hname, named_plain]
    rw [Option.some.inj hsame]

theorem TemporalType.name_injective : Function.Injective TemporalType.name := by
  intro a b h
  rcases a with _ | _ | _ | f <;> rcases b with _ | _ | _ | g <;> try cases f
  all_goals try cases g
  all_goals first | rfl | exact absurd h (by decide)

theorem shape_ne_text (a : Domain) (t : Str) : a.shape? ≠ some (.text t) := by
  cases a <;> simp [Domain.shape?]

theorem shape_injective {a b : Domain} {s : Shape} (ha : a.shape? = some s)
    (hb : b.shape? = some s) : a = b := by
  cases a <;> cases ha <;> cases b <;> simp only [Domain.shape?, Option.some.injEq,
    Shape.decimal.injEq, Shape.float.injEq, Shape.temporal.injEq, reduceCtorEq] at hb
  · rw [hb.1, hb.2]
  · rename_i d d'
    cases d <;> cases d' <;> first | rfl | cases hb
  · rw [TemporalType.name_injective hb.1, hb.2]

theorem Parameterless.domain_injective : Function.Injective Parameterless.domain := by
  intro a b h
  cases a <;> cases b <;> first | rfl | cases h

theorem text_of_domain {p q : PhysicalType} (h : p.domain = q.domain)
    (hshape : p.domain.shape? = none) : p.text = q.text := by
  cases p with
  | plain a =>
    cases q with
    | plain b => rw [Parameterless.domain_injective h]
    | _ => cases a <;> first | (cases hshape; done) | cases h
  | bounded =>
    cases q with
    | plain b => cases b <;> cases h
    | bounded => cases h; rfl
    | _ => cases h
  | unbounded =>
    cases q with
    | plain b => cases b <;> cases h
    | unbounded => cases h; rfl
    | _ => cases h
  | _ => cases hshape

/-- The shapes of two types are equal exactly if their domains are. -/
theorem shapeOf_eq_iff : shapeOf u p.text = shapeOf u q.text ↔ p.domain = q.domain := by
  rw [shapeOf_text, shapeOf_text]
  constructor
  · intro h
    cases hp : p.domain.shape? with
    | none =>
      cases hq : q.domain.shape? with
      | none =>
        rw [hp, hq] at h
        exact domain_of_text (Shape.text.inj h)
      | some t =>
        rw [hp, hq] at h
        have ht : t = .text p.text := h.symm
        exact absurd (ht ▸ hq) (shape_ne_text q.domain p.text)
    | some s =>
      cases hq : q.domain.shape? with
      | none =>
        rw [hp, hq] at h
        have hs : s = .text q.text := h
        exact absurd (hs ▸ hp) (shape_ne_text p.domain q.text)
      | some t =>
        rw [hp, hq] at h
        have hst : s = t := h
        exact shape_injective hp (hst ▸ hq)
  · intro h
    cases hp : p.domain.shape? with
    | some s =>
      rw [← h, hp]
      rfl
    | none => rw [← h, hp, text_of_domain h hp]

/-- The rule of lengths, by domains. -/
def Domain.lengthRule (a b : Domain) : Option Bool :=
  a.family?.bind fun f => b.family?.bind fun g =>
    if f = g then some (lengthFits a.length? b.length?) else none

theorem SizedFamily.name_injective : Function.Injective SizedFamily.name := by
  intro a b h
  have hsame : some a = some b := by rw [← named_sized a, h, named_sized]
  exact Option.some.inj hsame

theorem base_mem_iff :
    p.base ∈ characterFamilies ++ binaryFamilies ↔ p.domain.family?.isSome = true := by
  have hdecimal : ∀ f : DecimalFamily, f.name ∉ characterFamilies ++ binaryFamilies := fun f => by
    cases f <;> decide
  have htemporal : ∀ f : TemporalFamily, f.name ∉ characterFamilies ++ binaryFamilies :=
    fun f => by cases f <;> decide
  have hfloat : "float".toList ∉ characterFamilies ++ binaryFamilies := by decide
  have hsized : ∀ f : SizedFamily, f.name ∈ characterFamilies ++ binaryFamilies := fun f => by
    cases f <;> decide
  cases p with
  | plain p => cases p <;> decide
  | decimal family => exact iff_of_false (hdecimal family) Bool.false_ne_true
  | float => exact iff_of_false hfloat Bool.false_ne_true
  | temporal family => exact iff_of_false (htemporal family) Bool.false_ne_true
  | bounded family => exact iff_of_true (hsized family) rfl
  | unbounded family => exact iff_of_true (hsized family) rfl

theorem base_of_family {p : PhysicalType} {f : SizedFamily} (h : p.domain.family? = some f) :
    p.base = f.name := by
  cases p with
  | plain p => cases p <;> cases h
  | bounded => cases h; rfl
  | unbounded => cases h; rfl
  | _ => cases h

theorem lengthRule_text :
    lengthRule u p.base q.base p.text q.text = p.domain.lengthRule q.domain := by
  unfold lengthRule Domain.lengthRule
  rw [boundedLength_text, boundedLength_text]
  cases hp : p.domain.family? with
  | none =>
    have hnot : p.base ∉ characterFamilies ++ binaryFamilies := by
      rw [base_mem_iff, hp]
      exact Bool.false_ne_true
    exact if_neg fun h => hnot h.2
  | some f =>
    have hmem : p.base ∈ characterFamilies ++ binaryFamilies := by
      rw [base_mem_iff, hp]
      rfl
    cases hq : q.domain.family? with
    | none =>
      have hnot : q.base ∉ characterFamilies ++ binaryFamilies := by
        rw [base_mem_iff, hq]
        exact Bool.false_ne_true
      exact if_neg fun h : p.base = q.base ∧ _ => hnot (h.1 ▸ hmem)
    | some g =>
      have hbase : p.base = q.base ↔ f = g := by
        rw [base_of_family hp, base_of_family hq]
        exact SizedFamily.name_injective.eq_iff
      simp only [hbase, hmem, and_true, Option.bind_some]

/-- The verdict of the rules, by domains. -/
def Domain.verdict (a b : Domain) : Bool :=
  ([a.integer?.bind fun s => b.integer?.map fun t => decide (s.rank ≤ t.rank),
    a.integer?.bind fun s => b.decimal?.map fun t => decide ((s.digits : ℤ) ≤ (t.1 : ℤ) - t.2),
    a.decimal?.bind fun s => b.decimal?.map fun t =>
      decide (s.2 ≤ t.2 ∧ (s.1 : ℤ) - s.2 ≤ (t.1 : ℤ) - t.2),
    a.float?.bind fun s => b.float?.map fun t => decide (s ≤ t),
    a.temporal?.bind fun s => b.temporal?.map fun t => decide (s.1 = t.1 ∧ s.2 ≤ t.2),
    none, a.lengthRule b].findSome? id).getD false

theorem verdict_text (u : Casing) :
    verdict u.toUnicode p.text q.text false = p.domain.verdict q.domain := by
  unfold verdict Domain.verdict
  rw [base_text, base_text]
  dsimp only
  rw [integerRule, integerDecimalRule, decimalRule, floatRule, temporalRule, guardedRule,
    lengthRule_text, integerType_base, integerType_base, decimalShape_text, decimalShape_text,
    floatPrecision_text, floatPrecision_text, temporalShape_text, temporalShape_text]
  rfl

theorem Domain.verdict_iff {a b : Domain} : a = b ∨ a.verdict b = true ↔ a ≤ b := by
  change _ ↔ a.Widens b
  constructor
  · rintro (rfl | h)
    · exact Domain.widens_refl a
    · cases a <;> cases b <;> simp_all [Domain.verdict, Domain.Widens, Domain.integer?,
        Domain.decimal?, Domain.float?, Domain.temporal?, Domain.family?, Domain.lengthRule]
      case integer.decimal => omega
      case decimal.decimal => omega
      case float.float d d' => cases d <;> cases d' <;> simp_all
      case temporal.temporal => exact TemporalType.name_injective h.1
      case sized.sized f l g m =>
        by_cases hfg : f = g
        · rw [if_pos hfg] at h
          exact ⟨hfg, h⟩
        · rw [if_neg hfg] at h
          cases h
  · intro h
    cases a <;> cases b <;> simp_all [Domain.verdict, Domain.Widens, Domain.integer?,
        Domain.decimal?, Domain.float?, Domain.temporal?, Domain.family?, Domain.lengthRule]
    case integer.decimal => omega
    case decimal.decimal => omega
    case float.float d d' => cases d <;> cases d' <;> first | exact absurd h (by decide) | simp
    case sized.sized => exact .inr h.2

end Texts

/-! ### The laws of the contract -/

section Laws
variable (u : Casing)

/-- A projection of types is decided by their domains. -/
theorem validate_iff {source target : Str} (column : Str) {p q : PhysicalType}
    (hp : normalizePhysicalType u.toUnicode source = .ok p.text)
    (hq : normalizePhysicalType u.toUnicode target = .ok q.text) :
    validateLosslessProjection u.toUnicode source target column false = .ok () ↔
      p.domain ≤ q.domain := by
  unfold validateLosslessProjection comparisonShape
  rw [hp, hq, ok_bind, ok_bind, normalize_text, normalize_text, ok_bind]
  have hiff := @Domain.verdict_iff p.domain q.domain
  rw [← shapeOf_eq_iff u.toUnicode p q, ← verdict_text p q u] at hiff
  rw [← hiff]
  simp only [pure, Except.pure, ok_bind]
  split_ifs with h
  · exact iff_of_true rfl h
  · exact iff_of_false (fun hok => by cases hok) h

theorem equal_iff {left right : Str} {p q : PhysicalType}
    (hp : normalizePhysicalType u.toUnicode left = .ok p.text)
    (hq : normalizePhysicalType u.toUnicode right = .ok q.text) :
    mssqlPhysicalTypesEqual u.toUnicode left right = true ↔ p.domain = q.domain := by
  unfold mssqlPhysicalTypesEqual comparisonShape
  rw [hp, hq]
  simp only [pure, Except.pure, ok_bind, decide_eq_true_eq, shapeOf_eq_iff]

theorem widening_iff {desired existing : Str} {p q : PhysicalType}
    (hp : normalizePhysicalType u.toUnicode desired = .ok p.text)
    (hq : normalizePhysicalType u.toUnicode existing = .ok q.text) :
    mssqlIsSafeWidening u.toUnicode desired existing = true ↔ q.domain < p.domain := by
  unfold mssqlIsSafeWidening
  have hequal := equal_iff u hp hq
  have hvalid := validate_iff u "<schema-evolution>".toList hq hp
  rw [lt_iff_le_and_ne, ← hvalid, ne_comm, ne_eq, ← hequal]
  split_ifs with h
  · exact iff_of_false id fun hboth => hboth.2 h
  · cases hv : validateLosslessProjection u.toUnicode existing desired
      "<schema-evolution>".toList false with
    | ok => exact iff_of_true rfl ⟨rfl, h⟩
    | error e => exact iff_of_false (fun hfalse => by cases hfalse) fun hboth => by cases hboth.1

/-- `source` may be read into `target`. -/
def Projects (column source target : Str) : Prop :=
  validateLosslessProjection u.toUnicode source target column false = .ok ()

/-- A value of a column that was declared with this text. -/
def HoldsIn (dtype : Str) (v : Value) : Prop :=
  ∃ p : PhysicalType, normalizePhysicalType u.toUnicode dtype = .ok p.text ∧ p.domain.Holds v

/-- The types of an accepted projection. -/
theorem Projects.types {column source target : Str} (h : Projects u column source target) :
    ∃ p q : PhysicalType, normalizePhysicalType u.toUnicode source = .ok p.text ∧
      normalizePhysicalType u.toUnicode target = .ok q.text ∧ p.domain ≤ q.domain := by
  cases hs : normalizePhysicalType u.toUnicode source with
  | error e =>
    rw [Projects, validateLosslessProjection, hs] at h
    cases h
  | ok s =>
    cases ht : normalizePhysicalType u.toUnicode target with
    | error e =>
      rw [Projects, validateLosslessProjection, hs, ht] at h
      cases h
    | ok t =>
      obtain ⟨p, rfl⟩ := normalize_ok hs
      obtain ⟨q, rfl⟩ := normalize_ok ht
      exact ⟨p, q, rfl, rfl, (validate_iff u column hs ht).mp h⟩

theorem projects_of_widening {desired existing : Str}
    (h : mssqlIsSafeWidening u.toUnicode desired existing = true) :
    Projects u "<schema-evolution>".toList existing desired := by
  unfold mssqlIsSafeWidening at h
  split_ifs at h
  split at h
  · assumption
  · cases h

/-- A declaration has one domain. -/
theorem domain_unique {dtype : Str} {p q : PhysicalType}
    (hp : normalizePhysicalType u.toUnicode dtype = .ok p.text)
    (hq : normalizePhysicalType u.toUnicode dtype = .ok q.text) : p.domain = q.domain :=
  domain_of_text (Except.ok.inj (hp.symm.trans hq))

/-- SOUND: a column of the target type has every value of the source type. Acceptance is an order
    up to equality of types, and the safe widenings are its strict part. -/
theorem projection_laws (column : Str) :
    (∀ source target, Projects u column source target →
      ∀ v, HoldsIn u source v → HoldsIn u target v) ∧
    (∀ dtype normalized, normalizePhysicalType u.toUnicode dtype = .ok normalized →
      Projects u column dtype dtype) ∧
    (∀ a b c, Projects u column a b → Projects u column b c → Projects u column a c) ∧
    (∀ a b, Projects u column a b → Projects u column b a →
      mssqlPhysicalTypesEqual u.toUnicode a b = true) ∧
    ∀ desired existing, mssqlIsSafeWidening u.toUnicode desired existing = true →
      Projects u column existing desired ∧ ¬ Projects u column desired existing := by
  refine ⟨?_, ?_, ?_, ?_, ?_⟩
  · rintro source target h v ⟨p', hp', hv⟩
    obtain ⟨p, q, hp, hq, hle⟩ := h.types
    rw [domain_unique u hp' hp] at hv
    exact ⟨q, hq, holds_of_le hle hv⟩
  · intro dtype normalized h
    obtain ⟨p, rfl⟩ := normalize_ok h
    exact (validate_iff u column h h).mpr le_rfl
  · intro a b c hab hbc
    obtain ⟨p, q, hp, hq, hle⟩ := hab.types
    obtain ⟨q', r, hq', hr, hle'⟩ := hbc.types
    rw [domain_unique u hq' hq] at hle'
    exact (validate_iff u column hp hr).mpr (hle.trans hle')
  · intro a b hab hba
    obtain ⟨p, q, hp, hq, hle⟩ := hab.types
    exact (equal_iff u hp hq).mpr (hle.antisymm ((validate_iff u column hq hp).mp hba))
  · intro desired existing h
    obtain ⟨q, p, hq, hp, -⟩ := (projects_of_widening u h).types
    have hlt := (widening_iff u hp hq).mp h
    exact ⟨(validate_iff u column hq hp).mpr hlt.le,
      fun hback => hlt.not_ge ((validate_iff u column hp hq).mp hback)⟩

end Laws

/-- A character of a canonical spelling is in lower case. -/
theorem toLower_canonical {c : Char}
    (h : c.isLower = true ∨ c.isDigit = true ∨ bracket c = true) : c.toLower = c := by
  unfold Char.toLower
  refine dif_neg ?_
  rintro ⟨h1, h2⟩
  simp only [ge_iff_le, UInt32.le_iff_toNat_le] at h1 h2
  rcases h with h | h | h
  · unfold Char.isLower at h
    simp only [Bool.and_eq_true, decide_eq_true_eq, ge_iff_le, UInt32.le_iff_toNat_le] at h
    simp at h1 h2 h
    omega
  · unfold Char.isDigit at h
    simp only [Bool.and_eq_true, decide_eq_true_eq, ge_iff_le, UInt32.le_iff_toNat_le] at h
    simp at h1 h2 h
    omega
  · unfold bracket at h
    simp only [Bool.or_eq_true, decide_eq_true_eq] at h
    rcases h with (rfl | rfl) | rfl <;> simp at h1

theorem ascii_lower_canonical (s : Str)
    (h : ∀ c ∈ s, c.isLower = true ∨ c.isDigit = true ∨ bracket c = true) :
    Unicode.ascii.lower s = s :=
  (List.map_congr_left fun c hc => toLower_canonical (h c hc)).trans (List.map_id s)

/-- The ASCII database. -/
def Casing.ascii : Casing := ⟨Unicode.ascii, ascii_lower_canonical⟩

example : mssqlIsSafeWidening Casing.ascii.toUnicode "NUMERIC( 10, 0 )".toList "int".toList =
    true := by
  decide

end Dpone.Contracts.Mssql
