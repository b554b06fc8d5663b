import Mathlib.Data.Int.ConditionallyCompleteOrder
import Mathlib.Data.Int.Interval
import Dpone.Schemes.Ranges
import Dpone.Schemes.Records
import Dpone.Partitioning.RangePartitioner

/-! Slices of a native transfer: `RangeSlicePlanner` of `runtime/native_transfer_slicing.py`.

    A partition with numeric bounds is laid out as slices of a number of rows, and a slice that
    turns out too large is replaced by its two halves. Bounds are integers or decimals, here their
    values; a slice and a partition hold the values from the lower bound on, below the upper one or
    up to it. -/

namespace Dpone.Partitioning
open Dpone.Schemes

structure TransferPartition where
  index : ℤ
  lowerBound : ℚ
  upperBound : ℚ
  includeUpper : Bool := false
  estimatedRows : Option ℤ := none
  deriving DecidableEq

structure TransferSlice where
  partitionIndex : ℤ
  sliceIndex : ℤ
  lowerBound : ℚ
  upperBound : ℚ
  includeUpper : Bool := false
  estimatedRows : Option ℤ := none
  isNullPartition : Bool := false
  deriving DecidableEq

/-- What the planner reads of `NativeTransferResourcePolicy`. -/
structure NativeTransferResourcePolicy where
  targetFileBytes : ℤ := 128 * 1024 * 1024
  minSliceRows : ℤ := 1000
  maxSliceRows : ℤ := 250000

/-- `int(x)`. -/
def wholePart (x : ℚ) : ℤ := if 0 ≤ x then ⌊x⌋ else ⌈x⌉

/-! ### Planning -/

section
variable (resource : NativeTransferResourcePolicy)

/-- `AdaptiveSliceSizer._clamp`. -/
def clampRows (value : ℤ) : ℤ :=
  max resource.minSliceRows (min resource.maxSliceRows value)

/-- `AdaptiveSliceSizer.initial_rows`. -/
def initialRows (estimatedBytesPerRow : Option ℚ) : Except PyError ℤ := do
  let rowBytes := max 1 <| wholePart <| match estimatedBytesPerRow with
    | none => 1
    | some bytes => if bytes = 0 then 1 else bytes
  let rows ← trueDiv resource.targetFileBytes rowBytes
  return clampRows resource (max 1 (wholePart rows))

variable (p : TransferPartition)

/-- `span` of `plan`. -/
def sliceSpan : ℤ := max 0 (wholePart p.upperBound - wholePart p.lowerBound)

/-- `slice_count` of `plan`. -/
def sliceCount (rowsPerSlice : ℤ) : Except PyError ℤ := do
  raiseIf (rowsPerSlice = 0) .zeroDivisionError
  let quotient ← trueDiv (sliceSpan p) rowsPerSlice
  return max 1 ⌈quotient⌉

/-- The loop of `plan`, with so many turns to go. -/
def sliceLoop (rowsPerSlice : ℤ) : ℕ → ℤ → ℤ → List TransferSlice
  | 0, _, _ => []
  | rest + 1, index, lower =>
    let last : Bool := rest = 0
    let upper := if last then wholePart p.upperBound
      else min (wholePart p.upperBound) (lower + rowsPerSlice)
    { partitionIndex := p.index, sliceIndex := index, lowerBound := lower, upperBound := upper
      includeUpper := p.includeUpper && last, estimatedRows := some (max 0 (upper - lower)) } ::
      sliceLoop rowsPerSlice rest (index + 1) upper

/-- The partition as one slice. -/
def TransferPartition.asSlice : TransferSlice :=
  { partitionIndex := p.index, sliceIndex := 0, lowerBound := p.lowerBound
    upperBound := p.upperBound, includeUpper := p.includeUpper
    estimatedRows := p.estimatedRows }

/-- `RangeSlicePlanner.plan`. -/
def planSlices (estimatedBytesPerRow : Option ℚ) : Except PyError (List TransferSlice) := do
  let rowsPerSlice ← initialRows resource estimatedBytesPerRow
  if sliceSpan p = 0 then return [p.asSlice]
  else do
    let count ← sliceCount p rowsPerSlice
    return sliceLoop p rowsPerSlice count.toNat 0 (wholePart p.lowerBound)

end

/-- `RangeSlicePlanner.split`. -/
def splitSlice (item : TransferSlice) : Except PyError (List TransferSlice) :=
  if item.isNullPartition then .ok []
  else
    let lower := wholePart item.lowerBound
    let upper := wholePart item.upperBound
    if upper - lower ≤ 1 then .ok []
    else do
      let half ← trueDiv (upper - lower) 2
      let midpoint := lower + max 1 (wholePart half)
      return [
        { partitionIndex := item.partitionIndex, sliceIndex := 0, lowerBound := lower
          upperBound := midpoint, estimatedRows := some (midpoint - lower) },
        { partitionIndex := item.partitionIndex, sliceIndex := 1, lowerBound := midpoint
          upperBound := upper, includeUpper := item.includeUpper
          estimatedRows := some (upper - midpoint) }]

/-- So many slices were replaced, one after the other, each by its halves. -/
inductive Splits : ℕ → List TransferSlice → List TransferSlice → Prop
  | start (slices : List TransferSlice) : Splits 0 slices slices
  | next {n : ℕ} {slices before after halves : List TransferSlice} {item : TransferSlice} :
      Splits n slices (before ++ item :: after) → splitSlice item = .ok halves → halves ≠ [] →
      Splits (n + 1) slices (before ++ halves ++ after)

/-! ### Meaning -/

/-- The values below the upper end. -/
def below (upper : ℚ) (includeUpper : Bool) (v : ℚ) : Prop :=
  if includeUpper then v ≤ upper else v < upper

instance (upper : ℚ) (includeUpper : Bool) (v : ℚ) : Decidable (below upper includeUpper v) :=
  inferInstanceAs (Decidable (if includeUpper then v ≤ upper else v < upper))

def TransferPartition.Holds (p : TransferPartition) (v : ℚ) : Prop :=
  p.lowerBound ≤ v ∧ below p.upperBound p.includeUpper v

instance (p : TransferPartition) (v : ℚ) : Decidable (p.Holds v) :=
  inferInstanceAs (Decidable (_ ∧ _))

def TransferSlice.holds (s : TransferSlice) (v : ℚ) : Bool :=
  s.lowerBound ≤ v ∧ below s.upperBound s.includeUpper v

/-- What a slice is known by in the evidence of a transfer. -/
def TransferSlice.key (s : TransferSlice) : ℤ × ℤ := (s.partitionIndex, s.sliceIndex)

/-- The slices hold the values of the partition, each in one slice; only the last one can hold its
    upper bound, as the partition does; and no two have one key. -/
structure SlicesExact (p : TransferPartition) (slices : List TransferSlice) : Prop where
  covers : ∀ v, slices.countP (·.holds v) = if p.Holds v then 1 else 0
  halfOpen : slices.Pairwise fun s _ => s.includeUpper = false
  closes : slices.getLast?.map (·.includeUpper) = some p.includeUpper
  distinct : (slices.map (·.key)).Nodup

/-- Both bounds are integers. -/
def TransferPartition.WholeBounds (p : TransferPartition) : Prop :=
  (wholePart p.lowerBound : ℚ) = p.lowerBound ∧ (wholePart p.upperBound : ℚ) = p.upperBound

/-- One slice is planned. -/
def PlansOne (resource : NativeTransferResourcePolicy) (p : TransferPartition)
    (estimatedBytesPerRow : Option ℚ) : Prop :=
  sliceSpan p = 0 ∨
    ∃ rows, initialRows resource estimatedBytesPerRow = .ok rows ∧ sliceCount p rows = .ok 1

/-! ### Arithmetic -/

theorem wholePart_mono {x y : ℚ} (h : x ≤ y) : wholePart x ≤ wholePart y := by
  unfold wholePart
  by_cases hx : 0 ≤ x
  · rw [if_pos hx, if_pos (hx.trans h)]
    exact Int.floor_le_floor h
  · rw [if_neg hx]
    by_cases hy : 0 ≤ y
    · rw [if_pos hy]
      exact (Int.ceil_le.mpr (by simpa using (not_le.mp hx).le)).trans (Int.floor_nonneg.mpr hy)
    · rw [if_neg hy]
      exact Int.ceil_le_ceil h

@[simp] theorem wholePart_intCast (n : ℤ) : wholePart n = n := by
  unfold wholePart
  split <;> simp

/-- What is not positive is not rounded up past zero. -/
theorem roundSig_nonpos {x : ℚ} (h : x ≤ 0) : roundSig 2 53 x ≤ 0 := by
  by_cases hx : x = 0
  · simp [roundSig, hx]
  · rw [roundSig, if_neg hx]
    dsimp only
    set ulp : ℚ := ((2 : ℕ) : ℚ) ^ (Int.log 2 |x| + 1 - (53 : ℕ)) with hulp
    have hpos : 0 < ulp := zpow_pos (by norm_num) _
    have hquot : x / ulp ≤ 0 := div_nonpos_of_nonpos_of_nonneg h hpos.le
    have hround : roundHalfEven (x / ulp) ≤ 0 :=
      (roundHalfEven_le_ceil _).trans (Int.ceil_le.mpr (by simpa using hquot))
    exact mul_nonpos_of_nonpos_of_nonneg (by exact_mod_cast hround) hpos.le

/-- Rounding to a float does not double a positive number. -/
theorem roundSig_le_double {x : ℚ} (h : 0 < x) : roundSig 2 53 x ≤ 2 * x := by
  obtain ⟨hlead, -⟩ := log_bounds (b := 2) (by norm_num) h.ne'
  rw [roundSig, if_neg h.ne']
  dsimp only
  set e := Int.log 2 |x|
  set ulp : ℚ := ((2 : ℕ) : ℚ) ^ (e + 1 - (53 : ℕ)) with hulp
  have hpos : 0 < ulp := zpow_pos (by norm_num) _
  have hfine : ulp ≤ x := by
    rw [abs_of_pos h] at hlead
    exact (zpow_le_zpow_right₀ (by norm_num) (by omega)).trans hlead
  have hround : (roundHalfEven (x / ulp) : ℚ) ≤ x / ulp + 1 := by
    have hceil : (roundHalfEven (x / ulp) : ℚ) ≤ ⌈x / ulp⌉ := by
      exact_mod_cast roundHalfEven_le_ceil _
    exact hceil.trans (Int.ceil_lt_add_one _).le
  calc roundHalfEven (x / ulp) * ulp ≤ (x / ulp + 1) * ulp :=
        mul_le_mul_of_nonneg_right hround hpos.le
    _ = x + ulp := by field_simp
    _ ≤ 2 * x := by linarith

theorem floatResult_ok {x y : ℚ} (h : floatResult x = .ok y) : y = roundSig 2 53 x := by
  unfold floatResult at h
  dsimp only at h
  split at h
  · cases h
  · exact (Except.ok.inj h).symm

/-- The middle of a slice is inside it. -/
theorem half_le {n : ℤ} (hn : 2 ≤ n) {half : ℚ} (h : trueDiv n 2 = .ok half) :
    max 1 (wholePart half) ≤ n := by
  have hle : half ≤ n := by
    rw [floatResult_ok h]
    have hpos : (0 : ℚ) < n := by exact_mod_cast (by omega : 0 < n)
    have := roundSig_le_double (x := (n : ℚ) / (2 : ℤ)) (by positivity)
    push_cast at this ⊢
    linarith
  have hwhole := wholePart_mono hle
  rw [wholePart_intCast] at hwhole
  omega

/-! ### Tiling -/

/-- The values below a slice. -/
def sliceLower (s : TransferSlice) (v : ℚ) : Prop := v < s.lowerBound

/-- The values below the end of a slice. -/
def sliceUpper (s : TransferSlice) (v : ℚ) : Prop := below s.upperBound s.includeUpper v

theorem holds_iff (s : TransferSlice) (v : ℚ) :
    s.holds v = true ↔ ¬ sliceLower s v ∧ sliceUpper s v := by
  simp [TransferSlice.holds, sliceLower, sliceUpper]

theorem below_of_lt {upper v : ℚ} (includeUpper : Bool) (h : v < upper) :
    below upper includeUpper v := by
  unfold below
  split
  · exact h.le
  · exact h

/-- Slices from a lower bound to an upper end, the last of which alone can hold it. -/
structure LaidOut (p : TransferPartition) (lower upper : ℚ) (slices : List TransferSlice) :
    Prop where
  tiles : Tiles sliceLower sliceUpper (· < lower) (below upper p.includeUpper) slices
  halfOpen : slices.Pairwise fun s _ => s.includeUpper = false
  closes : slices.getLast?.map (·.includeUpper) = some p.includeUpper
  whole : ∀ s ∈ slices, s.partitionIndex = p.index ∧ s.isNullPartition = false ∧
    (wholePart s.lowerBound : ℚ) = s.lowerBound ∧ (wholePart s.upperBound : ℚ) = s.upperBound

/-- The slices of a plan are laid out between the integer parts of the bounds. -/
theorem sliceLoop_laidOut {p : TransferPartition} {rowsPerSlice : ℤ} :
    ∀ {rest : ℕ} {index lower : ℤ}, lower ≤ wholePart p.upperBound →
      (rest ≠ 0 → 0 ≤ rowsPerSlice) →
      LaidOut p lower (wholePart p.upperBound)
        (sliceLoop p rowsPerSlice (rest + 1) index lower) ∧
      (sliceLoop p rowsPerSlice (rest + 1) index lower).map (·.sliceIndex) =
        (List.range (rest + 1)).map fun i : ℕ => index + i
  | 0, index, lower, hle, _ => by
    have hend : (lower : ℚ) ≤ wholePart p.upperBound := by exact_mod_cast hle
    refine ⟨⟨.one (fun _ => Iff.rfl) (fun v => ?_) fun v hv => ?_, ?_, ?_, ?_⟩, ?_⟩
    · simp [sliceUpper]
    · exact below_of_lt _ (hv.trans_le hend)
    · simp [sliceLoop]
    · simp [sliceLoop]
    · simp [sliceLoop]
    · simp [sliceLoop]
  | rest + 1, index, lower, hle, hrows => by
    have hrows' : 0 ≤ rowsPerSlice := hrows (by simp)
    set upper := min (wholePart p.upperBound) (lower + rowsPerSlice) with hupper
    have hcut : lower ≤ upper := le_min hle (by omega)
    have hlast : upper ≤ wholePart p.upperBound := min_le_left _ _
    obtain ⟨⟨htiles, hopen, hcloses, hwhole⟩, hindexes⟩ :
        LaidOut p upper _ (sliceLoop p rowsPerSlice (rest + 1) (index + 1) upper) ∧ _ :=
      sliceLoop_laidOut hlast fun _ => hrows'
    have hloop : sliceLoop p rowsPerSlice (rest + 2) index lower =
        { partitionIndex := p.index, sliceIndex := index, lowerBound := lower
          upperBound := upper, includeUpper := false
          estimatedRows := some (max 0 (upper - lower)) } ::
          sliceLoop p rowsPerSlice (rest + 1) (index + 1) upper := by
      rw [sliceLoop]
      simp [hupper]
    rw [hloop]
    refine ⟨⟨.cons (fun _ => Iff.rfl) (fun v => ?_) (fun v hv => ?_) htiles, ?_, ?_, ?_⟩, ?_⟩
    · simp [sliceUpper, below]
    · exact lt_of_lt_of_le hv (by exact_mod_cast hcut)
    · exact List.pairwise_cons.mpr ⟨fun _ _ => rfl, hopen⟩
    · rw [List.getLast?_cons, ← hcloses, List.getLast?_eq_some_getLast htiles.ne_nil]
      rfl
    · rw [List.forall_mem_cons]
      exact ⟨by simp, hwhole⟩
    · rw [List.map_cons, hindexes, List.range_succ_eq_map (n := rest + 1), List.map_cons,
        List.map_map, Nat.cast_zero, add_zero]
      refine congrArg (index :: ·) (List.map_congr_left fun i _ => ?_)
      simp only [Function.comp_apply, Nat.succ_eq_add_one, Nat.cast_add, Nat.cast_one]
      ring

/-- More than one slice is counted only for a positive number of rows. -/
theorem sliceCount_rows {p : TransferPartition} {rowsPerSlice count : ℤ}
    (h : sliceCount p rowsPerSlice = .ok count) :
    1 ≤ count ∧ (count ≠ 1 → 0 ≤ rowsPerSlice) := by
  obtain ⟨-, -, h⟩ := bind_ok.mp h
  obtain ⟨quotient, hquotient, h⟩ := bind_ok.mp h
  cases h
  refine ⟨le_max_left _ _, fun hmore => ?_⟩
  by_contra hneg
  have hspan : (0 : ℚ) ≤ sliceSpan p := by exact_mod_cast le_max_left _ _
  have hle : quotient ≤ 0 := by
    rw [floatResult_ok hquotient]
    refine roundSig_nonpos (div_nonpos_of_nonneg_of_nonpos hspan ?_)
    exact_mod_cast (by omega : rowsPerSlice ≤ 0)
  have hceil : ⌈quotient⌉ ≤ 0 := Int.ceil_le.mpr (by simpa using hle)
  omega

/-- SPEC of `plan`: the partition as it is where its bounds have one integer part, else slices of
    rows from integer part to integer part, numbered from zero. -/
theorem planSlices_spec {resource : NativeTransferResourcePolicy} {p : TransferPartition}
    {estimatedBytesPerRow : Option ℚ} {planned : List TransferSlice}
    (h : planSlices resource p estimatedBytesPerRow = .ok planned) :
    sliceSpan p = 0 ∧ planned = [p.asSlice] ∨
      wholePart p.lowerBound < wholePart p.upperBound ∧
        LaidOut p (wholePart p.lowerBound) (wholePart p.upperBound) planned ∧
        planned.map (·.sliceIndex) = (List.range planned.length).map Nat.cast ∧
        (PlansOne resource p estimatedBytesPerRow ↔ planned.length = 1) := by
  obtain ⟨rows, hrows, h⟩ := bind_ok.mp h
  by_cases hspan : sliceSpan p = 0
  · rw [if_pos hspan] at h
    exact .inl ⟨hspan, (Except.ok.inj h).symm⟩
  · rw [if_neg hspan] at h
    obtain ⟨count, hcount, h⟩ := bind_ok.mp h
    obtain rfl := Except.ok.inj h
    have hlt : wholePart p.lowerBound < wholePart p.upperBound := by
      unfold sliceSpan at hspan
      omega
    obtain ⟨hone, hpositive⟩ := sliceCount_rows hcount
    obtain ⟨rest, hrest⟩ : ∃ rest, count.toNat = rest + 1 := ⟨count.toNat - 1, by omega⟩
    obtain ⟨hlaid, hindexes⟩ :
        LaidOut p (wholePart p.lowerBound) _
          (sliceLoop p rows (rest + 1) 0 (wholePart p.lowerBound)) ∧ _ :=
      sliceLoop_laidOut hlt.le fun hmore => hpositive (by omega)
    rw [hrest]
    have hlength : (sliceLoop p rows (rest + 1) 0 (wholePart p.lowerBound)).length = rest + 1 := by
      simpa using congrArg List.length hindexes
    refine .inr ⟨hlt, hlaid, ?_, ?_⟩
    · rw [hindexes, hlength]
      simp
    · rw [hlength, PlansOne, or_iff_right hspan]
      constructor
      · rintro ⟨rows', hrows', hcount'⟩
        rw [hrows] at hrows'
        cases hrows'
        rw [hcount] at hcount'
        cases hcount'
        omega
      · intro hzero
        refine ⟨rows, hrows, ?_⟩
        rw [hcount, show count = 1 by omega]

/-! ### Splitting -/

/-- SPEC of `split` for a slice with integer bounds: two halves that meet inside it. -/
theorem splitSlice_spec {item : TransferSlice} {halves : List TransferSlice}
    (h : splitSlice item = .ok halves) (hne : halves ≠ [])
    (hlower : (wholePart item.lowerBound : ℚ) = item.lowerBound)
    (hupper : (wholePart item.upperBound : ℚ) = item.upperBound) :
    ∃ midpoint : ℤ, item.lowerBound ≤ midpoint ∧ (midpoint : ℚ) ≤ item.upperBound ∧
      halves = [
        { partitionIndex := item.partitionIndex, sliceIndex := 0, lowerBound := item.lowerBound
          upperBound := midpoint
          estimatedRows := some (midpoint - wholePart item.lowerBound) },
        { partitionIndex := item.partitionIndex, sliceIndex := 1, lowerBound := midpoint
          upperBound := item.upperBound, includeUpper := item.includeUpper
          estimatedRows := some (wholePart item.upperBound - midpoint) }] := by
  unfold splitSlice at h
  by_cases hnull : item.isNullPartition = true
  · rw [if_pos hnull] at h
    cases h
    exact absurd rfl hne
  rw [if_neg hnull] at h
  dsimp only at h
  by_cases hsmall : wholePart item.upperBound - wholePart item.lowerBound ≤ 1
  · rw [if_pos hsmall] at h
    cases h
    exact absurd rfl hne
  rw [if_neg hsmall] at h
  obtain ⟨half, hhalf, h⟩ := bind_ok.mp h
  have hinside := half_le (by omega) hhalf
  refine ⟨wholePart item.lowerBound + max 1 (wholePart half), ?_, ?_, ?_⟩
  · have hlow : wholePart item.lowerBound ≤ wholePart item.lowerBound + max 1 (wholePart half) := by
      omega
    exact hlower.symm.le.trans (by exact_mod_cast hlow)
  · have hhigh :
        wholePart item.lowerBound + max 1 (wholePart half) ≤ wholePart item.upperBound := by
      omega
    exact le_trans (by exact_mod_cast hhigh) hupper.le
  · rw [← Except.ok.inj h, hlower, hupper]

/-- STEP: halves in the place of a slice. -/
theorem LaidOut.split {p : TransferPartition} {lower upper : ℚ}
    {before after halves : List TransferSlice} {item : TransferSlice}
    (hlaid : LaidOut p lower upper (before ++ item :: after))
    (h : splitSlice item = .ok halves) (hne : halves ≠ []) :
    LaidOut p lower upper (before ++ halves ++ after) ∧ halves.map (·.sliceIndex) = [0, 1] := by
  obtain ⟨hitem, hnull, hlower, hupper⟩ := hlaid.whole item (by simp)
  obtain ⟨midpoint, hlow, hhigh, rfl⟩ := splitSlice_spec h hne hlower hupper
  refine ⟨⟨?_, ?_, ?_, ?_⟩, rfl⟩
  · refine hlaid.tiles.replace (.cons (fun _ => Iff.rfl) (c := (· < (midpoint : ℚ)))
      (fun v => ?_) (fun v hv => lt_of_lt_of_le hv hlow)
      (.one (fun _ => Iff.rfl) (fun _ => Iff.rfl) fun v hv => ?_))
    · simp [sliceUpper, below]
    · exact below_of_lt _ (lt_of_lt_of_le hv hhigh)
  · have hopen := hlaid.halfOpen
    rw [List.pairwise_append, List.pairwise_cons] at hopen
    obtain ⟨hbefore, ⟨hfirst, hafter⟩, hacross⟩ := hopen
    have hbelow : ∀ s ∈ before, s.includeUpper = false := fun s hs => hacross s hs item (by simp)
    rw [List.append_assoc, List.pairwise_append]
    refine ⟨hbefore, ?_, fun s hs _ _ => hbelow s hs⟩
    simp only [List.cons_append, List.nil_append, List.pairwise_cons]
    exact ⟨fun _ _ => trivial, hfirst, hafter⟩
  · have hcloses := hlaid.closes
    rw [List.getLast?_append, List.getLast?_cons] at hcloses
    rw [List.append_assoc, List.getLast?_append]
    cases hafter : after.getLast? with
    | none =>
      rw [hafter] at hcloses
      simpa [List.getLast?_cons, hafter] using hcloses
    | some last =>
      rw [hafter] at hcloses
      simpa [List.getLast?_cons, hafter] using hcloses
  · have hwhole := hlaid.whole
    simp only [List.forall_mem_append, List.forall_mem_cons] at hwhole ⊢
    obtain ⟨hbefore, -, hafter⟩ := hwhole
    exact ⟨⟨hbefore, ⟨hitem, trivial, hlower, by simp⟩, ⟨hitem, trivial, by simp, hupper⟩, nofun⟩,
      hafter⟩

/-- RUN: splitting keeps slices laid out, adds one for each split, and takes no new index past
    one. -/
theorem splits_laidOut {p : TransferPartition} {lower upper : ℚ}
    {planned slices : List TransferSlice} {n : ℕ} (hlaid : LaidOut p lower upper planned)
    (hindexes : planned.map (·.sliceIndex) = (List.range planned.length).map Nat.cast)
    (h : Splits n planned slices) :
    LaidOut p lower upper slices ∧ slices.length = planned.length + n ∧
      ∀ s ∈ slices, s.sliceIndex ∈ Finset.Ico (0 : ℤ) (max planned.length 2) := by
  induction h with
  | start planned =>
    refine ⟨hlaid, rfl, fun s hs => ?_⟩
    have hmem := List.mem_map_of_mem (f := (·.sliceIndex)) hs
    rw [hindexes] at hmem
    obtain ⟨i, hi, heq⟩ := List.mem_map.mp hmem
    rw [← heq, Finset.mem_Ico]
    have hlt := List.mem_range.mp hi
    omega
  | next hsplits hsplit hne ih =>
    obtain ⟨hlaid', hlength, hbounds⟩ := ih hlaid hindexes
    obtain ⟨hlaid'', hkeys⟩ := hlaid'.split hsplit hne
    have hhalves := congrArg List.length hkeys
    refine ⟨hlaid'', ?_, ?_⟩
    · simp only [List.length_append, List.length_cons, List.length_map, List.length_nil] at *
      omega
    · simp only [List.forall_mem_append, List.forall_mem_cons] at hbounds ⊢
      obtain ⟨hbefore, -, hafter⟩ := hbounds
      refine ⟨⟨hbefore, fun s hs => ?_⟩, hafter⟩
      have hmem := List.mem_map_of_mem (f := (·.sliceIndex)) hs
      rw [hkeys] at hmem
      rw [Finset.mem_Ico]
      simp only [List.mem_cons, List.not_mem_nil, or_false] at hmem
      omega

/-! ### Exactness -/

theorem below_le {upper v : ℚ} {includeUpper : Bool} (h : below upper includeUpper v) :
    v ≤ upper := by
  unfold below at h
  split at h
  · exact h
  · exact h.le

/-- How often a value is held. -/
theorem LaidOut.count {p : TransferPartition} {lower upper : ℚ} {slices : List TransferSlice}
    (hlaid : LaidOut p lower upper slices) (v : ℚ) :
    slices.countP (·.holds v) = if lower ≤ v ∧ below upper p.includeUpper v then 1 else 0 := by
  obtain ⟨hone, hzero⟩ := hlaid.tiles.count v (·.holds v) fun s _ => holds_iff s v
  simp only [not_lt] at hone hzero
  split
  · next h => exact hone h
  · next h => exact hzero h

/-- Slices hold what a partition holds exactly when they start and end where it does. -/
theorem LaidOut.covers_iff {p : TransferPartition} {lower upper : ℚ} {slices : List TransferSlice}
    (hlaid : LaidOut p lower upper slices) (hlt : lower < upper)
    (hbounds : p.lowerBound < p.upperBound) :
    (∀ v, slices.countP (·.holds v) = if p.Holds v then 1 else 0) ↔
      lower = p.lowerBound ∧ upper = p.upperBound := by
  constructor
  · intro h
    have hsame : ∀ v, lower ≤ v ∧ below upper p.includeUpper v ↔
        p.lowerBound ≤ v ∧ below p.upperBound p.includeUpper v := by
      intro v
      have hv := h v
      rw [hlaid.count] at hv
      change _ ↔ p.Holds v
      by_cases hslices : lower ≤ v ∧ below upper p.includeUpper v
      · by_contra hp
        rw [if_pos hslices, if_neg fun h => hp (iff_of_true hslices h)] at hv
        cases hv
      · by_contra hp
        rw [if_neg hslices, if_pos (by tauto)] at hv
        cases hv
    have hlower : lower = p.lowerBound := by
      refine le_antisymm ?_ ?_
      · exact ((hsame p.lowerBound).mpr ⟨le_rfl, below_of_lt _ hbounds⟩).1
      · exact ((hsame lower).mp ⟨le_rfl, below_of_lt _ hlt⟩).1
    refine ⟨hlower, le_antisymm ?_ ?_⟩
    · -- a value above the partition's end would be held
      by_contra habove
      have hmid := (hsame ((p.upperBound + upper) / 2)).mp
        ⟨by linarith, below_of_lt _ (by linarith)⟩
      linarith [below_le hmid.2]
    · -- a value below the partition's end would be held by no slice
      by_contra hbelow
      have hmid := (hsame ((p.upperBound + upper) / 2)).mpr
        ⟨by linarith, below_of_lt _ (by linarith)⟩
      linarith [below_le hmid.2]
  · rintro ⟨rfl, rfl⟩ v
    rw [hlaid.count]
    rfl

/-- Slices of one partition with indexes below a bound have distinct keys only if there are no more
    of them than that. -/
theorem length_le_of_distinct {slices : List TransferSlice} {index : ℤ} {m : ℕ}
    (hindex : ∀ s ∈ slices, s.partitionIndex = index)
    (hbounds : ∀ s ∈ slices, s.sliceIndex ∈ Finset.Ico (0 : ℤ) m)
    (hdistinct : (slices.map (·.key)).Nodup) : slices.length ≤ m := by
  have hkeys : slices.map (·.key) = (slices.map (·.sliceIndex)).map (index, ·) := by
    rw [List.map_map]
    exact List.map_congr_left fun s hs => by simp [TransferSlice.key, hindex s hs]
  rw [hkeys] at hdistinct
  have hnodup := hdistinct.of_map
  have hsubset : (slices.map (·.sliceIndex)).toFinset ⊆ Finset.Ico (0 : ℤ) m := by
    intro i hi
    obtain ⟨s, hs, rfl⟩ := List.mem_map.mp (List.mem_toFinset.mp hi)
    exact hbounds s hs
  simpa [List.toFinset_card_of_nodup hnodup] using Finset.card_le_card hsubset

/-- A plan numbers its slices apart. -/
theorem planned_distinct {slices : List TransferSlice}
    (hindexes : slices.map (·.sliceIndex) = (List.range slices.length).map Nat.cast) :
    (slices.map (·.key)).Nodup := by
  have hnodup : (slices.map (·.sliceIndex)).Nodup := by
    rw [hindexes]
    exact List.nodup_range.map Nat.cast_injective
  refine List.Nodup.of_map Prod.snd ?_
  rwa [List.map_map]

/-- Keys stay apart as long as nothing is split, or the one slice of a plan is split once. -/
theorem splits_distinct_iff {p : TransferPartition} {lower upper : ℚ}
    {planned slices : List TransferSlice} {n : ℕ} (hlaid : LaidOut p lower upper planned)
    (hindexes : planned.map (·.sliceIndex) = (List.range planned.length).map Nat.cast)
    (h : Splits n planned slices) :
    (slices.map (·.key)).Nodup ↔ n = 0 ∨ n = 1 ∧ planned.length = 1 := by
  obtain ⟨hlaid', hlength, hbounds⟩ := splits_laidOut hlaid hindexes h
  constructor
  · intro hdistinct
    have hle := length_le_of_distinct (m := max planned.length 2)
      (fun s hs => (hlaid'.whole s hs).1) (by simpa using hbounds) hdistinct
    have hpos : 0 < planned.length := List.length_pos_of_ne_nil hlaid.tiles.ne_nil
    omega
  · rintro (rfl | ⟨rfl, hone⟩)
    · cases h
      exact planned_distinct hindexes
    · cases h with
      | next hsplits hsplit hne =>
        cases hsplits
        rename_i before after halves item
        obtain ⟨-, hkeys⟩ := hlaid.split hsplit hne
        have hbefore : before = [] := by
          rw [← List.length_eq_zero_iff]
          simp only [List.length_append, List.length_cons] at hone
          omega
        have hafter : after = [] := by
          rw [← List.length_eq_zero_iff]
          simp only [List.length_append, List.length_cons] at hone
          omega
        subst hbefore hafter
        rw [List.nil_append, List.append_nil]
        refine List.Nodup.of_map Prod.snd ?_
        rw [List.map_map]
        exact hkeys ▸ (by decide : ([0, 1] : List ℤ).Nodup)

/-- A slice that has no halves stays. -/
theorem no_splits {item : TransferSlice} {slices : List TransferSlice} {n : ℕ}
    (hitem : splitSlice item = .ok [])
    (h : Splits n [item] slices) : n = 0 ∧ slices = [item] := by
  generalize hplanned : [item] = planned at h
  induction h with
  | start => exact ⟨rfl, rfl⟩
  | @next _ _ before after halves other hsplits hsplit hne ih =>
    obtain ⟨-, hone⟩ := ih hplanned
    have hmem : other ∈ before ++ other :: after := by simp
    rw [hone, ← hplanned] at hmem
    rw [List.mem_singleton.mp hmem, hitem] at hsplit
    cases hsplit
    exact absurd rfl hne

/-- CORRECT: what was planned, and split so many times, is exactly the partition under distinct keys
    if and only if the partition's bounds are integers or have one integer part, and nothing was
    split but, once, the one slice of a plan. -/
theorem slices_exact_iff {resource : NativeTransferResourcePolicy} {p : TransferPartition}
    {estimatedBytesPerRow : Option ℚ} {planned slices : List TransferSlice} {n : ℕ}
    (hplan : planSlices resource p estimatedBytesPerRow = .ok planned)
    (hbounds : p.lowerBound ≤ p.upperBound) (hsplits : Splits n planned slices) :
    SlicesExact p slices ↔ (sliceSpan p = 0 ∨ p.WholeBounds) ∧
      (n = 0 ∨ n = 1 ∧ PlansOne resource p estimatedBytesPerRow) := by
  rcases planSlices_spec hplan with ⟨hspan, rfl⟩ | ⟨hlt, hlaid, hindexes, hone⟩
  · have hsmall : wholePart p.upperBound - wholePart p.lowerBound ≤ 1 := by
      unfold sliceSpan at hspan
      omega
    have hkept : splitSlice p.asSlice = .ok [] := by
      simp [splitSlice, TransferPartition.asSlice, hsmall]
    obtain ⟨rfl, rfl⟩ := no_splits hkept hsplits
    have hexact : SlicesExact p [p.asSlice] :=
      { covers := fun v => by
          rw [List.countP_singleton]
          exact if_congr decide_eq_true_iff rfl rfl
        halfOpen := List.pairwise_singleton ..
        closes := rfl
        distinct := List.nodup_singleton _ }
    exact iff_of_true hexact ⟨.inl hspan, .inl rfl⟩
  · have hspan : sliceSpan p ≠ 0 := by
      unfold sliceSpan
      omega
    have hstrict : p.lowerBound < p.upperBound :=
      lt_of_le_of_ne hbounds fun heq => hlt.ne (congrArg wholePart heq)
    obtain ⟨hlaid', -, -⟩ := splits_laidOut hlaid hindexes hsplits
    have hcovers := hlaid'.covers_iff (by exact_mod_cast hlt) hstrict
    have hdistinct := splits_distinct_iff hlaid hindexes hsplits
    rw [or_iff_right hspan, hone, ← hdistinct]
    constructor
    · exact fun h => ⟨hcovers.mp h.covers, h.distinct⟩
    · rintro ⟨hwhole, hkeys⟩
      exact ⟨hcovers.mpr hwhole, hlaid'.halfOpen, hlaid'.closes, hkeys⟩


theorem ok_of_toOption {α : Type} {x : Except PyError α} {a : α} (h : x.toOption = some a) :
    x = .ok a := by
  cases x <;> cases h
  rfl

/-- From zero to ten, in one slice that is not split. -/
theorem ten_values_exact :
    let p : TransferPartition := { index := 0, lowerBound := 0, upperBound := 10 }
    ∃ planned, planSlices {} p none = .ok planned ∧
      (SlicesExact p planned ↔ (sliceSpan p = 0 ∨ p.WholeBounds) ∧
        (0 = 0 ∨ 0 = 1 ∧ PlansOne {} p none)) := by
  intro p
  have hplan : planSlices {} p none = .ok [{ p.asSlice with estimatedRows := some 10 }] :=
    ok_of_toOption (by decide +kernel)
  exact ⟨_, hplan, slices_exact_iff hplan (by decide) (.start _)⟩

/-- From one half to ten and a half, the planned slice starts at zero. And from zero to ten, after
    two splits two slices have one key. -/
theorem planned_below_and_split_twice :
    (∃ planned,
      planSlices {} { index := 0, lowerBound := 1 / 2, upperBound := 21 / 2 } none = .ok planned ∧
      ¬ SlicesExact { index := 0, lowerBound := 1 / 2, upperBound := 21 / 2 } planned) ∧
    ∃ planned slices,
      planSlices {} { index := 0, lowerBound := 0, upperBound := 10 } none = .ok planned ∧
      Splits 2 planned slices ∧
      ¬ SlicesExact { index := 0, lowerBound := 0, upperBound := 10 } slices := by
  constructor
  · refine ⟨[{ partitionIndex := 0, sliceIndex := 0, lowerBound := 0, upperBound := 10
               estimatedRows := some 10 }], ok_of_toOption (by decide +kernel), fun h => ?_⟩
    exact absurd (h.covers 0) (by decide +kernel)
  · have hfirst : splitSlice { partitionIndex := 0, sliceIndex := 0, lowerBound := 0
                               upperBound := 10, estimatedRows := some 10 } = .ok
        [{ partitionIndex := 0, sliceIndex := 0, lowerBound := 0, upperBound := 5
           estimatedRows := some 5 },
         { partitionIndex := 0, sliceIndex := 1, lowerBound := 5, upperBound := 10
           estimatedRows := some 5 }] := ok_of_toOption (by decide +kernel)
    have hsecond : splitSlice { partitionIndex := 0, sliceIndex := 0, lowerBound := 0
                                upperBound := 5, estimatedRows := some 5 } = .ok
        [{ partitionIndex := 0, sliceIndex := 0, lowerBound := 0, upperBound := 2
           estimatedRows := some 2 },
         { partitionIndex := 0, sliceIndex := 1, lowerBound := 2, upperBound := 5
           estimatedRows := some 3 }] := ok_of_toOption (by decide +kernel)
    have honce : Splits 1 _ ([] ++ _ ++ []) := .next (.start _) hfirst (by simp)
    have htwice : Splits 2 _ ([] ++ _ ++ _) := .next honce hsecond (by simp)
    exact ⟨_, _, ok_of_toOption (by decide +kernel), htwice,
      fun h => absurd h.distinct (by decide)⟩

end Dpone.Partitioning
