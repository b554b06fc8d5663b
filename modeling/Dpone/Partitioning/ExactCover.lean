import Dpone.Schemes.Ranges
import Dpone.Schemes.Records
import Dpone.Partitioning.RangePartitioner

/-! Planned partitions as pieces of the column's axis.

    Each bound is a cut: the planning loop lays partitions end to end from the lower to the upper
    bound, the stride edges move the two outer cuts to infinity, and NULL handling changes no cut.
    Nothing depends on how good the step is, only on bounds never moving down, which for decimals
    needs bounds that the decimal context can hold. -/

namespace Dpone.Partitioning
open Dpone.Schemes

variable {kind : ValueKind}

/-- The values below a partition. -/
def lowerCut (p : RangePartition kind) (v : ℚ) : Prop :=
  match p.lowerBound with
  | none => False
  | some l => if p.includeLower then v < literal kind p.scale l else v ≤ literal kind p.scale l

/-- The values below the end of a partition. -/
def upperCut (p : RangePartition kind) (v : ℚ) : Prop :=
  match p.upperBound with
  | none => True
  | some u => if p.includeUpper then v ≤ literal kind p.scale u else v < literal kind p.scale u

/-- A value is selected between the cuts. -/
theorem selects_value {p : RangePartition kind} (hnull : p.isNullPartition = false) (v : ℚ) :
    p.selects (some v) = true ↔ ¬ lowerCut p v ∧ upperCut p v := by
  obtain ⟨index, lower, upper, includeLower, includeUpper, isNull, includeNulls, scale⟩ := p
  obtain rfl : isNull = false := hnull
  cases lower <;> cases upper <;> cases includeLower <;> cases includeUpper <;>
    cases includeNulls <;>
    simp [RangePartition.selects, RangePartition.render, RangePartition.lowerClause,
      RangePartition.upperClause, Condition.eval, Comparison.holds, lowerCut, upperCut]

/-- NULL is selected by the NULL partition, by a partition that includes NULLs, and by one without
    bounds, whose predicate is `1 = 1`. -/
theorem selects_null (p : RangePartition kind) : p.selects none = true ↔
    p.isNullPartition = true ∨ p.includeNulls = true ∨
      (p.lowerBound = none ∧ p.upperBound = none) := by
  obtain ⟨index, lower, upper, includeLower, includeUpper, isNull, includeNulls, scale⟩ := p
  cases lower <;> cases upper <;> cases isNull <;> cases includeNulls <;>
    simp [RangePartition.selects, RangePartition.render, RangePartition.lowerClause,
      RangePartition.upperClause, Condition.eval]

/-- A later value is not written as an earlier one. -/
theorem literal_mono (scale : Option ℤ) : ∀ (kind : ValueKind) {a b : kind.Value}, a ≤ b →
    literal kind scale a ≤ literal kind scale b
  | .int, a, b, h => Int.cast_le.mpr (show (a : ℤ) ≤ b from h)
  | .decimal, _, _, h => h
  | .date, a, b, h => Int.cast_le.mpr (show (a : ℤ) ≤ b from h)
  | .datetime, a, b, h => by
      have hab : (a : ℤ) ≤ b := h
      have hunit : (0 : ℤ) < 10 ^ (6 - literalDigits scale) := by positivity
      have hquot := Int.ediv_le_ediv hunit hab
      have hprod := mul_le_mul_of_nonneg_right hquot hunit.le
      simp only [literal]
      exact_mod_cast hprod

/-! The planning loop. -/

/-- What every planned partition has before NULL handling. -/
structure Plain (scale : Option ℤ) (q : RangePartition kind) : Prop where
  notNull : q.isNullPartition = false
  noNulls : q.includeNulls = false
  closedBelow : q.includeLower = true
  sameScale : q.scale = scale

variable {p : RangePartitioner kind}

/-- RUN: as long as adding the step moves no bound down, the loop lays partitions end to end from
    `lower` to the upper bound. `Ok` is what the bounds have to keep for that. -/
theorem planLoop_tiles {stopsEarly : Bool} {advance : kind.Value → Except PyError kind.Value}
    (Ok : kind.Value → Prop) (hupper : Ok p.upperBound)
    (hadvance : ∀ l m, Ok l → advance l = .ok m → l ≤ m ∧ Ok m) :
    ∀ (rest index : ℕ) (lower : kind.Value) (ps : List (RangePartition kind)), Ok lower →
      lower ≤ p.upperBound → 0 < rest → index + rest = p.numPartitions →
      planLoop p stopsEarly advance rest index lower = .ok ps →
      Tiles lowerCut upperCut (· < literal kind p.scale lower)
        (· ≤ literal kind p.scale p.upperBound) ps ∧
      ∀ q ∈ ps, Plain p.scale q ∧ q.lowerBound ≠ none ∧ q.upperBound ≠ none
  | rest + 1, index, lower, ps, hok, hle, _, hindex, hrun => by
      rw [planLoop] at hrun
      obtain ⟨next, hnext, hrun⟩ := bind_ok.mp hrun
      obtain ⟨hlow, hokNext⟩ := hadvance lower next hok hnext
      set upper := min p.upperBound next with hupperDef
      have hcut : lower ≤ upper := le_min hle hlow
      have hlast : upper ≤ p.upperBound := min_le_left _ _
      dsimp only at hrun
      split_ifs at hrun with hclose
      · -- the closing partition takes everything up to the upper bound
        obtain rfl := Except.ok.inj hrun
        refine ⟨.one (fun v => by simp [lowerCut]) (fun v => by simp [upperCut, hclose])
          fun v hv => hv.le.trans (literal_mono p.scale kind hle), ?_⟩
        simp [hclose, Plain.mk]
      · obtain ⟨later, hlater, hps⟩ := bind_ok.mp hrun
        obtain rfl := Except.ok.inj hps
        have hokUpper : Ok upper := by
          rcases min_choice p.upperBound next with h | h <;> rw [hupperDef, h] <;> assumption
        have hmore : 0 < rest := by
          by_contra hzero
          exact hclose (by simp; omega)
        obtain ⟨htiles, hplain⟩ := planLoop_tiles Ok hupper hadvance rest (index + 1) upper later
          hokUpper hlast hmore (by omega) hlater
        refine ⟨.cons (fun v => by simp [lowerCut]) (fun v => by simp [upperCut, hclose])
          (fun v hv => hv.trans_le (literal_mono p.scale kind hcut)) htiles, fun q hq => ?_⟩
        rcases List.mem_cons.mp hq with rfl | hq
        · simp [Plain.mk, hclose]
        · exact hplain q hq

/-- The bounds that the arithmetic of their kind holds exactly: decimals of at most 28 digits, and
    in filter mode timestamps with no digits beyond the boundary's scale. -/
def RangePartitioner.WithinPrecision : {kind : ValueKind} → RangePartitioner kind → Prop
  | .decimal, p => Representable 10 28 p.lowerBound ∧ Representable 10 28 p.upperBound
  | .datetime, p => p.boundsRole = .filter →
      literal .datetime p.scale p.lowerBound = ValueKind.place .datetime p.lowerBound ∧
      literal .datetime p.scale p.upperBound = ValueKind.place .datetime p.upperBound
  | .int, _ => True
  | .date, _ => True

/-- In filter mode the bounds are written exactly. -/
theorem literal_lower : ∀ {kind : ValueKind} {p : RangePartitioner kind}, p.WithinPrecision →
    p.boundsRole = .filter → literal kind p.scale p.lowerBound = kind.place p.lowerBound
  | .int, _, _, _ => rfl
  | .decimal, _, _, _ => rfl
  | .date, _, _, _ => rfl
  | .datetime, _, hprec, hrole => (hprec hrole).1

theorem literal_upper : ∀ {kind : ValueKind} {p : RangePartitioner kind}, p.WithinPrecision →
    p.boundsRole = .filter → literal kind p.scale p.upperBound = kind.place p.upperBound
  | .int, _, _, _ => rfl
  | .decimal, _, _, _ => rfl
  | .date, _, _, _ => rfl
  | .datetime, _, hprec, hrole => (hprec hrole).2

theorem addStep_ok {value step next : ℤ} (hstep : 1 ≤ step)
    (h : (.ok (value + step) : Except PyError ℤ) = .ok next) : value ≤ next := by
  have : value + step = next := Except.ok.inj h
  omega

theorem addWithin_ok {bound value step next : ℤ} (hstep : 1 ≤ step)
    (h : addWithin bound value step = .ok next) : value ≤ next := by
  obtain ⟨_, _, hnext⟩ := bind_ok.mp h
  exact addStep_ok hstep hnext

theorem one_le_intStep {lower upper step : ℤ} {n : ℕ} (h : intStep lower upper n = .ok step) :
    1 ≤ step := by
  obtain ⟨_, _, hstep⟩ := bind_ok.mp h
  exact Except.ok.inj hstep ▸ le_max_left _ _

theorem one_le_datetimeStep {lower upper step : ℤ} {n : ℕ}
    (h : datetimeStep lower upper n = .ok step) : 1 ≤ step := by
  obtain ⟨_, _, h⟩ := bind_ok.mp h
  obtain ⟨_, _, h⟩ := bind_ok.mp h
  obtain ⟨_, _, hstep⟩ := bind_ok.mp h
  exact Except.ok.inj hstep ▸ le_max_left _ _

/-- CORRECT for every kind: the core partitions run from the lower to the upper bound. -/
theorem corePartitions_tiles : ∀ {kind : ValueKind} {p : RangePartitioner kind}
    {ps : List (RangePartition kind)}, p.lowerBound ≤ p.upperBound → 0 < p.numPartitions →
      p.WithinPrecision → corePartitions kind p = .ok ps →
      Tiles lowerCut upperCut (· < literal kind p.scale p.lowerBound)
        (· ≤ literal kind p.scale p.upperBound) ps ∧
      ∀ q ∈ ps, Plain p.scale q ∧ q.lowerBound ≠ none ∧ q.upperBound ≠ none
  | .int, p, ps, hle, hn, _, h => by
      obtain ⟨step, hstep, h⟩ := bind_ok.mp h
      exact planLoop_tiles (fun _ => True) trivial
        (fun l m _ hm => ⟨addStep_ok (one_le_intStep hstep) hm, trivial⟩)
        _ _ _ _ trivial hle hn (Nat.zero_add _) h
  | .decimal, p, ps, hle, hn, hprec, h => by
      have hone : (1 : ℤ) ≤ decimalStep p.lowerBound p.upperBound p.numPartitions :=
        le_max_left _ _
      refine planLoop_tiles (Representable 10 28) hprec.2 (fun l m hl hm => ?_)
        _ _ _ _ hprec.1 hle hn (Nat.zero_add _) h
      obtain rfl := Except.ok.inj hm
      refine ⟨le_roundSig (by decide) (by decide) hl ?_,
        roundSig_representable (by decide) (by decide) _⟩
      have hstep : (0 : ℚ) ≤ decimalStep p.lowerBound p.upperBound p.numPartitions := by
        exact_mod_cast (by omega)
      exact le_add_of_nonneg_right hstep
  | .date, p, ps, hle, hn, _, h => by
      obtain ⟨step, hstep, h⟩ := bind_ok.mp h
      exact planLoop_tiles (fun _ => True) trivial
        (fun l m _ hm => ⟨addWithin_ok (one_le_intStep hstep) hm, trivial⟩)
        _ _ _ _ trivial hle hn (Nat.zero_add _) h
  | .datetime, p, ps, hle, hn, _, h => by
      obtain ⟨step, hstep, h⟩ := bind_ok.mp h
      exact planLoop_tiles (fun _ => True) trivial
        (fun l m _ hm => ⟨addWithin_ok (one_le_datetimeStep hstep) hm, trivial⟩)
        _ _ _ _ trivial hle hn (Nat.zero_add _) h

/-! The stride edges. -/

theorem openLast_tiles {a b : ℚ → Prop} {scale : Option ℤ} {ps : List (RangePartition kind)}
    (h : Tiles lowerCut upperCut a b ps) (hplain : ∀ q ∈ ps, Plain scale q) :
    Tiles lowerCut upperCut a (fun _ => True) (openLast ps) ∧
      ∀ q ∈ openLast ps, Plain scale q := by
  induction h with
  | @one a b q hlo _ _ =>
    refine ⟨.one hlo (fun v => by simp [upperCut]) fun _ _ => trivial, fun r hr => ?_⟩
    rw [openLast, List.mem_singleton] at hr
    obtain ⟨h₁, h₂, h₃, h₄⟩ := hplain q (by simp)
    exact hr ▸ ⟨h₁, h₂, h₃, h₄⟩
  | @cons a b c q qs hlo hhi hac hrest ih =>
    obtain ⟨htiles, hlater⟩ := ih fun r hr => hplain r (by simp [hr])
    obtain ⟨r, rs, rfl⟩ := List.exists_cons_of_ne_nil hrest.ne_nil
    refine ⟨.cons hlo hhi hac htiles, fun t ht => ?_⟩
    rcases List.mem_cons.mp ht with rfl | ht
    · exact hplain _ (by simp)
    · exact hlater t ht

theorem openLast_lower : ∀ {ps : List (RangePartition kind)}, (∀ q ∈ ps, q.lowerBound ≠ none) →
    ∀ q ∈ openLast ps, q.lowerBound ≠ none
  | [], _, _, hq => absurd hq (List.not_mem_nil)
  | [r], h, q, hq => by
      rw [openLast, List.mem_singleton] at hq
      exact hq ▸ h r (by simp)
  | r :: s :: ps, h, q, hq => by
      rcases List.mem_cons.mp hq with rfl | hq
      · exact h _ (by simp)
      · exact openLast_lower (fun t ht => h t (by simp [ht])) q hq

/-- Both outer cuts move to infinity; with two partitions or more, every one keeps a bound. -/
theorem strideEdges_tiles {a b : ℚ → Prop} {scale : Option ℤ} {ps : List (RangePartition kind)}
    (h : Tiles lowerCut upperCut a b ps)
    (hplain : ∀ q ∈ ps, Plain scale q ∧ q.lowerBound ≠ none ∧ q.upperBound ≠ none) :
    Tiles lowerCut upperCut (fun _ => False) (fun _ => True) (withSparkStrideEdges ps) ∧
      (∀ q ∈ withSparkStrideEdges ps, Plain scale q) ∧
      (ps.length ≠ 1 → ∀ q ∈ withSparkStrideEdges ps, q.lowerBound ≠ none ∨ q.upperBound ≠ none) := by
  cases h with
  | @one _ _ q _ _ _ =>
    refine ⟨.one (fun v => by simp [lowerCut]) (fun v => by simp [upperCut]) fun _ _ => trivial,
      fun r hr => ?_, fun hlen => absurd rfl hlen⟩
    rw [withSparkStrideEdges, List.mem_singleton] at hr
    obtain ⟨⟨h₁, h₂, h₃, h₄⟩, _⟩ := hplain q (by simp)
    exact hr ▸ ⟨h₁, h₂, h₃, h₄⟩
  | @cons _ _ c q qs _ hhi _ hrest =>
    obtain ⟨r, rs, rfl⟩ := List.exists_cons_of_ne_nil hrest.ne_nil
    obtain ⟨htiles, hlater⟩ := openLast_tiles hrest fun t ht => (hplain t (by simp [ht])).1
    obtain ⟨⟨h₁, h₂, h₃, h₄⟩, -, hupper⟩ := hplain q (by simp)
    refine ⟨.cons (fun v => by simp [lowerCut]) hhi (fun _ h => h.elim) htiles, fun t ht => ?_,
      fun _ t ht => ?_⟩
    · rcases List.mem_cons.mp ht with rfl | ht
      · exact ⟨h₁, h₂, h₃, h₄⟩
      · exact hlater t ht
    · rcases List.mem_cons.mp ht with rfl | ht
      · exact .inr hupper
      · exact .inl (openLast_lower (fun t ht => (hplain t (by simp [ht])).2.1) t ht)

/-! NULL handling. -/

/-- NULL handling changes nothing for values: the NULL partition selects none, and including NULLs
    moves no cut. -/
theorem withNullPartition_values {scale : Option ℤ} {qs ps : List (RangePartition kind)}
    (hplain : ∀ q ∈ qs, Plain scale q) (h : withNullPartition p qs = .ok ps) (v : ℚ) :
    ps.countP (·.selects (some v)) = qs.countP (·.selects (some v)) := by
  unfold withNullPartition at h
  split at h
  · exact Except.ok.inj h ▸ rfl
  · exact Except.ok.inj h ▸ rfl
  · split at h
    · cases h
    · cases qs with
      | nil => cases h
      | cons q qs =>
        obtain rfl := Except.ok.inj h
        have hq := (hplain q (by simp)).notNull
        have hsame : ({ q with includeNulls := true } : RangePartition kind).selects (some v) =
            q.selects (some v) := by
          have hwith := selects_value (p := { q with includeNulls := true }) hq v
          exact Bool.eq_iff_iff.mpr (hwith.trans (selects_value hq v).symm)
        rw [List.countP_cons, List.countP_cons, hsame]
    · obtain rfl := Except.ok.inj h
      rw [List.countP_cons, List.countP_map]
      rfl

/-- With NULLs counted, NULL goes to the NULL partition or to the first one, and to no other that
    keeps a bound. -/
theorem withNullPartition_null {scale : Option ℤ} {qs ps : List (RangePartition kind)} {m : ℕ}
    (hcount : p.nullCount = some (m + 1)) (hfail : p.nullBucket ≠ .fail)
    (hplain : ∀ q ∈ qs, Plain scale q) (hne : qs ≠ [])
    (hbound : (p.nullBucket = .separate ∨ qs.length ≠ 1) →
      ∀ q ∈ qs, q.lowerBound ≠ none ∨ q.upperBound ≠ none)
    (h : withNullPartition p qs = .ok ps) : ps.countP (·.selects none) = 1 := by
  have hnone : ∀ q ∈ qs, (q.lowerBound ≠ none ∨ q.upperBound ≠ none) →
      ¬ q.selects none = true := by
    intro q hq hb
    rw [selects_null, (hplain q hq).notNull, (hplain q hq).noNulls]
    rcases hb with hb | hb <;> simp [hb]
  unfold withNullPartition at h
  rw [hcount] at h
  dsimp only at h
  split at h
  · next hb => exact absurd hb hfail
  · obtain ⟨q, qs, rfl⟩ := List.exists_cons_of_ne_nil hne
    obtain rfl := Except.ok.inj h
    have hfirst : ({ q with includeNulls := true } : RangePartition kind).selects none = true :=
      (selects_null _).mpr (.inr (.inl rfl))
    have hrest : qs.countP (·.selects none) = 0 := by
      refine List.countP_eq_zero.mpr fun r hr => hnone r (by simp [hr]) ?_
      refine hbound (.inr ?_) r (by simp [hr])
      have := List.length_pos_of_mem hr
      simp only [List.length_cons]
      omega
    rw [List.countP_cons, hrest, if_pos hfirst]
  · next hb =>
    obtain rfl := Except.ok.inj h
    rw [List.countP_cons, List.countP_map]
    have hrest : qs.countP ((·.selects none) ∘ fun q => { q with index := q.index + 1 }) = 0 :=
      List.countP_eq_zero.mpr fun r hr => hnone r hr (hbound (.inl hb) r hr)
    rw [hrest, if_pos ((selects_null _).mpr (.inl rfl))]

theorem withNullPartition_separate {qs ps : List (RangePartition kind)} {m : ℕ}
    (hcount : p.nullCount = some (m + 1)) (hb : p.nullBucket = .separate)
    (h : withNullPartition p qs = .ok ps) : ps.length = qs.length + 1 := by
  unfold withNullPartition at h
  rw [hcount, hb] at h
  obtain rfl := Except.ok.inj h
  simp

/-- What `partitions` returns once there is more than one partition to plan. -/
theorem partitions_ok {ps : List (RangePartition kind)} (hcolumn : p.column ≠ "")
    (hn : 2 ≤ p.numPartitions) (hexplicit : p.explicitPartitions = [])
    (h : p.partitions = .ok ps) : ∃ core, corePartitions kind p = .ok core ∧
      withNullPartition p
        (if p.boundsRole = .stride then withSparkStrideEdges core else core) = .ok ps := by
  have henabled : p.enabled = true := by
    simp only [RangePartitioner.enabled, decide_eq_true_eq]
    exact ⟨hcolumn, .inl (by omega)⟩
  unfold RangePartitioner.partitions at h
  rw [if_neg (by simp [henabled]), if_neg (by simp [hexplicit])] at h
  exact bind_ok.mp h

/-- CORRECT (exact cover), for every kind of value, bounds in order and two partitions or more: in
    filter mode a value in the range is selected exactly once and any other not at all, in stride
    mode every value is selected exactly once, and counted NULLs are selected exactly once unless
    the policy is to fail. Left out: decimals beyond the arithmetic's 28 digits, timestamps finer
    than the literals, and NULL next to a single unbounded partition. -/
theorem partitions_cover_exactly {ps : List (RangePartition kind)} (hcolumn : p.column ≠ "")
    (hn : 2 ≤ p.numPartitions) (hexplicit : p.explicitPartitions = [])
    (hle : p.lowerBound ≤ p.upperBound) (hprec : p.WithinPrecision) (h : p.partitions = .ok ps) :
    (p.boundsRole = .filter → ∀ v, ps.countP (·.selects (some v)) =
      if kind.place p.lowerBound ≤ v ∧ v ≤ kind.place p.upperBound then 1 else 0) ∧
    (p.boundsRole = .stride → ∀ v, ps.countP (·.selects (some v)) = 1) ∧
    (∀ m, p.nullCount = some (m + 1) → p.nullBucket ≠ .fail →
      (p.boundsRole = .stride → p.nullBucket = .separate → ps.length ≠ 2) →
      ps.countP (·.selects none) = 1) := by
  obtain ⟨core, hcore, hnulls⟩ := partitions_ok hcolumn hn hexplicit h
  obtain ⟨htiles, hplain⟩ := corePartitions_tiles hle (by omega) hprec hcore
  have hcorePlain : ∀ q ∈ core, Plain p.scale q := fun q hq => (hplain q hq).1
  obtain ⟨hline, hedgePlain, hedgeBound⟩ := strideEdges_tiles htiles hplain
  cases hrole : p.boundsRole with
  | filter =>
    rw [hrole, if_neg (by decide)] at hnulls
    refine ⟨fun _ v => ?_, fun hstride => (nomatch hstride), fun m hm hfail _ => ?_⟩
    · have hcount := htiles.count v (·.selects (some v)) fun q hq =>
        selects_value (hcorePlain q hq).notNull v
      have hcuts : (¬ v < literal kind p.scale p.lowerBound ∧ v ≤ literal kind p.scale p.upperBound)
          ↔ (kind.place p.lowerBound ≤ v ∧ v ≤ kind.place p.upperBound) := by
        rw [not_lt, literal_lower hprec hrole, literal_upper hprec hrole]
      rw [withNullPartition_values hcorePlain hnulls v]
      split_ifs with hv
      · exact hcount.1 (hcuts.mpr hv)
      · exact hcount.2 fun hin => hv (hcuts.mp hin)
    · exact withNullPartition_null hm hfail hcorePlain htiles.ne_nil
        (fun _ q hq => .inl (hplain q hq).2.1) hnulls
  | stride =>
    rw [hrole, if_pos rfl] at hnulls
    refine ⟨fun hfilter => (nomatch hfilter), fun _ v => ?_, fun m hm hfail hsingle => ?_⟩
    · have hcount := hline.count v (·.selects (some v)) fun q hq =>
        selects_value (hedgePlain q hq).notNull v
      rw [withNullPartition_values hedgePlain hnulls v]
      exact hcount.1 ⟨not_false, trivial⟩
    · refine withNullPartition_null hm hfail hedgePlain hline.ne_nil (fun hcase => ?_) hnulls
      refine hedgeBound fun hone => ?_
      have hedges : (withSparkStrideEdges core).length = 1 := by
        obtain ⟨q, rfl⟩ := List.length_eq_one_iff.mp hone
        rfl
      rcases hcase with hb | hlen
      · exact hsingle rfl hb (by rw [withNullPartition_separate hm hb hnulls, hedges])
      · exact hlen hedges

/-- Ten integers and some NULLs, planned as three partitions and a NULL bucket. -/
def tenIntegers : RangePartitioner .int :=
  { column := "id", lowerBound := (1 : ℤ), upperBound := (10 : ℤ), numPartitions := 3
    nullCount := some 2 }

theorem tenIntegers_partitions : ∃ ps, tenIntegers.partitions = .ok ps ∧ ps.length = 4 := by
  have hstep : intStep 1 10 3 = .ok 3 := by decide +kernel
  have hcore : corePartitions .int tenIntegers = planLoop tenIntegers false
      (fun lower => .ok ((lower : ℤ) + (3 : ℤ))) 3 0 (1 : ℤ) := by
    change (intStep 1 10 3 >>= _) = _
    rw [hstep]
    rfl
  unfold RangePartitioner.partitions
  rw [hcore]
  exact ⟨_, rfl, rfl⟩

theorem partitions_cover_ten_integers : ∃ ps, tenIntegers.partitions = .ok ps ∧
    ps.countP (·.selects (some 4)) = 1 ∧ ps.countP (·.selects none) = 1 := by
  obtain ⟨ps, hps, _⟩ := tenIntegers_partitions
  obtain ⟨hfilter, _, hnulls⟩ := partitions_cover_exactly (p := tenIntegers) (by decide)
    (by decide) rfl (by decide) trivial hps
  have hin : ValueKind.place .int tenIntegers.lowerBound ≤ 4 ∧
      4 ≤ ValueKind.place .int tenIntegers.upperBound := by decide
  exact ⟨ps, hps, by rw [hfilter rfl 4, if_pos hin],
    hnulls 1 rfl (by decide) fun h => (nomatch h)⟩

/-- The same integers, planned as one partition. -/
def onePartition : RangePartitioner .int :=
  { column := "id", lowerBound := (1 : ℤ), upperBound := (10 : ℤ), numPartitions := 1 }

/-- A planner with one partition plans none, so nothing selects a value of its range. -/
theorem one_partition_selects_nothing : onePartition.lowerBound ≤ onePartition.upperBound ∧
    1 ≤ onePartition.numPartitions ∧ ∃ ps, onePartition.partitions = .ok ps ∧
      ps.countP (·.selects (some 5)) = 0 :=
  ⟨by decide, le_rfl, [], rfl, rfl⟩

end Dpone.Partitioning
