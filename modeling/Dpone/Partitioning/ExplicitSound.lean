import Dpone.Partitioning.ExplicitOrder

/-! Explicit ranges are refused, or planned as disjoint partitions without gaps.

    No exception but `ValueError` escapes exactly where the bounds that the run gets to are readable
    and comparable; where they are also ordered as in the source, the planned partitions are
    disjoint in pairs, a rejected gap is none, and at most one partition holds NULL. -/

namespace Dpone.Partitioning
open Dpone.Schemes

section Exceptions
variable {u : Unicode} {iso : IsoReader} {kind : PartitionBoundKind}

theorem compare_onlyValueErrors {a b : PartitionBound} :
    OnlyValueErrors (comparePartitionBounds a b) ↔ Comparable a b := by
  rw [← compare_ok]
  cases h : comparePartitionBounds a b with
  | ok o => exact ⟨fun _ => ⟨o, rfl⟩, fun _ => onlyValueErrors_ok o⟩
  | error e =>
    refine ⟨fun honly => absurd (honly e rfl) (compare_error h), ?_⟩
    rintro ⟨_, ⟨⟩⟩

/-- STEP: one range. -/
theorem readRange_onlyValueErrors (hiso : RaisesValueError iso) (lower upper : BoundValue)
    (includeLower includeUpper : Bool) :
    OnlyValueErrors (readRange u iso kind lower upper includeLower includeUpper) ↔
      RangeReads u iso Comparable kind lower upper := by
  rw [readRange, onlyValueErrors_bind, normalize_onlyValueErrors hiso, RangeReads]
  refine and_congr_right fun _ => forall₂_congr fun a _ => ?_
  rw [onlyValueErrors_bind, normalize_onlyValueErrors hiso]
  refine and_congr_right fun _ => forall₂_congr fun b _ => ?_
  rw [onlyValueErrors_bind, compare_onlyValueErrors]
  refine and_iff_left fun comparison _ => ?_
  exact onlyValueErrors_bind.mpr ⟨onlyValueErrors_refuseIf _, fun _ _ => onlyValueErrors_ok _⟩

/-- RUN: the loop of the ranges. -/
theorem readRanges_onlyValueErrors (hiso : RaisesValueError iso) : ∀ (items : List RangeItem)
    (nullSeen : Bool), OnlyValueErrors (readRanges u iso kind nullSeen items) ↔
      RangesRead u iso Comparable kind nullSeen items
  | [], nullSeen => ⟨fun _ => trivial, fun _ => onlyValueErrors_ok _⟩
  | item :: items, nullSeen => by
    rw [readRanges, RangesRead]
    by_cases htwice : item.null ∧ nullSeen
    · rw [refuseIf, if_pos htwice]
      exact ⟨fun _ h => absurd htwice h, fun _ => onlyValueErrors_refuse _⟩
    rw [refuseIf, if_neg htwice, ok_bind, forall_prop_of_true htwice]
    by_cases hbucket : item.null ∧ item.lower.isNone ∧ item.upper.isNone
    · rw [if_pos hbucket, if_pos hbucket]
      exact readRanges_onlyValueErrors hiso items true
    rw [if_neg hbucket, if_neg hbucket]
    cases hlower : item.lower with
    | none => exact ⟨fun _ _ h => (by cases h), fun _ => onlyValueErrors_refuse _⟩
    | some lower =>
      cases hupper : item.upper with
      | none => exact ⟨fun _ _ _ _ h => (by cases h), fun _ => onlyValueErrors_refuse _⟩
      | some upper =>
        have hrest := readRanges_onlyValueErrors hiso items (nullSeen || item.null)
        have hgiven : OnlyValueErrors (do
            let range ← readRange u iso kind lower upper item.includeLower item.includeUpper
            let rest ← readRanges u iso kind (nullSeen || item.null) items
            return (rest.1, range :: rest.2)) ↔ RangeReads u iso Comparable kind lower upper ∧
              ((∃ r, readRange u iso kind lower upper item.includeLower item.includeUpper = .ok r) →
                RangesRead u iso Comparable kind (nullSeen || item.null) items) := by
          rw [onlyValueErrors_bind, readRange_onlyValueErrors hiso, forall_exists_index]
          refine and_congr_right fun _ => forall₂_congr fun range _ => ?_
          rw [onlyValueErrors_bind, hrest]
          exact and_iff_left fun _ _ => onlyValueErrors_ok _
        refine hgiven.trans ⟨?_, fun h => h lower rfl upper rfl⟩
        rintro h _ ⟨⟩ _ ⟨⟩
        exact h

theorem checkNeighbours_onlyValueErrors {policy : GapPolicy} {previous current : ExplicitRange} :
    OnlyValueErrors (checkNeighbours policy previous current) ↔
      Comparable previous.upper current.lower := by
  rw [checkNeighbours, onlyValueErrors_bind, compare_onlyValueErrors]
  exact and_iff_left fun _ _ =>
    onlyValueErrors_bind.mpr ⟨onlyValueErrors_refuseIf _, fun _ _ => onlyValueErrors_refuseIf _⟩

/-- RUN: the check of the neighbours. -/
theorem validate_onlyValueErrors {policy : GapPolicy} : ∀ ranges : List ExplicitRange,
    OnlyValueErrors (validateExplicitCoverage policy ranges) ↔
      NeighboursRead Comparable policy ranges
  | [] => ⟨fun _ => trivial, fun _ => onlyValueErrors_ok ()⟩
  | [_] => ⟨fun _ => trivial, fun _ => onlyValueErrors_ok ()⟩
  | previous :: current :: ranges => by
    rw [validateExplicitCoverage, onlyValueErrors_bind, checkNeighbours_onlyValueErrors,
      validate_onlyValueErrors (current :: ranges), NeighboursRead]
    exact and_congr_right fun _ => ⟨fun h hok => h () hok, fun h _ hok => h hok⟩

theorem resolveBoundary_onlyValueErrors (hiso : RaisesValueError iso) (requested : Str)
    (samples : List BoundValue) :
    OnlyValueErrors (lifted (resolveBoundary u iso requested samples)) := by
  have htext : ∀ s, OnlyValueErrors (lifted (boundaryOfText u iso s)) := by
    intro s
    rw [boundaryOfText]
    split
    · exact onlyValueErrors_ok _
    · split
      · split
        · exact onlyValueErrors_ok _
        · exact onlyValueErrors_ok _
        · rename_i e hnot herror
          obtain ⟨text, rfl⟩ := hiso.datetime herror
          exact absurd rfl (hnot text)
      · exact onlyValueErrors_ok _
  have hvalue : ∀ value, OnlyValueErrors (lifted (boundaryOfValue u iso value)) := by
    intro value
    cases value with
    | text s => exact htext s
    | _ => exact onlyValueErrors_ok _
  have hsamples : ∀ samples, OnlyValueErrors (lifted (boundaryOfSamples u iso samples)) := by
    intro samples
    induction samples with
    | nil => exact onlyValueErrors_ok _
    | cons value values ih =>
      rw [boundaryOfSamples, lifted_bind, onlyValueErrors_bind]
      refine ⟨hvalue value, fun found _ => ?_⟩
      cases found with
      | none => exact ih
      | some boundary => exact onlyValueErrors_ok boundary
  rw [resolveBoundary]
  split
  · exact onlyValueErrors_ok _
  · exact hsamples samples

/-- CORRECT: no exception but `ValueError` escapes exactly where the run gets to nothing that it
    cannot read or compare. -/
theorem fromExplicitRanges_onlyValueErrors (hiso : RaisesValueError iso)
    (resolved : PartitioningOptions) :
    OnlyValueErrors (fromExplicitRanges u iso resolved) ↔
      WellCompared u iso (fun _ => Comparable) resolved := by
  have hloop : OnlyValueErrors (fromExplicitRanges u iso resolved) ↔
      ∀ boundary, resolveBoundary u iso resolved.boundaryType (boundSamples resolved.ranges) =
        .ok boundary → RangesRead u iso Comparable boundary.kind false resolved.ranges ∧
          ∀ nullSeen ranges, readRanges u iso boundary.kind false resolved.ranges =
            .ok (nullSeen, ranges) → NeighboursRead Comparable resolved.gapPolicy ranges := by
    rw [fromExplicitRanges, onlyValueErrors_bind,
      and_iff_right (resolveBoundary_onlyValueErrors hiso _ _)]
    refine forall_congr' fun boundary => imp_congr lifted_ok ?_
    rw [onlyValueErrors_bind, readRanges_onlyValueErrors hiso, Prod.forall]
    refine and_congr_right fun _ => forall₂_congr fun nullSeen ranges => forall_congr' fun _ => ?_
    dsimp only
    by_cases hnone : ranges = []
    · rw [refuseIf, if_pos hnone]
      refine ⟨fun _ => ?_, fun _ => onlyValueErrors_refuse _⟩
      rw [hnone]
      trivial
    rw [refuseIf, if_neg hnone, ok_bind, onlyValueErrors_bind, validate_onlyValueErrors]
    exact and_iff_left fun _ _ =>
      onlyValueErrors_bind.mpr ⟨onlyValueErrors_refuseIf _, fun _ _ => onlyValueErrors_ok _⟩
  rw [hloop]
  exact ⟨fun h => ⟨fun b hb => (h b hb).1, fun b n r hb hr => (h b hb).2 n r hr⟩,
    fun h b hb => ⟨h.ranges b hb, fun n r hr => h.neighbours b n r hb hr⟩⟩

end Exceptions

/-! ### Partitions in the source -/

section Source
variable (db : SourceDatabase) (kind : PartitionBoundKind)

/-- The range of the source's order that a partition is; nothing where a bound has no place. -/
def ExplicitPartition.sourceRange (p : ExplicitPartition) : Option (Range ExtendedRational) := do
  let lower ← p.lowerBound.bind (db.place kind)
  let upper ← p.upperBound.bind (db.place kind)
  return ⟨lower, upper, p.includeLower, p.includeUpper⟩

/-- A value of the column that the partition selects. -/
def ExplicitPartition.HoldsValue (p : ExplicitPartition) (v : ExtendedRational) : Prop :=
  p.isNullPartition = false ∧ ∃ range ∈ p.sourceRange db kind, range.Mem v

def ExplicitPartition.holdsNull (p : ExplicitPartition) : Bool :=
  p.isNullPartition || p.includeNulls

/-- Neighbours between which no value is left out. -/
def Adjoining (p q : ExplicitPartition) : Prop :=
  ∃ r ∈ p.sourceRange db kind, ∃ s ∈ q.sourceRange db kind, Range.Gapless r s

end Source

/-- What the planned partitions promise in the order of the source. -/
structure Sound (db : SourceDatabase) (policy : GapPolicy) (plan : ExplicitPartitioner) : Prop where
  disjoint : plan.explicitPartitions.Pairwise fun p q => ∀ v,
    ¬ (p.HoldsValue db plan.boundary.kind v ∧ q.HoldsValue db plan.boundary.kind v)
  nulls : (plan.explicitPartitions.filter ExplicitPartition.holdsNull).length ≤ 1
  gapless : policy = .reject → (plan.explicitPartitions.filter fun p =>
    !p.isNullPartition).IsChain (Adjoining db plan.boundary.kind)

section Order
variable {db : SourceDatabase} {kind : PartitionBoundKind}

/-- The range of a partition with two bounds. -/
def ExplicitRange.sourceRange (db : SourceDatabase) (kind : PartitionBoundKind)
    (r : ExplicitRange) : Option (Range ExtendedRational) := do
  let lower ← db.place kind r.lower
  let upper ← db.place kind r.upper
  return ⟨lower, upper, r.includeLower, r.includeUpper⟩

theorem partition_sourceRange (r : ExplicitRange) (index : ℕ) (includeNulls : Bool) :
    (r.partition index includeNulls).sourceRange db kind = r.sourceRange db kind := rfl

theorem refuseIf_ok {p : Prop} [Decidable p] {e : BoundError} {v : Unit} :
    refuseIf p e = .ok v ↔ ¬ p := by
  by_cases h : p <;> simp [refuseIf, h]

/-- A range whose ends the source has, in this order. -/
def Placed (db : SourceDatabase) (kind : PartitionBoundKind) (r : ExplicitRange) : Prop :=
  ∃ range ∈ r.sourceRange db kind, range.Ordered

/-- STEP: a range that was read. -/
theorem readRange_placed {u : Unicode} {iso : IsoReader} {lower upper : BoundValue}
    {includeLower includeUpper : Bool} {r : ExplicitRange}
    (h : readRange u iso kind lower upper includeLower includeUpper = .ok r)
    (hreads : RangeReads u iso (db.Agree kind) kind lower upper) : Placed db kind r := by
  obtain ⟨a, ha, h⟩ := bind_ok.mp h
  obtain ⟨b, hb, h⟩ := bind_ok.mp h
  obtain ⟨comparison, hcomparison, h⟩ := bind_ok.mp h
  obtain ⟨_, hchecked, h⟩ := bind_ok.mp h
  cases h
  obtain ⟨x, y, hx, hy, hcompare⟩ := compare_agrees ((hreads.2 a ha).2 b hb)
  rw [hcomparison] at hcompare
  obtain rfl := Except.ok.inj hcompare
  rw [refuseIf_ok] at hchecked
  refine ⟨⟨x, y, includeLower, includeUpper⟩, ?_, ?_⟩
  · simp only [ExplicitRange.sourceRange, hx, hy]
    rfl
  · rcases lt_trichotomy x y with hlt | heq | hgt
    · exact .inl hlt
    · refine .inr ⟨heq, not_not.mp fun hends => hchecked (.inr ⟨?_, hends⟩)⟩
      exact (cmp_eq_eq_iff x y).mpr heq
    · exact absurd (.inl ((cmp_eq_gt_iff x y).mpr hgt)) hchecked

/-- RUN: all ranges that were read. -/
theorem readRanges_placed {u : Unicode} {iso : IsoReader} : ∀ {items : List RangeItem}
    {nullSeen seen : Bool} {ranges : List ExplicitRange},
    readRanges u iso kind nullSeen items = .ok (seen, ranges) →
    RangesRead u iso (db.Agree kind) kind nullSeen items → ∀ r ∈ ranges, Placed db kind r
  | [], _, _, _, h, _ => by
    cases h
    exact List.forall_mem_nil _
  | item :: items, nullSeen, seen, ranges, h, hreads => by
    obtain ⟨_, htwice, h⟩ := bind_ok.mp h
    rw [refuseIf_ok] at htwice
    have hreads := hreads htwice
    by_cases hbucket : item.null ∧ item.lower.isNone ∧ item.upper.isNone
    · rw [if_pos hbucket] at h hreads
      exact readRanges_placed h hreads
    rw [if_neg hbucket] at h hreads
    cases hlower : item.lower with
    | none =>
      rw [hlower] at h
      cases h
    | some lower =>
      cases hupper : item.upper with
      | none =>
        rw [hlower, hupper] at h
        cases h
      | some upper =>
        rw [hlower, hupper] at h
        obtain ⟨range, hrange, h⟩ := bind_ok.mp h
        obtain ⟨⟨seen', rest⟩, hrest, h⟩ := bind_ok.mp h
        cases h
        obtain ⟨hone, hothers⟩ := hreads lower hlower upper hupper
        rw [List.forall_mem_cons]
        exact ⟨readRange_placed hrange hone, readRanges_placed hrest (hothers ⟨range, hrange⟩)⟩

/-- What the check of two neighbours finds out about the source. -/
theorem neighbours_follow {policy : GapPolicy} {p q : ExplicitRange}
    {r s : Range ExtendedRational} (hr : p.sourceRange db kind = some r)
    (hs : q.sourceRange db kind = some s) (hagree : db.Agree kind p.upper q.lower)
    (h : checkNeighbours policy p q = .ok ()) :
    r.Before s ∧ (policy = .reject → r.Meets s) := by
  obtain ⟨comparison, hcomparison, h⟩ := bind_ok.mp h
  obtain ⟨_, hoverlap, hgap⟩ := bind_ok.mp h
  rw [refuseIf_ok] at hoverlap hgap
  obtain ⟨x, y, hx, hy, hcompare⟩ := compare_agrees hagree
  rw [hcomparison] at hcompare
  obtain rfl := Except.ok.inj hcompare
  obtain ⟨_, _, hr⟩ := Option.bind_eq_some_iff.mp hr
  obtain ⟨_, hupper, hr⟩ := Option.bind_eq_some_iff.mp hr
  obtain ⟨_, hlower, hs⟩ := Option.bind_eq_some_iff.mp hs
  obtain ⟨_, _, hs⟩ := Option.bind_eq_some_iff.mp hs
  cases hr
  cases hs
  rw [hx] at hupper
  rw [hy] at hlower
  cases hupper
  cases hlower
  rcases lt_trichotomy x y with hlt | heq | hgt
  · refine ⟨.inl hlt, fun hpolicy => ?_⟩
    refine absurd ⟨.inl ((cmp_eq_lt_iff x y).mpr hlt), ?_⟩ hgap
    rw [hpolicy]
    decide
  · have hcmp : cmp x y = .eq := (cmp_eq_eq_iff x y).mpr heq
    refine ⟨.inr ⟨heq, fun hboth => hoverlap (.inr ⟨hcmp, hboth⟩)⟩, fun hpolicy => ⟨heq, ?_⟩⟩
    refine not_not.mp fun hneither => hgap ⟨.inr ⟨hcmp, not_or.mp hneither⟩, ?_⟩
    rw [hpolicy]
    decide
  · exact absurd (.inl ((cmp_eq_gt_iff x y).mpr hgt)) hoverlap

/-- RUN: the ranges as the source orders them. -/
theorem ranges_follow {policy : GapPolicy} : ∀ {ranges : List ExplicitRange},
    (∀ p ∈ ranges, Placed db kind p) → NeighboursRead (db.Agree kind) policy ranges →
    validateExplicitCoverage policy ranges = .ok () →
    ∃ rs, List.Forall₂ (fun p r => p.sourceRange db kind = some r) ranges rs ∧
      (∀ r ∈ rs, r.Ordered) ∧ rs.IsChain Range.Before ∧
      (policy = .reject → rs.IsChain Range.Meets)
  | [], _, _, _ => ⟨[], .nil, List.forall_mem_nil _, .nil, fun _ => .nil⟩
  | [p], hplaced, _, _ => by
    obtain ⟨r, hr, hordered⟩ := hplaced p (List.mem_singleton_self p)
    exact ⟨[r], .cons hr .nil, by simpa using hordered, .singleton r, fun _ => .singleton r⟩
  | p :: q :: ranges, hplaced, hreads, h => by
    obtain ⟨⟨⟩, hcheck, h⟩ := bind_ok.mp h
    obtain ⟨hfirst, hplaced⟩ := List.forall_mem_cons.mp hplaced
    obtain ⟨r, hr, hordered⟩ := hfirst
    obtain ⟨rs, hrs, hall, hbefore, hmeets⟩ := ranges_follow hplaced (hreads.2 hcheck) h
    cases hrs with
    | cons hs hrest =>
      obtain ⟨hfollows, hadjoins⟩ := neighbours_follow hr hs hreads.1 hcheck
      refine ⟨_, .cons hr (.cons hs hrest), List.forall_mem_cons.mpr ⟨hordered, hall⟩,
        hbefore.cons_cons hfollows, fun hpolicy => ?_⟩
      exact (hmeets hpolicy).cons_cons (hadjoins hpolicy)

end Order

/-! ### The planned partitions -/

section Planned
variable {db : SourceDatabase} {kind : PartitionBoundKind}

/-- Partitions of these ranges, one of each. -/
def PartitionsOf (ps : List ExplicitPartition) (ranges : List ExplicitRange) : Prop :=
  List.Forall₂ (fun p r => ∃ index includeNulls, p = r.partition index includeNulls) ps ranges

theorem numberedFrom_of : ∀ (ranges : List ExplicitRange) (index : ℕ),
    PartitionsOf (numberedFrom index ranges) ranges
  | [], _ => .nil
  | _ :: ranges, index => .cons ⟨index, false, rfl⟩ (numberedFrom_of ranges (index + 1))

theorem numberedFrom_nulls (ranges : List ExplicitRange) (index : ℕ) :
    (numberedFrom index ranges).filter ExplicitPartition.holdsNull = [] := by
  rw [List.filter_eq_nil_iff]
  intro p hp
  obtain ⟨r, -, rfl⟩ := List.mem_map.mp hp
  exact Bool.false_ne_true

theorem PartitionsOf.values {ps : List ExplicitPartition} {ranges : List ExplicitRange}
    (h : PartitionsOf ps ranges) : ps.filter (fun p => !p.isNullPartition) = ps := by
  induction h with
  | nil => rfl
  | cons hp _ ih =>
    obtain ⟨index, includeNulls, rfl⟩ := hp
    rw [List.filter_cons_of_pos rfl, ih]

/-- The partitions of values come first to last as the ranges do, and NULL is in one place. -/
theorem bucketed_cases (bucket : NullBucket) (nullSeen : Bool) {ranges : List ExplicitRange} :
    ∃ ps, PartitionsOf ps ranges ∧ (bucketed bucket nullSeen ranges = ps ∨
        bucketed bucket nullSeen ranges = nullBucketPartition :: ps) ∧
      ((bucketed bucket nullSeen ranges).filter ExplicitPartition.holdsNull).length ≤ 1 := by
  have hseparate : ((nullBucketPartition :: numberedFrom 1 ranges).filter
      ExplicitPartition.holdsNull).length ≤ 1 := by
    rw [List.filter_cons_of_pos rfl, numberedFrom_nulls]
    exact le_rfl
  cases nullSeen with
  | false =>
    refine ⟨_, numberedFrom_of ranges 0, .inl rfl, ?_⟩
    rw [bucketed, numberedFrom_nulls]
    exact Nat.zero_le 1
  | true =>
    cases bucket with
    | includeFirst =>
      cases ranges with
      | nil => exact ⟨_, numberedFrom_of [] 1, .inr rfl, le_rfl⟩
      | cons first rest =>
        refine ⟨_, .cons ⟨0, true, rfl⟩ (numberedFrom_of rest 1), .inl rfl, ?_⟩
        rw [bucketed, List.filter_cons_of_pos rfl, numberedFrom_nulls]
        exact le_rfl
    | separate => exact ⟨_, numberedFrom_of ranges 1, .inr rfl, hseparate⟩
    | fail => exact ⟨_, numberedFrom_of ranges 1, .inr rfl, hseparate⟩

/-- The partitions as ranges of the source's order. -/
theorem PartitionsOf.sourced {ps : List ExplicitPartition} {ranges : List ExplicitRange}
    (h : PartitionsOf ps ranges) : ∀ {rs : List (Range ExtendedRational)},
      List.Forall₂ (fun q r => q.sourceRange db kind = some r) ranges rs →
      List.Forall₂ (fun p r => p.sourceRange db kind = some r) ps rs := by
  induction h with
  | nil =>
    intro rs hrs
    cases hrs
    exact .nil
  | cons hp _ ih =>
    intro rs hrs
    obtain ⟨index, includeNulls, rfl⟩ := hp
    cases hrs with
    | cons hr hrest => exact .cons hr (ih hrest)

theorem sourced_mem {ps : List ExplicitPartition} {rs : List (Range ExtendedRational)}
    (h : List.Forall₂ (fun p r => p.sourceRange db kind = some r) ps rs) :
    ∀ p ∈ ps, ∃ r ∈ rs, p.sourceRange db kind = some r := by
  induction h with
  | nil => exact List.forall_mem_nil _
  | cons hp _ ih =>
    intro q hq
    rcases List.mem_cons.mp hq with rfl | hq
    · exact ⟨_, List.mem_cons_self .., hp⟩
    · obtain ⟨r, hr, hqr⟩ := ih q hq
      exact ⟨r, List.mem_cons_of_mem _ hr, hqr⟩

theorem sourced_disjoint {ps : List ExplicitPartition} {rs : List (Range ExtendedRational)}
    (h : List.Forall₂ (fun p r => p.sourceRange db kind = some r) ps rs) :
    rs.Pairwise Range.Before → ps.Pairwise fun p q => ∀ v,
      ¬ (p.HoldsValue db kind v ∧ q.HoldsValue db kind v) := by
  induction h with
  | nil => exact fun _ => .nil
  | cons hp hrest ih =>
    intro hbefore
    obtain ⟨hfirst, hbefore⟩ := List.pairwise_cons.mp hbefore
    refine .cons (fun q hq v => ?_) (ih hbefore)
    obtain ⟨s, hs, hqs⟩ := sourced_mem hrest q hq
    rintro ⟨⟨-, r', hr', hv⟩, -, s', hs', hv'⟩
    cases hp.symm.trans hr'
    cases hqs.symm.trans hs'
    exact (hfirst s hs).disjoint hv hv'

theorem sourced_gapless {ps : List ExplicitPartition} {rs : List (Range ExtendedRational)}
    (h : List.Forall₂ (fun p r => p.sourceRange db kind = some r) ps rs) :
    rs.IsChain Range.Meets → ps.IsChain (Adjoining db kind) := by
  induction h with
  | nil => exact fun _ => .nil
  | cons hp hrest ih =>
    intro hmeets
    cases hrest with
    | nil => exact .singleton _
    | cons hq hrest =>
      obtain ⟨hfirst, hmeets⟩ := List.isChain_cons_cons.mp hmeets
      exact (ih hmeets).cons_cons ⟨_, hp, _, hq, hfirst.covers⟩

end Planned

/-- A plan that is sound, or a `ValueError`. -/
def PlannedSound (db : SourceDatabase) (policy : GapPolicy) :
    Except BoundError ExplicitPartitioner → Prop
  | .ok plan => Sound db policy plan
  | .error e => e.IsValueError

theorem WellCompared.mono {u : Unicode} {iso : IsoReader} {resolved : PartitioningOptions}
    {R S : PartitionBoundKind → PartitionBound → PartitionBound → Prop}
    (hRS : ∀ {kind a b}, R kind a b → S kind a b) (h : WellCompared u iso R resolved) :
    WellCompared u iso S resolved := by
  have hneighbours : ∀ {kind policy} {ranges : List ExplicitRange},
      NeighboursRead (R kind) policy ranges → NeighboursRead (S kind) policy ranges := by
    intro kind policy ranges
    induction ranges with
    | nil => exact id
    | cons p ranges ih =>
      cases ranges with
      | nil => exact id
      | cons q ranges => exact fun h => ⟨hRS h.1, fun hok => ih (h.2 hok)⟩
  have hranges : ∀ {kind} {items : List RangeItem} {nullSeen : Bool},
      RangesRead u iso (R kind) kind nullSeen items →
        RangesRead u iso (S kind) kind nullSeen items := by
    intro kind items
    induction items with
    | nil => exact fun _ => trivial
    | cons item items ih =>
      intro nullSeen h htwice
      have h := h htwice
      by_cases hbucket : item.null ∧ item.lower.isNone ∧ item.upper.isNone
      · rw [if_pos hbucket] at h ⊢
        exact ih h
      · rw [if_neg hbucket] at h ⊢
        intro lower hlower upper hupper
        obtain ⟨hone, hothers⟩ := h lower hlower upper hupper
        refine ⟨⟨hone.1, fun a ha => ⟨(hone.2 a ha).1, fun b hb => ?_⟩⟩, ?_⟩
        · exact hRS ((hone.2 a ha).2 b hb)
        · exact fun hok => ih (hothers hok)
  refine ⟨fun b hb => hranges (h.ranges b hb), fun b n r hb hr => ?_⟩
  exact hneighbours (h.neighbours b n r hb hr)

/-! ### Ranges as they are declared -/

def declared (ranges : List RangeItem) (policy : GapPolicy) : PartitioningOptions where
  column := "id".toList
  strategy := "range".toList
  ranges := ranges
  boundaryType := "auto".toList
  boundsRole := .filter
  nullBucket := .separate
  gapPolicy := policy
  exportWorkers := 2
  loadWorkers := 2
  warnings := []

def integerRanges : PartitioningOptions :=
  declared [{ lower := some (.int 1), upper := some (.int 10) },
    { lower := some (.int 10), upper := some (.int 20), includeUpper := true }] .reject

/-- Texts that are no numbers, under the boundary that is left where no sample has a family. -/
def namedRange : PartitioningOptions :=
  declared [{ lower := some (.text "a".toList), upper := some (.text "b".toList) }] .reject

/-- A UUID by its first field. -/
def firstField (n : ℕ) : Uuid := ⟨n * 2 ^ 96 % 256 ^ 16, Nat.mod_lt _ (by decide)⟩

/-- From `00000000` to `00000001`, and from `00000100` to a UUID whose last byte is one. -/
def uuidRanges : PartitioningOptions :=
  declared [{ lower := some (.uuid (firstField 0)), upper := some (.uuid (firstField 1)) },
    { lower := some (.uuid (firstField 0x100)), upper := some (.uuid ⟨1, by decide⟩) }]
    .allowExplicit

/-- SOUND: no exception but `ValueError` escapes exactly where the run gets to nothing that it
    cannot read or compare; and where it compares as the source does, the plan is sound. -/
theorem explicit_ranges_sound {u : Unicode} {iso : IsoReader} (hiso : RaisesValueError iso)
    (db : SourceDatabase) (resolved : PartitioningOptions) :
    (OnlyValueErrors (fromExplicitRanges u iso resolved) ↔
      WellCompared u iso (fun _ => Comparable) resolved) ∧
    (WellCompared u iso db.Agree resolved →
      PlannedSound db resolved.gapPolicy (fromExplicitRanges u iso resolved)) := by
  refine ⟨fromExplicitRanges_onlyValueErrors hiso resolved, fun hagree => ?_⟩
  cases hplan : fromExplicitRanges u iso resolved with
  | error e =>
    exact (fromExplicitRanges_onlyValueErrors hiso resolved).mpr
      (hagree.mono fun h => agree_comparable h) e hplan
  | ok plan =>
    obtain ⟨boundary, hboundary, h⟩ := bind_ok.mp hplan
    have hboundary := lifted_ok.mp hboundary
    obtain ⟨⟨nullSeen, ranges⟩, hranges, h⟩ := bind_ok.mp h
    obtain ⟨_, -, h⟩ := bind_ok.mp h
    obtain ⟨⟨⟩, hvalid, h⟩ := bind_ok.mp h
    obtain ⟨_, -, h⟩ := bind_ok.mp h
    cases h
    have hplaced := readRanges_placed hranges (hagree.ranges boundary hboundary)
    obtain ⟨rs, hrs, hordered, hbefore, hmeets⟩ := ranges_follow hplaced
      (hagree.neighbours boundary nullSeen ranges hboundary hranges) hvalid
    obtain ⟨ps, hps, hbucketed, hnulls⟩ := bucketed_cases resolved.nullBucket nullSeen
    have hsourced := hps.sourced hrs
    have hdisjoint := sourced_disjoint hsourced (Range.pairwise_before hordered hbefore)
    refine ⟨?_, hnulls, fun hpolicy => ?_⟩
    · rcases hbucketed with h | h
      · dsimp only
        rw [h]
        exact hdisjoint
      · dsimp only
        rw [h]
        refine .cons (fun q _ v hv => ?_) hdisjoint
        exact absurd hv.1.1 (by decide)
    · have hvalues : (bucketed resolved.nullBucket nullSeen ranges).filter
          (fun p => !p.isNullPartition) = ps := by
        rcases hbucketed with h | h
        · rw [h, hps.values]
        · rw [h, List.filter_cons_of_neg (by decide), hps.values]
      dsimp only
      rw [hvalues]
      exact sourced_gapless hsourced (hmeets hpolicy)

theorem integer_ranges_sound :
    (OnlyValueErrors (fromExplicitRanges .ascii .extended integerRanges) ↔
      WellCompared .ascii .extended (fun _ => Comparable) integerRanges) ∧
    (WellCompared .ascii .extended SourceDatabase.mssql.Agree integerRanges →
      PlannedSound .mssql integerRanges.gapPolicy
        (fromExplicitRanges .ascii .extended integerRanges)) :=
  explicit_ranges_sound extended_raises .mssql integerRanges

/-- The key takes the first field with its high byte first, and SQL Server with its low byte first:
    the planned partitions both hold `00000100`. Texts that are no numbers make `Decimal` raise. -/
theorem uuid_ranges_overlap :
    (∃ plan, fromExplicitRanges .ascii .extended uuidRanges = .ok plan ∧
      ¬ Sound .mssql uuidRanges.gapPolicy plan) ∧
    fromExplicitRanges .ascii .extended namedRange = .error .invalidOperation := by
  refine ⟨⟨_, rfl, fun h => ?_⟩, by rfl⟩
  have hplace : ∀ {m n : ℕ}, m < n → placeOf m < placeOf n := fun hlt =>
    placeOf_strictMono (Int.ofNat_lt.mpr hlt)
  refine List.rel_of_pairwise_cons h.disjoint (List.mem_cons_self ..)
    (placeOf (SourceDatabase.mssql.uuidPlace (firstField 0x100))) ⟨?_, ?_⟩
  · refine ⟨rfl, _, rfl, .inl (hplace ?_), .inl (hplace ?_)⟩
    · decide
    · decide
  · refine ⟨rfl, _, rfl, .inr ⟨rfl, rfl⟩, .inl (hplace ?_)⟩
    decide

end Dpone.Partitioning
