import Dpone.Airflow.MappingPack
import Dpone.Schemes.Consecutive

/-! The two readers of a compiled plan. The items of both modes tile the chunks from the first to
    the last one (`visible_covers`, `summary_covers`), a plan whose items do so passes the
    provider's validator as it stands (`pack_reads`), and the text of every item is read back by
    the runtime (`parse_item`). -/

namespace Dpone.Airflow
open Dpone.Schemes Dpone.Contracts Dpone.Backfill

/-! ### Items that tile the chunks -/

/-- The items of a plan: numbered from `index` on, following one another from chunk `lo` to `hi`. -/
structure Covers (index lo : ℕ) (items : List AirflowMappingItemRange) (hi : ℕ) : Prop where
  consecutive : Consecutive AirflowMappingItemRange.firstChunkIndex
    AirflowMappingItemRange.lastChunkIndex lo items hi
  numbered : items.map AirflowMappingItemRange.itemIndex = List.range' index items.length
  counted : ∀ item ∈ items, item.chunksCount = item.lastChunkIndex - item.firstChunkIndex + 1

theorem Covers.nil (index lo : ℕ) : Covers index lo [] lo := ⟨.nil lo, rfl, nofun⟩

theorem Covers.cons {index lo hi : ℕ} {item : AirflowMappingItemRange}
    {items : List AirflowMappingItemRange} (hindex : item.itemIndex = index)
    (hfirst : item.firstChunkIndex = lo) (hlast : item.firstChunkIndex ≤ item.lastChunkIndex)
    (hcount : item.chunksCount = item.lastChunkIndex - item.firstChunkIndex + 1)
    (hrest : Covers (index + 1) (item.lastChunkIndex + 1) items hi) :
    Covers index lo (item :: items) hi where
  consecutive := .cons hfirst hlast hrest.consecutive
  numbered := by
    rw [List.map_cons, hrest.numbered, hindex]
    rfl
  counted := List.forall_mem_cons.mpr ⟨hcount, hrest.counted⟩

theorem Covers.tail {index lo hi : ℕ} {item : AirflowMappingItemRange}
    {items : List AirflowMappingItemRange} (h : Covers index lo (item :: items) hi) :
    item.itemIndex = index ∧ item.firstChunkIndex = lo ∧
      Covers (index + 1) (item.lastChunkIndex + 1) items hi := by
  obtain ⟨hconsecutive, hnumbered, hcounted⟩ := h
  cases hconsecutive with
  | cons hfirst hlast hrest =>
    obtain ⟨hindex, hnumbered⟩ := List.cons.inj hnumbered
    exact ⟨hindex, hfirst, hrest, hnumbered, (List.forall_mem_cons.mp hcounted).2⟩

/-- One chunk an item. -/
theorem visible_covers (chunksTotal : ℕ) :
    Covers 0 1 (visibleRanges chunksTotal) (chunksTotal + 1) := by
  have hfrom : ∀ n index, Covers index (index + 1)
      ((List.range' index n).map fun i => (⟨i, i + 1, i + 1, 1⟩ : AirflowMappingItemRange))
      (index + n + 1) := by
    intro n
    induction n with
    | zero => exact fun index => .nil ..
    | succ n ih =>
      intro index
      have hrest := ih (index + 1)
      rw [show index + 1 + n + 1 = index + (n + 1) + 1 by omega] at hrest
      exact .cons rfl rfl le_rfl (by simp) hrest
  have h := hfrom chunksTotal 0
  rw [← List.range_eq_range', Nat.zero_add, Nat.zero_add] at h
  exact h

section Summary
variable {total parts : ℕ}

/-- The loop of the summary mode: what remains to be shared is tiled by the items to come. -/
theorem summaryLoop_covers (hparts : 0 < parts) (hle : parts ≤ total) : ∀ (k index cursor : ℕ),
    index + k = parts → 0 < cursor →
    Covers index cursor (summaryLoop (total / parts) (total % parts) k index cursor)
      (cursor + remaining total parts index)
  | 0, index, cursor, hk, _ => by
    obtain rfl : index = parts := by omega
    rw [remaining_all hparts]
    exact .nil ..
  | k + 1, index, cursor, hk, hcursor => by
    have hshare : 1 ≤ share total parts index := one_le_share hparts hle
    have hlast : cursor + share total parts index - 1 + 1 = cursor + share total parts index := by
      omega
    have hrest := summaryLoop_covers hparts hle k (index + 1)
      (cursor + share total parts index - 1 + 1) (by omega) (by omega)
    rw [remaining_step (by omega)]
    rw [show cursor + share total parts index - 1 + 1 + remaining total parts (index + 1) =
      cursor + (share total parts index + remaining total parts (index + 1)) by omega] at hrest
    exact .cons rfl rfl (show cursor ≤ cursor + share total parts index - 1 by omega)
      (show share total parts index = cursor + share total parts index - 1 - cursor + 1 by omega)
      hrest

theorem summaryLoop_counts : ∀ (k index cursor : ℕ),
    ∀ item ∈ summaryLoop (total / parts) (total % parts) k index cursor,
      ∃ i, item.chunksCount = share total parts i
  | 0, _, _, _, h => nomatch h
  | k + 1, index, cursor, item, h => by
    rcases List.mem_cons.mp h with rfl | h
    · exact ⟨index, rfl⟩
    · exact summaryLoop_counts k _ _ item h

theorem summaryLoop_length : ∀ (k index cursor : ℕ),
    (summaryLoop (total / parts) (total % parts) k index cursor).length = k
  | 0, _, _ => rfl
  | k + 1, _, _ => congrArg (· + 1) (summaryLoop_length k _ _)

end Summary

/-- Sizes that differ by one at most. -/
def Even (items : List AirflowMappingItemRange) : Prop :=
  ∀ a ∈ items, ∀ b ∈ items, a.chunksCount ≤ b.chunksCount + 1

/-- CORRECT: the summary of at least one chunk, over at least one item. -/
theorem summary_covers {chunksTotal maxItems : ℕ} (hchunks : 0 < chunksTotal)
    (hmax : 0 < maxItems) : ∃ items, summaryRanges chunksTotal maxItems = .ok items ∧
      Covers 0 1 items (chunksTotal + 1) ∧ items.length = min chunksTotal maxItems ∧
      Even items := by
  have hparts : 0 < min chunksTotal maxItems := by omega
  have hcovers := summaryLoop_covers hparts (Nat.min_le_left chunksTotal maxItems)
    (min chunksTotal maxItems) 0 1 (Nat.zero_add _) Nat.one_pos
  rw [remaining_zero, Nat.add_comm] at hcovers
  refine ⟨_, ?_, hcovers, summaryLoop_length .., ?_⟩
  · rw [summaryRanges, raiseWhen, if_neg (by omega)]
    rfl
  · intro a ha b hb
    obtain ⟨i, hi⟩ := summaryLoop_counts _ _ _ a ha
    obtain ⟨j, hj⟩ := summaryLoop_counts _ _ _ b hb
    rw [hi, hj]
    exact share_le_succ ..

/-! ### What a policy promises -/

theorem raiseWhen_ok {p : Prop} [Decidable p] {e : Raised} {v : Unit} :
    raiseWhen p e = .ok v ↔ ¬ p := by
  by_cases h : p <;> simp [raiseWhen, h]

theorem raiseWhen_neg {p : Prop} [Decidable p] (h : ¬ p) (e : Raised) :
    raiseWhen p e = .ok () := if_neg h

theorem strip_strip (u : Unicode) (s : Str) : strip u (strip u s) = strip u s := by
  have hfirst : (strip u s).dropWhile u.isSpace = strip u s := by
    have hprefix : strip u s <+: s.dropWhile u.isSpace := List.rdropWhile_prefix ..
    cases hstrip : strip u s with
    | nil => rfl
    | cons c rest =>
      obtain ⟨after, hafter⟩ := hprefix
      rw [hstrip] at hafter
      have hspace : ¬ u.isSpace c := by
        have hdrop : s.dropWhile u.isSpace ≠ [] := by rw [← hafter]; simp
        have hhead := List.head_dropWhile_not u.isSpace hdrop
        simp only [← hafter, List.cons_append, List.head_cons] at hhead
        simpa using hhead
      exact List.dropWhile_cons_of_neg hspace
  rw [strip, hfirst]
  exact List.rdropWhile_idempotent ..

/-- What a declared policy has been checked for. -/
structure ValidPolicy (u : Unicode) (policy : AirflowMappingPolicy) : Prop where
  items : 1 ≤ policy.maxItems ∧ policy.maxItems ≤ 200
  active : 1 ≤ policy.maxActive ∧ policy.maxActive ≤ 64
  ordered : policy.maxActive ≤ policy.maxItems
  pool : policy.mode.isMapped → poolPattern policy.pool
  named : policy.pool ≠ [] → poolPattern policy.pool
  stripped : strip u policy.pool = policy.pool

theorem boundedInt_ok {value : MappingValue} {field : String} {maximum n : ℕ}
    (h : boundedInt value field maximum = .ok n) : 1 ≤ n ∧ n ≤ maximum := by
  cases value with
  | int m =>
    rw [boundedInt] at h
    by_cases hm : 1 ≤ m ∧ m ≤ maximum
    · rw [if_pos hm] at h
      cases h
      omega
    · rw [if_neg hm] at h
      cases h
  | _ => cases h

/-- CALL RULE: what `mapping_policy_from_mapping` returns. -/
theorem policy_valid {u : Unicode} {raw : RawMapping} {policy : AirflowMappingPolicy}
    (h : mappingPolicyFromMapping u raw = .ok policy) : ValidPolicy u policy := by
  obtain ⟨entries, -, h⟩ := bind_ok.mp h
  obtain ⟨_, -, h⟩ := bind_ok.mp h
  split at h
  · cases h
  · obtain ⟨maxItems, hitems, h⟩ := bind_ok.mp h
    obtain ⟨maxActive, hactive, h⟩ := bind_ok.mp h
    obtain ⟨_, hordered, h⟩ := bind_ok.mp h
    obtain ⟨_, hpool, h⟩ := bind_ok.mp h
    obtain ⟨_, hnamed, h⟩ := bind_ok.mp h
    cases h
    rw [raiseWhen_ok] at hordered hpool hnamed
    exact
      { items := boundedInt_ok hitems
        active := boundedInt_ok hactive
        ordered := not_lt.mp hordered
        pool := fun hmapped => not_not.mp fun hbad => hpool ⟨hmapped, hbad⟩
        named := fun hne => not_not.mp fun hbad => hnamed ⟨hne, hbad⟩
        stripped := strip_strip u _ }

theorem ValidPolicy.plain {u : Unicode} {policy : AirflowMappingPolicy} (h : ValidPolicy u policy) :
    '\\' ∉ policy.pool := by
  intro hmem
  have hpattern := h.named (List.ne_nil_of_mem hmem)
  rw [poolPattern, Bool.and_eq_true, List.all_eq_true] at hpattern
  exact absurd (hpattern.2 _ hmem) (by decide)

/-! ### The provider accepts the plan -/

theorem coverageLoop_ok {mode : MappingMode} : ∀ {items : List AirflowMappingItemRange}
    {index lo hi : ℕ}, Covers index lo items hi →
    (mode = .visible → ∀ item ∈ items, item.chunksCount = 1) →
    coverageLoop mode index lo items = .ok hi
  | [], index, lo, hi, h, _ => by
    cases h.consecutive
    rfl
  | item :: items, index, lo, hi, h, hvisible => by
    obtain ⟨hindex, hfirst, hrest⟩ := h.tail
    have hone : ¬ (mode = .visible ∧ item.chunksCount ≠ 1) := fun hbad =>
      hbad.2 (hvisible hbad.1 item (List.mem_cons_self ..))
    rw [coverageLoop, raiseIf_neg (by simp [hindex, hfirst]), raiseIf_neg hone]
    exact coverageLoop_ok hrest fun hmode other hother =>
      hvisible hmode other (List.mem_cons_of_mem _ hother)

theorem nonNegativeInt_natCast (n : ℕ) (field : String) :
    nonNegativeInt (.int n) field = .ok n := rfl

theorem positiveInt_natCast {n : ℕ} (h : 1 ≤ n) (field : String) :
    positiveInt (.int n) field = .ok n := by
  rw [positiveInt, nonNegativeInt_natCast, ok_bind, raiseIf_neg (by omega)]
  rfl

theorem providerBoundedInt_natCast {n maximum : ℕ} (h : 1 ≤ n) (hmax : n ≤ maximum)
    (field : String) : providerBoundedInt (.int n) field maximum = .ok n := by
  rw [providerBoundedInt, positiveInt_natCast h, ok_bind, raiseIf_neg (by omega)]
  rfl

/-- LOSSLESS: an item is read back from its document. -/
theorem mappingItem_toJsonable {item : AirflowMappingItemRange} (hfirst : 1 ≤ item.firstChunkIndex)
    (hlast : item.firstChunkIndex ≤ item.lastChunkIndex)
    (hcount : item.chunksCount = item.lastChunkIndex - item.firstChunkIndex + 1) :
    mappingItem item.toJsonable = .ok item := by
  have hexact : Json.hasExactly itemFields
      [("item_index".toList, .int item.itemIndex),
        ("first_chunk_index".toList, .int item.firstChunkIndex),
        ("last_chunk_index".toList, .int item.lastChunkIndex),
        ("chunks_count".toList, .int item.chunksCount)] = true := rfl
  rw [AirflowMappingItemRange.toJsonable, mappingItem, raiseIf_neg (not_not.mpr hexact)]
  change (do
    let itemIndex ← nonNegativeInt (.int item.itemIndex) "item_index"
    let first ← positiveInt (.int item.firstChunkIndex) "first_chunk_index"
    let last ← positiveInt (.int item.lastChunkIndex) "last_chunk_index"
    let chunksCount ← positiveInt (.int item.chunksCount) "chunks_count"
    raiseIf (last < first) (invalid "mapping plan item range is inverted")
    raiseIf (chunksCount ≠ last - first + 1)
      (invalid "mapping plan item count does not match its range")
    return (⟨itemIndex, first, last, chunksCount⟩ : AirflowMappingItemRange)) = .ok item
  rw [nonNegativeInt_natCast, positiveInt_natCast hfirst, positiveInt_natCast (by omega),
    positiveInt_natCast (by omega), ok_bind, ok_bind, ok_bind, ok_bind, raiseIf_neg (by omega),
    raiseIf_neg (by omega)]
  rfl

/-! ### One fingerprint on both sides -/

theorem normalize_str {s : Str} (h : '\\' ∉ s) : normalize (.str s) = .str s := by
  rw [normalize]
  congr 1
  refine (List.map_congr_left fun c hc => if_neg ?_).trans (List.map_id s)
  rintro rfl
  exact h hc

theorem normalize_null : normalize .null = .null := by rw [normalize] <;> nofun

theorem normalize_int (n : ℤ) : normalize (.int n) = .int n := by rw [normalize] <;> nofun

theorem normalize_item (item : AirflowMappingItemRange) :
    normalize item.toJsonable = item.toJsonable := by
  simp only [AirflowMappingItemRange.toJsonable, normalize.eq_1, normalizeFields, normalize_int]

theorem normalizeItems_items : ∀ items : List AirflowMappingItemRange,
    normalizeItems (items.map AirflowMappingItemRange.toJsonable) =
      items.map AirflowMappingItemRange.toJsonable
  | [] => rfl
  | item :: items => by
    rw [List.map_cons, normalizeItems, normalize_item, normalizeItems_items items]

/-- No item has an `id` to be sorted by. -/
theorem sortById_items : ∀ items : List AirflowMappingItemRange,
    sortById (items.map AirflowMappingItemRange.toJsonable) =
      items.map AirflowMappingItemRange.toJsonable
  | [] => by simp [sortById]
  | item :: items => by
    have hid : textId item.toJsonable = none := rfl
    rw [List.map_cons, sortById, if_neg]
    rw [List.all_cons, hid]
    exact Bool.false_ne_true

theorem hexDigest_plain {s : Str} (h : HexDigest s) : '\\' ∉ "sha256:".toList ++ s := by
  intro hmem
  rcases List.mem_append.mp hmem with hmem | hmem
  · exact absurd hmem (by decide)
  · exact absurd (h.2 _ hmem) (by decide)

/-- A digest with its algorithm's name. -/
def Sha256 (s : Str) : Prop := ∃ digest, HexDigest digest ∧ s = "sha256:".toList ++ digest

/-- Normalization has nothing to do on a plan. -/
theorem normalize_plan {policy : AirflowMappingPolicy} {hash : Option Str}
    (hpool : '\\' ∉ policy.pool) (hhash : ∀ s ∈ hash, Sha256 s) (chunksTotal itemsTotal : ℕ)
    (items : List AirflowMappingItemRange) :
    normalize (.obj (planHead policy.mode ++ planBody policy hash chunksTotal itemsTotal items)) =
      .obj (planHead policy.mode ++ planBody policy hash chunksTotal itemsTotal items) := by
  have hmode : '\\' ∉ policy.mode.name := by cases policy.mode <;> decide
  have hschema : '\\' ∉ "dpone.airflow-mapping-plan.v1".toList := by decide
  have hhashJson : normalize (hashJson hash) = hashJson hash := by
    cases hash with
    | none => exact normalize_null
    | some s =>
      obtain ⟨digest, hdigest, rfl⟩ := hhash s rfl
      exact normalize_str (hexDigest_plain hdigest)
  have hlimits : normalize policy.limits = policy.limits := by
    simp only [AirflowMappingPolicy.limits, normalize.eq_1, normalizeFields, normalize_int,
      normalize_str hpool]
  have hitems : normalize (.arr (items.map AirflowMappingItemRange.toJsonable)) =
      .arr (items.map AirflowMappingItemRange.toJsonable) := by
    rw [normalize, normalizeItems_items, sortById_items]
  rw [normalize, planHead, planBody]
  simp only [List.cons_append, List.nil_append, normalizeFields, normalize_int, hhashJson,
    hlimits, hitems, normalize_str hmode, normalize_str hschema]

/-! ### The whole plan -/

theorem digestField_sha256 {s : Str} (h : Sha256 s) (field : String) :
    digestField (.str s) field = .ok s := by
  obtain ⟨digest, ⟨hlength, hhex⟩, rfl⟩ := h
  have hprefix : removeDigestPrefix (textOr (.str ("sha256:".toList ++ digest))) = digest := by
    rw [textOr, removeDigestPrefix,
      if_pos (List.isPrefixOf_iff_prefix.mpr (List.prefix_append ..))]
    rfl
  have hgood : ¬ (digest.length ≠ 64 ∨
      ¬ digest.all fun c => "0123456789abcdef".toList.contains c) := by
    rw [not_or, not_not, not_not, List.all_eq_true]
    exact ⟨hlength, fun c hc => List.contains_iff_mem.mpr (hhex c hc)⟩
  rw [digestField, hprefix, raiseIf_neg hgood]
  rfl

theorem providerLimits_ok {t : Tools} {policy : AirflowMappingPolicy}
    (h : ValidPolicy t.unicode policy) :
    providerLimits t policy.mode policy.limits =
      .ok ⟨policy.maxItems, policy.maxActive, policy.pool⟩ := by
  have hexact : Json.hasExactly limitFields [("max_items".toList, .int policy.maxItems),
      ("max_active".toList, .int policy.maxActive), ("pool".toList, .str policy.pool)] = true := rfl
  rw [AirflowMappingPolicy.limits, providerLimits, raiseIf_neg (not_not.mpr hexact)]
  change (do
    let maxItems ← providerBoundedInt (.int policy.maxItems) "max_items" 200
    let maxActive ← providerBoundedInt (.int policy.maxActive) "max_active" 64
    raiseIf (maxItems < maxActive) (invalid "mapping plan max_active exceeds max_items")
    let pool := strip t.unicode policy.pool
    raiseIf (policy.mode.isMapped ∧ ¬ poolPattern pool)
      (invalid "mapped plan requires a valid Airflow pool")
    return (⟨maxItems, maxActive, pool⟩ : ProviderLimits)) = _
  rw [providerBoundedInt_natCast h.items.1 h.items.2,
    providerBoundedInt_natCast h.active.1 h.active.2, ok_bind, ok_bind,
    raiseIf_neg (not_lt.mpr h.ordered), h.stripped, ok_bind]
  dsimp only
  rw [raiseIf_neg (fun hbad => hbad.2 (h.pool hbad.1))]
  rfl

theorem providerItems_ok {items : List AirflowMappingItemRange} {maxItems : ℕ}
    (hlength : items.length ≤ maxItems) (hitems : ∀ item ∈ items, 1 ≤ item.firstChunkIndex ∧
      item.firstChunkIndex ≤ item.lastChunkIndex ∧
      item.chunksCount = item.lastChunkIndex - item.firstChunkIndex + 1) :
    providerItems maxItems items.length (.arr (items.map AirflowMappingItemRange.toJsonable)) =
      .ok items := by
  have hread : ∀ items : List AirflowMappingItemRange, (∀ item ∈ items, 1 ≤ item.firstChunkIndex ∧
      item.firstChunkIndex ≤ item.lastChunkIndex ∧
      item.chunksCount = item.lastChunkIndex - item.firstChunkIndex + 1) →
      (items.map AirflowMappingItemRange.toJsonable).mapM mappingItem = .ok items := by
    intro items hall
    induction items with
    | nil => rfl
    | cons item items ih =>
      obtain ⟨⟨hfirst, hlast, hcount⟩, hrest⟩ := List.forall_mem_cons.mp hall
      rw [List.map_cons, List.mapM_cons, mappingItem_toJsonable hfirst hlast hcount, ih hrest]
      rfl
  rw [providerItems, raiseIf_neg (by simpa using hlength)]
  exact hread items hitems

/-- What the hash of a plan has to be: a digest in a mapped mode, and none in the internal one. -/
def HashFits (mode : MappingMode) (hash : Option Str) : Prop :=
  if mode.isMapped then ∃ s, hash = some s ∧ Sha256 s else hash = none

theorem HashFits.sha256 {mode : MappingMode} {hash : Option Str} (h : HashFits mode hash) :
    ∀ s ∈ hash, Sha256 s := by
  intro s hs
  rw [HashFits] at h
  split at h
  · obtain ⟨r, rfl, hr⟩ := h
    cases hs
    exact hr
  · rw [h] at hs
    cases hs

theorem providerPlanHash_ok {mode : MappingMode} {hash : Option Str} (h : HashFits mode hash) :
    providerPlanHash mode (hashJson hash) = .ok hash := by
  rw [HashFits] at h
  split at h
  · rename_i hmapped
    obtain ⟨s, rfl, hs⟩ := h
    simp only [providerPlanHash, if_pos hmapped, hashJson, digestField_sha256 hs]
    rfl
  · rename_i hmapped
    subst h
    simp only [providerPlanHash, if_neg hmapped, hashJson]

theorem ofName_name (mode : MappingMode) : MappingMode.ofName mode.name = some mode := by
  cases mode <;> rfl

/-- CALL RULE: of a plan as it was built, the provider only has the coverage left to check. -/
theorem pack_reads {t : Tools} {policy : AirflowMappingPolicy} {hash : Option Str}
    (chunksTotal : ℕ) {items : List AirflowMappingItemRange}
    (hvalid : ValidPolicy t.unicode policy) (hhash : HashFits policy.mode hash)
    (hlength : items.length ≤ policy.maxItems)
    (hitems : ∀ item ∈ items, 1 ≤ item.firstChunkIndex ∧
      item.firstChunkIndex ≤ item.lastChunkIndex ∧
      item.chunksCount = item.lastChunkIndex - item.firstChunkIndex + 1) :
    mappingPlanFromPack t (.obj (buildPlan t policy hash chunksTotal items).toJsonable) = do
      validateCoverage policy.mode chunksTotal items
      return ⟨policy.mode, (buildPlan t policy hash chunksTotal items).planFingerprint, hash,
        chunksTotal, policy.maxItems, policy.maxActive, policy.pool, items⟩ := by
  have hfingerprint : (buildPlan t policy hash chunksTotal items).planFingerprint =
      "sha256:".toList ++ t.digest (.obj (planHead policy.mode ++
        planBody policy hash chunksTotal items.length items)) := by
    rw [buildPlan, normalize_plan hvalid.plain hhash.sha256]
  have hsha : Sha256 (buildPlan t policy hash chunksTotal items).planFingerprint :=
    ⟨_, t.digest_hex _, hfingerprint⟩
  change readMappingPlan t _ = _
  have hexact : Json.hasExactly planFields
      (buildPlan t policy hash chunksTotal items).toJsonable = true := rfl
  have hschema : schemaIs "dpone.airflow-mapping-plan.v1".toList
      (buildPlan t policy hash chunksTotal items).toJsonable = true := rfl
  have hpayload : (buildPlan t policy hash chunksTotal items).toJsonable.filter
      (fun field => field.1 ≠ "plan_fingerprint".toList) =
        planHead policy.mode ++ planBody policy hash chunksTotal items.length items := rfl
  have hmode : MappingMode.ofName (textOr (Json.get "mode".toList
      (buildPlan t policy hash chunksTotal items).toJsonable)) = some policy.mode :=
    ofName_name policy.mode
  rw [readMappingPlan, raiseIf_neg (not_not.mpr hexact), raiseIf_neg (not_not.mpr hschema), hmode,
    hpayload]
  change (do
    let fingerprint ← digestField
      (.str (buildPlan t policy hash chunksTotal items).planFingerprint) "plan_fingerprint"
    raiseIf (fingerprint ≠ "sha256:".toList ++ t.digest (.obj (planHead policy.mode ++
        planBody policy hash chunksTotal items.length items)))
      (invalid "mapping plan fingerprint does not match its canonical payload")
    let limits ← providerLimits t policy.mode policy.limits
    let total ← nonNegativeInt (.int chunksTotal) "chunks_total"
    let itemsTotal ← nonNegativeInt (.int items.length) "items_total"
    let read ← providerItems limits.maxItems itemsTotal
      (.arr (items.map AirflowMappingItemRange.toJsonable))
    validateCoverage policy.mode total read
    let hash ← providerPlanHash policy.mode (hashJson hash)
    return (⟨policy.mode, fingerprint, hash, total, limits.maxItems, limits.maxActive, limits.pool,
      read⟩ : ProviderMappingPlan)) = _
  rw [digestField_sha256 hsha, ok_bind, raiseIf_neg (not_not.mpr hfingerprint),
    providerLimits_ok hvalid, nonNegativeInt_natCast, nonNegativeInt_natCast, ok_bind, ok_bind,
    ok_bind, ok_bind, providerItems_ok hlength hitems, ok_bind, providerPlanHash_ok hhash]
  rfl

/-! ### The text of an item -/

theorem encodeUtf8_length_le (s : Str) : (encodeUtf8 s).length ≤ 4 * s.length := by
  have hchar : ∀ c : Char, (encodeUtf8Char c).length ≤ 4 := by
    intro c
    rw [encodeUtf8Char]
    split_ifs <;> simp
  induction s with
  | nil => exact le_rfl
  | cons c s ih =>
    have hc := hchar c
    simp only [encodeUtf8, List.flatMap_cons, List.length_append, List.length_cons] at ih ⊢
    omega

theorem quoted_length_le (s : Str) : (JsonText.quoted s).length ≤ 2 * s.length + 2 := by
  have hescape : ∀ s : Str, (s.flatMap JsonText.escape).length ≤ 2 * s.length := by
    intro s
    induction s with
    | nil => exact le_rfl
    | cons c s ih =>
      have hc : (JsonText.escape c).length ≤ 2 := by
        rw [JsonText.escape]
        split_ifs <;> simp
      simp only [List.flatMap_cons, List.length_append, List.length_cons]
      omega
  have h := hescape s
  simp only [JsonText.quoted, List.length_cons, List.length_append, List.length_nil]
  omega

theorem dumpFields_length_le : ∀ {fields : List (Str × JsonText.Scalar)} {n : ℕ},
    (∀ field ∈ fields, field.1.length ≤ n ∧ field.2.dumps.length ≤ 4 * n) →
    (JsonText.dumpFields fields).length ≤ fields.length * (6 * n + 4) + 1
  | [], n, _ => by simp [JsonText.dumpFields]
  | [(name, value)], n, h => by
    obtain ⟨hname, hvalue⟩ := h _ (List.mem_cons_self ..)
    have hquoted := quoted_length_le name
    simp only [JsonText.dumpFields, List.length_append, List.length_cons, List.length_nil] at *
    omega
  | (name, value) :: field :: rest, n, h => by
    obtain ⟨hname, hvalue⟩ := h _ (List.mem_cons_self ..)
    have hquoted := quoted_length_le name
    have hrest := dumpFields_length_le fun f hf => h f (List.mem_cons_of_mem _ hf)
    simp only [JsonText.dumpFields, List.length_append, List.length_cons, Nat.add_mul,
      Nat.one_mul] at *
    omega

/-- A number of at most seven digits. -/
theorem intText_length_le {n : ℕ} (h : n ≤ 1000000) : (intText n).length ≤ 7 := by
  have hlog : Nat.log 10 n ≤ 6 := (Nat.log_mono_right h).trans (by decide)
  have htext : intText n = decimalText n := by
    rw [intText, if_neg (by omega)]
    rfl
  rw [htext, decimalText, numeral_length]
  omega

theorem sha256_length {s : Str} (h : Sha256 s) : s.length = 71 := by
  obtain ⟨digest, ⟨hlength, -⟩, rfl⟩ := h
  rw [List.length_append, hlength]
  rfl

/-- An item of a plan that can be written out. -/
structure SmallItem (item : AirflowMappingItemRange) : Prop where
  index : item.itemIndex ≤ 1000000
  first : 1 ≤ item.firstChunkIndex
  ordered : item.firstChunkIndex ≤ item.lastChunkIndex
  last : item.lastChunkIndex ≤ 1000000
  counted : item.chunksCount = item.lastChunkIndex - item.firstChunkIndex + 1

section Item
variable {mode : MappingMode} {fingerprint hash : Str} {item : AirflowMappingItemRange}

/-- The text of an item stays far below the limit. -/
theorem item_length_le (hfingerprint : Sha256 fingerprint) (hhash : Sha256 hash)
    (hitem : SmallItem item) :
    (encodeUtf8 (JsonText.dumps (itemPayload mode fingerprint hash item))).length ≤
      maxMappingItemBytes := by
  have hstr : ∀ s : Str, s.length ≤ 71 →
      (JsonText.Scalar.str s).dumps.length ≤ 4 * 40 := fun s hs =>
    (quoted_length_le s).trans (by omega)
  have hint : ∀ n : ℕ, n ≤ 1000000 → (JsonText.Scalar.int n).dumps.length ≤ 4 * 40 := fun n hn =>
    (intText_length_le hn).trans (by omega)
  have hmode : mode.name.length ≤ 71 := by cases mode <;> decide
  obtain ⟨hindex, hfirst, hordered, hlast, hcounted⟩ := hitem
  have hfields : ∀ field ∈ itemPayload mode fingerprint hash item,
      field.1.length ≤ 40 ∧ field.2.dumps.length ≤ 4 * 40 := by
    simp only [itemPayload, List.forall_mem_cons, List.not_mem_nil, false_implies, implies_true,
      and_true]
    refine ⟨⟨by decide, hstr _ (sha256_length hhash).le⟩, ⟨by decide, hint _ (by omega)⟩,
      ⟨by decide, hint _ (by omega)⟩, ⟨by decide, hint _ hindex⟩, ⟨by decide, hint _ hlast⟩,
      ⟨by decide, hstr _ (sha256_length hfingerprint).le⟩, ⟨by decide, hstr _ hmode⟩,
      by decide, hstr _ (by decide)⟩
  have hdump := dumpFields_length_le hfields
  have hencoded := encodeUtf8_length_le (JsonText.dumps (itemPayload mode fingerprint hash item))
  have hcount : (itemPayload mode fingerprint hash item).length = 8 := rfl
  rw [hcount] at hdump
  rw [JsonText.dumps, List.length_cons] at hencoded
  rw [maxMappingItemBytes, JsonText.dumps]
  omega

theorem blank_of_strip_nil {u : Unicode} {s : Str} (h : strip u s = []) :
    ∀ c ∈ s, u.isSpace c = true := by
  have hdrop : s.dropWhile u.isSpace = [] := by
    by_contra hne
    have hall := List.rdropWhile_eq_nil_iff.mp h
    exact absurd (hall _ (List.head_mem hne))
      (by simpa using List.head_dropWhile_not u.isSpace hne)
  exact List.dropWhile_eq_nil_iff.mp hdrop

theorem dumps_not_blank (u : Unicode) :
    strip u (JsonText.dumps (itemPayload mode fingerprint hash item)) ≠ [] := by
  intro h
  have hb : 'b' ∈ JsonText.dumps (itemPayload mode fingerprint hash item) := by
    rw [JsonText.dumps, itemPayload, JsonText.dumpFields]
    · exact List.mem_cons_of_mem _ (List.mem_append_left _ (by decide))
    · intro h
      cases h
  exact u.space_not_word 'b' (blank_of_strip_nil h 'b' hb) (u.word_ascii 'b' (by decide))

theorem isCanonicalDigest_sha256 {s : Str} (h : Sha256 s) :
    isCanonicalDigest (.str s) = true := by
  obtain ⟨digest, ⟨hlength, hhex⟩, rfl⟩ := h
  have hdrop : ("sha256:".toList ++ digest).drop 7 = digest := rfl
  rw [isCanonicalDigest, hdrop, List.isPrefixOf_iff_prefix.mpr (List.prefix_append ..),
    Bool.true_and, Bool.and_eq_true, List.all_eq_true]
  exact ⟨by simpa using hlength, fun c hc => List.contains_iff_mem.mpr (hhex c hc)⟩

/-- LOSSLESS: the runtime reads an item as the provider wrote it. -/
theorem parse_item (t : Tools) (hmode : mode.isMapped) (hfingerprint : Sha256 fingerprint)
    (hhash : Sha256 hash) (hitem : SmallItem item) :
    parseAirflowMappingItemJson t (JsonText.dumps (itemPayload mode fingerprint hash item)) =
      .ok ⟨mode, fingerprint, hash, item.itemIndex, item.firstChunkIndex, item.lastChunkIndex,
        item.chunksCount⟩ := by
  have hsize : (encodeUtf8 (JsonText.dumps (itemPayload mode fingerprint hash item))).length ≤
      maxMappingItemBytes := item_length_le hfingerprint hhash hitem
  obtain ⟨hindex, hfirst, hordered, hlast, hcounted⟩ := hitem
  have hkeys : ((itemPayload mode fingerprint hash item).map Prod.fst).Nodup := by
    change List.Nodup ["backfill_plan_hash".toList, "chunks_count".toList,
      "first_chunk_index".toList, "item_index".toList, "last_chunk_index".toList,
      "mapping_plan_fingerprint".toList, "mode".toList, "schema".toList]
    decide
  rw [parseAirflowMappingItemJson, raiseWhen_neg (dumps_not_blank t.unicode),
    raiseWhen_neg (not_lt.mpr hsize), t.json.loads_dumps _ hkeys]
  change readSelection ((itemPayload mode fingerprint hash item).map
    fun field => (field.1, Json.ofScalar field.2)) = _
  have hexact : Json.hasExactly selectionFields ((itemPayload mode fingerprint hash item).map
      fun field => (field.1, Json.ofScalar field.2)) = true := rfl
  have hschema : schemaIs "dpone.airflow-mapping-item.v1".toList
      ((itemPayload mode fingerprint hash item).map
        fun field => (field.1, Json.ofScalar field.2)) = true := rfl
  rw [readSelection, raiseWhen_neg (not_not.mpr hexact), raiseWhen_neg (not_not.mpr hschema)]
  have hname : mappedModeOf (.str mode.name) = .ok mode := by
    rw [mappedModeOf, ofName_name, Option.filter_some, if_pos hmode]
  have hdigest : ∀ (name : String) {s : Str} {fields : List (Str × Json)}, Sha256 s →
      Json.get name.toList fields = .str s → itemDigest name fields = .ok s := by
    intro name s fields hs hget
    rw [itemDigest, hget, raiseWhen_neg (not_not.mpr (isCanonicalDigest_sha256 hs))]
    rfl
  change (do
    let mode ← mappedModeOf (.str mode.name)
    let fingerprint ← itemDigest "mapping_plan_fingerprint" _
    let hash ← itemDigest "backfill_plan_hash" _
    let itemIndex ← positiveOrZeroInt (.int item.itemIndex) "item_index"
    let first ← positiveOrZeroInt (.int item.firstChunkIndex) "first_chunk_index"
    let last ← positiveOrZeroInt (.int item.lastChunkIndex) "last_chunk_index"
    let count ← positiveOrZeroInt (.int item.chunksCount) "chunks_count"
    raiseWhen (first < 1 ∨ last < first ∨ count ≠ last - first + 1)
      (itemViolation "Airflow mapping item chunk range is invalid")
    return (⟨mode, fingerprint, hash, itemIndex, first, last, count⟩ :
      BackfillExecutionSelection)) = _
  rw [hname, ok_bind, hdigest "mapping_plan_fingerprint" hfingerprint rfl, ok_bind,
    hdigest "backfill_plan_hash" hhash rfl, ok_bind]
  change (do
    raiseWhen (item.firstChunkIndex < 1 ∨ item.lastChunkIndex < item.firstChunkIndex ∨
        item.chunksCount ≠ item.lastChunkIndex - item.firstChunkIndex + 1)
      (itemViolation "Airflow mapping item chunk range is invalid")
    return (⟨mode, fingerprint, hash, item.itemIndex, item.firstChunkIndex, item.lastChunkIndex,
      item.chunksCount⟩ : BackfillExecutionSelection)) = _
  rw [raiseWhen_neg (by omega)]
  rfl

end Item

end Dpone.Airflow
