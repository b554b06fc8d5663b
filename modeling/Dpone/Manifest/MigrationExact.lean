import Mathlib.Data.List.Perm.Basic
import Dpone.Manifest.MigrationBuilder
import Dpone.Manifest.Overlay
import Dpone.Schemes.Records

/-! When migration to a batch manifest preserves meaning.

    What the processes have in common is part of each of them, so it covers nothing they lack. The
    exceptions are the two blocks that a batch manifest must have: where the processes share no part
    of their sinks or sources, the block of the first process becomes the default of all, and a
    difference cannot take a key of it away again. -/

namespace Dpone.Manifest
open Dpone.Schemes Document

variable {σ : Type}

/-! ### What documents have in common -/

section
variable [DecidableEq σ] [BEq σ] {values : Set σ}

/-- What it means that `c` is common to the documents. -/
structure CommonTo (values : Set σ) (docs : List (Document σ)) (c : Document σ) : Prop where
  clean : Clean values c
  part : ∀ d ∈ docs, PartOf c d

/-- The common mapping, from what is common under each key. -/
theorem commonDict_of_values {ks : List String} {f : String → Document σ}
    {others : List (Document σ)} (hmaps : others.all isMap = true)
    (hkey : ∀ k ∈ ks, (∀ d ∈ others, d.hasKey k = true) →
      ∀ c, commonValue (f k) (others.map (valueAt k)) = some c →
        c.isEmptyMap = false ∧ CommonTo values (f k :: others.map (valueAt k)) c) :
    CommonTo values (.map ks f :: others) (deepCommonDict (.map ks f :: others)) := by
  have hk : ∀ k ∈ ks.filter (fun k => others.all (hasKey k) &&
        (commonValue (f k) (others.map (valueAt k))).isSome),
      k ∈ ks ∧ (∀ d ∈ others, d.hasKey k = true) ∧
        ∃ c, commonValue (f k) (others.map (valueAt k)) = some c ∧
          c.isEmptyMap = false ∧ CommonTo values (f k :: others.map (valueAt k)) c := by
    intro k hmem
    rw [List.mem_filter, Bool.and_eq_true, List.all_eq_true, Option.isSome_iff_exists] at hmem
    obtain ⟨hks, hall, c, hc⟩ := hmem
    exact ⟨hks, hall, c, hc, hkey k hks hall c hc⟩
  rw [deepCommonDict, if_pos hmaps]
  refine ⟨fun k hmem => ?_, fun d hd => ?_⟩
  · obtain ⟨-, -, c, hc, hne, hcommon⟩ := hk k hmem
    simp only [hc, Option.getD_some]
    exact ⟨hne, hcommon.clean⟩
  · have hd' : d.isMap = true := by
      rcases List.mem_cons.1 hd with rfl | hd
      · rfl
      · exact List.all_eq_true.1 hmaps d hd
    obtain ⟨ls, g, rfl⟩ := exists_of_isMap hd'
    intro k hmem
    obtain ⟨hks, hall, c, hc, -, hcommon⟩ := hk k hmem
    simp only [hc, Option.getD_some]
    rcases List.mem_cons.1 hd with e | hd
    · cases e
      exact ⟨hks, hcommon.part _ List.mem_cons_self⟩
    · have hls : k ∈ ls := hasKey_map.1 (hall _ hd)
      refine ⟨hls, hcommon.part _ (List.mem_cons_of_mem _ (List.mem_map.2 ⟨_, hd, ?_⟩))⟩
      exact valueAt_of_mem hls

/-- Without mappings among them, equal documents have their first in common. -/
theorem commonTo_first (heq : ∀ s ∈ values, ∀ t ∈ values, (s == t) = true ↔ s = t)
    {first : Document σ} {others : List (Document σ)} (hfirst : first.isMap = false)
    (hclean : ∀ d ∈ first :: others, Clean values d) {c : Document σ}
    (h : (if others.all (same first) then some first else none) = some c) :
    c.isEmptyMap = false ∧ CommonTo values (first :: others) c := by
  obtain ⟨hsame, rfl⟩ : others.all (same first) = true ∧ first = c := by simpa using h
  have hc := hclean first List.mem_cons_self
  refine ⟨isEmptyMap_of_not_isMap hfirst, hc, fun d hd => ?_⟩
  rcases List.mem_cons.1 hd with rfl | ho
  · exact partOf_refl _
  · rw [partOf_leaf (by rw [hfirst]; rfl)]
    exact (sameBy_iff_identical heq hc (hclean d hd)).1 (List.all_eq_true.1 hsame d ho)

theorem commonValue_common (heq : ∀ s ∈ values, ∀ t ∈ values, (s == t) = true ↔ s = t)
    {first : Document σ} {others : List (Document σ)}
    (hclean : ∀ d ∈ first :: others, Clean values d) {c : Document σ}
    (h : commonValue first others = some c) :
    c.isEmptyMap = false ∧ CommonTo values (first :: others) c := by
  induction first generalizing others c with
  | map ks f ih =>
    by_cases hmaps : others.all isMap = true
    · have hcommon : CommonTo values (.map ks f :: others)
          (deepCommonDict (.map ks f :: others)) := by
        refine commonDict_of_values hmaps fun k hk hall c hc => ih k (fun d hd => ?_) hc
        rcases List.mem_cons.1 hd with rfl | hd
        · exact ((hclean _ List.mem_cons_self) k hk).2
        · obtain ⟨w, hw, rfl⟩ := List.mem_map.1 hd
          exact (hclean w (List.mem_cons_of_mem _ hw)).valueAt k
      have hstrip := strip_identical hcommon.clean
      rw [commonValue, if_pos hmaps] at h
      rw [deepCommonDict, if_pos hmaps] at hcommon hstrip
      dsimp only at h
      split at h
      · cases h
      · next hne =>
        obtain rfl := Option.some.inj h
        exact ⟨Bool.not_eq_true _ ▸ hne, hcommon.clean.congr hstrip.symm,
          fun d hd => (hcommon.part d hd).congr hstrip⟩
    · rw [commonValue, if_neg hmaps] at h
      cases h
  | _ => exact commonTo_first heq rfl hclean h

/-- STEP: what `deep_common_dict` finds in clean mappings is part of each of them. -/
theorem deepCommonDict_common (heq : ∀ s ∈ values, ∀ t ∈ values, (s == t) = true ↔ s = t)
    {docs : List (Document σ)} (hne : docs ≠ []) (hmaps : ∀ d ∈ docs, d.isMap = true)
    (hclean : ∀ d ∈ docs, Clean values d) : CommonTo values docs (deepCommonDict docs) := by
  cases docs with
  | nil => exact absurd rfl hne
  | cons first others =>
    obtain ⟨ks, f, rfl⟩ := exists_of_isMap (hmaps first List.mem_cons_self)
    have hall : others.all isMap = true :=
      List.all_eq_true.2 fun d hd => hmaps d (List.mem_cons_of_mem _ hd)
    refine commonDict_of_values hall fun k hk hhas c hc => ?_
    refine commonValue_common heq (fun d hd => ?_) hc
    rcases List.mem_cons.1 hd with rfl | hd
    · exact ((hclean _ List.mem_cons_self) k hk).2
    · obtain ⟨w, hw, rfl⟩ := List.mem_map.1 hd
      exact (hclean w (List.mem_cons_of_mem _ hw)).valueAt k

end

/-! ### The blocks a batch manifest must have -/

/-- The defaults with a block: their own, or that of the sample. -/
def withBlock (block : String) (sample defaults : Document σ) : Document σ :=
  if (defaults.valueAt block).isMap then defaults
  else defaults.insert block (sample.valueAt block)

theorem ensureRequiredDefaults_ok (defaults : Document σ) {sample : Document σ}
    (manifestName : String)
    (hsink : (sample.valueAt "sink").isMap = true)
    (hsource : (sample.valueAt "source").isMap = true) :
    ensureRequiredDefaults defaults sample manifestName =
      .ok (withBlock "source" sample (withBlock "sink" sample defaults)) := by
  have hblock : ∀ block missing (d : Document σ), (sample.valueAt block).isMap = true →
      ensureBlock block missing sample d = .ok (withBlock block sample d) := by
    intro block missing d h
    rw [ensureBlock, withBlock, if_pos h]
    split <;> rfl
  rw [ensureRequiredDefaults, hblock _ _ _ hsink]
  exact hblock _ _ _ hsource

theorem isMap_withBlock {block : String} {sample defaults : Document σ}
    (hmap : defaults.isMap = true) : (withBlock block sample defaults).isMap = true := by
  obtain ⟨ks, f, rfl⟩ := exists_of_isMap hmap
  rw [withBlock]
  split <;> rfl

theorem hasKey_withBlock {block j : String} {sample defaults : Document σ}
    (hmap : defaults.isMap = true) :
    (withBlock block sample defaults).hasKey j = true ↔ defaults.hasKey j = true ∨ j = block := by
  rw [withBlock]
  split
  · next h => exact ⟨.inl, fun hj => hj.elim id fun e => e ▸ hasKey_of_isMap_valueAt h⟩
  · exact hasKey_insert hmap

theorem valueAt_withBlock {block j : String} {sample defaults : Document σ}
    (hmap : defaults.isMap = true) :
    (withBlock block sample defaults).valueAt j =
      if j = block ∧ (defaults.valueAt block).isMap = false then sample.valueAt block
      else defaults.valueAt j := by
  rw [withBlock]
  split
  · next h => simp [h]
  · next h => simp [valueAt_insert hmap, Bool.not_eq_true _ ▸ h]

theorem clean_withBlock {values : Set σ} {block : String} {sample defaults : Document σ}
    (hd : Clean values defaults) (hs : Clean values sample)
    (hblock : sample.hasKey block = true) : Clean values (withBlock block sample defaults) := by
  rw [withBlock]
  split
  · exact hd
  · cases sample with
    | map ls g =>
      have hls : block ∈ ls := hasKey_map.1 hblock
      rw [valueAt_of_mem hls]
      exact hd.insert (hs block hls).1 (hs block hls).2
    | _ => cases hblock

theorem covered_iff_keys {x v : Document σ} (hx : x.isMap = true) (hv : v.isMap = true) :
    covered x v = true ↔ ∀ k, x.hasKey k = true →
      v.hasKey k = true ∧ covered (x.valueAt k) (v.valueAt k) = true := by
  obtain ⟨ks, f, rfl⟩ := exists_of_isMap hx
  obtain ⟨ls, g, rfl⟩ := exists_of_isMap hv
  rw [covered_map]
  refine forall_congr' fun k => ?_
  rw [hasKey_map, hasKey_map]
  refine forall_congr' fun hk => and_congr_right fun hl => ?_
  rw [valueAt_of_mem hk, valueAt_of_mem hl]

theorem PartOf.valueAt [DecidableEq σ] {x v : Document σ} (hxv : PartOf x v) {k : String}
    (hk : x.hasKey k = true) :
    v.hasKey k = true ∧ PartOf (x.valueAt k) (v.valueAt k) := by
  cases x with
  | map ks f =>
    obtain ⟨ls, g, rfl⟩ := exists_of_isMap hxv.isMap_eq.symm
    obtain ⟨hl, hp⟩ := hxv k (hasKey_map.1 hk)
    rw [valueAt_of_mem (hasKey_map.1 hk), valueAt_of_mem hl]
    exact ⟨hasKey_map.2 hl, hp⟩
  | _ => cases hk

/-- The root defaults of a group of manifests whose common part is `common`. -/
def rootDefaults (sample common : Document σ) : Document σ :=
  withBlock "source" sample (withBlock "sink" sample common)

theorem isMap_rootDefaults {sample common : Document σ} (hmap : common.isMap = true) :
    (rootDefaults sample common).isMap = true := isMap_withBlock (isMap_withBlock hmap)

theorem hasKey_rootDefaults {sample common : Document σ} (hmap : common.isMap = true)
    {k : String} : (rootDefaults sample common).hasKey k = true ↔
      common.hasKey k = true ∨ k = "sink" ∨ k = "source" := by
  rw [rootDefaults, hasKey_withBlock (isMap_withBlock hmap), hasKey_withBlock hmap, or_assoc]

theorem valueAt_rootDefaults {sample common : Document σ} (hmap : common.isMap = true)
    (k : String) : (rootDefaults sample common).valueAt k =
      if (k = "sink" ∨ k = "source") ∧ (common.valueAt k).isMap = false then sample.valueAt k
      else common.valueAt k := by
  rw [rootDefaults, valueAt_withBlock (isMap_withBlock hmap), valueAt_withBlock hmap,
    valueAt_withBlock hmap]
  by_cases h₁ : k = "sink"
  · subst h₁
    simp
  · by_cases h₂ : k = "source"
    · subst h₂
      simp
    · simp [h₁, h₂]

/-- A manifest covers the root defaults if it covers each block they have from the sample. -/
theorem covered_rootDefaults [DecidableEq σ] {sample common body : Document σ}
    (hpart : PartOf common body) (hbody : body.isMap = true)
    (hblocks : ∀ k, k = "sink" ∨ k = "source" → (body.valueAt k).isMap = true) :
    covered (rootDefaults sample common) body = true ↔
      ∀ k, k = "sink" ∨ k = "source" → (common.valueAt k).isMap = false →
        covered (sample.valueAt k) (body.valueAt k) = true := by
  have hmap : common.isMap = true := hpart.isMap_eq.trans hbody
  rw [covered_iff_keys (isMap_rootDefaults hmap) hbody]
  constructor
  · intro h k hk hun
    obtain ⟨-, hc⟩ := h k ((hasKey_rootDefaults hmap).2 (.inr hk))
    rwa [valueAt_rootDefaults hmap, if_pos ⟨hk, hun⟩] at hc
  · intro h k hk
    rw [valueAt_rootDefaults hmap]
    by_cases hun : (k = "sink" ∨ k = "source") ∧ (common.valueAt k).isMap = false
    · rw [if_pos hun]
      exact ⟨hasKey_of_isMap_valueAt (hblocks k hun.1), h k hun.1 hun.2⟩
    · rw [if_neg hun]
      have hcommon : common.hasKey k = true := by
        refine ((hasKey_rootDefaults hmap).1 hk).elim id fun hb => ?_
        exact hasKey_of_isMap_valueAt (by simpa [hb] using hun)
      obtain ⟨hkey, hp⟩ := hpart.valueAt hcommon
      exact ⟨hkey, hp.covered⟩

/-! ### One manifest -/

section
variable [DecidableEq σ] [BEq σ] {values : Set σ}
  (heq : ∀ s ∈ values, ∀ t ∈ values, (s == t) = true ↔ s = t)
include heq

/-- A key that is part of the manifest in both defaults is so in their overlay. -/
theorem overlay_keeps_own {ks js ls : List String} {f e g : String → Document σ}
    (hcb : Clean values (.map ls g)) (hpart : PartOf (.map js e) (.map ls g)) {k : String}
    (hls : k ∈ ls) (hown : k ∈ ks → PartOf (f k) (g k))
    (hk : (overlay [] (.map ks f) (.map js e)).hasKey k = true) :
    PartOf ((overlay [] (.map ks f) (.map js e)).valueAt k) (g k) := by
  rw [overlay] at hk ⊢
  rw [valueAt_of_mem (hasKey_map.1 hk)]
  by_cases hks : k ∈ ks
  · by_cases hjs : k ∈ js
    · simpa [hks, hjs] using overlay_partOf heq (hcb k hls).2 (hown hks) (hpart k hjs).2
    · simpa [hks, hjs] using hown hks
  · have hjs : k ∈ js := by simp_all
    simpa [hks] using (hpart k hjs).2

/-- STEP: one manifest comes back from root defaults and schema defaults exactly when it covers the
    root defaults, if the schema's part is part of it and what is its own is not concatenated. -/
theorem patched_twice_iff {root schema body : Document σ}
    (hroot : root.isMap = true) (hbody : body.isMap = true) (hcr : Clean values root)
    (hcs : Clean values schema) (hcb : Clean values body) (hpart : PartOf schema body)
    (hown : ∀ k, root.hasKey k = true → appendsAt [k] = true →
      PartOf (root.valueAt k) (body.valueAt k)) :
    Identical (patched [] (patched [] root schema) body) body ↔ covered root body = true := by
  obtain ⟨ks, f, rfl⟩ := exists_of_isMap hroot
  obtain ⟨ls, g, rfl⟩ := exists_of_isMap hbody
  obtain ⟨js, e, rfl⟩ := exists_of_isMap (hpart.isMap_eq.trans hbody)
  have hbase : Identical (patched [] (.map ks f) (.map js e)) (overlay [] (.map ks f) (.map js e)) :=
    patched_identical hcs (.inr hroot)
  have hoverlay : Clean values (overlay [] (.map ks f) (.map js e)) := overlay_clean hcr hcs
  have hclean := hoverlay.congr hbase.symm
  have hcov : covered (patched [] (.map ks f) (.map js e)) (.map ls g) =
      covered (.map ks f) (.map ls g) := (covered_congr hbase).trans (covered_overlay_iff hpart)
  obtain ⟨ps, h, hp⟩ := exists_of_isMap hbase.isMap_eq
  rw [hp] at hbase hclean hcov ⊢
  have hfinal : Identical (patched [] (.map ps h) (.map ls g)) (overlay [] (.map ps h) (.map ls g)) :=
    patched_identical hcb (.inr rfl)
  have hiff := overlay_root_iff heq hclean hcb fun k hps hls happ => by
    have hkey : (overlay [] (.map ks f) (.map js e)).hasKey k = true :=
      hasKey_map.2 (((identical_map.1 hbase).1 k).1 hps)
    have := overlay_keeps_own heq hcb hpart hls (fun hks => by
      have := hown k (hasKey_map.2 hks) happ
      rwa [valueAt_of_mem hks, valueAt_of_mem hls] at this) hkey
    have hval := hbase.valueAt k
    rw [valueAt_of_mem hps] at hval
    exact this.congr hval
  rw [← hcov, ← hiff]
  exact ⟨hfinal.symm.trans, hfinal.trans⟩

end

/-! ### The group -/

namespace LegacyProcess

theorem body_isMap (p : LegacyProcess σ) : p.body.isMap = true :=
  (isMap_erase _ _).trans p.raw_isMap

theorem body_blocks (p : LegacyProcess σ) :
    ∀ k, k = "sink" ∨ k = "source" → (p.body.valueAt k).isMap = true := by
  rintro k (rfl | rfl)
  · rw [body, valueAt_erase (by decide)]
    exact p.sink_isMap
  · rw [body, valueAt_erase (by decide)]
    exact p.source_isMap

end LegacyProcess

/-- A manifest that names its source table and has well-formed dependencies. -/
structure Migratable (p : LegacyProcess σ) : Prop where
  table : ∃ table, p.srcTable = .ok table
  dependsOn : ∃ deps, normalizeDependsOn (p.raw.valueAt "depends_on") = .ok deps

theorem deepMerge_nonEmpty {base d : Document σ} (hbase : base.isMap = true) :
    deepMerge [] base ((nonEmpty d).getD empty) =
      if saysNothing d then base else deepMerge [] base d := by
  obtain ⟨ks, f, rfl⟩ := exists_of_isMap hbase
  rw [nonEmpty]
  split
  · exact deepMerge_empty [] ks f _
  · rfl

section
variable [BEq σ] {rewrite : LegacyProcess σ → Document σ → Document σ}

/-- What the compiler merges for a process of a group: root defaults, schema part, own part. -/
def mergedConfig (ps : List (LegacyProcess σ)) (root : Document σ) (p : LegacyProcess σ) :
    Document σ :=
  patched [] (patched [] root
    (deepCommonDict ((schemaProcesses ps p.srcSchema).map (·.body)))) p.body

theorem patched_isMap {path : List String} {base v : Document σ} (hbase : base.isMap = true)
    (hv : v.isMap = true) : (patched path base v).isMap = true := by
  obtain ⟨ks, f, rfl⟩ := exists_of_isMap hbase
  obtain ⟨ls, g, rfl⟩ := exists_of_isMap hv
  rw [patched_map]
  rfl

theorem deepCommonDict_isMap : ∀ docs : List (Document σ), (deepCommonDict docs).isMap = true
  | [] => rfl
  | .map _ _ :: others => by
    rw [deepCommonDict]
    split <;> rfl
  | .null :: _ | .text _ :: _ | .scalar _ :: _ | .list _ _ :: _ => rfl

theorem tableSpec_ok {schemaBase : Document σ} {p : LegacyProcess σ} {spec : TableSpec σ}
    (hbase : schemaBase.isMap = true) (h : tableSpec rewrite schemaBase p = .ok spec) :
    .ok spec.table = p.srcTable ∧
      deepMerge [] schemaBase spec.overrides = patched [] schemaBase p.body := by
  obtain ⟨ks, f, rfl⟩ := exists_of_isMap hbase
  have hmerge : deepMerge [] (.map ks f)
      ((nonEmpty (stripEmptyDicts (deepDiff p.body (.map ks f)))).getD empty) =
        patched [] (.map ks f) p.body := deepMerge_nonEmpty rfl
  obtain ⟨table, ht, h⟩ := bind_ok.mp h
  obtain ⟨deps, -, h⟩ := bind_ok.mp h
  obtain rfl := Except.ok.inj h
  rw [← hmerge, ht]
  split
  · next hnone =>
    rw [Bool.and_eq_true, Option.isNone_iff_eq_none] at hnone
    exact ⟨rfl, by rw [hnone.1]; rfl⟩
  · exact ⟨rfl, rfl⟩

theorem tableSpec_total (schemaBase : Document σ) {p : LegacyProcess σ} (hp : Migratable p) :
    ∃ spec, tableSpec rewrite schemaBase p = .ok spec := by
  obtain ⟨table, ht⟩ := hp.table
  obtain ⟨deps, hd⟩ := hp.dependsOn
  exact ⟨_, by rw [tableSpec, ht, hd]; rfl⟩

/-- What the compiler gets for the processes of one schema. -/
structure MergedAs (ps : List (LegacyProcess σ)) (root : Document σ) (merged : MergedProcess σ)
    (p : LegacyProcess σ) : Prop where
  schema : merged.schema = p.srcSchema
  table : .ok merged.table = p.srcTable
  config : merged.config = mergedConfig ps root p

/-- The merge of one schema's tables, as `compileMerge` makes it. -/
def compileSchema (root : Document σ) (schema : String) (block : SchemaBlock σ) :
    List (MergedProcess σ) :=
  block.tables.map fun spec => ⟨schema, spec.table,
    deepMerge [] (deepMerge [] root (block.defaults.getD empty)) spec.overrides⟩

theorem schemaBlock_ok {ps : List (LegacyProcess σ)} {root : Document σ} {schema : String}
    {block : SchemaBlock σ} (hroot : root.isMap = true)
    (h : schemaBlock rewrite root (schemaProcesses ps schema) = .ok block) :
    List.Forall₂ (MergedAs ps root) (compileSchema root schema block)
      ((schemaProcesses ps schema).insertionSort tableBefore) := by
  have hbase : deepMerge [] root ((schemaExtra root (schemaProcesses ps schema)).getD empty) =
      patched [] root (deepCommonDict ((schemaProcesses ps schema).map (·.body))) :=
    deepMerge_nonEmpty hroot
  have hmap : (deepMerge [] root
      ((schemaExtra root (schemaProcesses ps schema)).getD empty)).isMap = true := by
    rw [hbase]
    exact patched_isMap hroot (deepCommonDict_isMap _)
  have hschema : ∀ p ∈ (schemaProcesses ps schema).insertionSort tableBefore,
      p.srcSchema = schema := by
    intro p hp
    rw [List.mem_insertionSort, schemaProcesses, List.mem_filter] at hp
    exact of_decide_eq_true hp.2
  obtain ⟨_, -, h⟩ := bind_ok.mp h
  obtain ⟨tables, htables, h⟩ := bind_ok.mp h
  obtain rfl := Except.ok.inj h
  rw [compileSchema, List.forall₂_map_left_iff]
  refine (((List.forall₂_and_left _ _).2 ⟨hschema, mapM_ok.mp htables⟩).imp ?_).flip
  rintro p spec ⟨rfl, hspec⟩
  obtain ⟨ht, hc⟩ := tableSpec_ok hmap hspec
  exact ⟨rfl, ht, by rw [hc, hbase]; rfl⟩

theorem schemaBlock_total (root : Document σ) {procs : List (LegacyProcess σ)}
    (h : ∀ p ∈ procs, Migratable p) : ∃ block, schemaBlock rewrite root procs = .ok block := by
  obtain ⟨_, h₁⟩ := exists_mapM_ok fun p hp => (h p hp).table
  obtain ⟨tables, h₂⟩ := exists_mapM_ok (l := procs.insertionSort tableBefore)
    (f := tableSpec rewrite (deepMerge [] root ((schemaExtra root procs).getD empty)))
    fun p hp => tableSpec_total _ (h p ((List.mem_insertionSort _).1 hp))
  exact ⟨_, by rw [schemaBlock, h₁, h₂]; rfl⟩

/-- The blocks of all schemas, as `buildBatchManifest` makes them. -/
def schemaEntries (rewrite : LegacyProcess σ → Document σ → Document σ)
    (ps : List (LegacyProcess σ)) (root : Document σ) :
    Except ManifestError (List (String × SchemaBlock σ)) :=
  (schemaNames ps).mapM fun schema => do
    let block ← schemaBlock rewrite root (schemaProcesses ps schema)
    return (schema, block)

theorem schemaEntries_ok {ps : List (LegacyProcess σ)} {root : Document σ}
    {schemas : List (String × SchemaBlock σ)} (hroot : root.isMap = true)
    (h : schemaEntries rewrite ps root = .ok schemas) :
    List.Forall₂ (MergedAs ps root) (compileMerge ⟨root, schemas⟩) (batchOrder ps) := by
  refine List.rel_flatMap (mapM_ok.mp h).flip ?_
  rintro ⟨schema, block⟩ schema' hentry
  obtain ⟨block', hblock, hentry⟩ := bind_ok.mp hentry
  cases hentry
  exact schemaBlock_ok hroot hblock

theorem schemaEntries_total {ps : List (LegacyProcess σ)} (root : Document σ)
    (h : ∀ p ∈ ps, Migratable p) : ∃ schemas, schemaEntries rewrite ps root = .ok schemas := by
  refine exists_mapM_ok fun schema _ => ?_
  obtain ⟨block, hblock⟩ : ∃ block,
      schemaBlock rewrite root (schemaProcesses ps schema) = .ok block :=
    schemaBlock_total root fun p hp => h p (List.mem_of_mem_filter hp)
  exact ⟨(schema, block), by rw [hblock]; rfl⟩

/-- The root defaults of a group. -/
def groupRoot (first : LegacyProcess σ) (ps : List (LegacyProcess σ)) : Document σ :=
  rootDefaults first.body (deepCommonDict (ps.map (·.body)))

theorem groupRoot_isMap (first : LegacyProcess σ) (ps : List (LegacyProcess σ)) :
    (groupRoot first ps).isMap = true := isMap_rootDefaults (deepCommonDict_isMap _)

/-- The build, with the blocks it must find found. -/
theorem buildBatchManifest_eq (manifestName : String) (first : LegacyProcess σ)
    (rest : List (LegacyProcess σ)) :
    buildBatchManifest rewrite manifestName (first :: rest) = do
      let _ ← (first :: rest).mapM fun p => normalizeDependsOn (p.raw.valueAt "depends_on")
      let schemas ← schemaEntries rewrite (first :: rest) (groupRoot first (first :: rest))
      return ⟨groupRoot first (first :: rest), schemas⟩ := by
  have hensure := ensureRequiredDefaults_ok (deepCommonDict ((first :: rest).map (·.body)))
    manifestName (first.body_blocks "sink" (.inl rfl)) (first.body_blocks "source" (.inr rfl))
  rw [buildBatchManifest, hensure]
  rfl

/-- RUN: what a build that returns has built, process by process, in the order of the batch. -/
theorem buildBatchManifest_ok {manifestName : String} {first : LegacyProcess σ}
    {rest : List (LegacyProcess σ)} {manifest : BatchManifest σ}
    (h : buildBatchManifest rewrite manifestName (first :: rest) = .ok manifest) :
    (∀ p ∈ first :: rest, ∃ deps, normalizeDependsOn (p.raw.valueAt "depends_on") = .ok deps) ∧
      List.Forall₂ (MergedAs (first :: rest) (groupRoot first (first :: rest)))
        (compileMerge manifest) (batchOrder (first :: rest)) := by
  rw [buildBatchManifest_eq] at h
  obtain ⟨deps, hdeps, h⟩ := bind_ok.mp h
  obtain ⟨schemas, hschemas, h⟩ := bind_ok.mp h
  obtain rfl := Except.ok.inj h
  exact ⟨forall_ok_of_mapM hdeps, schemaEntries_ok (groupRoot_isMap _ _) hschemas⟩

/-- TOTAL: a group of migratable manifests is migrated. -/
theorem buildBatchManifest_total (manifestName : String) {first : LegacyProcess σ}
    {rest : List (LegacyProcess σ)} (hall : ∀ p ∈ first :: rest, Migratable p) :
    ∃ manifest, buildBatchManifest rewrite manifestName (first :: rest) = .ok manifest := by
  obtain ⟨_, hdeps⟩ := exists_mapM_ok fun p hp => (hall p hp).dependsOn
  obtain ⟨schemas, hschemas⟩ : ∃ schemas, schemaEntries rewrite (first :: rest)
      (groupRoot first (first :: rest)) = .ok schemas := schemaEntries_total _ hall
  exact ⟨_, by rw [buildBatchManifest_eq, hdeps, hschemas]; rfl⟩

end

/-! ### The order of the batch -/

theorem flatMap_filter_perm {A : Type} (key : A → String) : ∀ (names : List String) (l : List A),
    names.Nodup → (∀ a ∈ l, key a ∈ names) →
      (names.flatMap fun name => l.filter (key · = name)).Perm l
  | [], l, _, h => by
    cases l with
    | nil => rfl
    | cons a l => exact absurd (h a List.mem_cons_self) List.not_mem_nil
  | name :: names, l, hnd, h => by
    obtain ⟨hname, hnd⟩ := List.nodup_cons.1 hnd
    have hrest := flatMap_filter_perm key names (l.filter fun a => !decide (key a = name)) hnd fun a ha => by
      rw [List.mem_filter] at ha
      exact (List.mem_cons.1 (h a ha.1)).resolve_left (by simpa using ha.2)
    have heq : (names.flatMap fun n => (l.filter fun a => !decide (key a = name)).filter (key · = n)) =
        names.flatMap fun n => l.filter (key · = n) := by
      refine List.flatMap_congr fun n hn => ?_
      rw [List.filter_filter]
      refine List.filter_congr fun a _ => ?_
      have : n ≠ name := fun e => hname (e ▸ hn)
      by_cases hk : key a = n <;> simp [hk, this]
    rw [heq] at hrest
    rw [List.flatMap_cons]
    exact (hrest.append_left _).trans (List.filter_append_perm _ l)

theorem batchOrder_perm (ps : List (LegacyProcess σ)) : (batchOrder ps).Perm ps := by
  have hnames := List.perm_insertionSort (· ≤ ·) (ps.map (·.srcSchema)).dedup
  refine (List.Perm.flatMap_left _ fun schema _ => List.perm_insertionSort _ _).trans ?_
  refine flatMap_filter_perm (·.srcSchema) _ ps (hnames.nodup_iff.2 (List.nodup_dedup _)) ?_
  intro p hp
  rw [hnames.mem_iff, List.mem_dedup]
  exact List.mem_map_of_mem hp

/-! ### The claim -/

/-- A block is kept: the manifests share a part of it, or each covers what the first says there. -/
def blockKept [BEq σ] (block : String) (bodies : List (Document σ)) : Bool :=
  ((deepCommonDict bodies).valueAt block).isMap ||
    bodies.all fun body => covered ((bodies.headD empty).valueAt block) (body.valueAt block)

section
variable [DecidableEq σ] [BEq σ] {values : Set σ}
  (heq : ∀ s ∈ values, ∀ t ∈ values, (s == t) = true ↔ s = t)
include heq

theorem processes_common {ps : List (LegacyProcess σ)} (hne : ps ≠ [])
    (hclean : ∀ p ∈ ps, Clean values p.body) :
    CommonTo values (ps.map (·.body)) (deepCommonDict (ps.map (·.body))) := by
  refine deepCommonDict_common heq (by simpa using hne) ?_ ?_
  · intro d hd
    obtain ⟨p, -, rfl⟩ := List.mem_map.1 hd
    exact p.body_isMap
  · intro d hd
    obtain ⟨p, hp, rfl⟩ := List.mem_map.1 hd
    exact hclean p hp

/-- STEP: one process of a group gets its body back exactly when it covers the blocks that the
    root defaults have from the first process. -/
theorem mergedConfig_iff {first : LegacyProcess σ} {rest : List (LegacyProcess σ)}
    (hclean : ∀ p ∈ first :: rest, Clean values p.body) {p : LegacyProcess σ}
    (hp : p ∈ first :: rest) :
    Identical (mergedConfig (first :: rest) (groupRoot first (first :: rest)) p) p.body ↔
      ∀ k, k = "sink" ∨ k = "source" →
        ((deepCommonDict ((first :: rest).map (·.body))).valueAt k).isMap = false →
          covered (first.body.valueAt k) (p.body.valueAt k) = true := by
  have hgroup := processes_common heq (List.cons_ne_nil first rest) hclean
  have hmem : p ∈ schemaProcesses (first :: rest) p.srcSchema :=
    List.mem_filter.2 ⟨hp, decide_eq_true rfl⟩
  have hschema := processes_common heq (List.ne_nil_of_mem hmem) fun q hq =>
    hclean q (List.mem_of_mem_filter hq)
  have hpart := hgroup.part _ (List.mem_map_of_mem hp)
  have hfirst := hclean first List.mem_cons_self
  have hroot : Clean values (groupRoot first (first :: rest)) :=
    clean_withBlock (clean_withBlock hgroup.clean hfirst
      (hasKey_of_isMap_valueAt (first.body_blocks _ (.inl rfl)))) hfirst
      (hasKey_of_isMap_valueAt (first.body_blocks _ (.inr rfl)))
  rw [mergedConfig, patched_twice_iff heq (groupRoot_isMap _ _) p.body_isMap hroot hschema.clean
    (hclean p hp) (hschema.part _ (List.mem_map_of_mem hmem)), groupRoot,
    covered_rootDefaults hpart p.body_isMap p.body_blocks]
  -- the lists that the merge would concatenate are no blocks, so they are what all have in common
  intro k hk happ
  have hno : ¬(k = "sink" ∨ k = "source") := by
    rintro (rfl | rfl) <;> exact absurd happ (by decide)
  have hmap := deepCommonDict_isMap ((first :: rest).map (·.body))
  rw [groupRoot, valueAt_rootDefaults hmap, if_neg fun h => hno h.1]
  exact (hpart.valueAt (((hasKey_rootDefaults hmap).1 hk).resolve_right hno)).2

end

theorem blockKept_iff [BEq σ] {block : String} {first : LegacyProcess σ}
    {rest : List (LegacyProcess σ)} :
    blockKept block ((first :: rest).map (·.body)) = true ↔ ∀ p ∈ first :: rest,
      ((deepCommonDict ((first :: rest).map (·.body))).valueAt block).isMap = false →
        covered (first.body.valueAt block) (p.body.valueAt block) = true := by
  rw [blockKept, Bool.or_eq_true, List.all_map, List.all_eq_true]
  cases ((deepCommonDict ((first :: rest).map (·.body))).valueAt block).isMap with
  | true => simp
  | false =>
    simp only [Bool.false_eq_true, false_or, forall_true_left]
    rfl

theorem forall₂_iff_of_forall₂ {A B : Type} {R S : A → B → Prop} {T : B → Prop} {l : List A}
    {u : List B} (h : List.Forall₂ R l u) (hST : ∀ a, ∀ b ∈ u, R a b → (S a b ↔ T b)) :
    List.Forall₂ S l u ↔ ∀ b ∈ u, T b := by
  induction h with
  | nil => simp
  | cons hab _ ih =>
    rw [List.forall₂_cons, List.forall_mem_cons, hST _ _ List.mem_cons_self hab,
      ih fun a b hb => hST a b (List.mem_cons_of_mem _ hb)]

theorem exists_table_of_gives_back [DecidableEq σ] {merged : List (MergedProcess σ)}
    {ps : List (LegacyProcess σ)} (h : List.Forall₂ GivesBack merged ps) :
    ∀ p ∈ ps, ∃ table, p.srcTable = .ok table := by
  induction h with
  | nil => exact fun p hp => absurd hp List.not_mem_nil
  | cons hm _ ih => exact List.forall_mem_cons.2 ⟨⟨_, hm.table.symm⟩, ih⟩

/-- RUN: a build that returns preserves meaning exactly when the sinks and the sources are kept. -/
theorem merged_gives_back_iff [DecidableEq σ] [BEq σ] {values : Set σ}
    (heq : ∀ s ∈ values, ∀ t ∈ values, (s == t) = true ↔ s = t) {first : LegacyProcess σ}
    {rest : List (LegacyProcess σ)} (hclean : ∀ p ∈ first :: rest, Clean values p.body)
    {merged : List (MergedProcess σ)}
    (h : List.Forall₂ (MergedAs (first :: rest) (groupRoot first (first :: rest))) merged
      (batchOrder (first :: rest))) :
    List.Forall₂ GivesBack merged (batchOrder (first :: rest)) ↔
      blockKept "sink" ((first :: rest).map (·.body)) = true ∧
        blockKept "source" ((first :: rest).map (·.body)) = true := by
  have hmem := fun p => (batchOrder_perm (first :: rest)).mem_iff (a := p)
  rw [forall₂_iff_of_forall₂ h fun m p hp hm => (show GivesBack m p ↔ _ from
    ⟨fun hg => hm.config ▸ hg.config, fun hi => ⟨hm.schema, hm.table, hm.config ▸ hi⟩⟩).trans
      (mergedConfig_iff heq hclean ((hmem p).1 hp)), blockKept_iff, blockKept_iff]
  constructor
  · intro hall
    exact ⟨fun p hp => hall p ((hmem p).2 hp) _ (.inl rfl),
      fun p hp => hall p ((hmem p).2 hp) _ (.inr rfl)⟩
  · rintro ⟨hsink, hsource⟩ p hp k (rfl | rfl)
    · exact hsink p ((hmem p).1 hp)
    · exact hsource p ((hmem p).1 hp)

end Dpone.Manifest
