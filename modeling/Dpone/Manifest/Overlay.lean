import Dpone.Manifest.MigrationBuilder

/-! What a document becomes when its difference from a base is merged into that base.

    `overlay base v` is that result, computed in one pass. It is `v` itself exactly when the base is
    covered by `v`: a key of the base that `v` lacks stays, as no difference says that a key goes,
    and so does a value of the base where `v` is null, as null is how a difference says nothing.

    A base that is part of every document it serves is covered by each. Such a part laid over
    another base changes nothing about what that base covers. -/

namespace Dpone.Manifest
open Dpone.Schemes Document

variable {σ : Type}

/-- Every key of the base is one of the document's, at every depth, and the document is null only
    where the base is. -/
def covered : Document σ → Document σ → Bool
  | .map ks f, .map ls g => ks.all fun k => ls.contains k && covered (f k) (g k)
  | base, .null => base.isNull
  | _, _ => true

/-- Every value of the first document is that of the second at the same place. -/
def PartOf [DecidableEq σ] : Document σ → Document σ → Prop
  | .map ks f, .map ls g => ∀ k ∈ ks, k ∈ ls ∧ PartOf (f k) (g k)
  | x, y => Identical x y

/-- A base after the difference of a document from it, without empty mappings, is merged in. -/
def patched [BEq σ] (path : List String) (base v : Document σ) : Document σ :=
  let d := stripEmptyDicts (deepDiff v base)
  if saysNothing d then base else deepMerge path base d

/-- The same in one pass. -/
def overlay [BEq σ] : List String → Document σ → Document σ → Document σ
  | path, .map ks f, .map ls g =>
    .map (ks ++ ls.filter fun k => !ks.contains k) fun k =>
      if ks.contains k then
        if ls.contains k then overlay (path ++ [k]) (f k) (g k) else f k
      else g k
  | path, base, v => if same v base || v.isNull then base else deepMerge path base v

/-! ### Away from two mappings -/

theorem covered_map {ks ls : List String} {f g : String → Document σ} :
    covered (.map ks f) (.map ls g) = true ↔ ∀ k ∈ ks, k ∈ ls ∧ covered (f k) (g k) = true := by
  simp [covered]

theorem covered_leaf : ∀ {base v : Document σ}, (base.isMap && v.isMap) = false →
    v.isNull = false → covered base v = true
  | .map _ _, .text _, _, _ | .map _ _, .scalar _, _, _ | .map _ _, .list _ _, _, _
  | .null, .text _, _, _ | .null, .scalar _, _, _ | .null, .list _ _, _, _ | .null, .map _ _, _, _
  | .text _, .text _, _, _ | .text _, .scalar _, _, _ | .text _, .list _ _, _, _
  | .text _, .map _ _, _, _ | .scalar _, .text _, _, _ | .scalar _, .scalar _, _, _
  | .scalar _, .list _ _, _, _ | .scalar _, .map _ _, _, _ | .list _ _, .text _, _, _
  | .list _ _, .scalar _, _, _ | .list _ _, .list _ _, _, _ | .list _ _, .map _ _, _, _ => rfl

theorem covered_null (base : Document σ) : covered base .null = base.isNull := by
  cases base <;> rfl

theorem partOf_leaf [DecidableEq σ] {x y : Document σ} (h : (x.isMap && y.isMap) = false) :
    PartOf x y = Identical x y := by
  cases x <;> cases y <;> first | rfl | simp at h

theorem overlay_leaf [BEq σ] {path : List String} {base v : Document σ}
    (h : (base.isMap && v.isMap) = false) :
    overlay path base v = if same v base || v.isNull then base else deepMerge path base v := by
  cases base <;> cases v <;> first | rfl | simp at h

theorem deepDiff_leaf [BEq σ] {v base : Document σ} (h : (v.isMap && base.isMap) = false) :
    deepDiff v base = if same v base then .null else v := by
  cases v <;> cases base <;> first | rfl | simp at h

/-- Off the paths where lists are concatenated, what is merged in replaces what was there. -/
theorem deepMerge_leaf {path : List String} {base v : Document σ}
    (h : (base.isMap && v.isMap) = false) (hp : appendsAt path = false) :
    deepMerge path base v = v := by
  cases base <;> cases v <;> first | rfl | exact if_neg (by simp [hp]) | simp at h

/-! ### The difference, stripped and merged -/

theorem strip_isNull (d : Document σ) : (stripEmptyDicts d).isNull = d.isNull := by
  cases d <;> rfl

theorem strip_saysNothing {d : Document σ} (h : saysNothing d = true) :
    saysNothing (stripEmptyDicts d) = true := by
  cases d with
  | map ks f =>
    have hks : ks = [] := by simpa [saysNothing, isNull, isEmptyMap] using h
    simp [hks, stripEmptyDicts, saysNothing, isEmptyMap]
  | null => rfl
  | text s => simp [saysNothing, isNull, isEmptyMap] at h
  | scalar s => simp [saysNothing, isNull, isEmptyMap] at h
  | list n f => simp [saysNothing, isNull, isEmptyMap] at h

theorem deepMerge_empty (path : List String) (ks : List String) (f h : String → Document σ) :
    deepMerge path (.map ks f) (.map [] h) = .map ks f := by
  simp [deepMerge]

/-- Two mappings are merged also where the difference says nothing: that changes nothing. -/
theorem patched_map [BEq σ] (path : List String) (ks ls : List String)
    (f g : String → Document σ) :
    patched path (.map ks f) (.map ls g) =
      deepMerge path (.map ks f) (stripEmptyDicts (deepDiff (.map ls g) (.map ks f))) := by
  obtain ⟨js, h, hd⟩ : ∃ js h, stripEmptyDicts (deepDiff (.map ls g) (.map ks f)) = .map js h :=
    exists_of_isMap rfl
  rw [patched, hd]
  by_cases hjs : js = []
  · rw [hjs, deepMerge_empty]
    rfl
  · rw [if_neg (by simpa [saysNothing, isNull, isEmptyMap] using hjs)]

/-- What a key of both mappings is patched to: its own difference, if that says something. -/
theorem patched_eq_ite [BEq σ] (path : List String) (base v : Document σ) :
    patched path base v =
      if !saysNothing (deepDiff v base) && !(stripEmptyDicts (deepDiff v base)).isEmptyMap then
        deepMerge path base (stripEmptyDicts (deepDiff v base))
      else base := by
  have hnull := strip_isNull (deepDiff v base)
  by_cases hs : saysNothing (deepDiff v base) = true
  · simp [patched, hs, strip_saysNothing hs]
  · obtain ⟨h₁, h₂⟩ : (deepDiff v base).isNull = false ∧ (deepDiff v base).isEmptyMap = false := by
      simpa [saysNothing] using hs
    cases he : (stripEmptyDicts (deepDiff v base)).isEmptyMap <;>
      simp [patched, saysNothing, hnull, h₁, h₂, he]

variable [DecidableEq σ]

theorem strip_identical {values : Set σ} :
    ∀ {x : Document σ}, Clean values x → Identical (stripEmptyDicts x) x
  | .null, _ | .text _, _ | .scalar _, _ => identical_refl _
  | .list _ f, hx => identical_list.2 ⟨rfl, fun i hi => strip_identical (hx i hi).2⟩
  | .map ks f, hx => by
    have hv : ∀ k ∈ ks, Identical (stripEmptyDicts (f k)) (f k) := fun k hk =>
      strip_identical (hx k hk).2
    refine identical_map.2 ⟨fun k => ?_, fun k hk => hv k (List.mem_of_mem_filter hk)⟩
    rw [List.mem_filter]
    refine and_iff_left_of_imp fun hk => ?_
    rw [(hv k hk).isEmptyMap_eq, (hx k hk).1]
    rfl

/-- Away from two mappings, identical documents are merged into identical ones. -/
theorem deepMerge_congr {path : List String} {base v w : Document σ} (hvw : Identical v w)
    (h : (base.isMap && v.isMap) = false) :
    Identical (deepMerge path base v) (deepMerge path base w) := by
  by_cases hp : appendsAt path = true
  · cases base with
    | list n f =>
      cases v with
      | list m g =>
        cases w with
        | list l e =>
          obtain ⟨rfl, hi⟩ := identical_list.1 hvw
          simp only [deepMerge, hp, if_true]
          refine identical_list.2 ⟨rfl, fun i hn => ?_⟩
          split
          · exact identical_refl _
          · exact hi _ (by omega)
        | _ => cases hvw
      | _ => cases w <;> first | exact hvw | cases hvw
    | map ks f => cases v <;> cases w <;> first | exact hvw | cases hvw | simp at h
    | _ => cases v <;> cases w <;> exact hvw
  · rw [Bool.not_eq_true] at hp
    rw [deepMerge_leaf h hp, deepMerge_leaf (hvw.isMap_eq ▸ h) hp]
    exact hvw

variable [BEq σ]

/-- Away from two mappings, the difference is the document unless it equals the base. -/
theorem patched_leaf {values : Set σ} {path : List String} {base v : Document σ}
    (hv : Clean values v) (hne : v.isEmptyMap = false) (h : (base.isMap && v.isMap) = false) :
    Identical (patched path base v) (overlay path base v) := by
  have hstrip := strip_identical hv
  have hnothing : saysNothing (stripEmptyDicts v) = v.isNull := by
    rw [saysNothing, strip_isNull, hstrip.isEmptyMap_eq, hne, Bool.or_false]
  rw [patched, overlay_leaf h, deepDiff_leaf (Bool.and_comm _ _ ▸ h)]
  by_cases hsame : same v base = true
  · rw [if_pos hsame, hsame, Bool.true_or, if_pos rfl]
    exact identical_refl _
  · rw [if_neg hsame, Bool.eq_false_iff.2 hsame, Bool.false_or]
    simp only [hnothing]
    split
    · exact identical_refl _
    · exact (deepMerge_congr hstrip.symm h).symm

/-- CORRECT: merging the stripped difference of a clean document gives the overlay. -/
theorem patched_identical {values : Set σ} {path : List String} {base v : Document σ}
    (hv : Clean values v) (hne : v.isEmptyMap = false ∨ base.isMap = true) :
    Identical (patched path base v) (overlay path base v) := by
  induction base generalizing path v with
  | map ks f ih =>
    cases v with
    | map ls g =>
      have hkey : ∀ k ∈ ls, Identical (patched (path ++ [k]) (f k) (g k))
          (overlay (path ++ [k]) (f k) (g k)) := fun k hl => ih k (hv k hl).2 (.inl (hv k hl).1)
      have hstrip : ∀ k ∈ ls, (stripEmptyDicts (g k)).isEmptyMap = false := fun k hl => by
        rw [(strip_identical (hv k hl).2).isEmptyMap_eq, (hv k hl).1]
      rw [patched_map]
      simp only [deepDiff, stripEmptyDicts, deepMerge, overlay]
      refine identical_map.2 ⟨fun k => ?_, fun k hk => ?_⟩
      · by_cases hks : k ∈ ks
        · simp [hks]
        · simpa [hks] using hstrip k
      · by_cases hks : k ∈ ks
        · by_cases hls : k ∈ ls
          · have := hkey k hls
            rw [patched_eq_ite] at this
            simpa [hks, hls, and_comm] using this
          · simpa [hks, hls] using identical_refl (f k)
        · have hls : k ∈ ls := by simp_all
          simpa [hks, hls, hstrip k hls] using strip_identical (hv k hls).2
    | _ => exact patched_leaf hv rfl rfl
  | _ => exact patched_leaf hv (hne.resolve_right (by simp [isMap])) rfl

/-! ### Parts -/

omit [BEq σ] in
theorem partOf_refl : ∀ x : Document σ, PartOf x x
  | .null | .text _ | .scalar _ | .list _ _ => identical_refl _
  | .map _ f => fun k hk => ⟨hk, partOf_refl (f k)⟩

omit [BEq σ] in
theorem PartOf.isMap_eq {x y : Document σ} (h : PartOf x y) : x.isMap = y.isMap := by
  by_cases hm : (x.isMap && y.isMap) = true
  · rw [Bool.and_eq_true] at hm
    rw [hm.1, hm.2]
  · rw [Bool.not_eq_true] at hm
    rw [partOf_leaf hm] at h
    exact h.isMap_eq

omit [BEq σ] in
theorem PartOf.congr {x x' y : Document σ} (h : PartOf x y) (hx : Identical x' x) :
    PartOf x' y := by
  induction x generalizing x' y with
  | map ks f ih =>
    cases x' with
    | map ks' f' =>
      obtain ⟨hk, hf⟩ := identical_map.1 hx
      cases y with
      | map ls g =>
        intro k hks
        obtain ⟨hl, hp⟩ := h k ((hk k).1 hks)
        exact ⟨hl, ih k hp (hf k hks)⟩
      | _ => cases h.isMap_eq
    | _ => cases hx
  | _ =>
    rw [partOf_leaf rfl] at h
    rw [partOf_leaf (by rw [hx.isMap_eq]; rfl)]
    exact hx.trans h

omit [BEq σ] in
/-- A part covers: it has no key beyond those of the whole, and is null where the whole is. -/
theorem PartOf.covered {x y : Document σ} (h : PartOf x y) : covered x y = true := by
  induction x generalizing y with
  | map ks f ih =>
    cases y with
    | map ls g => exact covered_map.2 fun k hk => ⟨(h k hk).1, ih k (h k hk).2⟩
    | _ => cases h.isMap_eq
  | _ =>
    rw [partOf_leaf rfl] at h
    cases hn : Document.isNull y with
    | false => exact covered_leaf rfl hn
    | true =>
      cases y with
      | null => exact (covered_null _).trans (h.isNull_eq)
      | _ => cases hn

section
variable {values : Set σ} (heq : ∀ s ∈ values, ∀ t ∈ values, (s == t) = true ↔ s = t)
include heq

/-- Where one of two documents is no mapping, the overlay of a part is that part. -/
theorem overlay_of_identical {path : List String} {x y : Document σ} (hx : Clean values x)
    (hxy : Identical x y) (h : (x.isMap && y.isMap) = false) : overlay path x y = x := by
  have : same y x = true := (sameBy_iff_identical heq (hx.congr hxy) hx).2 hxy.symm
  rw [overlay_leaf h, this, Bool.true_or, if_pos rfl]

/-- A part is completed to the whole, also where lists are concatenated. -/
theorem overlay_part {path : List String} {x v : Document σ} (hv : Clean values v)
    (hx : PartOf x v) : Identical (overlay path x v) v := by
  induction x generalizing path v with
  | map ks f ih =>
    cases v with
    | map ls g =>
      refine identical_map.2 ⟨fun k => ?_, fun k hk => ?_⟩
      · by_cases hks : k ∈ ks
        · simp [hks, (hx k hks).1]
        · simp [hks]
      · by_cases hks : k ∈ ks
        · obtain ⟨hls, hp⟩ := hx k hks
          simpa [hks, hls] using ih k (hv k hls).2 hp
        · simpa [hks] using identical_refl (g k)
    | _ => cases hx.isMap_eq
  | _ =>
    rw [partOf_leaf rfl] at hx
    rw [overlay_of_identical heq (hv.congr hx.symm) hx rfl]
    exact hx

/-- Two parts of a document laid one over the other are a part of it. -/
theorem overlay_partOf {path : List String} {x y v : Document σ} (hv : Clean values v)
    (hx : PartOf x v) (hy : PartOf y v) : PartOf (overlay path x y) v := by
  induction x generalizing path y v with
  | map ks f ih =>
    cases v with
    | map ls g =>
      obtain ⟨js, e, rfl⟩ := exists_of_isMap hy.isMap_eq
      intro k hk
      by_cases hks : k ∈ ks
      · obtain ⟨hls, hp⟩ := hx k hks
        refine ⟨hls, ?_⟩
        by_cases hjs : k ∈ js
        · simpa [hks, hjs] using ih k (hv k hls).2 hp (hy k hjs).2
        · simpa [hks, hjs] using hp
      · have hjs : k ∈ js := by simp_all
        simpa [hks] using hy k hjs
    | _ => cases hx.isMap_eq
  | _ =>
    have hm : y.isMap = false := by rw [hy.isMap_eq, ← hx.isMap_eq]; rfl
    have hxv := hx
    rw [partOf_leaf rfl] at hxv
    rw [partOf_leaf (by rw [hm]; rfl)] at hy
    rw [overlay_of_identical heq (hv.congr hxv.symm) (hxv.trans hy.symm) rfl]
    exact hx

end

/-! ### Bases that are no part -/

theorem appendsAt_below {path : List String} (hne : path ≠ []) (k : String) :
    appendsAt (path ++ [k]) = false := by
  match path, hne with
  | [_], _ => rfl
  | _ :: _ :: _, _ => rfl

omit [DecidableEq σ] in
/-- Away from two mappings, the overlay is one of the two documents or their concatenation. -/
theorem overlay_leaf_cases (path : List String) {x v : Document σ}
    (h : (x.isMap && v.isMap) = false) :
    overlay path x v = x ∨ overlay path x v = v ∨
      ∃ n f m g, x = .list n f ∧ v = .list m g ∧
        overlay path x v = .list (n + m) fun i => if i < n then f i else g (i - n) := by
  rw [overlay_leaf h]
  split
  · exact .inl rfl
  · right
    by_cases hp : appendsAt path = true
    · cases x with
      | list n f =>
        cases v with
        | list m g => exact .inr ⟨n, f, m, g, rfl, rfl, if_pos hp⟩
        | _ => exact .inl rfl
      | map ks f => cases v <;> first | exact .inl rfl | cases h
      | _ => cases v <;> exact .inl rfl
    · exact .inl (deepMerge_leaf h (Bool.not_eq_true _ ▸ hp))

omit [DecidableEq σ] in
theorem overlay_isEmptyMap {path : List String} {x v : Document σ} (hx : x.isEmptyMap = false)
    (hv : v.isEmptyMap = false) : (overlay path x v).isEmptyMap = false := by
  by_cases h : (x.isMap && v.isMap) = true
  · rw [Bool.and_eq_true] at h
    obtain ⟨ks, f, rfl⟩ := exists_of_isMap h.1
    obtain ⟨ls, g, rfl⟩ := exists_of_isMap h.2
    simp_all [overlay, isEmptyMap]
  · rcases overlay_leaf_cases path (Bool.not_eq_true _ ▸ h) with e | e | e
    · rwa [e]
    · rwa [e]
    · obtain ⟨n, f, m, g, -, -, e⟩ := e
      rw [e]
      rfl

omit [DecidableEq σ] in
/-- The overlay of clean documents is clean. -/
theorem overlay_clean {values : Set σ} {path : List String} {x v : Document σ}
    (hx : Clean values x) (hv : Clean values v) : Clean values (overlay path x v) := by
  have leaf : ∀ {path : List String} {x v : Document σ}, Clean values x → Clean values v →
      (x.isMap && v.isMap) = false → Clean values (overlay path x v) := by
    intro path x v hx hv h
    rcases overlay_leaf_cases path h with e | e | ⟨n, f, m, g, rfl, rfl, e⟩
    · rwa [e]
    · rwa [e]
    · rw [e]
      intro i hi
      by_cases hn : i < n
      · simpa [hn] using hx i hn
      · simpa [hn] using hv (i - n) (by omega)
  induction x generalizing path v with
  | map ks f ih =>
    cases v with
    | map ls g =>
      intro k hk
      by_cases hks : k ∈ ks
      · by_cases hls : k ∈ ls
        · simpa [hks, hls] using
            And.intro (overlay_isEmptyMap (hx k hks).1 (hv k hls).1) (ih k (hx k hks).2 (hv k hls).2)
        · simpa [hks, hls] using hx k hks
      · have hls : k ∈ ls := by simp_all
        simpa [hks] using hv k hls
    | _ => exact leaf hx hv rfl
  | _ => exact leaf hx hv rfl

theorem overlay_identical_iff_leaf {values : Set σ}
    (heq : ∀ s ∈ values, ∀ t ∈ values, (s == t) = true ↔ s = t) {path : List String}
    {x v : Document σ} (hx : Clean values x) (hv : Clean values v)
    (hp : appendsAt path = false) (h : (x.isMap && v.isMap) = false) :
    Identical (overlay path x v) v ↔ covered x v = true := by
  rw [overlay_leaf h, deepMerge_leaf h hp]
  cases hn : Document.isNull v with
  | true =>
    cases v with
    | null =>
      rw [Bool.or_true, if_pos rfl, covered_null]
      exact ⟨fun h => h.isNull_eq, fun h => by cases x <;> first | rfl | cases h⟩
    | _ => cases hn
  | false =>
    rw [Bool.or_false, covered_leaf h hn]
    refine iff_of_true ?_ rfl
    split
    · next hs => exact ((sameBy_iff_identical heq hv hx).1 hs).symm
    · exact identical_refl v

/-- Two mappings: the document covers the base if it does so under every key of the base. -/
theorem overlay_identical_iff_map {path : List String} {ks ls : List String}
    {f g : String → Document σ}
    (hkey : ∀ k ∈ ks, k ∈ ls →
      (Identical (overlay (path ++ [k]) (f k) (g k)) (g k) ↔ covered (f k) (g k) = true)) :
    Identical (overlay path (.map ks f) (.map ls g)) (.map ls g) ↔
      covered (.map ks f) (.map ls g) = true := by
  rw [covered_map, overlay, identical_map]
  constructor
  · rintro ⟨hkeys, hvals⟩ k hks
    have hls : k ∈ ls := (hkeys k).1 (by simp [hks])
    exact ⟨hls, (hkey k hks hls).1 (by simpa [hks, hls] using hvals k (by simp [hks]))⟩
  · intro hc
    refine ⟨fun k => ?_, fun k hk => ?_⟩
    · by_cases hks : k ∈ ks
      · simp [hks, (hc k hks).1]
      · simp [hks]
    · by_cases hks : k ∈ ks
      · obtain ⟨hls, hcov⟩ := hc k hks
        simpa [hks, hls] using (hkey k hks hls).2 hcov
      · simpa [hks] using identical_refl (g k)

/-- CORRECT: off the paths where lists are concatenated, a base and a difference give the document
    back exactly when the document covers the base. -/
theorem overlay_identical_iff {values : Set σ}
    (heq : ∀ s ∈ values, ∀ t ∈ values, (s == t) = true ↔ s = t) {path : List String}
    {x v : Document σ} (hx : Clean values x) (hv : Clean values v) (hne : path ≠ [])
    (hp : appendsAt path = false) :
    Identical (overlay path x v) v ↔ covered x v = true := by
  induction x generalizing path v with
  | map ks f ih =>
    cases v with
    | map ls g =>
      exact overlay_identical_iff_map fun k hks hls =>
        ih k (hx k hks).2 (hv k hls).2 (by simp) (appendsAt_below hne k)
    | _ => exact overlay_identical_iff_leaf heq hx hv hp rfl
  | _ => exact overlay_identical_iff_leaf heq hx hv hp rfl

/-- CORRECT: a whole manifest comes back exactly when it covers its base, provided that lists which
    the merge would concatenate are the manifest's own. -/
theorem overlay_root_iff {values : Set σ}
    (heq : ∀ s ∈ values, ∀ t ∈ values, (s == t) = true ↔ s = t) {ks ls : List String}
    {f g : String → Document σ} (hx : Clean values (.map ks f)) (hv : Clean values (.map ls g))
    (hown : ∀ k ∈ ks, k ∈ ls → appendsAt [k] = true → PartOf (f k) (g k)) :
    Identical (overlay [] (.map ks f) (.map ls g)) (.map ls g) ↔
      covered (.map ks f) (.map ls g) = true := by
  refine overlay_identical_iff_map fun k hks hls => ?_
  by_cases hp : appendsAt [k] = true
  · have hpart := hown k hks hls hp
    exact iff_of_true (overlay_part heq (hv k hls).2 hpart) hpart.covered
  · exact overlay_identical_iff heq (hx k hks).2 (hv k hls).2 (by simp) (Bool.not_eq_true _ ▸ hp)

/-- A part of the document laid over a base changes nothing about what the document covers. -/
theorem covered_overlay_iff {path : List String} {x y v : Document σ} (hy : PartOf y v) :
    covered (overlay path x y) v = covered x v := by
  have leaf : ∀ {path : List String} {x y v : Document σ}, PartOf y v →
      (x.isMap && y.isMap) = false → covered (overlay path x y) v = covered x v := by
    intro path x y v hy h
    rw [overlay_leaf h]
    split
    · rfl
    · next hn =>
      obtain ⟨-, hnull⟩ : same y x = false ∧ y.isNull = false := by simpa using hn
      cases y with
      | map js e =>
        obtain ⟨ls, g, rfl⟩ := exists_of_isMap hy.isMap_eq.symm
        have hx : x.isMap = false := by simpa using h
        have : deepMerge path x (.map js e) = .map js e := by
          cases x <;> first | rfl | cases hx
        rw [this, hy.covered, covered_leaf (by rw [hx]; rfl) rfl]
      | _ =>
        have hvm := hy.isMap_eq
        rw [partOf_leaf rfl] at hy
        have hvn : v.isNull = false := hy.isNull_eq ▸ hnull
        rw [covered_leaf (by rw [← hvm]; exact Bool.and_false _) hvn,
          covered_leaf (by rw [← hvm]; exact Bool.and_false _) hvn]
  induction x generalizing path y v with
  | map ks f ih =>
    cases y with
    | map js e =>
      obtain ⟨ls, g, rfl⟩ := exists_of_isMap hy.isMap_eq.symm
      have hkey : ∀ k (hjs : k ∈ js),
          covered (overlay (path ++ [k]) (f k) (e k)) (g k) = covered (f k) (g k) :=
        fun k hjs => ih k (hy k hjs).2
      rw [Bool.eq_iff_iff, overlay, covered_map, covered_map]
      constructor
      · intro hc k hks
        obtain ⟨hls, hcov⟩ := hc k (by simp [hks])
        refine ⟨hls, ?_⟩
        by_cases hjs : k ∈ js
        · rw [← hkey k hjs]
          simpa [hks, hjs] using hcov
        · simpa [hks, hjs] using hcov
      · intro hc k hk
        by_cases hks : k ∈ ks
        · obtain ⟨hls, hcov⟩ := hc k hks
          refine ⟨hls, ?_⟩
          by_cases hjs : k ∈ js
          · rw [← hkey k hjs] at hcov
            simpa [hks, hjs] using hcov
          · simpa [hks, hjs] using hcov
        · have hjs : k ∈ js := by simp_all
          simpa [hks, (hy k hjs).1] using (hy k hjs).2.covered
    | _ => exact leaf hy rfl
  | _ => exact leaf hy rfl

omit [BEq σ] in
theorem covered_congr {x x' v : Document σ} (h : Identical x x') : covered x v = covered x' v := by
  induction x generalizing x' v with
  | map ks f ih =>
    cases x' with
    | map ks' f' =>
      obtain ⟨hk, hf⟩ := identical_map.1 h
      cases v with
      | map ls g =>
        rw [Bool.eq_iff_iff, covered_map, covered_map]
        refine forall_congr' fun k => ?_
        rw [← hk k]
        exact forall_congr' fun hks => by rw [ih k (hf k hks)]
      | null => exact (covered_null _).trans (covered_null _).symm
      | _ => exact (covered_leaf rfl rfl).trans (covered_leaf rfl rfl).symm
    | _ => cases h
  | _ =>
    cases hn : v.isNull with
    | true =>
      cases v with
      | null => rw [covered_null, covered_null, h.isNull_eq]
      | _ => cases hn
    | false => rw [covered_leaf rfl hn, covered_leaf (by rw [← h.isMap_eq]; rfl) hn]

end Dpone.Manifest
