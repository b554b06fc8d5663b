import Mathlib.Data.String.Basic
import Dpone.Manifest.Overlay
import Dpone.Schemes.Sorted

/-! Patches of explained manifests: `deep_patch` of `explain_merge.py` beside `deep_merge`.

    Explaining a manifest shows, layer by layer, a patch that `deep_merge` would apply to the
    configuration before the layer, and the paths it cannot express because they are gone. Values
    are compared as Python compares them: scalars by `==`, and what lists and mappings hold also by
    being one object, which is how a list that holds a NaN equals itself. -/

namespace Dpone.Manifest
open Dpone.Schemes Document

variable {σ : Type} [DecidableEq σ] [BEq σ]

/-- `==` of what two containers hold. -/
def pyEqual : Document σ → Document σ → Bool := sameBy fun s t => s = t || s == t

/-- `safe_equal`. -/
def safeEqual : Document σ → Document σ → Bool
  | .scalar s, .scalar t => s == t
  | a, b => pyEqual a b

/-- `len(b) <= len(a) and b == a[: len(b)]` of two lists. -/
def extendsList : Document σ → Document σ → Bool
  | .list n f, .list m g => n ≤ m && pyEqual (.list n f) (.list n g)
  | _, _ => true

/-- The body of the loop of `deep_patch` for a key of both mappings, given the patch of its values:
    what the patch holds under the key, and what is removed below it. -/
def patchShared (path : List String) (key : String) (b a : Document σ)
    (child : Document σ × List String) : Option (Document σ) × List String :=
  if safeEqual b a then (none, [])
  else if b.isMap && a.isMap then (if child.1.isEmptyMap then none else some child.1, child.2)
  else match b, a with
    | .list n f, .list m g =>
      if path = [] ∧ appendListKeys.contains key ∧ extendsList (.list n f) (.list m g) then
        (some (.list (m - n) fun i => g (i + n)), [])
      else (some (.list m g), [])
    | _, a => (some a, [])

/-- `deep_patch`: the patch and the removed paths. -/
def deepPatch : List String → Document σ → Document σ → Document σ × List String
  | path, .map ks f, .map ls g =>
    let keys := sortedSet id (ks ++ ls)
    let entry key : Option (Document σ) × List String :=
      if !ls.contains key then (none, [".".intercalate (path ++ [key])])
      else if !ks.contains key then (some (g key), [])
      else patchShared path key (f key) (g key) (deepPatch (path ++ [key]) (f key) (g key))
    (.map (keys.filter fun key => (entry key).1.isSome) fun key => (entry key).1.getD .null,
      keys.flatMap fun key => (entry key).2)
  | _, _, after => (after, [])

/-- The lists that `deep_merge` concatenates are the same lists with items added. -/
def ListsExtend (before after : Document σ) : Prop :=
  ∀ key ∈ appendListKeys, before.hasKey key = true → after.hasKey key = true →
    extendsList (before.valueAt key) (after.valueAt key) = true

/-! ### Equality -/

theorem pyEqual_list {n m : ℕ} {f g : ℕ → Document σ} :
    pyEqual (.list n f) (.list m g) = true ↔ n = m ∧ ∀ i < n, pyEqual (f i) (g i) = true := by
  simp [pyEqual, sameBy]

theorem pyEqual_map {ks ls : List String} {f g : String → Document σ} :
    pyEqual (.map ks f) (.map ls g) = true ↔
      (∀ k, k ∈ ks ↔ k ∈ ls) ∧ ∀ k ∈ ks, pyEqual (f k) (g k) = true := by
  simp only [pyEqual, sameBy, Bool.and_eq_true, List.all_eq_true, List.contains_iff_mem]
  constructor
  · rintro ⟨⟨h₁, h₂⟩, h₃⟩
    exact ⟨fun k => ⟨h₁ k, h₂ k⟩, h₃⟩
  · rintro ⟨h₁, h₂⟩
    exact ⟨⟨fun k => (h₁ k).1, fun k => (h₁ k).2⟩, h₂⟩

theorem pyEqual_refl (x : Document σ) : pyEqual x x = true := by
  induction x with
  | null => rfl
  | text s => simp [pyEqual, sameBy]
  | scalar s => simp [pyEqual, sameBy]
  | list n f ih => exact pyEqual_list.2 ⟨rfl, fun i _ => ih i⟩
  | map ks f ih => exact pyEqual_map.2 ⟨fun _ => Iff.rfl, fun k _ => ih k⟩

theorem pyEqual_of_safeEqual {a b : Document σ} (h : safeEqual a b = true) :
    pyEqual a b = true := by
  cases a with
  | scalar s =>
    cases b with
    | scalar t =>
      have heq : (s == t) = true := h
      simp [pyEqual, sameBy, heq]
    | _ => exact h
  | _ => exact h

/-! ### One key -/

omit [DecidableEq σ] [BEq σ] in
theorem appendsAt_iff {path : List String} {key : String} :
    appendsAt (path ++ [key]) = true ↔ path = [] ∧ appendListKeys.contains key = true := by
  match path with
  | [] => simp [appendsAt]
  | [_] => simp [appendsAt]
  | _ :: _ :: _ => simp [appendsAt]

omit [DecidableEq σ] [BEq σ] in
/-- Away from two mappings and from two lists, the patch wins. -/
theorem deepMerge_other {path : List String} {b a : Document σ}
    (hmap : (b.isMap && a.isMap) = false) (hlist : ∀ n f m g, b = .list n f → a ≠ .list m g) :
    deepMerge path b a = a := by
  cases b with
  | list n f =>
    cases a with
    | list m g => exact absurd rfl (hlist n f m g rfl)
    | _ => rfl
  | map ks f =>
    cases a with
    | map ls g => cases hmap
    | _ => rfl
  | _ => cases a <;> rfl

section
variable {path : List String} {key : String} {child : Document σ × List String}

theorem patchShared_same {b a : Document σ} (h : safeEqual b a = true) :
    patchShared path key b a child = (none, []) := by
  rw [patchShared.eq_def, if_pos h]

theorem patchShared_maps {b a : Document σ} (h : ¬ safeEqual b a = true)
    (hmaps : (b.isMap && a.isMap) = true) : patchShared path key b a child =
      (if child.1.isEmptyMap then none else some child.1, child.2) := by
  rw [patchShared.eq_def, if_neg h, if_pos hmaps]

theorem patchShared_list {n m : ℕ} {f g : ℕ → Document σ}
    (h : ¬ safeEqual (.list n f) (.list m g) = true) :
    (patchShared path key (.list n f) (.list m g) child).1 = some
      (if path = [] ∧ appendListKeys.contains key ∧ extendsList (.list n f) (.list m g) then
        .list (m - n) fun i => g (i + n)
      else .list m g) := by
  rw [patchShared, if_neg h, if_neg (by simp [isMap])]
  split <;> rfl

theorem patchShared_other {b a : Document σ} (h : ¬ safeEqual b a = true)
    (hmap : (b.isMap && a.isMap) = false) (hlist : ∀ n f m g, b = .list n f → a ≠ .list m g) :
    (patchShared path key b a child).1 = some a := by
  rw [patchShared.eq_def, if_neg h, if_neg (by simp [hmap])]
  split
  · next n f m g => exact absurd rfl (hlist n f m g rfl)
  · rfl

variable (path key child)

/-- What merging a patch leaves under a key of both mappings. -/
def mergedShared (b a : Document σ) : Document σ :=
  match (patchShared path key b a child).1 with
  | none => b
  | some patch => deepMerge (path ++ [key]) b patch

variable {path key child}

/-- The patch of two lists that are not equal. -/
theorem mergedShared_list {n m : ℕ} {f g : ℕ → Document σ}
    (hdiffer : ¬ safeEqual (.list n f) (.list m g) = true)
    (hextends : appendsAt (path ++ [key]) = true →
      extendsList (.list n f) (.list m g) = true) :
    pyEqual (mergedShared path key child (.list n f) (.list m g)) (.list m g) = true := by
  rw [mergedShared, patchShared_list hdiffer]
  by_cases happend : appendsAt (path ++ [key]) = true
  · -- the list is concatenated: the patch holds what comes after the list before
    have hlonger := hextends happend
    rw [if_pos ⟨(appendsAt_iff.1 happend).1, (appendsAt_iff.1 happend).2, hlonger⟩]
    simp only [deepMerge, if_pos happend]
    obtain ⟨hle, hequal⟩ := Bool.and_eq_true_iff.mp hlonger
    have hle : n ≤ m := of_decide_eq_true hle
    refine pyEqual_list.2 ⟨by omega, fun i _ => ?_⟩
    by_cases hi : i < n
    · rw [if_pos hi]
      exact (pyEqual_list.1 hequal).2 i hi
    · rw [if_neg hi, Nat.sub_add_cancel (Nat.not_lt.mp hi)]
      exact pyEqual_refl _
  · rw [if_neg fun h => happend (appendsAt_iff.2 ⟨h.1, h.2.1⟩)]
    simp only [deepMerge, if_neg happend]
    exact pyEqual_refl _

/-- STEP: below a key, the merged patch gives the value back, if it does below the key's children
    and a list that is concatenated extends the list before. -/
theorem mergedShared_equal {b a : Document σ}
    (hchild : ¬ safeEqual b a = true → (b.isMap && a.isMap) = true → child.1.isMap = true ∧
      pyEqual (deepMerge (path ++ [key]) b child.1) a = true)
    (hextends : appendsAt (path ++ [key]) = true → extendsList b a = true) :
    pyEqual (mergedShared path key child b a) a = true := by
  by_cases hsame : safeEqual b a = true
  · rw [mergedShared, patchShared_same hsame]
    exact pyEqual_of_safeEqual hsame
  by_cases hmaps : (b.isMap && a.isMap) = true
  · obtain ⟨hmap, hmerged⟩ := hchild hsame hmaps
    rw [mergedShared, patchShared_maps hsame hmaps]
    dsimp only
    by_cases hempty : child.1.isEmptyMap = true
    · rw [if_pos hempty]
      obtain ⟨ks, f, rfl⟩ := exists_of_isMap (Bool.and_eq_true_iff.mp hmaps).1
      obtain ⟨ps, p, hp⟩ := exists_of_isMap hmap
      rw [hp] at hempty hmerged
      obtain rfl := List.isEmpty_iff.mp hempty
      rwa [deepMerge_empty] at hmerged
    · rw [if_neg hempty]
      exact hmerged
  rw [Bool.not_eq_true] at hmaps
  by_cases hlists : ∃ n f m g, b = .list n f ∧ a = .list m g
  · obtain ⟨n, f, m, g, rfl, rfl⟩ := hlists
    exact mergedShared_list hsame hextends
  · have hother : ∀ n f m g, b = .list n f → a ≠ .list m g :=
      fun n f m g hb ha => hlists ⟨n, f, m, g, hb, ha⟩
    rw [mergedShared, patchShared_other hsame hmaps hother]
    dsimp only
    rw [deepMerge_other hmaps hother]
    exact pyEqual_refl a

end

/-- A list that is concatenated without extending the list before does not come back. -/
theorem mergedShared_ne {key : String} {b a : Document σ} {child : Document σ × List String}
    (happend : appendListKeys.contains key = true) (hextends : extendsList b a = false) :
    pyEqual (mergedShared [] key child b a) a = false := by
  cases b with
  | list n f =>
    cases a with
    | list m g =>
      have hdiffer : ¬ safeEqual (.list n f) (.list m g) = true := by
        intro h
        obtain ⟨rfl, hitems⟩ := pyEqual_list.1 (pyEqual_of_safeEqual h)
        have : pyEqual (.list n f) (.list n g) = true := pyEqual_list.2 ⟨rfl, hitems⟩
        simp [extendsList, this] at hextends
      rw [mergedShared, patchShared_list hdiffer, if_neg (by simp [hextends])]
      simp only [deepMerge, if_pos (appendsAt_iff.2 ⟨rfl, happend⟩)]
      rw [Bool.eq_false_iff]
      intro h
      obtain ⟨hlength, -⟩ := pyEqual_list.1 h
      obtain rfl : n = 0 := by omega
      have : pyEqual (.list 0 f) (.list 0 g) = true := pyEqual_list.2 ⟨rfl, fun i hi => absurd hi (Nat.not_lt_zero i)⟩
      simp [extendsList, this] at hextends
    | _ => cases hextends
  | _ => cases hextends

/-! ### Mappings -/

/-- A mapping's patch is a mapping. -/
theorem deepPatch_isMap {path : List String} {b a : Document σ}
    (h : (b.isMap && a.isMap) = true) : (deepPatch path b a).1.isMap = true := by
  obtain ⟨hb, ha⟩ := Bool.and_eq_true_iff.mp h
  obtain ⟨ks, f, rfl⟩ := exists_of_isMap hb
  obtain ⟨ls, g, rfl⟩ := exists_of_isMap ha
  rfl

/-- Where nothing is removed, nothing is removed below any key either, and every key stays. -/
theorem kept_of_not_removed {path ks ls : List String} {f g : String → Document σ}
    (h : (deepPatch path (.map ks f) (.map ls g)).2 = []) :
    ∀ key ∈ ks, key ∈ ls ∧ (patchShared path key (f key) (g key)
      (deepPatch (path ++ [key]) (f key) (g key))).2 = [] := by
  intro key hks
  rw [deepPatch] at h
  have hentry := List.flatMap_eq_nil_iff.mp h key (by simp [hks])
  by_cases hls : key ∈ ls
  · simpa [hks, hls] using hentry
  · simp [hls] at hentry

/-- STEP: a mapping and its patch give the mapping after back exactly when they do under every key
    of both. -/
theorem merged_map_iff {path ks ls : List String} {f g : String → Document σ}
    (h : (deepPatch path (.map ks f) (.map ls g)).2 = []) :
    pyEqual (deepMerge path (.map ks f) (deepPatch path (.map ks f) (.map ls g)).1) (.map ls g) =
        true ↔
      ∀ key ∈ ks, pyEqual (mergedShared path key (deepPatch (path ++ [key]) (f key) (g key))
        (f key) (g key)) (g key) = true := by
  have hkept := kept_of_not_removed h
  have hmerged : ∀ key ∈ ks, ∀ entry : String → Option (Document σ) × List String,
      entry key = patchShared path key (f key) (g key)
        (deepPatch (path ++ [key]) (f key) (g key)) → ∀ keys : List String, key ∈ keys →
      (if (keys.filter fun k => (entry k).1.isSome).contains key then
        if ks.contains key then deepMerge (path ++ [key]) (f key) ((entry key).1.getD .null)
        else (entry key).1.getD .null
      else f key) = mergedShared path key (deepPatch (path ++ [key]) (f key) (g key))
        (f key) (g key) := by
    intro key hks entry hentry keys hkeys
    rw [mergedShared, ← hentry]
    cases hpatch : (entry key).1 <;> simp [hpatch, hks, hkeys]
  rw [deepPatch, deepMerge, pyEqual_map]
  constructor
  · rintro ⟨-, hvalues⟩ key hks
    have hvalue := hvalues key (by simp [hks])
    rwa [hmerged key hks _ (by simp [hks, (hkept key hks).1]) _ (by simp [hks])] at hvalue
  · intro hshared
    refine ⟨fun key => ?_, fun key hkey => ?_⟩
    · by_cases hks : key ∈ ks
      · simp [hks, (hkept key hks).1]
      · by_cases hls : key ∈ ls <;> simp [hks, hls]
    · by_cases hks : key ∈ ks
      · rw [hmerged key hks _ (by simp [hks, (hkept key hks).1]) _ (by simp [hks])]
        exact hshared key hks
      · have hls : key ∈ ls := by
          by_contra hls
          simp [hks, hls] at hkey
        simpa [hks, hls] using pyEqual_refl (g key)

/-- RUN: below the top, where no list is concatenated, a patch that removes nothing gives the value
    after back. -/
theorem merged_below {path : List String} (hpath : path ≠ []) {b a : Document σ}
    (hmaps : (b.isMap && a.isMap) = true) (h : (deepPatch path b a).2 = []) :
    pyEqual (deepMerge path b (deepPatch path b a).1) a = true := by
  induction b generalizing path a with
  | map ks f ih =>
    obtain ⟨ls, g, rfl⟩ := exists_of_isMap (Bool.and_eq_true_iff.mp hmaps).2
    refine (merged_map_iff h).mpr fun key hks => ?_
    obtain ⟨-, hremoved⟩ := kept_of_not_removed h key hks
    refine mergedShared_equal (fun hdiffer hchild => ⟨deepPatch_isMap hchild, ?_⟩) fun happend => ?_
    · rw [patchShared_maps hdiffer hchild] at hremoved
      exact ih key (by simp) hchild hremoved
    · exact absurd (appendsAt_iff.1 happend).1 hpath
  | _ => cases hmaps

/-- CORRECT: a patch that removes nothing inverts the merge exactly when the lists that the merge
    concatenates are extended. -/
theorem deep_patch_inverts_iff {ks ls : List String} {f g : String → Document σ}
    {patch : Document σ} (h : deepPatch [] (.map ks f) (.map ls g) = (patch, [])) :
    pyEqual (deepMerge [] (.map ks f) patch) (.map ls g) = true ↔
      ListsExtend (.map ks f) (.map ls g) := by
  have hremoved : (deepPatch [] (.map ks f) (.map ls g)).2 = [] := by rw [h]
  rw [show patch = (deepPatch [] (.map ks f) (.map ls g)).1 by rw [h], merged_map_iff hremoved]
  constructor
  · intro hshared key happend hks hls
    rw [hasKey_map] at hks hls
    rw [valueAt_of_mem hks, valueAt_of_mem hls]
    by_contra hextends
    have hequal := hshared key hks
    rw [mergedShared_ne (List.contains_iff_mem.mpr happend) (Bool.not_eq_true _ ▸ hextends)]
      at hequal
    cases hequal
  · intro hlists key hks
    obtain ⟨hls, hbelow⟩ := kept_of_not_removed hremoved key hks
    refine mergedShared_equal (fun hdiffer hchild => ⟨deepPatch_isMap hchild, ?_⟩) fun happend => ?_
    · rw [patchShared_maps hdiffer hchild] at hbelow
      exact merged_below (by simp) hchild hbelow
    · have hlonger := hlists key (List.contains_iff_mem.mp (appendsAt_iff.1 happend).2)
        (hasKey_map.2 hks) (hasKey_map.2 hls)
      rwa [valueAt_of_mem hks, valueAt_of_mem hls] at hlonger

/-- One dependency more. -/
theorem added_dependency_inverts :
    let before : Document ℤ := .list 1 fun _ => .text "a"
    let after : Document ℤ := .list 2 fun i => if i = 0 then .text "a" else .text "b"
    pyEqual (deepMerge [] (.map ["depends_on"] fun _ => before)
        (deepPatch [] (.map ["depends_on"] fun _ => before)
          (.map ["depends_on"] fun _ => after)).1) (.map ["depends_on"] fun _ => after) = true ↔
      ListsExtend (.map ["depends_on"] fun _ => before) (.map ["depends_on"] fun _ => after) := by
  intro before after
  exact deep_patch_inverts_iff (Prod.ext rfl (by decide))

/-- Another dependency: the patch removes nothing, and merging it keeps the old one. -/
theorem changed_dependency_kept :
    let before : Document ℤ := .map ["depends_on"] fun _ => .list 1 fun _ => .text "a"
    let after : Document ℤ := .map ["depends_on"] fun _ => .list 1 fun _ => .text "b"
    (deepPatch [] before after).2 = [] ∧
      pyEqual (deepMerge [] before (deepPatch [] before after).1) after = false := by
  decide

end Dpone.Manifest
