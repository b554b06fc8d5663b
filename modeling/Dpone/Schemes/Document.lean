import Mathlib.Data.List.Basic

/-! YAML documents: null, texts, other scalars, lists, and mappings with string keys.

    A list is its length and its items by position, a mapping its keys and its values by key; what an
    item or a value is elsewhere is never read. So a document is an ordinary tree, and everything
    about it is by recursion on that tree. The order of keys is not part of a document. -/

namespace Dpone.Schemes

/-- A document whose scalars other than texts are of type `σ`. -/
inductive Document (σ : Type) where
  | null
  | text (s : String)
  | scalar (s : σ)
  | list (length : ℕ) (item : ℕ → Document σ)
  | map (keys : List String) (value : String → Document σ)

namespace Document

variable {σ : Type}

/-- The empty mapping. -/
def empty : Document σ := .map [] fun _ => .null

/-- The mapping with the given entries. -/
def ofFields (fields : List (String × Document σ)) : Document σ :=
  .map (fields.map (·.1)) fun k => (fields.lookup k).getD .null

def isNull : Document σ → Bool
  | .null => true
  | _ => false

def isMap : Document σ → Bool
  | .map _ _ => true
  | _ => false

def isEmptyMap : Document σ → Bool
  | .map ks _ => ks.isEmpty
  | _ => false

/-- `k in d`. -/
def hasKey (k : String) : Document σ → Bool
  | .map ks _ => ks.contains k
  | _ => false

/-- `d.get(k)`. -/
def valueAt (k : String) : Document σ → Document σ
  | .map ks f => if ks.contains k then f k else .null
  | _ => .null

/-- `d[k] = v`. -/
def insert : Document σ → String → Document σ → Document σ
  | .map ks f, k, v =>
    .map (if ks.contains k then ks else ks ++ [k]) fun j => if j = k then v else f j
  | d, _, _ => d

/-- `d.pop(k, None)`. -/
def erase (k : String) : Document σ → Document σ
  | .map ks f => .map (ks.filter (· ≠ k)) f
  | d => d

/-- Equality of documents, given one of scalars. -/
def sameBy (eq : σ → σ → Bool) : Document σ → Document σ → Bool
  | .null, .null => true
  | .text s, .text t => s == t
  | .scalar s, .scalar t => eq s t
  | .list n f, .list m g => n == m && (List.range n).all fun i => sameBy eq (f i) (g i)
  | .map ks f, .map ls g =>
    ks.all (ls.contains ·) && ls.all (ks.contains ·) && ks.all fun k => sameBy eq (f k) (g k)
  | _, _ => false

/-- Two documents that a reader cannot tell apart. -/
def Identical [DecidableEq σ] (x y : Document σ) : Prop := sameBy (fun s t => s = t) x y = true

instance [DecidableEq σ] (x y : Document σ) : Decidable (Identical x y) :=
  inferInstanceAs (Decidable (_ = true))

/-- No mapping below the top is empty, and every scalar is one of `values`. -/
def Clean (values : Set σ) : Document σ → Prop
  | .null => True
  | .text _ => True
  | .scalar s => s ∈ values
  | .list n f => ∀ i < n, (f i).isEmptyMap = false ∧ Clean values (f i)
  | .map ks f => ∀ k ∈ ks, (f k).isEmptyMap = false ∧ Clean values (f k)

/-! ### Keys and values -/

@[simp] theorem hasKey_map {k : String} {ks : List String} {f : String → Document σ} :
    (map ks f).hasKey k = true ↔ k ∈ ks := by
  simp [hasKey]

@[simp] theorem isMap_map {ks : List String} {f : String → Document σ} :
    (map ks f).isMap = true := rfl

theorem valueAt_of_mem {k : String} {ks : List String} {f : String → Document σ} (h : k ∈ ks) :
    (map ks f).valueAt k = f k := by
  simp [valueAt, h]

theorem exists_of_isMap : ∀ {d : Document σ}, d.isMap = true → ∃ ks f, d = .map ks f
  | .map ks f, _ => ⟨ks, f, rfl⟩

theorem hasKey_of_isMap_valueAt {k : String} :
    ∀ {d : Document σ}, (d.valueAt k).isMap = true → d.hasKey k = true
  | .map ks f, h => by
    by_cases hk : k ∈ ks
    · exact hasKey_map.2 hk
    · simp [valueAt, hk, isMap] at h

theorem hasKey_insert {j k : String} {v : Document σ} :
    ∀ {d : Document σ}, d.isMap = true →
      ((d.insert k v).hasKey j = true ↔ d.hasKey j = true ∨ j = k)
  | .map ks f, _ => by
    by_cases hk : k ∈ ks
    · simp only [Document.insert, List.contains_iff_mem.2 hk, if_true, hasKey_map]
      exact ⟨.inl, fun hj => hj.elim id fun e => e ▸ hk⟩
    · simp [Document.insert, hk]

theorem valueAt_insert {j k : String} {v : Document σ} :
    ∀ {d : Document σ}, d.isMap = true →
      (d.insert k v).valueAt j = if j = k then v else d.valueAt j
  | .map ks f, _ => by
    by_cases hj : j = k <;> by_cases hk : k ∈ ks <;> simp [Document.insert, valueAt, hj, hk]

theorem isMap_erase (k : String) : ∀ d : Document σ, (d.erase k).isMap = d.isMap
  | .null | .text _ | .scalar _ | .list _ _ | .map _ _ => rfl

theorem valueAt_erase {j k : String} (h : j ≠ k) :
    ∀ d : Document σ, (d.erase k).valueAt j = d.valueAt j
  | .map ks f => by simp [Document.erase, Document.valueAt, h]
  | .null | .text _ | .scalar _ | .list _ _ => rfl

theorem isEmptyMap_eq_false_iff {ks : List String} {f : String → Document σ} :
    (map ks f).isEmptyMap = false ↔ ks ≠ [] := by
  simp [isEmptyMap]

theorem isEmptyMap_of_not_isMap : ∀ {d : Document σ}, d.isMap = false → d.isEmptyMap = false
  | .null, _ | .text _, _ | .scalar _, _ | .list _ _, _ => rfl

theorem Clean.valueAt {values : Set σ} (k : String) :
    ∀ {d : Document σ}, Clean values d → Clean values (d.valueAt k)
  | .map ks f, h => by
    by_cases hk : k ∈ ks
    · rw [valueAt_of_mem hk]
      exact (h k hk).2
    · simp [Document.valueAt, hk, Clean]
  | .null, _ | .text _, _ | .scalar _, _ | .list _ _, _ => trivial

theorem Clean.insert {values : Set σ} {k : String} {v : Document σ} :
    ∀ {d : Document σ}, Clean values d → v.isEmptyMap = false → Clean values v →
      Clean values (d.insert k v)
  | .map ks f, h, hne, hv => by
    intro j hj
    dsimp only
    by_cases hjk : j = k
    · rw [if_pos hjk]
      exact ⟨hne, hv⟩
    · rw [if_neg hjk]
      refine h j ?_
      split at hj
      · exact hj
      · simpa [hjk] using hj
  | .null, h, _, _ | .text _, h, _, _ | .scalar _, h, _, _ | .list _ _, h, _, _ => h

/-! ### Equality -/

variable [DecidableEq σ]

theorem identical_list {n m : ℕ} {f g : ℕ → Document σ} :
    Identical (.list n f) (.list m g) ↔ n = m ∧ ∀ i < n, Identical (f i) (g i) := by
  simp [Identical, sameBy]

theorem identical_map {ks ls : List String} {f g : String → Document σ} :
    Identical (.map ks f) (.map ls g) ↔
      (∀ k, k ∈ ks ↔ k ∈ ls) ∧ ∀ k ∈ ks, Identical (f k) (g k) := by
  simp only [Identical, sameBy, Bool.and_eq_true, List.all_eq_true, List.contains_iff_mem]
  constructor
  · rintro ⟨⟨h₁, h₂⟩, h₃⟩
    exact ⟨fun k => ⟨h₁ k, h₂ k⟩, h₃⟩
  · rintro ⟨h₁, h₂⟩
    exact ⟨⟨fun k => (h₁ k).1, fun k => (h₁ k).2⟩, h₂⟩

theorem identical_refl : ∀ x : Document σ, Identical x x
  | .null => rfl
  | .text _ => by simp [Identical, sameBy]
  | .scalar _ => by simp [Identical, sameBy]
  | .list _ f => identical_list.2 ⟨rfl, fun i _ => identical_refl (f i)⟩
  | .map _ f => identical_map.2 ⟨fun _ => Iff.rfl, fun k _ => identical_refl (f k)⟩

theorem Identical.symm : ∀ {x y : Document σ}, Identical x y → Identical y x
  | .null, .null, _ => rfl
  | .text _, .text _, h => by simp [Identical, sameBy] at h ⊢; exact h.symm
  | .scalar _, .scalar _, h => by simp [Identical, sameBy] at h ⊢; exact h.symm
  | .list n f, .list m g, h => by
    obtain ⟨rfl, hi⟩ := identical_list.1 h
    exact identical_list.2 ⟨rfl, fun i hn => (hi i hn).symm⟩
  | .map ks f, .map ls g, h => by
    obtain ⟨hk, hv⟩ := identical_map.1 h
    exact identical_map.2 ⟨fun k => (hk k).symm, fun k hl => (hv k ((hk k).2 hl)).symm⟩

theorem Identical.trans : ∀ {x y z : Document σ}, Identical x y → Identical y z → Identical x z
  | .null, .null, .null, _, _ => rfl
  | .text _, .text _, .text _, h, h' => by
    simp [Identical, sameBy] at h h' ⊢; exact h.trans h'
  | .scalar _, .scalar _, .scalar _, h, h' => by
    simp [Identical, sameBy] at h h' ⊢; exact h.trans h'
  | .list n f, .list m g, .list l e, h, h' => by
    obtain ⟨rfl, hi⟩ := identical_list.1 h
    obtain ⟨rfl, hi'⟩ := identical_list.1 h'
    exact identical_list.2 ⟨rfl, fun i hn => (hi i hn).trans (hi' i hn)⟩
  | .map ks f, .map ls g, .map js e, h, h' => by
    obtain ⟨hk, hv⟩ := identical_map.1 h
    obtain ⟨hk', hv'⟩ := identical_map.1 h'
    exact identical_map.2
      ⟨fun k => (hk k).trans (hk' k), fun k hl => (hv k hl).trans (hv' k ((hk k).1 hl))⟩

theorem Identical.isMap_eq : ∀ {x y : Document σ}, Identical x y → x.isMap = y.isMap
  | .null, .null, _ | .text _, .text _, _ | .scalar _, .scalar _, _ | .list _ _, .list _ _, _
  | .map _ _, .map _ _, _ => rfl

theorem Identical.isNull_eq : ∀ {x y : Document σ}, Identical x y → x.isNull = y.isNull
  | .null, .null, _ | .text _, .text _, _ | .scalar _, .scalar _, _ | .list _ _, .list _ _, _
  | .map _ _, .map _ _, _ => rfl

theorem Identical.isEmptyMap_eq :
    ∀ {x y : Document σ}, Identical x y → x.isEmptyMap = y.isEmptyMap
  | .null, .null, _ | .text _, .text _, _ | .scalar _, .scalar _, _ | .list _ _, .list _ _, _ => rfl
  | .map [] _, .map [] _, _ | .map (_ :: _) _, .map (_ :: _) _, _ => rfl
  | .map [] _, .map (l :: _) _, h => by simpa using (identical_map.1 h).1 l
  | .map (k :: _) _, .map [] _, h => by simpa using (identical_map.1 h).1 k

theorem Identical.valueAt (k : String) :
    ∀ {x y : Document σ}, Identical x y → Identical (x.valueAt k) (y.valueAt k)
  | .null, .null, _ | .text _, .text _, _ | .scalar _, .scalar _, _ | .list _ _, .list _ _, _ => rfl
  | .map ks f, .map ls g, h => by
    obtain ⟨hk, hv⟩ := identical_map.1 h
    by_cases hks : k ∈ ks
    · rw [valueAt_of_mem hks, valueAt_of_mem ((hk k).1 hks)]
      exact hv k hks
    · have hls : k ∉ ls := fun hl => hks ((hk k).2 hl)
      simpa [Document.valueAt, hks, hls] using identical_refl Document.null

/-- Identical documents are clean together. -/
theorem Clean.congr {values : Set σ} :
    ∀ {x y : Document σ}, Clean values x → Identical x y → Clean values y
  | .null, .null, _, _ | .text _, .text _, _, _ => trivial
  | .scalar s, .scalar t, hx, h => by
    obtain rfl : s = t := by simpa [Identical, sameBy] using h
    exact hx
  | .list n f, .list m g, hx, h => by
    obtain ⟨rfl, hi⟩ := identical_list.1 h
    exact fun i hn => ⟨(hi i hn).isEmptyMap_eq ▸ (hx i hn).1, (hx i hn).2.congr (hi i hn)⟩
  | .map ks f, .map ls g, hx, h => by
    obtain ⟨hk, hv⟩ := identical_map.1 h
    intro k hl
    have hks : k ∈ ks := (hk k).2 hl
    exact ⟨(hv k hks).isEmptyMap_eq ▸ (hx k hks).1, (hx k hks).2.congr (hv k hks)⟩

/-- An equality of scalars that is the identity on `values` tells apart what differs. -/
theorem sameBy_iff_identical {eq : σ → σ → Bool} {values : Set σ}
    (heq : ∀ s ∈ values, ∀ t ∈ values, eq s t = true ↔ s = t) :
    ∀ {x y : Document σ}, Clean values x → Clean values y →
      (sameBy eq x y = true ↔ Identical x y)
  | .scalar s, .scalar t, hx, hy => by simpa [Identical, sameBy] using heq s hx t hy
  | .list n f, .list m g, hx, hy => by
    rw [identical_list]
    simp only [sameBy, Bool.and_eq_true, beq_iff_eq, List.all_eq_true, List.mem_range]
    refine and_congr_right ?_
    rintro rfl
    exact forall₂_congr fun i hi => sameBy_iff_identical heq (hx i hi).2 (hy i hi).2
  | .map ks f, .map ls g, hx, hy => by
    rw [identical_map]
    simp only [sameBy, Bool.and_eq_true, List.all_eq_true, List.contains_iff_mem]
    constructor
    · rintro ⟨⟨h₁, h₂⟩, h₃⟩
      exact ⟨fun k => ⟨h₁ k, h₂ k⟩, fun k hk =>
        (sameBy_iff_identical heq (hx k hk).2 (hy k (h₁ k hk)).2).1 (h₃ k hk)⟩
    · rintro ⟨h₁, h₂⟩
      exact ⟨⟨fun k => (h₁ k).1, fun k => (h₁ k).2⟩, fun k hk =>
        (sameBy_iff_identical heq (hx k hk).2 (hy k ((h₁ k).1 hk)).2).2 (h₂ k hk)⟩
  | .null, .null, _, _ | .text _, .text _, _, _ => Iff.rfl
  | .null, .text _, _, _ | .null, .scalar _, _, _ | .null, .list _ _, _, _ | .null, .map _ _, _, _
  | .text _, .null, _, _ | .text _, .scalar _, _, _ | .text _, .list _ _, _, _
  | .text _, .map _ _, _, _ | .scalar _, .null, _, _ | .scalar _, .text _, _, _
  | .scalar _, .list _ _, _, _ | .scalar _, .map _ _, _, _ | .list _ _, .null, _, _
  | .list _ _, .text _, _, _ | .list _ _, .scalar _, _, _ | .list _ _, .map _ _, _, _
  | .map _ _, .null, _, _ | .map _ _, .text _, _, _ | .map _ _, .scalar _, _, _
  | .map _ _, .list _ _, _, _ => Iff.rfl

end Document

end Dpone.Schemes
