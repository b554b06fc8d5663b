import Dpone.Manifest.ExplainOrigins
import Dpone.Manifest.Overlay

/-! Explained layers: what the origin map says of a configuration merged from layers.

    One merge at one key changes only what stands under that key, so a layer is followed key by key.
    The map stays exact except in one place. A list under a key whose lists are concatenated gets
    entries for its items where it is new and where it is added to, but none where it takes the
    place of a value of another type; when the next layer adds to it, those items fall to the label
    of that layer. -/

namespace Dpone.Manifest
open Dpone.Schemes Document

variable {L σ : Type}

/-! ### The nearest origin -/

/-- The walk down from a path: the last recorded label on the way, `above` before the first one. -/
def nearestFrom (m : OriginMap L) : Option L → List Step → List Step → Option L
  | above, _, [] => above
  | above, p, s :: rest =>
    nearestFrom m ((m (pathText (p ++ [s]))).or above) (p ++ [s]) rest

/-- The label of the nearest recorded path that is a path or stands above it. -/
def nearest (m : OriginMap L) (q : List Step) : Option L := nearestFrom m none [] q

section
variable {m m' : OriginMap L}

theorem nearestFrom_append {above : Option L} : ∀ {p q r : List Step},
    nearestFrom m above p (q ++ r) = nearestFrom m (nearestFrom m above p q) (p ++ q) r := by
  intro p q r
  induction q generalizing above p with
  | nil => simp [nearestFrom]
  | cons s q ih => simp [nearestFrom, ih]

theorem nearest_append (p r : List Step) :
    nearest m (p ++ r) = nearestFrom m (nearest m p) p r := by
  rw [nearest, nearestFrom_append, List.nil_append]
  rfl

theorem nearest_concat (p : List Step) (s : Step) :
    nearest m (p ++ [s]) = (m (pathText (p ++ [s]))).or (nearest m p) := by
  rw [nearest_append]
  rfl

theorem nearestFrom_congr {above : Option L} {p r : List Step}
    (h : ∀ s t, r = s ++ t → s ≠ [] → m' (pathText (p ++ s)) = m (pathText (p ++ s))) :
    nearestFrom m' above p r = nearestFrom m above p r := by
  induction r generalizing above p with
  | nil => rfl
  | cons a r ih =>
    rw [nearestFrom, nearestFrom, h [a] r rfl (by simp)]
    refine ih fun s t hr hs => ?_
    rw [List.append_assoc]
    exact h (a :: s) t (by rw [hr, List.cons_append]) (by simp)

/-- What is unchanged but under a path. -/
def Frame (p : List Step) (m m' : OriginMap L) : Prop :=
  ∀ q, CleanPath q → ¬ p <+: q → m' (pathText q) = m (pathText q)

theorem CleanPath.of_append {s t : List Step} (h : CleanPath (s ++ t)) (hs : s ≠ []) :
    CleanPath s := by
  obtain ⟨⟨k, rest, heq⟩, hclean⟩ := h
  refine ⟨?_, fun a ha => hclean a (List.mem_append_left _ ha)⟩
  cases s with
  | nil => exact absurd rfl hs
  | cons a s => exact ⟨k, s, by rw [(List.cons.inj heq).1]⟩

theorem Frame.nearest {p q : List Step} (h : Frame p m m') (hq : CleanPath q)
    (hout : ¬ p <+: q) : nearest m' q = nearest m q := by
  refine nearestFrom_congr fun s t heq hs => ?_
  subst heq
  rw [List.nil_append]
  exact h s (hq.of_append hs) fun hp => hout (hp.trans (List.prefix_append s t))

/-- Below a recorded path under which nothing else is recorded. -/
theorem nearest_uniform {p : List Step} {label : L} (hp : p ≠ [])
    (hself : m (pathText p) = some label) {r : List Step}
    (hbelow : ∀ s t, r = s ++ t → s ≠ [] → m (pathText (p ++ s)) = none ∨
      m (pathText (p ++ s)) = some label) : nearest m (p ++ r) = some label := by
  have hstart : nearest m p = some label := by
    obtain ⟨p, s, rfl⟩ := List.eq_nil_or_concat p |>.resolve_left hp
    rw [List.concat_eq_append] at hself ⊢
    rw [nearest_concat, hself, Option.some_or]
  rw [nearest_append, hstart]
  clear hstart hself hp
  induction r generalizing p with
  | nil => rfl
  | cons a r ih =>
    have hor : (m (pathText (p ++ [a]))).or (some label) = some label := by
      rcases hbelow [a] r rfl (by simp) with h | h <;> rw [h] <;> rfl
    rw [nearestFrom, hor]
    refine ih fun s t hr hs => ?_
    rw [List.append_assoc]
    exact hbelow (a :: s) t (by rw [hr, List.cons_append]) (by simp)

end

/-! ### Labelled documents -/

/-- A document each of whose values carries a label. -/
inductive Labelled (L σ : Type) where
  | null (label : L)
  | text (label : L) (s : String)
  | scalar (label : L) (s : σ)
  | list (label : L) (length : ℕ) (item : ℕ → Labelled L σ)
  | map (label : L) (keys : List String) (value : String → Labelled L σ)

namespace Labelled

def label : Labelled L σ → L
  | null l | text l _ | scalar l _ | list l _ _ | map l _ _ => l

/-- The document without its labels. -/
def erase : Labelled L σ → Document σ
  | null _ => .null
  | text _ s => .text s
  | scalar _ s => .scalar s
  | list _ n f => .list n fun i => (f i).erase
  | map _ ks f => .map ks fun k => (f k).erase

/-- A document all of which comes from one layer. -/
def ofLayer (l : L) : Document σ → Labelled L σ
  | .null => null l
  | .text s => text l s
  | .scalar s => scalar l s
  | .list n f => list l n fun i => ofLayer l (f i)
  | .map ks f => map l ks fun k => ofLayer l (f k)

/-- The value at a path. -/
def valueIn : Labelled L σ → List Step → Option (Labelled L σ)
  | t, [] => some t
  | map _ ks f, .key k :: rest => if ks.contains k then (f k).valueIn rest else none
  | list _ n f, .item i :: rest => if i < n then (f i).valueIn rest else none
  | _, _ => none

/-- A value that holds no other. -/
def isLeaf : Labelled L σ → Bool
  | list _ n _ => n = 0
  | map _ ks _ => ks.isEmpty
  | _ => true

@[simp] theorem erase_ofLayer (l : L) (d : Document σ) : (ofLayer l d).erase = d := by
  induction d with
  | list n f ih => simp [ofLayer, erase, ih]
  | map ks f ih => simp [ofLayer, erase, ih]
  | _ => rfl

@[simp] theorem label_ofLayer (l : L) (d : Document σ) : (ofLayer l d).label = l := by
  cases d <;> rfl

theorem valueIn_isSome : ∀ {t : Labelled L σ} {r : List Step},
    (t.valueIn r).isSome = hasNode t.erase r := by
  intro t
  induction t with
  | list l n f ih =>
    intro r
    rcases r with _ | ⟨k | i, r⟩
    · rfl
    · rfl
    · by_cases hi : i < n <;> simp [valueIn, hasNode, erase, hi, ih]
  | map l ks f ih =>
    intro r
    rcases r with _ | ⟨k | i, r⟩
    · rfl
    · by_cases hk : k ∈ ks <;> simp [valueIn, hasNode, erase, hk, ih]
    · rfl
  | _ =>
    intro r
    rcases r with _ | ⟨k | i, r⟩ <;> rfl

theorem hasNode_of_valueIn {t u : Labelled L σ} {r : List Step} (h : t.valueIn r = some u) :
    hasNode t.erase r = true := by
  rw [← valueIn_isSome, h]
  rfl

theorem label_of_valueIn {l : L} : ∀ {d : Document σ} {r : List Step} {u : Labelled L σ},
    (ofLayer l d).valueIn r = some u → u.label = l := by
  intro d
  induction d with
  | list n f ih =>
    intro r u h
    match r with
    | [] =>
      cases h
      rfl
    | .item i :: r =>
      by_cases hi : i < n
      · exact ih i (by simpa [ofLayer, valueIn, hi] using h)
      · simp [ofLayer, valueIn, hi] at h
    | .key k :: r => cases h
  | map ks f ih =>
    intro r u h
    match r with
    | [] =>
      cases h
      rfl
    | .key k :: r =>
      by_cases hk : k ∈ ks
      · exact ih k (by simpa [ofLayer, valueIn, hk] using h)
      · simp [ofLayer, valueIn, hk] at h
    | .item i :: r => cases h
  | _ =>
    intro r u h
    match r with
    | [] =>
      cases h
      rfl
    | .key _ :: _ | .item _ :: _ => cases h

/-- Every document has a leaf. -/
theorem exists_leaf (l : L) (d : Document σ) :
    ∃ r u, (ofLayer l d).valueIn r = some u ∧ u.isLeaf = true := by
  induction d with
  | list n f ih =>
    by_cases hn : n = 0
    · exact ⟨[], _, rfl, by simp [ofLayer, isLeaf, hn]⟩
    · obtain ⟨r, u, hu, hleaf⟩ := ih 0
      exact ⟨.item 0 :: r, u, by simpa [ofLayer, valueIn, Nat.pos_of_ne_zero hn] using hu, hleaf⟩
  | map ks f ih =>
    cases ks with
    | nil => exact ⟨[], _, rfl, rfl⟩
    | cons k ks =>
      obtain ⟨r, u, hu, hleaf⟩ := ih k
      exact ⟨.key k :: r, u, by simpa [ofLayer, valueIn] using hu, hleaf⟩
  | _ => exact ⟨[], _, rfl, rfl⟩

end Labelled

open Labelled

/-- `deep_merge` of labelled documents. A merged mapping is the one below, to which the layer adds;
    a concatenated list counts as the layer's. -/
def mergeLabelled : List String → Labelled L σ → Labelled L σ → Labelled L σ
  | path, .map a ks f, .map _ ls g =>
    .map a (ks ++ ls.filter fun k => !ks.contains k) fun k =>
      if ls.contains k then
        if ks.contains k then mergeLabelled (path ++ [k]) (f k) (g k) else g k
      else f k
  | path, .list _ n f, .list b l g =>
    if appendsAt path then .list b (n + l) fun i => if i < n then f i else g (i - n)
    else .list b l g
  | _, _, override => override

/-- CORRECT: without labels it is `deep_merge`. -/
theorem erase_mergeLabelled {path : List String} {t u : Labelled L σ} :
    (mergeLabelled path t u).erase = deepMerge path t.erase u.erase := by
  induction t generalizing path u with
  | map a ks f ih =>
    cases u with
    | map b ls g =>
      simp only [mergeLabelled, Labelled.erase, deepMerge]
      congr 1
      funext k
      by_cases hl : k ∈ ls
      · by_cases hk : k ∈ ks <;> simp [hl, hk, ih]
      · simp [hl]
    | _ => rfl
  | list a n f ih =>
    cases u with
    | list b l g =>
      by_cases hp : appendsAt path = true
      · simp only [mergeLabelled, Labelled.erase, deepMerge, if_pos hp]
        congr 1
        funext i
        split <;> rfl
      · simp only [mergeLabelled, Labelled.erase, deepMerge, if_neg hp]
    | _ => rfl
  | _ => cases u <;> rfl

/-! ### One merge -/

theorem appendsUnder_path : ∀ {path : List String}, (∀ k ∈ path, CleanKey k) →
    appendsUnder (pathText (path.map .key)) = appendsAt path
  | [], _ => rfl
  | [k], h => by
    obtain ⟨hne, hclean⟩ := h k (by simp)
    have hdot : '.' ∉ k.toList := fun hmem => by simpa [separator] using hclean _ hmem
    have hkeys : (appendListKeys.map String.toList).contains k.toList =
        appendListKeys.contains k := by
      rw [Bool.eq_iff_iff]
      simp [String.toList_inj]
    have hpath : pathText [.key k] = k.toList := by simp [pathText, tailText]
    rw [List.map_cons, List.map_nil, hpath, appendsUnder, hkeys, appendsAt]
    simp [hne, hdot]
  | k :: j :: rest, _ => by
    simp [appendsUnder, pathText, tailText, Step.text, appendsAt]

theorem cleanPath_keys {path : List String} (hne : path ≠ []) (hpath : ∀ k ∈ path, CleanKey k) :
    CleanPath (path.map .key) := by
  obtain ⟨j, path, rfl⟩ := List.exists_cons_of_ne_nil hne
  refine ⟨⟨j, _, rfl⟩, fun s hs => ?_⟩
  obtain ⟨i, hi, rfl⟩ := List.mem_map.mp hs
  exact hpath i hi

/-- Where the keys of a mapping stand. -/
theorem joinKey_keys {path : List String} (hpath : ∀ k ∈ path, CleanKey k) (k : String) :
    joinKey (pathText (path.map .key)) k = pathText ((path ++ [k]).map .key) := by
  rw [List.map_append]
  refine joinKey_path ?_ k
  by_cases hne : path = []
  · exact .inl (by rw [hne]; rfl)
  · exact .inr (cleanPath_keys hne hpath)

theorem cleanPath_key {k : String} (hk : CleanKey k) : CleanPath [.key k] :=
  ⟨⟨k, [], rfl⟩, List.forall_mem_singleton.mpr hk⟩

/-- Inserting under distinct keys. -/
theorem foldl_insert {M : Type} {step : Document σ × M → String → Document σ × M}
    {v : String → Document σ} : ∀ {ls js : List String} {h : String → Document σ} {m : M},
    ls.Nodup → (∀ k ∈ ls, ∀ result m, (step (result, m) k).1 = result.insert k (v k)) →
      (ls.foldl step (.map js h, m)).1 =
        .map (js ++ ls.filter fun k => !js.contains k) fun k => if ls.contains k then v k else h k
  | [], js, h, m, _, _ => by simp
  | k :: ls, js, h, m, hdistinct, hstep => by
    obtain ⟨hk, hdistinct⟩ := List.nodup_cons.mp hdistinct
    have hfirst := hstep k (by simp) (.map js h) m
    rw [List.foldl_cons, show step (.map js h, m) k =
      ((Document.map js h).insert k (v k), (step (.map js h, m) k).2) from Prod.ext hfirst rfl,
      Document.insert, foldl_insert hdistinct fun j hj => hstep j (by simp [hj])]
    congr 1
    · by_cases hjs : k ∈ js
      · simp [hjs]
      · have hrest : ls.filter (fun j => !(js ++ [k]).contains j) =
            ls.filter fun j => !js.contains j := by
          refine List.filter_congr fun j hj => ?_
          have hjk : j ≠ k := fun h => hk (h ▸ hj)
          simp [hjk]
        rw [if_neg (by simpa using hjs), hrest]
        simp [hjs]
    · funext j
      by_cases hjk : j = k
      · subst hjk
        simp [hk]
      · simp [hjk]

/-- CORRECT: the value is that of `deep_merge`. -/
theorem deepMergeWithOrigin_value {label : L} {d : Document σ} :
    ∀ (path : List String) {patch : Document σ} {m : OriginMap L}, (∀ k ∈ path, CleanKey k) →
      WellKeyed patch →
      (deepMergeWithOrigin label (pathText (path.map .key)) d patch m).1 =
        deepMerge path d patch := by
  induction d with
  | map ks f ih =>
    intro path patch m hpath hkeyed
    cases patch with
    | map ls g =>
      rw [deepMergeWithOrigin, foldl_insert (v := fun k =>
        if ks.contains k then deepMerge (path ++ [k]) (f k) (g k) else g k) hkeyed.1, deepMerge]
      intro k hk result m
      have hclean : ∀ j ∈ path ++ [k], CleanKey j := by
        intro j hj
        rcases List.mem_append.mp hj with hj | hj
        · exact hpath j hj
        · exact List.mem_singleton.mp hj ▸ (hkeyed.2 k hk).1
      by_cases hks : ks.contains k = true
      · simp only [if_pos hks, joinKey_keys hpath]
        rw [ih k (path ++ [k]) hclean (hkeyed.2 k hk).2]
      · simp only [if_neg hks]
    | _ => rfl
  | list n f ih =>
    intro path patch m hpath _
    cases patch with
    | list l g =>
      rw [deepMergeWithOrigin, deepMerge, appendsUnder_path hpath]
      split <;> rfl
    | _ => rfl
  | _ =>
    intro path patch m _ _
    cases patch <;> rfl

section
variable {m m' : OriginMap L}

/-- What the map says of a value that stands at a path: entries only for its places, and of each
    place the label. -/
structure Exact (m : OriginMap L) (p : List Step) (t : Labelled (Option L) σ) : Prop where
  only : ∀ r, CleanPath (p ++ r) → m (pathText (p ++ r)) ≠ none → hasNode t.erase r = true
  tracks : ∀ r u, t.valueIn r = some u → nearest m (p ++ r) = u.label

theorem clean_of_hasNode : ∀ {d : Document σ}, WellKeyed d → ∀ {r : List Step},
    hasNode d r = true → ∀ s ∈ r, s.Clean := by
  intro d
  induction d with
  | map ks f ih =>
    intro hkeyed r h
    rcases r with _ | ⟨k | i, r⟩
    · simp
    · simp only [hasNode, Bool.and_eq_true, List.contains_iff_mem] at h
      obtain ⟨hclean, hbelow⟩ := hkeyed.2 k h.1
      exact List.forall_mem_cons.mpr ⟨hclean, ih k hbelow h.2⟩
    · simp [hasNode] at h
  | list n f ih =>
    intro hkeyed r h
    rcases r with _ | ⟨k | i, r⟩
    · simp
    · simp [hasNode] at h
    · simp only [hasNode, Bool.and_eq_true, decide_eq_true_eq] at h
      exact List.forall_mem_cons.mpr ⟨trivial, ih i (hkeyed i h.1) h.2⟩
  | _ =>
    intro _ r h
    rw [hasNode_leaf rfl (fun _ _ h => by cases h) h]
    simp

/-- A value from one layer, recorded at its path and with nothing else under it. -/
theorem exact_ofLayer {p : List Step} {label : L} {d : Document σ} (hp : CleanPath p)
    (hkeyed : WellKeyed d) (hself : m (pathText p) = some label)
    (hbelow : ∀ r, r ≠ [] → CleanPath (p ++ r) → m (pathText (p ++ r)) = none ∨
      m (pathText (p ++ r)) = some label ∧ hasNode d r = true) :
    Exact m p (ofLayer (some label) d) := by
  constructor
  · intro r hr hentry
    rw [erase_ofLayer]
    by_cases hnil : r = []
    · simp [hnil, hasNode]
    · exact ((hbelow r hnil hr).resolve_left hentry).2
  · intro r u hu
    rw [label_of_valueIn hu]
    have hnode := hasNode_of_valueIn hu
    rw [erase_ofLayer] at hnode
    have hclean := clean_of_hasNode hkeyed hnode
    refine nearest_uniform hp.ne_nil hself fun s t heq hs => ?_
    have hprefix : CleanPath (p ++ s) := hp.append fun a ha => hclean a (by rw [heq]; simp [ha])
    exact (hbelow s hs hprefix).imp id And.left

/-- Exactness at a path is about the paths above it and below it. -/
theorem Exact.congr {p : List Step} {t : Labelled (Option L) σ} (hp : CleanPath p)
    (hkeyed : WellKeyed t.erase) (h : ∀ q, CleanPath q → q <+: p ∨ p <+: q →
      m' (pathText q) = m (pathText q)) (ht : Exact m p t) : Exact m' p t := by
  constructor
  · intro r hr hentry
    rw [h _ hr (.inr (List.prefix_append p r))] at hentry
    exact ht.only r hr hentry
  · intro r u hu
    have hclean := hp.append (clean_of_hasNode hkeyed (hasNode_of_valueIn hu))
    rw [← ht.tracks r u hu]
    refine nearestFrom_congr fun s q heq hs => ?_
    rw [List.nil_append]
    rw [heq] at hclean
    refine h s (hclean.of_append hs) ?_
    exact List.prefix_or_prefix_of_prefix (heq ▸ List.prefix_append s q) (List.prefix_append p r)

/-- With an entry of its own, a value is exact whatever is recorded above it. -/
theorem Exact.congr_own {p : List Step} {t : Labelled (Option L) σ} (hp : CleanPath p)
    (hkeyed : WellKeyed t.erase) (hown : (m (pathText p)).isSome)
    (h : ∀ r, CleanPath (p ++ r) → m' (pathText (p ++ r)) = m (pathText (p ++ r)))
    (ht : Exact m p t) : Exact m' p t := by
  have hself : nearest m' p = nearest m p := by
    have hsame := h [] (by simpa using hp)
    rw [List.append_nil] at hsame
    obtain ⟨label, hlabel⟩ := Option.isSome_iff_exists.mp hown
    obtain ⟨q, s, rfl⟩ := List.eq_nil_or_concat p |>.resolve_left hp.ne_nil
    rw [List.concat_eq_append] at hsame hlabel ⊢
    rw [nearest_concat, nearest_concat, hsame, hlabel, Option.some_or, Option.some_or]
  constructor
  · intro r hr hentry
    rw [h r hr] at hentry
    exact ht.only r hr hentry
  · intro r u hu
    have hclean := clean_of_hasNode hkeyed (hasNode_of_valueIn hu)
    rw [← ht.tracks r u hu, nearest_append, nearest_append, hself]
    refine nearestFrom_congr fun s q heq _ => h s (hp.append fun a ha => hclean a ?_)
    rw [heq]
    exact List.mem_append_left q ha

/-- Above and below a key, nothing is under another one. -/
theorem not_under_key {p q : List Step} {j k : String} (h : j ≠ k)
    (hq : q <+: p ++ [.key k] ∨ p ++ [.key k] <+: q) : ¬ (p ++ [.key j]) <+: q := by
  intro hj
  have heq : p ++ [.key j] = p ++ [.key k] := by
    rcases hq with hq | hq
    · exact (hj.trans hq).eq_of_length (by simp)
    · exact (List.prefix_of_prefix_length_le hj hq (by simp)).eq_of_length (by simp)
  rw [List.append_cancel_left_eq] at heq
  exact h (Step.key.inj (List.cons.inj heq).1)

theorem Exact.frame {p : List Step} {j k : String} {t : Labelled (Option L) σ} (hjk : j ≠ k)
    (hp : CleanPath (p ++ [.key k])) (hkeyed : WellKeyed t.erase)
    (h : Frame (p ++ [.key j]) m m') (ht : Exact m (p ++ [.key k]) t) :
    Exact m' (p ++ [.key k]) t :=
  ht.congr hp hkeyed fun q hq hside => h q hq (not_under_key hjk hside)

/-- RUN RULE: a loop over distinct keys each of whose turns changes only what stands under its key
    establishes for every key what one turn does. -/
theorem foldl_keys (p : List Step) (step : OriginMap L → String → OriginMap L)
    (Pre Post : String → OriginMap L → Prop)
    (hpre : ∀ {j k : String} {m m' : OriginMap L}, j ≠ k → Frame (p ++ [.key j]) m m' →
      Pre k m → Pre k m')
    (hpost : ∀ {j k : String} {m m' : OriginMap L}, j ≠ k → Frame (p ++ [.key j]) m m' →
      Post k m → Post k m') :
    ∀ {ls : List String} {m : OriginMap L}, ls.Nodup → (∀ k ∈ ls, Pre k m) →
      (∀ k ∈ ls, ∀ m, Pre k m → Post k (step m k) ∧ Frame (p ++ [.key k]) m (step m k)) →
      (∀ k ∈ ls, Post k (ls.foldl step m)) ∧ (∀ k, k ∉ ls → Post k m → Post k (ls.foldl step m)) ∧
        ∀ q, CleanPath q → (∀ k ∈ ls, ¬ (p ++ [.key k]) <+: q) →
          ls.foldl step m (pathText q) = m (pathText q)
  | [], m, _, _, _ => ⟨nofun, fun _ _ h => h, fun _ _ _ => rfl⟩
  | k :: ls, m, hdistinct, hall, hstep => by
    obtain ⟨hk, hdistinct⟩ := List.nodup_cons.mp hdistinct
    obtain ⟨hdone, hframe⟩ := hstep k (by simp) m (hall k (by simp))
    have hne : ∀ j ∈ ls, k ≠ j := fun j hj h => hk (h ▸ hj)
    obtain ⟨hrest, hkept, hsame⟩ := foldl_keys p step Pre Post hpre hpost hdistinct
      (fun j hj => hpre (hne j hj) hframe (hall j (by simp [hj])))
      (fun j hj => hstep j (by simp [hj]))
    rw [List.foldl_cons]
    refine ⟨fun j hj => ?_, fun j hj h => ?_, fun q hq hout => ?_⟩
    · rcases List.mem_cons.mp hj with rfl | hj
      · exact hkept j hk hdone
      · exact hrest j hj
    · obtain ⟨hjk, hj⟩ := not_or.mp (fun h => hj (List.mem_cons.mpr h))
      exact hkept j hj (hpost (Ne.symm hjk) hframe h)
    · rw [hsame q hq fun j hj => hout j (by simp [hj])]
      exact hframe q hq (hout k (by simp))

theorem cons_path (p : List Step) (s : Step) (r : List Step) : p ++ s :: r = p ++ [s] ++ r := by
  simp

/-- What is exact of a mapping: its own label, its values, and nothing beside them. -/
theorem exact_map_iff {p : List Step} {a : Option L} {ks : List String}
    {f : String → Labelled (Option L) σ} :
    Exact m p (.map a ks f) ↔ nearest m p = a ∧ (∀ k ∈ ks, Exact m (p ++ [.key k]) (f k)) ∧
      ∀ s r, (∀ k ∈ ks, s ≠ .key k) → CleanPath (p ++ s :: r) →
        m (pathText (p ++ s :: r)) = none := by
  constructor
  · intro h
    refine ⟨by simpa [Labelled.label] using h.tracks [] _ rfl, fun k hk => ⟨?_, ?_⟩, ?_⟩
    · intro r hr hentry
      rw [← cons_path] at hr hentry
      simpa [Labelled.erase, hasNode, hk] using h.only (.key k :: r) hr hentry
    · intro r u hu
      rw [← cons_path]
      exact h.tracks (.key k :: r) u (by simpa [valueIn, hk] using hu)
    · intro s r hs hclean
      by_contra hentry
      have hnode := h.only (s :: r) hclean hentry
      cases s with
      | key k =>
        have hk : k ∉ ks := fun hk => hs k hk rfl
        simp [Labelled.erase, hasNode, hk] at hnode
      | item i => simp [Labelled.erase, hasNode] at hnode
  · rintro ⟨hself, hvalues, hnone⟩
    constructor
    · intro r hr hentry
      cases r with
      | nil => simp [hasNode]
      | cons s r =>
        by_cases hs : ∃ k ∈ ks, s = .key k
        · obtain ⟨k, hk, rfl⟩ := hs
          rw [cons_path] at hr hentry
          simpa [Labelled.erase, hasNode, hk] using (hvalues k hk).only r hr hentry
        · exact absurd (hnone s r (fun k hk h => hs ⟨k, hk, h⟩) hr) hentry
    · intro r u hu
      rcases r with _ | ⟨k | i, r⟩
      · cases hu
        simpa [Labelled.label] using hself
      · by_cases hk : k ∈ ks
        · rw [cons_path]
          exact (hvalues k hk).tracks r u (by simpa [valueIn, hk] using hu)
        · simp [valueIn, hk] at hu
      · cases hu

/-- Where one of the two values is no mapping and one is no list, the patch takes the place. -/
theorem merge_replaced {label : L} {before : Str} {d patch : Document σ}
    (hmap : (d.isMap && patch.isMap) = false)
    (hlist : ∀ n f l g, d = .list n f → patch ≠ .list l g) :
    (deepMergeWithOrigin label before d patch m).2 =
      (clearDescendants before m).set before label := by
  cases d with
  | list n f =>
    cases patch with
    | list l g => exact absurd rfl (hlist n f l g rfl)
    | _ => rfl
  | map ks f =>
    cases patch with
    | map ls g => cases hmap
    | _ => rfl
  | _ => cases patch <;> rfl

theorem mergeLabelled_replaced {path : List String} {b : Option L}
    {t : Labelled (Option L) σ} {patch : Document σ}
    (hmap : (t.erase.isMap && patch.isMap) = false)
    (hlist : ∀ n f l g, t.erase = .list n f → patch ≠ .list l g) :
    mergeLabelled path t (ofLayer b patch) = ofLayer b patch := by
  cases t with
  | list a n f =>
    cases patch with
    | list l g => exact absurd rfl (hlist n _ l g rfl)
    | _ => rfl
  | map a ks f =>
    cases patch with
    | map ls g => cases hmap
    | _ => rfl
  | _ => cases patch <;> rfl

/-- STEP: the place of another value is exact, and nothing beside it changes. -/
theorem replaced_exact (label : L) {p : List Step} {d : Document σ} (hp : CleanPath p)
    (hkeyed : WellKeyed d) :
    Exact ((clearDescendants (pathText p) m).set (pathText p) label) p
      (ofLayer (some label) d) ∧
    Frame p m ((clearDescendants (pathText p) m).set (pathText p) label) := by
  constructor
  · refine exact_ofLayer hp hkeyed (by simp [OriginMap.set]) fun r hr hclean => .inl ?_
    rw [set_path hp hclean, if_neg (by simpa using hr), clearDescendants_path hp hclean,
      if_pos ⟨List.prefix_append p r, by simpa using hr⟩]
  · intro q hq hout
    rw [set_path hp hq, if_neg fun h : q = p => hout (h ▸ List.prefix_rfl),
      clearDescendants_path hp hq, if_neg fun h => hout h.1]

/-- Recording the items of a list one after the other. -/
theorem foldl_items (label : L) (start : ℕ) {p q : List Step} {n : ℕ} {f : ℕ → Document σ}
    (hp : CleanPath p) (hq : CleanPath q) (hkeyed : ∀ i < n, WellKeyed (f i)) :
    (List.range n).foldl (fun m i =>
      recordSubtreeOrigins label (joinItem (pathText p) (start + i)) (f i) m) m (pathText q) =
      if (List.range n).any fun i => under (p ++ [.item (start + i)]) (f i) q then some label
      else m (pathText q) := by
  refine foldl_record label (fun i => under (p ++ [.item (start + i)]) (f i) q) fun i hi m => ?_
  rw [joinItem_path hp]
  exact recordSubtreeOrigins_path hq (hp.append (by simp [Step.Clean]))
    (hkeyed i (List.mem_range.mp hi))

theorem under_items {p : List Step} {start n : ℕ} {f : ℕ → Document σ} {s : Step}
    {r : List Step} : ((List.range n).any fun i =>
      under (p ++ [.item (start + i)]) (f i) (p ++ s :: r)) = true ↔
      ∃ i < n, s = .item (start + i) ∧ hasNode (f i) r = true := by
  rw [List.any_eq_true]
  constructor
  · rintro ⟨i, hi, hunder⟩
    obtain ⟨r', heq, hnode⟩ := under_iff.mp hunder
    rw [cons_path, List.append_assoc, List.append_assoc, List.append_cancel_left_eq] at heq
    obtain ⟨rfl, rfl⟩ := List.cons.inj heq
    exact ⟨i, List.mem_range.mp hi, rfl, hnode⟩
  · rintro ⟨i, hi, rfl, hnode⟩
    exact ⟨i, List.mem_range.mpr hi, under_iff.mpr ⟨r, by simp, hnode⟩⟩

theorem not_under_items {p q : List Step} {start n : ℕ} {f : ℕ → Document σ}
    (h : ∀ s r, q ≠ p ++ s :: r) : ((List.range n).any fun i =>
      under (p ++ [.item (start + i)]) (f i) q) = false := by
  rw [List.any_eq_false]
  intro i _ hunder
  obtain ⟨r, heq, -⟩ := under_iff.mp hunder
  exact h (.item (start + i)) r (by rw [heq, ← cons_path])

/-- STEP: a list in the place of a list is exact, if nothing was recorded below the list but below
    its items. -/
theorem list_replaced_exact {p : List Step} {label : L} {l : ℕ} {g : ℕ → Document σ}
    (hp : CleanPath p) (hkeyed : WellKeyed (.list l g))
    (hkeys : ∀ k r, CleanPath (p ++ .key k :: r) → m (pathText (p ++ .key k :: r)) = none) :
    let m' := (List.range l).foldl (fun m i =>
      recordSubtreeOrigins label (joinItem (pathText p) i) (g i) m)
      ((clearListItems (pathText p) m).set (pathText p) label)
    Exact m' p (ofLayer (some label) (.list l g)) ∧ Frame p m m' := by
  intro m'
  have hm' : ∀ q, CleanPath q → m' (pathText q) =
      if (List.range l).any fun i => under (p ++ [.item (0 + i)]) (g i) q then some label
      else (clearListItems (pathText p) m).set (pathText p) label (pathText q) := by
    intro q hq
    have hitems := foldl_items label 0
      (m := (clearListItems (pathText p) m).set (pathText p) label) hp hq hkeyed
    simpa only [Nat.zero_add] using hitems
  constructor
  · refine exact_ofLayer hp hkeyed ?_ fun r hr hclean => ?_
    · rw [hm' p hp, not_under_items (by simp), set_path hp hp, if_pos rfl]
      rfl
    · obtain ⟨s, r, rfl⟩ := List.exists_cons_of_ne_nil hr
      rw [hm' _ hclean]
      by_cases hitem : ∃ i < l, s = .item (0 + i) ∧ hasNode (g i) r = true
      · rw [if_pos (under_items.mpr hitem)]
        obtain ⟨i, hi, rfl, hnode⟩ := hitem
        exact .inr ⟨rfl, by simp [hasNode, hi, hnode]⟩
      · rw [if_neg fun h => hitem (under_items.mp h), set_path hp hclean, if_neg (by simp)]
        refine .inl ?_
        cases s with
        | item i => exact (clearListItems_path hp hclean).1 ⟨i, r, rfl⟩
        | key k =>
          rw [(clearListItems_path hp hclean).2 (by simp)]
          exact hkeys k r hclean
  · intro q hq hout
    have hbelow : ∀ s r, q ≠ p ++ s :: r := fun s r h => hout (h ▸ List.prefix_append _ _)
    rw [hm' q hq, not_under_items hbelow, set_path hp hq,
      if_neg fun h : q = p => hout (h ▸ List.prefix_rfl)]
    exact (clearListItems_path hp hq).2 fun i r => hbelow (.item i) r

/-- The loop over the keys of a patch, as it changes the map. -/
def keyStep (label : L) (path : List String) (ks : List String)
    (f g : String → Document σ) (m : OriginMap L) (k : String) : OriginMap L :=
  if ks.contains k then
    (deepMergeWithOrigin label (pathText ((path ++ [k]).map .key)) (f k) (g k) m).2
  else recordSubtreeOrigins label (pathText ((path ++ [k]).map .key)) (g k) m

theorem merge_map_snd (label : L) (path : List String) {ks ls : List String}
    {f g : String → Document σ} (hpath : ∀ k ∈ path, CleanKey k) :
    (deepMergeWithOrigin label (pathText (path.map .key)) (.map ks f) (.map ls g) m).2 =
      ls.foldl (keyStep label path ks f g) m := by
  rw [deepMergeWithOrigin]
  generalize Document.map ks f = result
  induction ls generalizing m result with
  | nil => rfl
  | cons k ls ih =>
    rw [List.foldl_cons, List.foldl_cons]
    rw [joinKey_keys hpath, keyStep]
    by_cases hk : ks.contains k = true
    · simp only [if_pos hk]
      exact ih ..
    · simp only [if_neg hk]
      exact ih ..

/-- A new value: it is recorded place by place. -/
theorem recorded_exact (label : L) {p : List Step} {d : Document σ} (hp : CleanPath p)
    (hkeyed : WellKeyed d) (hnone : ∀ r, CleanPath (p ++ r) → m (pathText (p ++ r)) = none) :
    Exact (recordSubtreeOrigins label (pathText p) d m) p (ofLayer (some label) d) ∧
      Frame p m (recordSubtreeOrigins label (pathText p) d m) := by
  constructor
  · refine exact_ofLayer hp hkeyed ?_ fun r _ hclean => ?_
    · rw [recordSubtreeOrigins_path hp hp hkeyed,
        if_pos (under_iff.mpr ⟨[], by simp, by simp [hasNode]⟩)]
    · rw [recordSubtreeOrigins_path hclean hp hkeyed]
      by_cases hunder : under p d (p ++ r) = true
      · rw [if_pos hunder]
        obtain ⟨r', heq, hnode⟩ := under_iff.mp hunder
        rw [List.append_cancel_left_eq] at heq
        exact .inr ⟨rfl, heq ▸ hnode⟩
      · rw [if_neg hunder]
        exact .inl (hnone r hclean)
  · intro q hq hout
    rw [recordSubtreeOrigins_path hq hp hkeyed, if_neg]
    intro hunder
    obtain ⟨r, rfl, -⟩ := under_iff.mp hunder
    exact hout (List.prefix_append p r)

/-- The merge of well-keyed documents is well keyed. -/
theorem WellKeyed.merge {d : Document σ} : ∀ {path : List String} {patch : Document σ},
    WellKeyed d → WellKeyed patch → WellKeyed (deepMerge path d patch) := by
  induction d with
  | map ks f ih =>
    intro path patch hd hpatch
    cases patch with
    | map ls g =>
      refine ⟨?_, fun k hk => ?_⟩
      · refine List.nodup_append.mpr ⟨hd.1, hpatch.1.filter _, fun k hks j hj hkj => ?_⟩
        simp [← hkj, hks] at hj
      · by_cases hks : k ∈ ks
        · by_cases hls : k ∈ ls
          · simpa [hks, hls] using ⟨(hd.2 k hks).1, ih k (hd.2 k hks).2 (hpatch.2 k hls).2⟩
          · simpa [hks, hls] using hd.2 k hks
        · have hls : k ∈ ls := by simpa [hks] using hk
          simpa [hks, hls] using hpatch.2 k hls
    | _ => exact hpatch
  | list n f ih =>
    intro path patch hd hpatch
    cases patch with
    | list l g =>
      rw [deepMerge]
      split
      · intro i hi
        by_cases hin : i < n
        · simpa [hin] using hd i hin
        · simpa [hin] using hpatch (i - n) (by omega)
      · exact hpatch
    | _ => exact hpatch
  | _ =>
    intro path patch _ hpatch
    cases patch <;> exact hpatch

/-- STEP: a merge at a key keeps the map exact, unless it concatenates two lists. -/
theorem merged_exact (label : L) {t : Labelled (Option L) σ} :
    ∀ {path : List String} {patch : Document σ} {m : OriginMap L}, path ≠ [] →
      (∀ k ∈ path, CleanKey k) → WellKeyed t.erase → WellKeyed patch →
      (appendsAt path = true → ∀ n f l g, t.erase = .list n f → patch ≠ .list l g) →
      Exact m (path.map .key) t →
      Exact (deepMergeWithOrigin label (pathText (path.map .key)) t.erase patch m).2
        (path.map .key) (mergeLabelled path t (ofLayer (some label) patch)) ∧
      Frame (path.map .key) m
        (deepMergeWithOrigin label (pathText (path.map .key)) t.erase patch m).2 := by
  induction t with
  | map a ks f ih =>
    intro path patch m hne hpath hkeyed hpatch _ hexact
    have hp := cleanPath_keys hne hpath
    cases patch with
    | map ls g =>
      obtain ⟨hself, hvalues, hnone⟩ := exact_map_iff.mp hexact
      have hbelow : ∀ {k}, k ∈ ls → ∀ j ∈ path ++ [k], CleanKey j := by
        intro k hk j hj
        rcases List.mem_append.mp hj with hj | hj
        · exact hpath j hj
        · exact List.mem_singleton.mp hj ▸ (hpatch.2 k hk).1
      have hkey : ∀ {k}, CleanKey k → CleanPath (path.map .key ++ [.key k]) := fun hk =>
        hp.append (by simpa [Step.Clean] using hk)
      let value k : Labelled (Option L) σ :=
        if k ∈ ks then mergeLabelled (path ++ [k]) (f k) (ofLayer (some label) (g k))
        else ofLayer (some label) (g k)
      have hvalue : ∀ k ∈ ls, WellKeyed (value k).erase := by
        intro k hk
        by_cases hks : k ∈ ks
        · simp only [value, if_pos hks, erase_mergeLabelled, erase_ofLayer]
          exact (hkeyed.2 k hks).2.merge (hpatch.2 k hk).2
        · simpa only [value, if_neg hks, erase_ofLayer] using (hpatch.2 k hk).2
      let Pre (k : String) (m : OriginMap L) : Prop :=
        (k ∈ ks → Exact m (path.map .key ++ [.key k]) (f k)) ∧
          (k ∉ ks → ∀ r, CleanPath (path.map .key ++ [.key k] ++ r) →
            m (pathText (path.map .key ++ [.key k] ++ r)) = none)
      let Post (k : String) (m : OriginMap L) : Prop :=
        k ∈ ls → Exact m (path.map .key ++ [.key k]) (value k)
      have hpre : ∀ {j k : String} {m m' : OriginMap L}, j ≠ k →
          Frame (path.map .key ++ [.key j]) m m' → Pre k m → Pre k m' := by
        intro j k m m' hjk hframe h
        refine ⟨fun hk => (h.1 hk).frame hjk (hkey (hkeyed.2 k hk).1) (hkeyed.2 k hk).2 hframe,
          fun hk r hr => ?_⟩
        rw [hframe _ hr (not_under_key hjk (.inr (List.prefix_append _ r)))]
        exact h.2 hk r hr
      have hpost : ∀ {j k : String} {m m' : OriginMap L}, j ≠ k →
          Frame (path.map .key ++ [.key j]) m m' → Post k m → Post k m' :=
        fun hjk hframe h hk => (h hk).frame hjk (hkey (hpatch.2 _ hk).1) (hvalue _ hk) hframe
      have hstep : ∀ k ∈ ls, ∀ m, Pre k m →
          Post k (keyStep label path ks (fun k => (f k).erase) g m k) ∧
          Frame (path.map .key ++ [.key k]) m
            (keyStep label path ks (fun k => (f k).erase) g m k) := by
        intro k hk m hpre
        have hmap : (path ++ [k]).map Step.key = path.map .key ++ [.key k] := by simp
        rw [keyStep]
        by_cases hks : k ∈ ks
        · rw [if_pos (List.contains_iff_mem.mpr hks)]
          have hchild := ih k (by simp) (hbelow hk) (hkeyed.2 k hks).2 (hpatch.2 k hk).2
            (fun h => absurd h (by simp [appendsAt_below hne k])) (hmap ▸ hpre.1 hks)
          rw [hmap] at hchild ⊢
          exact ⟨fun _ => by simpa only [value, if_pos hks] using hchild.1, hchild.2⟩
        · rw [if_neg fun h => hks (List.contains_iff_mem.mp h), hmap]
          obtain ⟨hnew, hframe⟩ := recorded_exact (m := m) label (hkey (hpatch.2 k hk).1)
            (hpatch.2 k hk).2 (hpre.2 hks)
          exact ⟨fun _ => by simpa only [value, if_neg hks] using hnew, hframe⟩
      have hstart : ∀ k ∈ ls, Pre k m := by
        intro k hk
        refine ⟨hvalues k, fun hks r hr => ?_⟩
        rw [← cons_path] at hr ⊢
        exact hnone _ r (fun j hj h => hks (Step.key.inj h ▸ hj)) hr
      obtain ⟨hdone, -, hsame⟩ := foldl_keys (path.map .key)
        (keyStep label path ks (fun k => (f k).erase) g) Pre Post hpre hpost hpatch.1 hstart hstep
      rw [Labelled.erase, merge_map_snd label path hpath]
      refine ⟨exact_map_iff.mpr ⟨?_, fun k hk => ?_, fun s r hs hr => ?_⟩, fun q hq hout => ?_⟩
      · rw [← hself]
        refine nearestFrom_congr fun s q heq hs => ?_
        rw [List.nil_append]
        refine hsame s ((heq ▸ hp : CleanPath (s ++ q)).of_append hs) fun k _ hk => ?_
        have hlong := (hk.trans (heq ▸ List.prefix_append s q)).length_le
        simp at hlong
      · by_cases hls : k ∈ ls
        · have hmerged := hdone k hls hls
          by_cases hks : k ∈ ks
          · simpa [value, hls, hks] using hmerged
          · simpa [value, hls, hks] using hmerged
        · have hks : k ∈ ks := by simpa [hls] using hk
          have hkept : Exact (ls.foldl (keyStep label path ks (fun k => (f k).erase) g) m)
              (path.map .key ++ [.key k]) (f k) := by
            refine (hvalues k hks).congr (hkey (hkeyed.2 k hks).1) (hkeyed.2 k hks).2 ?_
            intro q hq hside
            refine hsame q hq fun j hj => not_under_key (fun h => hls ?_) hside
            exact h ▸ hj
          simpa [hls] using hkept
      · have hkeys : ∀ k, k ∈ ks ∨ k ∈ ls → s ≠ .key k := by
          intro k hk
          refine hs k ?_
          by_cases hks : k ∈ ks
          · simp [hks]
          · simpa [hks] using hk
        rw [hsame _ hr fun k hk hpre => ?_]
        · exact hnone s r (fun k hk => hkeys k (.inl hk)) hr
        · rw [List.prefix_append_right_inj, List.cons_prefix_cons] at hpre
          exact hkeys k (.inr hk) hpre.1.symm
      · exact hsame q hq fun k _ hk => hout ((List.prefix_append _ _).trans hk)
    | _ =>
      rw [merge_replaced (by simp [Labelled.erase, isMap]) (by simp [Labelled.erase]),
        mergeLabelled_replaced (by simp [Labelled.erase, isMap]) (by simp [Labelled.erase])]
      exact replaced_exact label hp hpatch
  | list a n f ih =>
    intro path patch m hne hpath hkeyed hpatch hlists hexact
    have hp := cleanPath_keys hne hpath
    cases patch with
    | list l g =>
      have happend : ¬ appendsAt path = true := fun h => hlists h _ _ _ _ rfl rfl
      have hkeys : ∀ k r, CleanPath (path.map .key ++ .key k :: r) →
          m (pathText (path.map .key ++ .key k :: r)) = none := by
        intro k r hr
        by_contra hentry
        exact absurd (hexact.only _ hr hentry) (by simp [Labelled.erase, hasNode])
      have hmerged : (deepMergeWithOrigin label (pathText (path.map .key))
          (Labelled.list a n f).erase (.list l g) m).2 = (List.range l).foldl (fun m i =>
            recordSubtreeOrigins label (joinItem (pathText (path.map .key)) i) (g i) m)
            ((clearListItems (pathText (path.map .key)) m).set (pathText (path.map .key))
              label) := by
        rw [Labelled.erase, deepMergeWithOrigin, appendsUnder_path hpath, if_neg happend]
      have hlabelled : mergeLabelled path (.list a n f) (ofLayer (some label) (.list l g)) =
          ofLayer (some label) (.list l g) := by
        rw [ofLayer, mergeLabelled, if_neg happend]
      rw [hmerged, hlabelled]
      exact list_replaced_exact hp hpatch hkeys
    | _ =>
      rw [merge_replaced (by simp [Labelled.erase, isMap]) (by simp [Labelled.erase]),
        mergeLabelled_replaced (by simp [Labelled.erase, isMap]) (by simp [Labelled.erase])]
      exact replaced_exact label hp hpatch
  | _ =>
    intro path patch m hne hpath hkeyed hpatch _ hexact
    rw [merge_replaced (by simp [Labelled.erase, isMap]) (by simp [Labelled.erase]),
      mergeLabelled_replaced (by simp [Labelled.erase, isMap]) (by simp [Labelled.erase])]
    exact replaced_exact label (cleanPath_keys hne hpath) hpatch

end

end Dpone.Manifest
