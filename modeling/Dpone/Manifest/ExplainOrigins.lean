import Mathlib.Data.String.Basic
import Dpone.Manifest.MigrationBuilder
import Dpone.Schemes.Numeral

/-! Merging layers while recording who supplied what: `deep_merge_with_origin` of
    `explain_merge.py`.

    The origin map has the paths of a configuration, as texts, and for some of them the label of a
    layer; a path that is not recorded has the origin of the nearest one above it that is. What it
    should say is stated without texts: every value of a merged configuration carries the label of
    the layer it came from, and labelled configurations are merged as configurations are. -/

namespace Dpone.Manifest
open Dpone.Schemes Document

/-! ### Paths and their texts -/

/-- A key of a mapping or a position in a list. -/
inductive Step where
  | key (k : String)
  | item (i : ℕ)
  deriving DecidableEq

def Step.text : Step → Str
  | .key k => '.' :: k.toList
  | .item i => '[' :: decimalText i ++ [']']

def tailText (steps : List Step) : Str := steps.flatMap Step.text

/-- The text of a path: no dot before a first key. -/
def pathText : List Step → Str
  | .key k :: rest => k.toList ++ tailText rest
  | rest => tailText rest

/-- The characters that end a key. -/
def separator (c : Char) : Bool := c = '.' || c = '[' || c = ']'

/-- A non-empty key without dots or brackets. -/
def CleanKey (k : String) : Prop := k.toList ≠ [] ∧ ∀ c ∈ k.toList, separator c = false

def Step.Clean : Step → Prop
  | .key k => CleanKey k
  | .item _ => True

/-- A path of clean keys that starts with one. -/
def CleanPath (q : List Step) : Prop := (∃ k rest, q = .key k :: rest) ∧ ∀ s ∈ q, s.Clean

/-- What no key goes on in. -/
def Stops (s : Str) : Prop := ∀ c ∈ s.head?, separator c = true

/-- Two texts that stop at the first separator are told apart by what stands before it. -/
theorem stop_unique : ∀ {a b x y : Str}, (∀ c ∈ a, separator c = false) →
    (∀ c ∈ b, separator c = false) → Stops x → Stops y → a ++ x = b ++ y → a = b ∧ x = y
  | [], [], _, _, _, _, _, _, h => ⟨rfl, h⟩
  | [], c :: b, x, y, _, hb, hx, _, h => by
    obtain rfl : x = c :: (b ++ y) := h
    have hstop := hx c (by simp)
    rw [hb c (by simp)] at hstop
    cases hstop
  | c :: a, [], x, y, ha, _, _, hy, h => by
    obtain rfl : c :: (a ++ x) = y := h
    have hstop := hy c (by simp)
    rw [ha c (by simp)] at hstop
    cases hstop
  | c :: a, d :: b, x, y, ha, hb, hx, hy, h => by
    obtain ⟨rfl, hrest⟩ := List.cons.inj h
    obtain ⟨hab, hxy⟩ := stop_unique (fun c hc => ha c (by simp [hc]))
      (fun c hc => hb c (by simp [hc])) hx hy hrest
    exact ⟨by rw [hab], hxy⟩

theorem stops_tailText (q : List Step) : Stops (tailText q) := by
  cases q with
  | nil => simp [Stops, tailText]
  | cons s q => cases s <;> simp [Stops, tailText, Step.text, separator]

theorem decimalText_not_separator (i : ℕ) : ∀ c ∈ decimalText i, separator c = false := by
  intro c hc
  obtain ⟨d, hd, rfl⟩ := mem_numeral _ _ hc
  exact (by decide : ∀ d < 10, separator (digitChar d) = false) d hd

theorem decimalText_injective : Function.Injective decimalText := by
  intro i j h
  have := decimalValue_decimalText j
  rw [← h, decimalValue_decimalText] at this
  exact Option.some.inj this

/-- CORRECT: a text that goes on after a path is the text of a longer path. -/
theorem tailText_cut : ∀ {p q : List Step} {s : Str}, (∀ a ∈ p, a.Clean) → (∀ a ∈ q, a.Clean) →
    Stops s → tailText p ++ s = tailText q → ∃ r, q = p ++ r ∧ s = tailText r
  | [], q, s, _, _, _, h => ⟨q, rfl, h⟩
  | a :: p, [], s, _, _, _, h => by
    cases a <;> simp [tailText, Step.text] at h
  | .key k :: p, .key l :: q, s, hp, hq, hs, h => by
    have hstops : Stops (tailText p ++ s) := by
      cases p with
      | nil => simpa [tailText] using hs
      | cons b p => cases b <;> simp [Stops, tailText, Step.text, separator]
    have htext : k.toList ++ (tailText p ++ s) = l.toList ++ tailText q := by
      simpa [tailText, Step.text] using h
    obtain ⟨hkey, hrest⟩ := stop_unique (hp (.key k) (by simp)).2 (hq (.key l) (by simp)).2 hstops
      (stops_tailText q) htext
    obtain ⟨r, rfl, hr⟩ := tailText_cut (fun a ha => hp a (by simp [ha]))
      (fun a ha => hq a (by simp [ha])) hs hrest
    exact ⟨r, by rw [String.toList_inj.mp hkey, List.cons_append], hr⟩
  | .item i :: p, .item j :: q, s, hp, hq, hs, h => by
    have htext : decimalText i ++ (']' :: (tailText p ++ s)) =
        decimalText j ++ (']' :: tailText q) := by
      simpa [tailText, Step.text] using h
    obtain ⟨hindex, hrest⟩ := stop_unique (decimalText_not_separator i)
      (decimalText_not_separator j) (by simp [Stops, separator]) (by simp [Stops, separator]) htext
    obtain ⟨r, rfl, hr⟩ := tailText_cut (fun a ha => hp a (by simp [ha]))
      (fun a ha => hq a (by simp [ha])) hs (List.cons.inj hrest).2
    exact ⟨r, by rw [decimalText_injective hindex, List.cons_append], hr⟩
  | .key k :: p, .item j :: q, s, _, _, _, h => by simp [tailText, Step.text] at h
  | .item i :: p, .key l :: q, s, _, _, _, h => by simp [tailText, Step.text] at h

theorem CleanPath.dot_pathText {q : List Step} (h : CleanPath q) :
    '.' :: pathText q = tailText q := by
  obtain ⟨⟨k, rest, rfl⟩, -⟩ := h
  rfl

theorem pathText_cut {p q : List Step} {s : Str} (hp : CleanPath p) (hq : CleanPath q)
    (hs : Stops s) (h : pathText p ++ s = pathText q) : ∃ r, q = p ++ r ∧ s = tailText r := by
  refine tailText_cut hp.2 hq.2 hs ?_
  rw [← hp.dot_pathText, ← hq.dot_pathText, List.cons_append, h]

theorem pathText_append {p : List Step} (hp : p ≠ []) (r : List Step) :
    pathText (p ++ r) = pathText p ++ tailText r := by
  match p, hp with
  | .key k :: p, _ => simp [pathText, tailText]
  | .item i :: p, _ => simp [pathText, tailText]

/-- LOSSLESS: a path is known by its text. -/
theorem pathText_inj {p q : List Step} (hp : CleanPath p) (hq : CleanPath q) :
    pathText p = pathText q ↔ p = q := by
  refine ⟨fun h => ?_, fun h => h ▸ rfl⟩
  obtain ⟨r, rfl, hr⟩ := pathText_cut (s := []) hp hq (by simp [Stops]) (by simpa using h)
  cases r with
  | nil => simp
  | cons a r => cases a <;> simp [tailText, Step.text] at hr

theorem CleanPath.ne_nil {q : List Step} (h : CleanPath q) : q ≠ [] := by
  obtain ⟨⟨k, rest, rfl⟩, -⟩ := h
  simp

theorem CleanPath.append {p r : List Step} (hp : CleanPath p) (hr : ∀ s ∈ r, s.Clean) :
    CleanPath (p ++ r) := by
  obtain ⟨⟨k, rest, rfl⟩, hclean⟩ := hp
  refine ⟨⟨k, rest ++ r, rfl⟩, fun s hs => ?_⟩
  rcases List.mem_append.mp hs with hs | hs
  · exact hclean s hs
  · exact hr s hs

theorem pathText_ne_nil {q : List Step} (h : CleanPath q) : pathText q ≠ [] := by
  obtain ⟨⟨k, rest, rfl⟩, hclean⟩ := h
  have hkey : CleanKey k := hclean (.key k) (by simp)
  simpa [pathText] using fun h => absurd h (by simpa using hkey.1)

/-! ### The code -/

variable {L σ : Type}

/-- A dictionary from path texts to labels. -/
abbrev OriginMap (L : Type) := Str → Option L

def OriginMap.set (m : OriginMap L) (text : Str) (label : L) : OriginMap L :=
  fun t => if t = text then some label else m t

/-- `f"{prefix}.{key}" if prefix else key`. -/
def joinKey (before : Str) (k : String) : Str :=
  if before = [] then k.toList else before ++ '.' :: k.toList

/-- `f"{prefix}[{i}]"`. -/
def joinItem (before : Str) (i : ℕ) : Str := before ++ '[' :: decimalText i ++ [']']

/-- `clear_descendants`. -/
def clearDescendants (before : Str) (m : OriginMap L) : OriginMap L :=
  if before = [] then m
  else fun t => if (before ++ ['.']) <+: t ∨ (before ++ ['[']) <+: t then none else m t

/-- `clear_list_items`. -/
def clearListItems (before : Str) (m : OriginMap L) : OriginMap L :=
  if before = [] then m else fun t => if (before ++ ['[']) <+: t then none else m t

/-- `if prefix: origin_map[prefix] = origin_label`. -/
def recordSelf (label : L) (before : Str) (m : OriginMap L) : OriginMap L :=
  if before = [] then m else m.set before label

/-- `record_subtree_origins`. In the loop over items, what the source does for an item that is a
    mapping and for one that is a list is what it does for any value under the item's path, which is
    never empty. -/
def recordSubtreeOrigins (label : L) : Str → Document σ → OriginMap L → OriginMap L
  | before, .list n f, m =>
    (List.range n).foldl (fun m i =>
      recordSubtreeOrigins label (joinItem before i) (f i) (m.set (joinItem before i) label))
      (recordSelf label before m)
  | before, .map ks f, m =>
    ks.foldl (fun m k => recordSubtreeOrigins label (joinKey before k) (f k) m)
      (recordSelf label before m)
  | before, _, m => recordSelf label before m

/-- Whether lists are concatenated: `_prefix and "." not in _prefix and _prefix in
    _append_list_keys`. -/
def appendsUnder (before : Str) : Bool :=
  before ≠ [] && !before.contains '.' && (appendListKeys.map String.toList).contains before

/-- `deep_merge_with_origin`. No key of the patch comes twice, so the value that the loop finds
    under a key of the base is still the base's. -/
def deepMergeWithOrigin (label : L) :
    Str → Document σ → Document σ → OriginMap L → Document σ × OriginMap L
  | before, .map ks f, .map ls g, m =>
    ls.foldl (fun (result, m) k =>
      let p := joinKey before k
      if ks.contains k then
        let (value, m) := deepMergeWithOrigin label p (f k) (g k) m
        (result.insert k value, m)
      else (result.insert k (g k), recordSubtreeOrigins label p (g k) m)) (.map ks f, m)
  | before, .list n f, .list l g, m =>
    if appendsUnder before then
      (.list (n + l) fun i => if i < n then f i else g (i - n),
        (List.range l).foldl (fun m i =>
          recordSubtreeOrigins label (joinItem before (n + i)) (g i) m) (m.set before label))
    else
      (.list l g, (List.range l).foldl
        (fun m i => recordSubtreeOrigins label (joinItem before i) (g i) m)
        ((clearListItems before m).set before label))
  | before, _, patch, m => (patch, (clearDescendants before m).set before label)

/-! ### What the code does to a map, by path -/

section
variable {p q : List Step} {m : OriginMap L} {label : L}

theorem set_path (hp : CleanPath p) (hq : CleanPath q) :
    m.set (pathText p) label (pathText q) = if q = p then some label else m (pathText q) := by
  unfold OriginMap.set
  simp only [pathText_inj hq hp]

theorem text_below (hp : CleanPath p) (hq : CleanPath q) {c : Char} (hc : separator c = true) :
    (pathText p ++ [c]) <+: pathText q ↔ ∃ r, q = p ++ r ∧ (tailText r).head? = some c := by
  constructor
  · rintro ⟨s, hs⟩
    rw [List.append_assoc] at hs
    obtain ⟨r, hr, htail⟩ := pathText_cut hp hq (by simp [Stops, hc]) hs
    exact ⟨r, hr, by rw [← htail]; rfl⟩
  · rintro ⟨r, rfl, hhead⟩
    obtain ⟨s, hs⟩ := List.head?_eq_some_iff.mp hhead
    rw [pathText_append hp.ne_nil, hs]
    exact ⟨s, by simp⟩

theorem clearDescendants_path (hp : CleanPath p) (hq : CleanPath q) :
    clearDescendants (pathText p) m (pathText q) =
      if p <+: q ∧ q ≠ p then none else m (pathText q) := by
  rw [clearDescendants, if_neg (pathText_ne_nil hp)]
  refine if_congr ?_ rfl rfl
  rw [text_below hp hq rfl, text_below hp hq rfl]
  constructor
  · rintro (⟨r, rfl, hr⟩ | ⟨r, rfl, hr⟩) <;>
      exact ⟨⟨r, rfl⟩, fun h => by simp_all [tailText]⟩
  · rintro ⟨⟨r, rfl⟩, hne⟩
    match r, hne with
    | [], hne => simp at hne
    | .key k :: r, _ => exact .inl ⟨_, rfl, rfl⟩
    | .item i :: r, _ => exact .inr ⟨_, rfl, rfl⟩

theorem clearListItems_path (hp : CleanPath p) (hq : CleanPath q) :
    ((∃ i r, q = p ++ .item i :: r) → clearListItems (pathText p) m (pathText q) = none) ∧
      ((∀ i r, q ≠ p ++ .item i :: r) →
        clearListItems (pathText p) m (pathText q) = m (pathText q)) := by
  rw [clearListItems, if_neg (pathText_ne_nil hp)]
  constructor
  · rintro ⟨i, r, rfl⟩
    exact if_pos ((text_below hp hq rfl).mpr ⟨_, rfl, rfl⟩)
  · intro hother
    refine if_neg fun hbelow => ?_
    obtain ⟨r, rfl, hr⟩ := (text_below hp hq rfl).mp hbelow
    match r, hr with
    | .item i :: r, _ => exact hother i r rfl
    | .key k :: r, hr => simp [tailText, Step.text] at hr
    | [], hr => simp [tailText] at hr

theorem joinKey_path (hp : p = [] ∨ CleanPath p) (k : String) :
    joinKey (pathText p) k = pathText (p ++ [.key k]) := by
  rcases hp with rfl | hp
  · simp [joinKey, pathText, tailText]
  · rw [joinKey, if_neg (pathText_ne_nil hp), pathText_append hp.ne_nil]
    simp [tailText, Step.text]

theorem joinItem_path (hp : CleanPath p) (i : ℕ) :
    joinItem (pathText p) i = pathText (p ++ [.item i]) := by
  rw [joinItem, pathText_append hp.ne_nil]
  simp [tailText, Step.text]

/-- Steps of a loop that each record a label at some paths. -/
theorem foldl_record {A : Type} (label : L) (hit : A → Bool)
    {step : OriginMap L → A → OriginMap L} {text : Str} : ∀ {l : List A} {m : OriginMap L},
    (∀ a ∈ l, ∀ m, step m a text = if hit a then some label else m text) →
      l.foldl step m text = if l.any hit then some label else m text
  | [], m, _ => rfl
  | a :: l, m, h => by
    rw [List.foldl_cons, foldl_record label hit fun b hb => h b (List.mem_cons_of_mem a hb),
      h a List.mem_cons_self, List.any_cons]
    cases hit a <;> cases l.any hit <;> rfl

end

/-- The places in a document. -/
def hasNode : Document σ → List Step → Bool
  | _, [] => true
  | .map ks f, .key k :: rest => ks.contains k && hasNode (f k) rest
  | .list n f, .item i :: rest => i < n && hasNode (f i) rest
  | _, _ => false

/-- The places in a document that stands at a path. -/
def under (p : List Step) (d : Document σ) (q : List Step) : Bool :=
  p.isPrefixOf q && hasNode d (q.drop p.length)

/-- Distinct clean keys, at every depth. -/
def WellKeyed : Document σ → Prop
  | .map ks f => ks.Nodup ∧ ∀ k ∈ ks, CleanKey k ∧ WellKeyed (f k)
  | .list n f => ∀ i < n, WellKeyed (f i)
  | _ => True

theorem under_iff {p q : List Step} {d : Document σ} :
    under p d q = true ↔ ∃ r, q = p ++ r ∧ hasNode d r = true := by
  rw [under, Bool.and_eq_true, List.isPrefixOf_iff_prefix]
  constructor
  · rintro ⟨⟨r, rfl⟩, hnode⟩
    exact ⟨r, rfl, by simpa using hnode⟩
  · rintro ⟨r, rfl, hnode⟩
    exact ⟨⟨r, rfl⟩, by simpa using hnode⟩

theorem under_map {p q : List Step} {ks : List String} {f : String → Document σ} :
    under p (.map ks f) q = (q = p || ks.any fun k => under (p ++ [.key k]) (f k) q) := by
  rw [Bool.eq_iff_iff, under_iff, Bool.or_eq_true, List.any_eq_true]
  constructor
  · rintro ⟨r, rfl, hnode⟩
    match r, hnode with
    | [], _ => exact .inl (by simp)
    | .key k :: r, hnode =>
      simp only [hasNode, Bool.and_eq_true, List.contains_iff_mem] at hnode
      exact .inr ⟨k, hnode.1, under_iff.mpr ⟨r, by simp, hnode.2⟩⟩
    | .item i :: r, hnode => simp [hasNode] at hnode
  · rintro (h | ⟨k, hk, h⟩)
    · exact ⟨[], by simpa using h, by simp [hasNode]⟩
    · obtain ⟨r, rfl, hnode⟩ := under_iff.mp h
      exact ⟨.key k :: r, by simp, by simp [hasNode, hk, hnode]⟩

theorem under_list {p q : List Step} {n : ℕ} {f : ℕ → Document σ} :
    under p (.list n f) q =
      (q = p || (List.range n).any fun i => under (p ++ [.item i]) (f i) q) := by
  rw [Bool.eq_iff_iff, under_iff, Bool.or_eq_true, List.any_eq_true]
  constructor
  · rintro ⟨r, rfl, hnode⟩
    match r, hnode with
    | [], _ => exact .inl (by simp)
    | .item i :: r, hnode =>
      simp only [hasNode, Bool.and_eq_true, decide_eq_true_eq] at hnode
      exact .inr ⟨i, List.mem_range.mpr hnode.1, under_iff.mpr ⟨r, by simp, hnode.2⟩⟩
    | .key k :: r, hnode => simp [hasNode] at hnode
  · rintro (h | ⟨i, hi, h⟩)
    · exact ⟨[], by simpa using h, by simp [hasNode]⟩
    · obtain ⟨r, rfl, hnode⟩ := under_iff.mp h
      exact ⟨.item i :: r, by simp, by simp [hasNode, List.mem_range.mp hi, hnode]⟩

theorem hasNode_leaf {d : Document σ} (hmap : d.isMap = false) (hlist : ∀ n f, d ≠ .list n f) :
    ∀ {r : List Step}, hasNode d r = true → r = []
  | [], _ => rfl
  | s :: r, h => by
    cases d with
    | list n f => exact absurd rfl (hlist n f)
    | map ks f => cases hmap
    | _ => simp [hasNode] at h

/-- SPEC of `record_subtree_origins`: every place of the value gets the label. -/
theorem recordSubtreeOrigins_path {label : L} {q : List Step} (hq : CleanPath q) {d : Document σ} :
    ∀ {p : List Step} {m : OriginMap L}, CleanPath p → WellKeyed d →
      recordSubtreeOrigins label (pathText p) d m (pathText q) =
        if under p d q then some label else m (pathText q) := by
  have leaf : ∀ {p : List Step} {m : OriginMap L} {d : Document σ}, CleanPath p →
      d.isMap = false → (∀ n f, d ≠ .list n f) → (m.set (pathText p) label) (pathText q) =
        if under p d q then some label else m (pathText q) := by
    intro p m d hp hmap hlist
    rw [set_path hp hq]
    refine if_congr ?_ rfl rfl
    rw [under_iff]
    constructor
    · rintro rfl
      exact ⟨[], by simp, by simp [hasNode]⟩
    · rintro ⟨r, rfl, hnode⟩
      rw [hasNode_leaf hmap hlist hnode, List.append_nil]
  induction d with
  | map ks f ih =>
    intro p m hp hkeyed
    rw [recordSubtreeOrigins, recordSelf, if_neg (pathText_ne_nil hp)]
    rw [foldl_record label (fun k => under (p ++ [.key k]) (f k) q), set_path hp hq, under_map]
    · by_cases h : q = p <;> simp [h]
    · intro k hk m
      obtain ⟨hclean, hbelow⟩ := hkeyed.2 k hk
      rw [joinKey_path (.inr hp)]
      exact ih k (hp.append (by simpa [Step.Clean] using hclean)) hbelow
  | list n f ih =>
    intro p m hp hkeyed
    rw [recordSubtreeOrigins, recordSelf, if_neg (pathText_ne_nil hp)]
    rw [foldl_record label (fun i => under (p ++ [.item i]) (f i) q), set_path hp hq, under_list]
    · by_cases h : q = p <;> simp [h]
    · intro i hi m
      have hclean : CleanPath (p ++ [.item i]) := hp.append (by simp [Step.Clean])
      rw [joinItem_path hp, ih i hclean (hkeyed i (List.mem_range.mp hi)), set_path hclean hq]
      by_cases h : q = p ++ [.item i]
      · have : under (p ++ [.item i]) (f i) q = true :=
          under_iff.mpr ⟨[], by simpa using h, by simp [hasNode]⟩
        rw [if_pos this, if_pos this]
      · rw [if_neg h]
  | _ =>
    intro p m hp _
    exact (congrFun (if_neg (pathText_ne_nil hp)) _).trans (leaf hp rfl nofun)

end Dpone.Manifest
