import Dpone.Manifest.ExplainLayers

/-! Configurations merged from layers, from left to right: the value is that of `deep_merge`, and
    the origin map leads from every leaf to the layer it came from, unless a list under one of the
    append keys took the place of a value of another type and a later layer added to it. -/

namespace Dpone.Manifest
open Dpone.Schemes Document Labelled

variable {L σ : Type}

/-- A layer: a label and a mapping of clean keys. -/
structure Layer (L σ : Type) where
  label : L
  keys : List String
  value : String → Document σ
  keyed : WellKeyed (.map keys value)

def Layer.document (layer : Layer L σ) : Document σ := .map layer.keys layer.value

/-- What `build_explain` does with its layers. -/
def explainLayers (layers : List (Layer L σ)) : Document σ × OriginMap L :=
  layers.foldl (fun (merged, origins) layer =>
    deepMergeWithOrigin layer.label [] merged layer.document origins) (.empty, fun _ => none)

/-- The same layers, merged as the compiler merges them. -/
def mergeLayers (layers : List (Layer L σ)) : Document σ :=
  layers.foldl (fun merged layer => deepMerge [] merged layer.document) .empty

/-- The same layers, each value with the label of its layer. -/
def labelledLayers (layers : List (Layer L σ)) : Labelled (Option L) σ :=
  layers.foldl (fun merged layer =>
    mergeLabelled [] merged (ofLayer (some layer.label) layer.document))
    (.map none [] fun _ => .null none)

/-- How the value under an append key came about: of a list, the label of the items that got no
    entries of their own, and the label of its last layer. -/
inductive ListStatus (L : Type) where
  | absent
  | other
  | listed (bare : Option L) (last : L)

/-- After a layer with a value under the key. -/
def ListStatus.next (status : ListStatus L) (label : L) : Document σ → ListStatus L
  | .list n _ =>
    match status with
    | absent => listed none label
    | other => listed (if n = 0 then none else some label) label
    | listed bare _ => listed bare label
  | _ => other

def listStatus (k : String) (layers : List (Layer L σ)) : ListStatus L :=
  layers.foldl (fun status layer =>
    if layer.keys.contains k then status.next layer.label (layer.value k) else status) .absent

theorem listStatus_concat (k : String) (layers : List (Layer L σ)) (layer : Layer L σ) :
    listStatus k (layers ++ [layer]) =
      if layer.keys.contains k then (listStatus k layers).next layer.label (layer.value k)
      else listStatus k layers := by
  simp [listStatus]

/-! ### Lists whose first items have no entries -/

section
variable {m m' : OriginMap L} {k : String}

/-- What is exact of a list: its own label, its items, and nothing beside them. -/
theorem exact_list_iff {p : List Step} {a : Option L} {n : ℕ} {f : ℕ → Labelled (Option L) σ} :
    Exact m p (.list a n f) ↔ nearest m p = a ∧ (∀ i < n, Exact m (p ++ [.item i]) (f i)) ∧
      ∀ s r, (∀ i < n, s ≠ .item i) → CleanPath (p ++ s :: r) →
        m (pathText (p ++ s :: r)) = none := by
  constructor
  · intro h
    refine ⟨by simpa [Labelled.label] using h.tracks [] _ rfl, fun i hi => ⟨?_, ?_⟩, ?_⟩
    · intro r hr hentry
      rw [← cons_path] at hr hentry
      simpa [Labelled.erase, hasNode, hi] using h.only (.item i :: r) hr hentry
    · intro r u hu
      rw [← cons_path]
      exact h.tracks (.item i :: r) u (by simpa [valueIn, hi] using hu)
    · intro s r hs hclean
      by_contra hentry
      have hnode := h.only (s :: r) hclean hentry
      cases s with
      | item i =>
        have hi : ¬ i < n := fun hi => hs i hi rfl
        simp [Labelled.erase, hasNode, hi] at hnode
      | key k => simp [Labelled.erase, hasNode] at hnode
  · rintro ⟨hself, hvalues, hnone⟩
    constructor
    · intro r hr hentry
      cases r with
      | nil => simp [hasNode]
      | cons s r =>
        by_cases hs : ∃ i < n, s = .item i
        · obtain ⟨i, hi, rfl⟩ := hs
          rw [cons_path] at hr hentry
          simpa [Labelled.erase, hasNode, hi] using (hvalues i hi).only r hr hentry
        · exact absurd (hnone s r (fun i hi h => hs ⟨i, hi, h⟩) hr) hentry
    · intro r u hu
      rcases r with _ | ⟨k | i, r⟩
      · cases hu
        simpa [Labelled.label] using hself
      · cases hu
      · by_cases hi : i < n
        · rw [cons_path]
          exact (hvalues i hi).tracks r u (by simpa [valueIn, hi] using hu)
        · simp [valueIn, hi] at hu

/-- A list under a key whose first `n₀` items have no entries of their own and come from the layer
    `bare`, while each later one has an entry and is exact. -/
structure ListTracked (m : OriginMap L) (k : String) (bare : Option L) (last : L) (n₀ n : ℕ)
    (f : ℕ → Labelled (Option L) σ) : Prop where
  self : m (pathText [.key k]) = some last
  outside : ∀ s r, (∀ i < n, s ≠ .item i) → CleanPath (.key k :: s :: r) →
    m (pathText (.key k :: s :: r)) = none
  le : n₀ ≤ n
  bareItems : ∀ i < n₀, ∃ s d, bare = some s ∧ f i = ofLayer (some s) d ∧ WellKeyed d
  unrecorded : ∀ i < n₀, ∀ r, CleanPath (.key k :: .item i :: r) →
    m (pathText (.key k :: .item i :: r)) = none
  inhabited : bare.isSome → 0 < n₀
  own : ∀ i, n₀ ≤ i → i < n →
    (m (pathText [.key k, .item i])).isSome ∧ Exact m [.key k, .item i] (f i)

namespace ListTracked
variable {bare : Option L} {last : L} {n₀ n : ℕ} {f : ℕ → Labelled (Option L) σ}

theorem nearest_self (h : ListTracked m k bare last n₀ n f) :
    nearest m [.key k] = some last := by
  rw [← List.nil_append [Step.key k], nearest_concat, List.nil_append, h.self, Option.some_or]

/-- The items without entries get the label of the list. -/
theorem nearest_bare (h : ListTracked m k bare last n₀ n f) {i : ℕ} (hi : i < n₀) {r : List Step}
    (hclean : CleanPath (.key k :: .item i :: r)) :
    nearest m (.key k :: .item i :: r) = some last := by
  refine nearest_uniform (p := [.key k]) (by simp) h.self fun s t heq hs => .inl ?_
  obtain ⟨a, s, rfl⟩ := List.exists_cons_of_ne_nil hs
  obtain ⟨rfl, rfl⟩ := List.cons.inj heq
  exact h.unrecorded i hi s (CleanPath.of_append (t := t) (by simpa using hclean) (by simp))

/-- SOUND: where the items without entries come from the last layer, the list is exact. -/
theorem exact (hk : CleanKey k) (h : ListTracked m k bare last n₀ n f)
    (hbare : ∀ s, bare = some s → s = last) : Exact m [.key k] (.list (some last) n f) := by
  refine exact_list_iff.mpr ⟨h.nearest_self, fun i hi => ?_, fun s r => h.outside s r⟩
  by_cases hin : i < n₀
  · obtain ⟨s, d, hs, hfi, hkeyed⟩ := h.bareItems i hin
    obtain rfl := hbare s hs
    rw [hfi]
    constructor
    · intro r hr hentry
      exact absurd (h.unrecorded i hin r hr) hentry
    · intro r u hu
      rw [label_of_valueIn hu]
      have hnode := hasNode_of_valueIn hu
      rw [erase_ofLayer] at hnode
      refine h.nearest_bare hin ⟨⟨k, _, rfl⟩, ?_⟩
      exact List.forall_mem_cons.mpr ⟨hk, List.forall_mem_cons.mpr
        ⟨trivial, clean_of_hasNode hkeyed hnode⟩⟩
  · exact (h.own i (Nat.le_of_not_lt hin) hi).2

/-- Entries for every item: nothing is without one. -/
theorem of_exact (h : Exact m [.key k] (.list (some last) n f))
    (hself : m (pathText [.key k]) = some last)
    (hown : ∀ i < n, (m (pathText [.key k, .item i])).isSome) :
    ListTracked m k none last 0 n f := by
  obtain ⟨-, hitems, houtside⟩ := exact_list_iff.mp h
  exact ⟨hself, houtside, Nat.zero_le n, nofun, nofun, nofun,
    fun i _ hi => ⟨hown i hi, hitems i hi⟩⟩

end ListTracked

/-- What the map says of the value under a key. -/
def KeyTracked (m : OriginMap L) (k : String) (status : ListStatus L)
    (t : Labelled (Option L) σ) : Prop :=
  if appendListKeys.contains k then
    match status with
    | .absent => False
    | .other => (∀ a n f, t ≠ .list a n f) ∧ Exact m [.key k] t
    | .listed bare last => ∃ n₀ n f, t = .list (some last) n f ∧
        ListTracked m k bare last n₀ n f
  else Exact m [.key k] t

theorem KeyTracked.frame {status : ListStatus L} {j : String} {t : Labelled (Option L) σ}
    (hjk : j ≠ k) (hk : CleanKey k) (hkeyed : WellKeyed t.erase) (h : Frame [.key j] m m')
    (ht : KeyTracked m k status t) : KeyTracked m' k status t := by
  have hpath : CleanPath [.key k] := cleanPath_key hk
  have hsame : ∀ r, CleanPath (.key k :: r) →
      m' (pathText (.key k :: r)) = m (pathText (.key k :: r)) := by
    intro r hr
    refine h _ hr fun hj => ?_
    rw [List.cons_prefix_cons] at hj
    exact hjk (Step.key.inj hj.1)
  unfold KeyTracked at ht ⊢
  split_ifs at ht ⊢ with happend
  · cases status with
    | absent => exact ht
    | other => exact ⟨ht.1, ht.2.frame (p := []) hjk hpath hkeyed h⟩
    | listed bare last =>
      obtain ⟨n₀, n, f, rfl, ht⟩ := ht
      have hitem : ∀ i, CleanPath [.key k, .item i] := fun i =>
        hpath.append (r := [.item i]) (by simp [Step.Clean])
      refine ⟨n₀, n, f, rfl, ?_, ?_, ht.le, ht.bareItems, ?_, ht.inhabited, ?_⟩
      · rw [hsame _ hpath, ht.self]
      · intro s r hs hr
        rw [hsame _ hr, ht.outside s r hs hr]
      · intro i hi r hr
        rw [hsame _ hr, ht.unrecorded i hi r hr]
      · intro i hlo hi
        obtain ⟨hown, hexact⟩ := ht.own i hlo hi
        refine ⟨by rw [hsame _ (hitem i)]; exact hown, ?_⟩
        refine hexact.congr (hitem i) (hkeyed i hi) fun q hq hside => h q hq fun hj => ?_
        rcases hside with hq | hq
        · have hkey := hj.trans hq
          rw [List.cons_prefix_cons] at hkey
          exact hjk (Step.key.inj hkey.1)
        · obtain ⟨r, rfl⟩ := hq
          rw [List.cons_append, List.cons_prefix_cons] at hj
          exact hjk (Step.key.inj hj.1)
  · exact ht.frame (p := []) hjk hpath hkeyed h

/-- STEP: a key that was not there. -/
theorem key_new {label : L} {d : Document σ} (hk : CleanKey k) (hd : WellKeyed d)
    (hnone : ∀ r, CleanPath (.key k :: r) → m (pathText (.key k :: r)) = none) :
    KeyTracked (recordSubtreeOrigins label (pathText [.key k]) d m) k
      (ListStatus.absent.next label d) (ofLayer (some label) d) ∧
    Frame [.key k] m (recordSubtreeOrigins label (pathText [.key k]) d m) := by
  have hpath : CleanPath [.key k] := cleanPath_key hk
  obtain ⟨hexact, hframe⟩ := recorded_exact label hpath hd hnone
  refine ⟨?_, hframe⟩
  unfold KeyTracked
  split_ifs with happend
  · cases d with
    | list n f =>
      refine ⟨0, n, _, rfl, ListTracked.of_exact hexact ?_ fun i hi => ?_⟩
      · rw [recordSubtreeOrigins_path hpath hpath hd,
          if_pos (under_iff.mpr ⟨[], by simp, by simp [hasNode]⟩)]
      · have hitem : CleanPath [.key k, .item i] :=
          hpath.append (r := [.item i]) (by simp [Step.Clean])
        have hunder : under [.key k] (.list n f) [.key k, .item i] = true :=
          under_iff.mpr ⟨[.item i], rfl, by simp [hasNode, hi]⟩
        rw [recordSubtreeOrigins_path hitem hpath hd, if_pos hunder]
        rfl
    | _ => exact ⟨fun _ _ _ h => (by cases h), hexact⟩
  · exact hexact

/-- STEP: a list takes the place of a value of another type. -/
theorem key_list_replaced {label : L} {n : ℕ} {f : ℕ → Document σ} (hk : CleanKey k)
    (hd : WellKeyed (.list n f)) :
    ListTracked ((clearDescendants (pathText [.key k]) m).set (pathText [.key k]) label) k
      (if n = 0 then none else some label) label n n fun i => ofLayer (some label) (f i) := by
  have hpath : CleanPath [.key k] := cleanPath_key hk
  have hbelow : ∀ s r, CleanPath (.key k :: s :: r) →
      ((clearDescendants (pathText [.key k]) m).set (pathText [.key k]) label)
        (pathText (.key k :: s :: r)) = none := by
    intro s r hr
    rw [set_path hpath hr, if_neg (by simp), clearDescendants_path hpath hr, if_pos (by simp)]
  refine ⟨by simp [OriginMap.set], fun s r _ => hbelow s r, le_rfl, fun i hi => ?_,
    fun i _ r => hbelow _ r, fun h => ?_, fun i hlo hi => absurd hi (Nat.not_lt_of_le hlo)⟩
  · exact ⟨label, f i, if_neg (by omega), rfl, hd i hi⟩
  · refine Nat.pos_of_ne_zero fun hn => ?_
    simp [hn] at h

/-- STEP: a layer adds to a list. -/
theorem key_list_appended (label : L) {last : L} {bare : Option L} {n₀ n l : ℕ}
    {f : ℕ → Labelled (Option L) σ} {g : ℕ → Document σ} (hk : CleanKey k)
    (hf : ∀ i < n, WellKeyed (f i).erase) (hg : WellKeyed (.list l g))
    (h : ListTracked m k bare last n₀ n f) :
    ListTracked ((List.range l).foldl (fun m i =>
        recordSubtreeOrigins label (joinItem (pathText [.key k]) (n + i)) (g i) m)
        (m.set (pathText [.key k]) label)) k bare label n₀ (n + l)
      (fun i => if i < n then f i else ofLayer (some label) (g (i - n))) ∧
    Frame [.key k] m ((List.range l).foldl (fun m i =>
        recordSubtreeOrigins label (joinItem (pathText [.key k]) (n + i)) (g i) m)
        (m.set (pathText [.key k]) label)) := by
  have hpath : CleanPath [.key k] := cleanPath_key hk
  generalize hm' : (List.range l).foldl (fun m i =>
    recordSubtreeOrigins label (joinItem (pathText [.key k]) (n + i)) (g i) m)
    (m.set (pathText [.key k]) label) = m'
  have hbelow : ∀ s r, CleanPath (.key k :: s :: r) → m' (pathText (.key k :: s :: r)) =
      if ((List.range l).any fun i =>
        under ([.key k] ++ [.item (n + i)]) (g i) ([.key k] ++ s :: r)) then some label
      else m (pathText (.key k :: s :: r)) := by
    intro s r hr
    rw [← hm', foldl_items label n hpath hr hg]
    refine if_congr Iff.rfl rfl ?_
    rw [set_path hpath hr, if_neg (by simp)]
  have hold : ∀ i < n, ∀ r, CleanPath (.key k :: .item i :: r) →
      m' (pathText (.key k :: .item i :: r)) = m (pathText (.key k :: .item i :: r)) := by
    intro i hi r hr
    rw [hbelow _ r hr, if_neg]
    intro hitems
    obtain ⟨j, -, hj, -⟩ := under_items.mp hitems
    have := Step.item.inj hj
    omega
  have hself : m' (pathText [.key k]) = some label := by
    rw [← hm', foldl_items label n hpath hpath hg, not_under_items (by simp), set_path hpath hpath,
      if_pos rfl]
    rfl
  refine ⟨⟨hself, fun s r hs hr => ?_, h.le.trans (Nat.le_add_right n l), fun i hi => ?_,
    fun i hi r hr => ?_, h.inhabited, fun i hlo hi => ?_⟩, fun q hq hout => ?_⟩
  · rw [hbelow s r hr, if_neg]
    · exact h.outside s r (fun i hi => hs i (by omega)) hr
    · intro hitems
      obtain ⟨i, hi, hsi, -⟩ := under_items.mp hitems
      exact hs (n + i) (by omega) hsi
  · obtain ⟨s, d, hs, hfi, hd⟩ := h.bareItems i hi
    exact ⟨s, d, hs, by rw [if_pos (hi.trans_le h.le), hfi], hd⟩
  · rw [hold i (hi.trans_le h.le) r hr, h.unrecorded i hi r hr]
  · have hitem : CleanPath [.key k, .item i] :=
      hpath.append (r := [.item i]) (by simp [Step.Clean])
    by_cases hin : i < n
    · obtain ⟨hown, hexact⟩ := h.own i hlo hin
      rw [if_pos hin, hold i hin [] hitem]
      exact ⟨hown, hexact.congr_own hitem (hf i hin) hown fun r hr => hold i hin r hr⟩
    · have hown : m' (pathText [.key k, .item i]) = some label := by
        rw [hbelow _ _ hitem, if_pos (under_items.mpr ⟨i - n, by omega, ?_, by simp [hasNode]⟩)]
        rw [Nat.add_sub_cancel' (Nat.le_of_not_lt hin)]
      rw [if_neg hin, hown]
      refine ⟨rfl, exact_ofLayer hitem (hg (i - n) (by omega)) hown fun r _ hr => ?_⟩
      have hentry := hbelow (.item i) r hr
      by_cases hnode : ((List.range l).any fun i' =>
          under ([.key k] ++ [.item (n + i')]) (g i') ([.key k] ++ .item i :: r)) = true
      · rw [if_pos hnode] at hentry
        obtain ⟨j, hj, hij, hnode⟩ := under_items.mp hnode
        obtain rfl : j = i - n := by
          have := Step.item.inj hij
          omega
        exact .inr ⟨hentry, hnode⟩
      · rw [if_neg hnode] at hentry
        refine .inl (hentry.trans (h.outside _ r (fun j hj hij => ?_) hr))
        exact hin (Step.item.inj hij ▸ hj)
  · have hbeside : ∀ s r, q ≠ [.key k] ++ s :: r := fun s r h => hout (h ▸ List.prefix_append _ _)
    rw [← hm', foldl_items label n hpath hq hg, not_under_items hbeside, set_path hpath hq,
      if_neg fun h : q = [.key k] => hout (h ▸ List.prefix_rfl)]
    rfl

theorem mergeLabelled_not_list {path : List String} {b : Option L} {t : Labelled (Option L) σ}
    {d : Document σ} (hd : ∀ n f, d ≠ .list n f) :
    ∀ a n f, mergeLabelled path t (ofLayer b d) ≠ .list a n f := by
  intro a n f
  cases d with
  | list l g => exact absurd rfl (hd l g)
  | map ls g => cases t <;> simp [mergeLabelled, ofLayer]
  | _ => cases t <;> simp [mergeLabelled, ofLayer]

/-- STEP: a key with a value already. -/
theorem key_merged {label : L} {status : ListStatus L} {t : Labelled (Option L) σ}
    {d : Document σ} (hk : CleanKey k) (ht : WellKeyed t.erase) (hd : WellKeyed d)
    (htracked : KeyTracked m k status t) :
    KeyTracked (deepMergeWithOrigin label (pathText [.key k]) t.erase d m).2 k
      (status.next label d) (mergeLabelled [k] t (ofLayer (some label) d)) ∧
    Frame [.key k] m (deepMergeWithOrigin label (pathText [.key k]) t.erase d m).2 := by
  have hkey : ∀ j ∈ [k], CleanKey j := by simpa using hk
  have hpath : CleanPath [.key k] := cleanPath_key hk
  unfold KeyTracked at htracked ⊢
  by_cases happend : appendListKeys.contains k = true
  · rw [if_pos happend] at htracked ⊢
    cases status with
    | absent => exact absurd htracked id
    | other =>
      obtain ⟨hother, hexact⟩ := htracked
      have hlist : ∀ n f, t.erase ≠ .list n f := by
        intro n f h
        cases t with
        | list a n f => exact hother _ _ _ rfl
        | _ => cases h
      obtain ⟨hmerged, hframe⟩ := merged_exact label (List.cons_ne_nil k []) hkey ht hd
        (fun _ n f l g h => absurd h (hlist n f)) hexact
      refine ⟨?_, hframe⟩
      cases d with
      | list n f =>
        have hmap : (t.erase.isMap && (Document.list n f).isMap) = false := Bool.and_false _
        have hnolist : ∀ n' f' l g, t.erase = .list n' f' → Document.list n f ≠ .list l g :=
          fun n' f' _ _ h => absurd h (hlist n' f')
        rw [merge_replaced hmap hnolist, mergeLabelled_replaced hmap hnolist]
        exact ⟨n, n, _, rfl, key_list_replaced hk hd⟩
      | _ => exact ⟨mergeLabelled_not_list fun _ _ h => (by cases h), hmerged⟩
    | listed bare last =>
      obtain ⟨n₀, n, f, rfl, hlist⟩ := htracked
      cases d with
      | list l g =>
        have hmerged : deepMergeWithOrigin label (pathText [.key k])
            (Labelled.list (some last) n f).erase (.list l g) m =
            (.list (n + l) fun i => if i < n then (f i).erase else g (i - n),
              (List.range l).foldl (fun m i =>
                recordSubtreeOrigins label (joinItem (pathText [.key k]) (n + i)) (g i) m)
                (m.set (pathText [.key k]) label)) := by
          have happends : appendsUnder (pathText [.key k]) = true :=
            (appendsUnder_path hkey).trans happend
          rw [Labelled.erase, deepMergeWithOrigin, if_pos happends]
        have hlabelled : mergeLabelled [k] (.list (some last) n f)
            (ofLayer (some label) (.list l g)) = .list (some label) (n + l) fun i =>
              if i < n then f i else ofLayer (some label) (g (i - n)) := by
          rw [ofLayer, mergeLabelled, appendsAt, if_pos happend]
        rw [hmerged, hlabelled]
        obtain ⟨htracked, hframe⟩ := key_list_appended label hk ht hd hlist
        exact ⟨⟨n₀, n + l, _, rfl, htracked⟩, hframe⟩
      | _ =>
        rw [merge_replaced (by simp [Labelled.erase, isMap]) (by simp),
          mergeLabelled_replaced (by simp [Labelled.erase, isMap]) (by simp)]
        obtain ⟨hexact, hframe⟩ := replaced_exact (m := m) label hpath hd
        exact ⟨⟨fun _ _ _ h => (by cases h), hexact⟩, hframe⟩
  · rw [if_neg happend] at htracked ⊢
    exact merged_exact label (List.cons_ne_nil k []) hkey ht hd
      (fun h => absurd h happend) htracked

end

/-! ### Runs -/

/-- What holds after some layers: keys that are listed are tracked, and nothing else is recorded. -/
structure Explained (layers : List (Layer L σ)) (m : OriginMap L) (ks : List String)
    (f : String → Labelled (Option L) σ) : Prop where
  keyed : WellKeyed (.map ks fun k => (f k).erase)
  outside : ∀ s r, (∀ k ∈ ks, s ≠ .key k) → CleanPath (s :: r) → m (pathText (s :: r)) = none
  absent : ∀ k, k ∉ ks → listStatus k layers = .absent
  tracked : ∀ k ∈ ks, KeyTracked m k (listStatus k layers) (f k)

section
variable {layers : List (Layer L σ)} {m : OriginMap L} {ks : List String}
  {f : String → Labelled (Option L) σ}

/-- The values after one more layer. -/
def addLayer (ks : List String) (f : String → Labelled (Option L) σ) (layer : Layer L σ)
    (k : String) : Labelled (Option L) σ :=
  if layer.keys.contains k then
    if ks.contains k then mergeLabelled [k] (f k) (ofLayer (some layer.label) (layer.value k))
    else ofLayer (some layer.label) (layer.value k)
  else f k

theorem mergeLabelled_root (layer : Layer L σ) :
    mergeLabelled [] (.map none ks f) (ofLayer (some layer.label) layer.document) =
      .map none (ks ++ layer.keys.filter fun k => !ks.contains k) (addLayer ks f layer) := rfl

/-- One key of one more layer. -/
theorem key_added {layer : Layer L σ} {k : String} (h : WellKeyed (.map ks fun k => (f k).erase))
    (hk : k ∈ layer.keys) (habsent : k ∉ ks → listStatus k layers = .absent)
    (hold : k ∈ ks → KeyTracked m k (listStatus k layers) (f k))
    (hnew : k ∉ ks → ∀ r, CleanPath (.key k :: r) → m (pathText (.key k :: r)) = none) :
    KeyTracked (keyStep layer.label [] ks (fun k => (f k).erase) layer.value m k) k
      (listStatus k (layers ++ [layer])) (addLayer ks f layer k) ∧
    Frame [.key k] m (keyStep layer.label [] ks (fun k => (f k).erase) layer.value m k) := by
  obtain ⟨hclean, hvalue⟩ := layer.keyed.2 k hk
  have hlayer : layer.keys.contains k = true := List.contains_iff_mem.mpr hk
  rw [listStatus_concat, if_pos hlayer, addLayer, if_pos hlayer, keyStep]
  by_cases hks : ks.contains k = true
  · have hmem := List.contains_iff_mem.mp hks
    rw [if_pos hks, if_pos hks]
    exact key_merged hclean (h.2 k hmem).2 hvalue (hold hmem)
  · have hmem := mt List.contains_iff_mem.mpr hks
    rw [if_neg hks, if_neg hks, habsent hmem]
    exact key_new hclean hvalue (hnew hmem)

/-- STEP: one more layer. -/
theorem Explained.step (h : Explained layers m ks f) (layer : Layer L σ) :
    Explained (layers ++ [layer])
      (deepMergeWithOrigin layer.label [] (.map ks fun k => (f k).erase) layer.document m).2
      (ks ++ layer.keys.filter fun k => !ks.contains k) (addLayer ks f layer) := by
  have hkeyed : WellKeyed (Labelled.map none (ks ++ layer.keys.filter fun k => !ks.contains k)
      (addLayer ks f layer)).erase := by
    rw [← mergeLabelled_root, erase_mergeLabelled, erase_ofLayer]
    exact WellKeyed.merge h.keyed layer.keyed
  have hmem : ∀ k, k ∈ ks ++ layer.keys.filter (fun k => !ks.contains k) ↔
      k ∈ ks ∨ k ∈ layer.keys := by
    intro k
    by_cases hk : k ∈ ks <;> simp [hk]
  let Pre (k : String) (m : OriginMap L) : Prop :=
    (k ∈ ks → KeyTracked m k (listStatus k layers) (f k)) ∧
      (k ∉ ks → ∀ r, CleanPath (.key k :: r) → m (pathText (.key k :: r)) = none)
  let Post (k : String) (m : OriginMap L) : Prop :=
    (k ∈ ks ∨ k ∈ layer.keys) →
      KeyTracked m k (listStatus k (layers ++ [layer])) (addLayer ks f layer k)
  have hpre : ∀ {j k : String} {m m' : OriginMap L}, j ≠ k → Frame ([] ++ [.key j]) m m' →
      Pre k m → Pre k m' := by
    intro j k m m' hjk hframe hk
    refine ⟨fun hks => (hk.1 hks).frame hjk (h.keyed.2 k hks).1 (h.keyed.2 k hks).2 hframe,
      fun hks r hr => ?_⟩
    rw [hframe _ hr (not_under_key (p := []) hjk (.inr ⟨r, rfl⟩))]
    exact hk.2 hks r hr
  have hpost : ∀ {j k : String} {m m' : OriginMap L}, j ≠ k → Frame ([] ++ [.key j]) m m' →
      Post k m → Post k m' := by
    intro j k m m' hjk hframe hk hold
    obtain ⟨hclean, hvalue⟩ := hkeyed.2 k ((hmem k).mpr hold)
    exact (hk hold).frame hjk hclean hvalue hframe
  have hstart : ∀ k ∈ layer.keys, Pre k m := fun k _ =>
    ⟨h.tracked k, fun hks r => h.outside _ r fun j hj hjk => hks (Step.key.inj hjk ▸ hj)⟩
  obtain ⟨hdone, hkept, hsame⟩ := foldl_keys [] (keyStep layer.label [] ks (fun k => (f k).erase)
    layer.value) Pre Post hpre hpost layer.keyed.1 hstart fun k hk m hk' => by
      obtain ⟨htracked, hframe⟩ := key_added h.keyed hk (h.absent k) hk'.1 hk'.2
      exact ⟨fun _ => htracked, hframe⟩
  have hmap : (deepMergeWithOrigin layer.label [] (.map ks fun k => (f k).erase)
      layer.document m).2 =
      layer.keys.foldl (keyStep layer.label [] ks (fun k => (f k).erase) layer.value) m :=
    merge_map_snd layer.label [] nofun
  rw [hmap]
  refine ⟨hkeyed, fun s r hs hr => ?_, fun k hk => ?_, fun k hk => ?_⟩
  · rw [hsame _ hr fun k hk hpre => ?_]
    · exact h.outside s r (fun k hk => hs k ((hmem k).mpr (.inl hk))) hr
    · rw [List.nil_append, List.cons_prefix_cons] at hpre
      exact hs k ((hmem k).mpr (.inr hk)) hpre.1.symm
  · obtain ⟨hks, hls⟩ := not_or.mp (mt (hmem k).mpr hk)
    rw [listStatus_concat, if_neg (mt List.contains_iff_mem.mp hls), h.absent k hks]
  · by_cases hls : k ∈ layer.keys
    · exact hdone k hls (.inr hls)
    · have hks : k ∈ ks := ((hmem k).mp hk).resolve_right hls
      have hnot := mt List.contains_iff_mem.mp hls
      refine hkept k hls (fun _ => ?_) (.inl hks)
      rw [listStatus_concat, if_neg hnot, addLayer, if_neg hnot]
      exact h.tracked k hks

/-- RUN: after any layers, the value is that of `deep_merge` and the keys are tracked. -/
theorem explained_run (layers : List (Layer L σ)) : ∃ ks f,
    labelledLayers layers = .map none ks f ∧
      (explainLayers layers).1 = (labelledLayers layers).erase ∧
      mergeLayers layers = (labelledLayers layers).erase ∧
      Explained layers (explainLayers layers).2 ks f := by
  induction layers using List.reverseRecOn with
  | nil =>
    refine ⟨[], fun _ => .null none, rfl, rfl, rfl, ⟨?_, fun _ _ _ _ => rfl, fun _ _ => rfl, nofun⟩⟩
    exact ⟨List.nodup_nil, nofun⟩
  | append_singleton layers layer ih =>
    obtain ⟨ks, f, hlabelled, hvalue, hmerge, hexplained⟩ := ih
    have hnext : labelledLayers (layers ++ [layer]) =
        mergeLabelled [] (labelledLayers layers) (ofLayer (some layer.label) layer.document) := by
      simp [labelledLayers]
    have hexplain : explainLayers (layers ++ [layer]) = deepMergeWithOrigin layer.label []
        (explainLayers layers).1 layer.document (explainLayers layers).2 := by
      simp [explainLayers]
    have hmerges : mergeLayers (layers ++ [layer]) =
        deepMerge [] (mergeLayers layers) layer.document := by
      simp [mergeLayers]
    rw [hnext, hexplain, hmerges, erase_mergeLabelled, erase_ofLayer, hvalue, hmerge]
    refine ⟨_, _, by rw [hlabelled, mergeLabelled_root], ?_, rfl, ?_⟩
    · exact deepMergeWithOrigin_value [] nofun layer.keyed
    · rw [hlabelled]
      exact hexplained.step layer

end

/-- What a merged value is labelled with: the label of a value of the layer, or the one it had. -/
theorem label_of_merge {t : Labelled (Option L) σ} : ∀ {path : List String}
    {u x : Labelled (Option L) σ} {r : List Step}, (mergeLabelled path t u).valueIn r = some x →
      (∃ y, t.valueIn r = some y ∧ y.label = x.label) ∨
        ∃ q y, u.valueIn q = some y ∧ y.label = x.label := by
  induction t with
  | map a ks f ih =>
    intro path u x r h
    cases u with
    | map b ls g =>
      rcases r with _ | ⟨k | i, r⟩
      · cases h
        exact .inl ⟨_, rfl, rfl⟩
      · by_cases hls : k ∈ ls
        · by_cases hks : k ∈ ks
          · rcases ih k (by simpa [mergeLabelled, valueIn, hls, hks] using h) with h | ⟨q, y, h⟩
            · exact .inl (by simpa [valueIn, hks] using h)
            · exact .inr ⟨.key k :: q, y, by simpa [valueIn, hls] using h⟩
          · exact .inr ⟨.key k :: r, x, by simpa [mergeLabelled, valueIn, hls, hks] using h⟩
        · by_cases hks : k ∈ ks
          · exact .inl ⟨x, by simpa [mergeLabelled, valueIn, hls, hks] using h, rfl⟩
          · simp [mergeLabelled, valueIn, hls, hks] at h
      · cases h
    | _ => exact .inr ⟨r, x, h, rfl⟩
  | list a n f ih =>
    intro path u x r h
    cases u with
    | list b l g =>
      rw [mergeLabelled] at h
      split_ifs at h with happend
      · rcases r with _ | ⟨k | i, r⟩
        · cases h
          exact .inr ⟨[], _, rfl, rfl⟩
        · cases h
        · by_cases hi : i < n + l
          · by_cases hin : i < n
            · exact .inl ⟨x, by simpa [valueIn, hi, hin] using h, rfl⟩
            · have hil : i - n < l := by omega
              exact .inr ⟨.item (i - n) :: r, x, by simpa [valueIn, hi, hin, hil] using h, rfl⟩
          · simp [valueIn, hi] at h
      · exact .inr ⟨r, x, h, rfl⟩
    | _ => exact .inr ⟨r, x, h, rfl⟩
  | _ =>
    intro path u x r h
    cases u <;> exact .inr ⟨r, x, h, rfl⟩

/-- RUN: below the root, every value carries the label of one of the layers. -/
theorem label_of_layers {layers : List (Layer L σ)} : ∀ {r : List Step}
    {x : Labelled (Option L) σ}, r ≠ [] → (labelledLayers layers).valueIn r = some x →
      ∃ layer ∈ layers, x.label = some layer.label := by
  induction layers using List.reverseRecOn with
  | nil =>
    intro r x hr h
    match r, hr with
    | .key k :: r, _ => cases h
    | .item i :: r, _ => cases h
  | append_singleton layers layer ih =>
    intro r x hr h
    have hnext : labelledLayers (layers ++ [layer]) =
        mergeLabelled [] (labelledLayers layers) (ofLayer (some layer.label) layer.document) := by
      simp [labelledLayers]
    rw [hnext] at h
    rcases label_of_merge h with ⟨y, hy, hlabel⟩ | ⟨q, y, hy, hlabel⟩
    · obtain ⟨old, hold, hy⟩ := ih hr hy
      exact ⟨old, by simp [hold], hlabel ▸ hy⟩
    · exact ⟨layer, by simp, by rw [← hlabel, label_of_valueIn hy]⟩

/-- CORRECT: explained layers. The value is what `deep_merge` makes of the layers, and every value
    of it comes from one of them. The nearest origin of every leaf is the layer it came from exactly
    if no list under an append key that took the place of a value of another type, and was not
    empty, was last added to by another layer. -/
theorem layers_explained_iff (layers : List (Layer L σ)) :
    (explainLayers layers).1 = mergeLayers layers ∧
      (labelledLayers layers).erase = mergeLayers layers ∧
      (∀ path t, path ≠ [] → (labelledLayers layers).valueIn path = some t →
        ∃ layer ∈ layers, t.label = some layer.label) ∧
      ((∀ path t, (labelledLayers layers).valueIn path = some t → t.isLeaf →
        nearest (explainLayers layers).2 path = t.label) ↔
        ∀ k ∈ appendListKeys, ∀ bare last, listStatus k layers = .listed (some bare) last →
          bare = last) := by
  obtain ⟨ks, f, hlabelled, hvalue, hmerge, hexplained⟩ := explained_run layers
  refine ⟨by rw [hvalue, hmerge], hmerge.symm, fun _ _ => label_of_layers, ?_⟩
  rw [hlabelled]
  constructor
  · intro htracks k hk bare last hstatus
    have happend := List.contains_iff_mem.mpr hk
    have hks : k ∈ ks := by
      by_contra hks
      rw [hexplained.absent k hks] at hstatus
      cases hstatus
    have htracked := hexplained.tracked k hks
    unfold KeyTracked at htracked
    rw [if_pos happend, hstatus] at htracked
    obtain ⟨n₀, n, g, hfk, hlist⟩ := htracked
    have hn₀ := hlist.inhabited rfl
    obtain ⟨s, d, hs, hitem, hkeyed⟩ := hlist.bareItems 0 hn₀
    obtain ⟨r, u, hu, hleaf⟩ := exists_leaf (some s) d
    have hclean : CleanPath (.key k :: .item 0 :: r) := by
      have hnode := hasNode_of_valueIn hu
      rw [erase_ofLayer] at hnode
      exact ⟨⟨k, _, rfl⟩, List.forall_mem_cons.mpr ⟨(hexplained.keyed.2 k hks).1,
        List.forall_mem_cons.mpr ⟨trivial, clean_of_hasNode hkeyed hnode⟩⟩⟩
    have hlabel := htracks (.key k :: .item 0 :: r) u
      (by simp [valueIn, hks, hfk, hn₀.trans_le hlist.le, hitem, hu]) hleaf
    rw [hlist.nearest_bare hn₀ hclean, label_of_valueIn hu, ← hs] at hlabel
    exact (Option.some.inj hlabel).symm
  · intro hbare path t ht _
    have hexact : Exact (explainLayers layers).2 [] (.map none ks f) := by
      refine exact_map_iff.mpr ⟨rfl, fun k hk => ?_, fun s r => hexplained.outside s r⟩
      have htracked := hexplained.tracked k hk
      unfold KeyTracked at htracked
      split_ifs at htracked with happend
      · cases hstatus : listStatus k layers with
        | absent =>
          rw [hstatus] at htracked
          exact absurd htracked id
        | other =>
          rw [hstatus] at htracked
          exact htracked.2
        | listed bare last =>
          rw [hstatus] at htracked
          obtain ⟨n₀, n, g, hfk, hlist⟩ := htracked
          rw [hfk]
          refine hlist.exact (hexplained.keyed.2 k hk).1 fun s hs => ?_
          subst hs
          exact hbare k (List.contains_iff_mem.mp happend) s last hstatus
      · exact htracked
    exact hexact.tracks path t ht

theorem cleanKey_iff {k : String} :
    CleanKey k ↔ k.toList ≠ [] ∧ k.toList.all (fun c => !separator c) = true := by
  simp [CleanKey, List.all_eq_true]

/-- A layer with one list, or one text, under `depends_on`. -/
def dependsOn (label : String) (d : Document Empty) (hd : WellKeyed d) : Layer String Empty where
  label := label
  keys := ["depends_on"]
  value := fun _ => d
  keyed := ⟨by simp, fun k hk => by
    obtain rfl := List.mem_singleton.mp hk
    exact ⟨cleanKey_iff.mpr ⟨by decide, by decide⟩, hd⟩⟩

/-- The item of the first list falls to the layer that added the second. -/
theorem replaced_list_relabelled :
    let layers := [dependsOn "defaults" (.text "x") trivial,
      dependsOn "schema" (.list 1 fun _ => .text "a") fun _ _ => trivial,
      dependsOn "table" (.list 1 fun _ => .text "b") fun _ _ => trivial]
    (labelledLayers layers).valueIn [.key "depends_on", .item 0] =
        some (.text (some "schema") "a") ∧
      nearest (explainLayers layers).2 [.key "depends_on", .item 0] = some "table" :=
  ⟨by rfl, by decide⟩

end Dpone.Manifest
