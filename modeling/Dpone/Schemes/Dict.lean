import Mathlib.Data.List.Basic
import Mathlib.Data.List.Induction
import Mathlib.Tactic.Tauto

/-! Insertion-ordered maps, as lists of named values: a key that is set again keeps its place. -/

namespace Dpone.Schemes.Dict
variable {K V : Type} [DecidableEq K]

/-- `d[k] = v`. -/
def set (k : K) (v : V) : List (K × V) → List (K × V)
  | [] => [(k, v)]
  | (j, w) :: d => if j = k then (k, v) :: d else (j, w) :: set k v d

/-- `{k: f(k) for k in keys}`. -/
def ofKeys (f : K → V) (keys : List K) : List (K × V) := keys.foldl (fun d k => set k (f k) d) []

/-- A key that is not there yet goes to the end. -/
theorem set_of_notMem {k : K} (v : V) : ∀ {d : List (K × V)}, k ∉ d.map Prod.fst →
    set k v d = d ++ [(k, v)]
  | [], _ => rfl
  | (j, w) :: d, h => by
    rw [List.map_cons, List.mem_cons, not_or] at h
    rw [set, if_neg (Ne.symm h.1), set_of_notMem v h.2, List.cons_append]

theorem mem_set {k : K} {v : V} {pair : K × V} : ∀ {d : List (K × V)}, pair ∈ set k v d →
    pair = (k, v) ∨ pair ∈ d
  | [], h => .inl (List.mem_singleton.mp h)
  | (i, w) :: d, h => by
    rw [set] at h
    split_ifs at h
    · exact (List.mem_cons.mp h).imp_right (List.mem_cons_of_mem _)
    · rcases List.mem_cons.mp h with rfl | h
      · exact .inr List.mem_cons_self
      · exact (mem_set h).imp_right (List.mem_cons_of_mem _)

theorem nodup_set (k : K) (v : V) : ∀ {d : List (K × V)}, (d.map Prod.fst).Nodup →
    ((set k v d).map Prod.fst).Nodup
  | [], _ => List.nodup_cons.mpr ⟨List.not_mem_nil, List.nodup_nil⟩
  | (i, w) :: d, h => by
    obtain ⟨hnew, hd⟩ := List.nodup_cons.mp h
    rw [set]
    split_ifs with hik
    · subst hik
      exact h
    · refine List.nodup_cons.mpr ⟨fun hmem => ?_, nodup_set k v hd⟩
      obtain ⟨pair, hpair, rfl⟩ := List.mem_map.mp hmem
      rcases mem_set hpair with rfl | hpair
      · exact hik rfl
      · exact hnew (List.mem_map.mpr ⟨pair, hpair, rfl⟩)

/-! ### Lists under keys -/

section Lists
variable {α : Type}

/-- `d.setdefault(k, []).extend(vs)`. -/
def extend (k : K) (vs : List α) : List (K × List α) → List (K × List α)
  | [] => [(k, vs)]
  | (j, ws) :: d => if j = k then (k, ws ++ vs) :: d else (j, ws) :: extend k vs d

theorem mem_keys_extend (k j : K) (vs : List α) : ∀ d : List (K × List α),
    j ∈ (extend k vs d).map Prod.fst ↔ j = k ∨ j ∈ d.map Prod.fst
  | [] => by simp [extend]
  | (i, ws) :: d => by
    by_cases hik : i = k
    · subst hik
      simp [extend]
    · rw [extend, if_neg hik, List.map_cons, List.mem_cons, mem_keys_extend k j vs d, List.map_cons,
        List.mem_cons]
      tauto

/-- What holds of all items under their keys holds of those that are put to them too. -/
theorem forall_extend {P : K → α → Prop} {k : K} {vs : List α} (hvs : ∀ v ∈ vs, P k v) :
    ∀ {d : List (K × List α)}, (∀ e ∈ d, ∀ v ∈ e.2, P e.1 v) →
      ∀ e ∈ extend k vs d, ∀ v ∈ e.2, P e.1 v
  | [], _ => by
    intro e he
    rw [extend, List.mem_singleton] at he
    rw [he]
    exact hvs
  | (j, ws) :: d, h => by
    obtain ⟨hhead, htail⟩ := List.forall_mem_cons.mp h
    by_cases hjk : j = k
    · subst hjk
      rw [extend, if_pos rfl]
      refine List.forall_mem_cons.mpr ⟨?_, htail⟩
      intro v hv
      rcases List.mem_append.mp hv with hv | hv
      · exact hhead v hv
      · exact hvs v hv
    · rw [extend, if_neg hjk]
      exact List.forall_mem_cons.mpr ⟨hhead, forall_extend hvs htail⟩

variable {β : Type} {key : β → K} {values : β → List α}

theorem mem_keys_foldl_extend (j : K) (key : β → K) (values : β → List α) :
    ∀ (xs : List β) (d : List (K × List α)),
      j ∈ (xs.foldl (fun d x => extend (key x) (values x) d) d).map Prod.fst ↔
        (∃ x ∈ xs, key x = j) ∨ j ∈ d.map Prod.fst
  | [], d => by simp
  | x :: xs, d => by
    rw [List.foldl_cons, mem_keys_foldl_extend j key values xs, mem_keys_extend]
    simp only [List.mem_cons, exists_eq_or_imp, eq_comm (a := j)]
    exact or_left_comm.trans or_assoc.symm

theorem forall_foldl_extend {P : K → α → Prop} : ∀ {xs : List β} {d : List (K × List α)},
    (∀ x ∈ xs, ∀ v ∈ values x, P (key x) v) → (∀ e ∈ d, ∀ v ∈ e.2, P e.1 v) →
      ∀ e ∈ xs.foldl (fun d x => extend (key x) (values x) d) d, ∀ v ∈ e.2, P e.1 v
  | [], _, _, hd => hd
  | x :: xs, _, hxs, hd => by
    obtain ⟨hx, hrest⟩ := List.forall_mem_cons.mp hxs
    rw [List.foldl_cons]
    exact forall_foldl_extend hrest (forall_extend hx hd)

end Lists

/-! ### Values -/

variable [BEq K] [LawfulBEq K]

theorem lookup_cons_if (k j : K) (v : V) (d : List (K × V)) :
    ((k, v) :: d).lookup j = if j = k then some v else d.lookup j := by
  rw [List.lookup_cons]
  by_cases h : j = k
  · simp [h]
  · simp [beq_eq_false_iff_ne.mpr h, h]

/-- CALL RULE: a key that was set has its value, and the others keep theirs. -/
theorem lookup_set (k j : K) (v : V) : ∀ d : List (K × V),
    (set k v d).lookup j = if j = k then some v else d.lookup j
  | [] => lookup_cons_if k j v []
  | (i, w) :: d => by
    by_cases hik : i = k
    · subst hik
      rw [set, if_pos rfl, lookup_cons_if, lookup_cons_if]
      split <;> rfl
    · rw [set, if_neg hik, lookup_cons_if, lookup_cons_if, lookup_set k j v d]
      by_cases hji : j = i
      · subst hji
        simp [hik]
      · simp [hji]

theorem lookup_foldl_set (f : K → V) (j : K) : ∀ (keys : List K) (d : List (K × V)),
    (keys.foldl (fun d k => set k (f k) d) d).lookup j =
      if j ∈ keys then some (f j) else d.lookup j
  | [], d => by simp
  | k :: keys, d => by
    rw [List.foldl_cons, lookup_foldl_set f j keys, lookup_set]
    by_cases hmem : j ∈ keys
    · simp [hmem]
    · by_cases hjk : j = k
      · subst hjk
        simp
      · simp [hmem, hjk]

/-- CALL RULE: a comprehension has the values of its keys and nothing else. -/
@[simp] theorem lookup_ofKeys (f : K → V) (j : K) (keys : List K) :
    (ofKeys f keys).lookup j = if j ∈ keys then some (f j) else none := by
  rw [ofKeys, lookup_foldl_set]
  rfl

/-- What a key is looked up as is one of its entries. -/
theorem mem_of_lookup {k : K} {v : V} : ∀ {d : List (K × V)}, d.lookup k = some v → (k, v) ∈ d
  | (j, w) :: d, h => by
    rw [lookup_cons_if] at h
    by_cases hkj : k = j
    · subst hkj
      rw [if_pos rfl] at h
      cases h
      exact List.mem_cons_self ..
    · rw [if_neg hkj] at h
      exact List.mem_cons_of_mem _ (mem_of_lookup h)

/-- Where no key stands twice, every entry is what its key is looked up as. -/
theorem lookup_of_mem {k : K} {v : V} : ∀ {d : List (K × V)}, (d.map Prod.fst).Nodup →
    (k, v) ∈ d → d.lookup k = some v
  | (j, w) :: d, hnodup, h => by
    rw [List.map_cons, List.nodup_cons] at hnodup
    rw [lookup_cons_if]
    rcases List.mem_cons.mp h with heq | h
    · cases heq
      exact if_pos rfl
    · have hkj : k ≠ j := fun hkj => hnodup.1 (List.mem_map.mpr ⟨_, h, hkj⟩)
      rw [if_neg hkj]
      exact lookup_of_mem hnodup.2 h

/-- What is set last stays. -/
theorem lookup_sets (j : K) : ∀ (pairs d : List (K × V)),
    (pairs.foldl (fun d pair => set pair.1 pair.2 d) d).lookup j =
      (pairs.reverse.lookup j).or (d.lookup j)
  | [], d => by simp
  | (k, v) :: pairs, d => by
    rw [List.foldl_cons, lookup_sets j pairs, lookup_set, List.reverse_cons, List.lookup_append,
      Option.or_assoc, lookup_cons_if]
    by_cases hjk : j = k <;> simp [hjk]

/-- Pairs that were set one after the other are all found if and only if no two disagree. -/
theorem lookup_sets_iff {pairs : List (K × V)} :
    (∀ pair ∈ pairs, (pairs.foldl (fun d pair => set pair.1 pair.2 d) []).lookup pair.1 =
      some pair.2) ↔
    ∀ pair ∈ pairs, ∀ other ∈ pairs, pair.1 = other.1 → pair.2 = other.2 := by
  constructor
  · intro h pair hpair other hother heq
    have hfound := h pair hpair
    rw [heq, h other hother] at hfound
    exact (Option.some.inj hfound).symm
  · intro h pair hpair
    rw [lookup_sets, List.lookup_nil, Option.or_none]
    obtain ⟨v, hv⟩ : ∃ v, pairs.reverse.lookup pair.1 = some v := by
      cases hlookup : pairs.reverse.lookup pair.1 with
      | some v => exact ⟨v, rfl⟩
      | none =>
        have hne := List.lookup_eq_none_iff.mp hlookup pair (List.mem_reverse.mpr hpair)
        simp at hne
    rw [hv, h pair hpair _ (List.mem_reverse.mp (mem_of_lookup hv)) rfl]

/-! ### Indexes -/

variable {α : Type}

/-- `d[k].append(v)` of a `defaultdict(list)`. -/
def push (k : K) (v : α) : List (K × List α) → List (K × List α)
  | [] => [(k, [v])]
  | (j, vs) :: d => if j = k then (k, vs ++ [v]) :: d else (j, vs) :: push k v d

/-- The items of a list by their keys; an item without one is left out. -/
def groupBy (key : α → Option K) (xs : List α) : List (K × List α) :=
  xs.foldl (fun d x => match key x with
    | some k => push k x d
    | none => d) []

/-- The last item of a list for each key. -/
def indexBy (key : α → K) (xs : List α) : List (K × α) := xs.foldl (fun d x => set (key x) x d) []

theorem lookup_push (k j : K) (v : α) : ∀ d : List (K × List α),
    ((push k v d).lookup j).getD [] = (d.lookup j).getD [] ++ if j = k then [v] else []
  | [] => by
    rw [push, lookup_cons_if]
    split <;> rfl
  | (i, vs) :: d => by
    by_cases hik : i = k
    · subst hik
      rw [push, if_pos rfl, lookup_cons_if, lookup_cons_if]
      by_cases hji : j = i
      · rw [if_pos hji, if_pos hji, if_pos hji]
        rfl
      · rw [if_neg hji, if_neg hji, if_neg hji, List.append_nil]
    · rw [push, if_neg hik, lookup_cons_if, lookup_cons_if]
      by_cases hji : j = i
      · have hjk : j ≠ k := fun hjk => hik (hji.symm.trans hjk)
        rw [if_pos hji, if_pos hji, if_neg hjk, List.append_nil]
      · rw [if_neg hji, if_neg hji, lookup_push k j v d]

/-- CALL RULE: under a key stand the items of that key, in their order. -/
theorem lookup_groupBy (key : α → Option K) (j : K) (xs : List α) :
    ((groupBy key xs).lookup j).getD [] = xs.filter (key · = some j) := by
  induction xs using List.reverseRecOn with
  | nil => rfl
  | append_singleton xs x ih =>
    rw [groupBy, List.foldl_append, ← groupBy, List.filter_append, ← ih, List.foldl_cons,
      List.foldl_nil]
    rcases hkey : key x with _ | k
    · simp [hkey]
    · simp only
      rw [lookup_push, List.filter_cons, hkey, List.filter_nil]
      by_cases hjk : j = k
      · simp [hjk]
      · simp [hjk, Ne.symm hjk]

/-- CALL RULE: under a key stands the last item of that key. -/
theorem lookup_indexBy (key : α → K) (j : K) (xs : List α) :
    (indexBy key xs).lookup j = xs.reverse.find? (key · = j) := by
  induction xs using List.reverseRecOn with
  | nil => rfl
  | append_singleton xs x ih =>
    rw [indexBy, List.foldl_append, ← indexBy, List.foldl_cons, List.foldl_nil, lookup_set, ih,
      List.reverse_append, List.reverse_singleton, List.singleton_append, List.find?_cons]
    by_cases hjx : j = key x
    · simp [hjx]
    · simp [hjx, Ne.symm hjx]

end Dpone.Schemes.Dict
