import Mathlib.Data.List.Lex
import Mathlib.Data.List.Perm.Subperm
import Dpone.Schemes.JsonRoundTrip
import Dpone.Schemes.Sorted
import Dpone.Schemes.Utf

/-! Canonical JSON: compact texts with the fields of every object in the order of their names. -/

namespace Dpone.Schemes.JsonValue

mutual

/-- What `sort_keys` makes of a document before it is written. -/
def sortKeys : JsonValue → JsonValue
  | .arr items => .arr (sortItems items)
  | .obj fields => .obj (sortedBy Prod.fst (sortFields fields))
  | v => v

def sortItems : List JsonValue → List JsonValue
  | [] => []
  | item :: items => sortKeys item :: sortItems items

def sortFields : List (PyText × JsonValue) → List (PyText × JsonValue)
  | [] => []
  | (key, value) :: fields => (key, sortKeys value) :: sortFields fields

end

/-- `json.dumps(value, ensure_ascii=False, separators=(",", ":"), sort_keys=True)`. -/
def canonicalText (floatText : PyFloat → PyText) (v : JsonValue) : PyText :=
  dumps floatText (sortKeys v)

/-! ### What sorting keeps -/

theorem sortItems_eq : ∀ items : List JsonValue, sortItems items = items.map sortKeys
  | [] => rfl
  | item :: items => by rw [sortItems, sortItems_eq items, List.map_cons]

theorem sortFields_eq : ∀ fields : List (PyText × JsonValue),
    sortFields fields = fields.map fun f => (f.1, sortKeys f.2)
  | [] => rfl
  | (key, value) :: fields => by rw [sortFields, sortFields_eq fields, List.map_cons]

@[simp] theorem sortFields_keys (fields : List (PyText × JsonValue)) :
    (sortFields fields).map Prod.fst = fields.map Prod.fst := by
  rw [sortFields_eq, List.map_map]
  rfl

theorem sortFields_sortedBy (fields : List (PyText × JsonValue)) :
    sortFields (sortedBy Prod.fst fields) = sortedBy Prod.fst (sortFields fields) := by
  rw [sortFields_eq, sortFields_eq]
  exact sortedBy_map Prod.fst Prod.fst (fun f => (f.1, sortKeys f.2)) (fun _ => rfl) fields

mutual

/-- Sorting twice sorts once. -/
theorem sortKeys_sortKeys : ∀ v : JsonValue, sortKeys (sortKeys v) = sortKeys v
  | .null => rfl
  | .bool _ => rfl
  | .int _ => rfl
  | .float _ => rfl
  | .str _ => rfl
  | .arr items => congrArg JsonValue.arr (sortItems_sortItems items)
  | .obj fields => by
    rw [sortKeys, sortKeys, sortFields_sortedBy, sortFields_sortFields fields, sortedBy_sortedBy]

theorem sortItems_sortItems : ∀ items : List JsonValue,
    sortItems (sortItems items) = sortItems items
  | [] => rfl
  | item :: items => congrArg₂ List.cons (sortKeys_sortKeys item) (sortItems_sortItems items)

theorem sortFields_sortFields : ∀ fields : List (PyText × JsonValue),
    sortFields (sortFields fields) = sortFields fields
  | [] => rfl
  | (key, value) :: fields => by
    rw [sortFields, sortFields, sortKeys_sortKeys value, sortFields_sortFields fields]

end

section Regular
variable {P : PyFloat → Prop} {Q : PyText → Prop}

theorem regularItems_iff : ∀ {items : List JsonValue},
    RegularItems P Q items ↔ ∀ item ∈ items, Regular P Q item
  | [] => by simp [RegularItems]
  | item :: items => by rw [RegularItems, regularItems_iff, List.forall_mem_cons]

theorem regularFields_iff : ∀ {fields : List (PyText × JsonValue)},
    RegularFields P Q fields ↔ ∀ f ∈ fields, Q f.1 ∧ Regular P Q f.2
  | [] => by simp [RegularFields]
  | (key, value) :: fields => by
    rw [RegularFields, regularFields_iff, List.forall_mem_cons, and_assoc]

mutual

theorem Regular.sortKeys : ∀ {v : JsonValue}, Regular P Q v → Regular P Q v.sortKeys
  | .null, h => h
  | .bool _, h => h
  | .int _, h => h
  | .float _, h => h
  | .str _, h => h
  | .arr _, h => RegularItems.sortItems h
  | .obj fields, h => by
    have hperm := sortedBy_perm Prod.fst (sortFields fields)
    refine ⟨?_, ?_⟩
    · rw [(hperm.map Prod.fst).nodup_iff, sortFields_keys]
      exact h.1
    · rw [regularFields_iff]
      intro f hf
      exact regularFields_iff.mp (RegularFields.sortFields h.2) f (hperm.mem_iff.mp hf)

theorem RegularItems.sortItems : ∀ {items : List JsonValue}, RegularItems P Q items →
    RegularItems P Q (sortItems items)
  | [], _ => trivial
  | _ :: _, h => ⟨h.1.sortKeys, RegularItems.sortItems h.2⟩

theorem RegularFields.sortFields : ∀ {fields : List (PyText × JsonValue)},
    RegularFields P Q fields → RegularFields P Q (sortFields fields)
  | [], _ => trivial
  | (_, _) :: _, h => ⟨h.1, h.2.1.sortKeys, RegularFields.sortFields h.2.2⟩

end

end Regular

/-! ### Objects as sets of fields -/

/-- The fields of a sorted object are those of the object, with their values sorted. -/
theorem lookup_sorted {fields : List (PyText × JsonValue)} (hnodup : (fields.map Prod.fst).Nodup)
    {key : PyText} {value : JsonValue} (h : fields.lookup key = some value) :
    (sortedBy Prod.fst (sortFields fields)).lookup key = some (sortKeys value) := by
  have hperm := sortedBy_perm Prod.fst (sortFields fields)
  refine Dict.lookup_of_mem ?_ (hperm.mem_iff.mpr ?_)
  · rw [(hperm.map Prod.fst).nodup_iff, sortFields_keys]
    exact hnodup
  · rw [sortFields_eq]
    exact List.mem_map.mpr ⟨_, Dict.mem_of_lookup h, rfl⟩

/-- Two objects with the same keys, whose values sort to the same, sort to the same. -/
theorem sortKeys_obj_eq {fields others : List (PyText × JsonValue)}
    (hnodup : (fields.map Prod.fst).Nodup) (hother : (others.map Prod.fst).Nodup)
    (hkeys : ∀ key, key ∈ fields.map Prod.fst ↔ key ∈ others.map Prod.fst)
    (hvalues : ∀ f ∈ fields, ∃ value, others.lookup f.1 = some value ∧
      sortKeys value = sortKeys f.2) :
    sortKeys (.obj fields) = sortKeys (.obj others) := by
  have hsub : ∀ f ∈ sortFields fields, f ∈ sortFields others := by
    intro f hf
    rw [sortFields_eq] at hf ⊢
    obtain ⟨⟨key, value⟩, hmem, rfl⟩ := List.mem_map.mp hf
    obtain ⟨value', hlookup, hsame⟩ := hvalues _ hmem
    exact List.mem_map.mpr ⟨(key, value'), Dict.mem_of_lookup hlookup, by rw [hsame]⟩
  have hnodup' : (sortFields fields).Nodup := by
    refine List.Nodup.of_map Prod.fst ?_
    rw [sortFields_keys]
    exact hnodup
  have hlength : (sortFields others).length ≤ (sortFields fields).length := by
    have hle := (List.Nodup.subperm hother fun key hkey => (hkeys key).mpr hkey).length_le
    simpa [sortFields_eq] using hle
  have hperm : (sortFields fields).Perm (sortFields others) :=
    (List.Nodup.subperm hnodup' hsub).perm_of_length_le hlength
  rw [sortKeys, sortKeys]
  refine congrArg JsonValue.obj (sortedBy_congr hperm ?_)
  intro a ha b hb hab
  refine List.inj_on_of_nodup_map ?_ ha hb hab
  rw [sortFields_keys]
  exact hnodup

end Dpone.Schemes.JsonValue

namespace Dpone.Schemes

/-- `text.encode("utf-8")`, which no lone surrogate survives. -/
def utf8 (s : PyText) : Option Bytes := (charsOf s).map encodeUtf8

end Dpone.Schemes
