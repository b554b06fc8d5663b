import Dpone.Schemes.Dict
import Dpone.Schemes.IsoText
import Dpone.Schemes.JsonIndented
import Dpone.Schemes.Records

/-! The snapshot store of child keys: `snapshot_store.py`.

    One JSON file holds a slot for each pair of tables, under the pair's joined name; a slot has a
    staged and a committed record. What the store is for is said by the history of the calls:
    `snapshotOf` is what the last load that committed had staged. RUN: that is what the store
    returns, as long as pairs keep their names apart and the staged values are of types that JSON
    has; every other value becomes its text. -/

namespace Dpone.Normalization
open Dpone.Schemes

namespace SnapshotStore

/-! ### Keys -/

/-- A value of a child key. -/
inductive Scalar where
  | none
  | bool (b : Bool)
  | int (n : ℤ)
  | float (f : PyFloat)
  | text (s : PyText)
  | date (d : Date)
  | datetime (t : DateTime)
  | bytes (b : Bytes)

/-- One byte inside `repr(bytes)`, whose quote is given. -/
def byteText (quote b : UInt8) : Str :=
  if b = quote ∨ b = 92 then ['\\', Char.ofNat b.toNat]
  else if b = 9 then ['\\', 't']
  else if b = 10 then ['\\', 'n']
  else if b = 13 then ['\\', 'r']
  else if b < 32 ∨ 127 ≤ b then '\\' :: 'x' :: numeral 16 2 b.toNat
  else [Char.ofNat b.toNat]

/-- `str(value)` of bytes. -/
def bytesText (bs : Bytes) : Str :=
  let quote : UInt8 := if 39 ∈ bs ∧ 34 ∉ bs then 34 else 39
  'b' :: Char.ofNat quote.toNat :: (bs.flatMap (byteText quote) ++ [Char.ofNat quote.toNat])

/-- What `json.dumps` writes of a value with `default=str`. -/
def Scalar.dumped : Scalar → JsonValue
  | .none => .null
  | .bool b => .bool b
  | .int n => .int n
  | .float f => .float f
  | .text s => .str s
  | .date d => .str (textOf d.isoformat)
  | .datetime t => .str (textOf (t.isoformat ' '))
  | .bytes b => .str (textOf (bytesText b))

def isNan (f : PyFloat) : Bool := infinityBits < f.val % 2 ^ 63

/-- `==` of a value and one that JSON has. No date, date-time or bytes object equals a text, and
    no NaN equals anything. -/
def Scalar.Equal : Scalar → JsonValue → Prop
  | .none, .null => True
  | .bool a, .bool b => a = b
  | .int a, .int b => a = b
  | .float a, .float b => a = b ∧ isNan a = false
  | .text a, .str b => a = b
  | _, _ => False

abbrev Fields := List (PyText × JsonValue)

/-- A mapping of columns. -/
structure ChildKey where
  fields : List (PyText × Scalar)
  nodup : (fields.map Prod.fst).Nodup

def ChildKey.dumpedFields (key : ChildKey) : Fields :=
  key.fields.map fun field => (field.1, field.2.dumped)

def ChildKey.dumped (key : ChildKey) : JsonValue := .obj key.dumpedFields

/-- A key that was read equals one that was staged. -/
def ChildKey.Equal (key : ChildKey) (read : Fields) : Prop :=
  List.Forall₂ (fun field other => field.1 = other.1 ∧ field.2.Equal other.2) key.fields read

/-! ### Records -/

structure Pair where
  root : PyText
  child : PyText
  deriving DecidableEq

/-- `_record_key`. -/
def recordKey (pair : Pair) : PyText := pair.root ++ pyText "::" ++ pair.child

structure ChildSnapshotRecord where
  pair : Pair
  uniqueKey : List PyText
  keys : List ChildKey
  loadId : PyText
  status : PyText

def ChildSnapshotRecord.toDict (r : ChildSnapshotRecord) : Fields :=
  [(pyText "root_table", .str r.pair.root), (pyText "child_table", .str r.pair.child),
   (pyText "unique_key", .arr (r.uniqueKey.map .str)),
   (pyText "keys", .arr (r.keys.map ChildKey.dumped)), (pyText "load_id", .str r.loadId),
   (pyText "status", .str r.status)]

/-! ### The file -/

/-- `notObject` is what Python raises where a dictionary or a list is missing. -/
inductive StoreError where
  | decode
  | json
  | notObject
  | encode
  | noStaged
  deriving DecidableEq

/-- `_load`. -/
def load : Option Bytes → Except StoreError Fields
  | none => .ok []
  | some content =>
    match decodeUtf8 content with
    | none => .error .decode
    | some text =>
      match JsonValue.loads JsonValue.Hooks.python (textOf text) with
      | none => .error .json
      | some (.obj data) => .ok data
      | some _ => .ok []

/-- `data.get(key, {})`. -/
def slotOf (pair : Pair) (data : Fields) : Except StoreError Fields :=
  match data.lookup (recordKey pair) with
  | none => .ok []
  | some (.obj slot) => .ok slot
  | some _ => .error .notObject

/-- The fields of an object. -/
def fieldsOf : JsonValue → Option Fields
  | .obj fields => some fields
  | _ => none

/-- The keys of a committed record. -/
def keysOf (record : Fields) : Except StoreError (List Fields) :=
  match record.lookup (pyText "keys") with
  | none | some (.obj _) | some (.str _) => .ok []
  | some (.arr items) => .ok (items.filterMap fieldsOf)
  | some _ => .error .notObject

/-- The keys of the committed record of a slot. -/
def committedKeys (slot : Fields) : Except StoreError (List Fields) :=
  match slot.lookup (pyText "committed") with
  | some (.obj record) => keysOf record
  | _ => .ok []

/-- `load_committed`. -/
def loadCommitted (file : Option Bytes) (pair : Pair) : Except StoreError (List Fields) := do
  let data ← load file
  let slot ← slotOf pair data
  committedKeys slot

/-- The file after a call, and whether the call returned. -/
abbrev Outcome := Option Bytes × Except StoreError Unit

/-- The staged record of a slot, if a load staged it. -/
def stagedOf (loadId : PyText) (slot : Fields) : Option Fields :=
  match slot.lookup (pyText "staged") with
  | some (.obj staged) =>
    match staged.lookup (pyText "load_id") with
    | some (.str id) => if id = loadId then some staged else none
    | _ => none
  | _ => none

/-- `slot.pop("staged", None)`. -/
def popStaged (slot : Fields) : Fields := slot.filter fun field => field.1 ≠ pyText "staged"

section Store
variable (floatText : PyFloat → PyText)

/-- `_save`. The file is emptied before a text that UTF-8 does not encode is refused. -/
def save (data : Fields) : Outcome :=
  match charsOf (JsonValue.indented floatText 0 (.obj data) ++ [cp '\n']) with
  | none => (some [], .error .encode)
  | some text => (some (encodeUtf8 text), .ok ())

/-- Reading the slot of a pair before it is changed. -/
def opened (file : Option Bytes) (pair : Pair) : Except StoreError (Fields × Fields) := do
  let data ← load file
  let slot ← slotOf pair data
  return (data, slot)

/-- Writing a slot. -/
def saveSlot (pair : Pair) (data slot : Fields) : Outcome :=
  save floatText (Dict.set (recordKey pair) (.obj slot) data)

/-- `stage_snapshot`. -/
def stageSnapshot (file : Option Bytes) (pair : Pair) (uniqueKey : List PyText)
    (keys : List ChildKey) (loadId : PyText) : Outcome :=
  match opened file pair with
  | .error e => (file, .error e)
  | .ok (data, slot) => saveSlot floatText pair data (Dict.set (pyText "staged")
      (.obj (ChildSnapshotRecord.toDict ⟨pair, uniqueKey, keys, loadId, pyText "staged"⟩)) slot)

/-- `commit_snapshot`. -/
def commitSnapshot (file : Option Bytes) (pair : Pair) (loadId : PyText) : Outcome :=
  match opened file pair with
  | .error e => (file, .error e)
  | .ok (data, slot) =>
    match stagedOf loadId slot with
    | none => (file, .error .noStaged)
    | some staged =>
      let committed := Dict.set (pyText "status") (.str (pyText "committed")) staged
      saveSlot floatText pair data
        (popStaged (Dict.set (pyText "committed") (.obj committed) slot))

/-- `rollback_staged`. -/
def rollbackStaged (file : Option Bytes) (pair : Pair) (loadId : PyText) : Outcome :=
  match opened file pair with
  | .error e => (file, .error e)
  | .ok (data, slot) =>
    match stagedOf loadId slot with
    | none => (file, .ok ())
    | some _ => saveSlot floatText pair data (popStaged slot)

/-! ### Runs -/

inductive Call where
  | stage (pair : Pair) (uniqueKey : List PyText) (keys : List ChildKey) (loadId : PyText)
  | commit (pair : Pair) (loadId : PyText)
  | rollback (pair : Pair) (loadId : PyText)

def Call.pair : Call → Pair
  | .stage pair _ _ _ | .commit pair _ | .rollback pair _ => pair

def perform (file : Option Bytes) : Call → Outcome
  | .stage pair uniqueKey keys loadId => stageSnapshot floatText file pair uniqueKey keys loadId
  | .commit pair loadId => commitSnapshot floatText file pair loadId
  | .rollback pair loadId => rollbackStaged floatText file pair loadId

/-- A call that returned, or raised. -/
structure Event where
  call : Call
  succeeded : Bool

/-- The file and the calls so far, the newest first. -/
structure Ledger where
  file : Option Bytes := none
  history : List Event := []

def Ledger.step (l : Ledger) (call : Call) : Ledger :=
  let outcome := perform floatText l.file call
  ⟨outcome.1, ⟨call, outcome.2.toBool⟩ :: l.history⟩

def run (calls : List Call) : Ledger := calls.foldl (Ledger.step floatText) {}

end Store

/-! ### What a history commits -/

/-- The keys that a call staged for a pair and a load. -/
def Event.stages (pair : Pair) (loadId : PyText) (e : Event) : Option (List ChildKey) :=
  match e.call with
  | .stage p _ keys id => if e.succeeded ∧ p = pair ∧ id = loadId then some keys else none
  | _ => none

/-- The load that a call committed for a pair. -/
def Event.commits (pair : Pair) (e : Event) : Option PyText :=
  match e.call with
  | .commit p id => if e.succeeded ∧ p = pair then some id else none
  | _ => none

/-- What a load staged last. -/
def stagedBy (pair : Pair) (loadId : PyText) (history : List Event) : Option (List ChildKey) :=
  history.findSome? (Event.stages pair loadId)

/-- What the last load that committed had staged. -/
def snapshotOf (pair : Pair) : List Event → List ChildKey
  | [] => []
  | e :: earlier =>
    match e.commits pair with
    | some loadId => (stagedBy pair loadId earlier).getD []
    | none => snapshotOf pair earlier

/-! ### Regular documents -/

section Regular
variable {P : PyFloat → Prop} {Q : PyText → Prop}

theorem regularItems_iff {items : List JsonValue} :
    JsonValue.RegularItems P Q items ↔ ∀ item ∈ items, JsonValue.Regular P Q item := by
  induction items with
  | nil => exact ⟨fun _ => nofun, fun _ => trivial⟩
  | cons item items ih => rw [JsonValue.RegularItems, ih, List.forall_mem_cons]

theorem regularFields_iff {fields : Fields} : JsonValue.RegularFields P Q fields ↔
    ∀ field ∈ fields, Q field.1 ∧ JsonValue.Regular P Q field.2 := by
  induction fields with
  | nil => exact ⟨fun _ => nofun, fun _ => trivial⟩
  | cons field fields ih => rw [JsonValue.RegularFields, ih, List.forall_mem_cons, and_assoc]

/-- A field that is set keeps an object regular. -/
theorem regular_set {key : PyText} {value : JsonValue} {fields : Fields}
    (hfields : JsonValue.Regular P Q (.obj fields)) (hkey : Q key)
    (hvalue : JsonValue.Regular P Q value) :
    JsonValue.Regular P Q (.obj (Dict.set key value fields)) := by
  obtain ⟨hnodup, hregular⟩ := hfields
  rw [regularFields_iff] at hregular
  refine ⟨Dict.nodup_set key value hnodup, regularFields_iff.mpr ?_⟩
  intro field hfield
  rcases Dict.mem_set hfield with rfl | hfield
  · exact ⟨hkey, hvalue⟩
  · exact hregular field hfield

theorem regular_popStaged {slot : Fields} (h : JsonValue.Regular P Q (.obj slot)) :
    JsonValue.Regular P Q (.obj (popStaged slot)) := by
  obtain ⟨hnodup, hregular⟩ := h
  rw [regularFields_iff] at hregular
  refine ⟨hnodup.sublist (List.filter_sublist.map _), regularFields_iff.mpr ?_⟩
  exact fun field hfield => hregular field (List.mem_filter.mp hfield).1

theorem regular_lookup {key : PyText} {value : JsonValue} {fields : Fields}
    (hfields : JsonValue.Regular P Q (.obj fields)) (hlookup : fields.lookup key = some value) :
    Q key ∧ JsonValue.Regular P Q value :=
  regularFields_iff.mp hfields.2 _ (Dict.mem_of_lookup hlookup)

theorem lookup_popStaged (key : PyText) (slot : Fields) :
    (popStaged slot).lookup key = if key = pyText "staged" then none else slot.lookup key := by
  induction slot with
  | nil => simp [popStaged]
  | cons field slot ih =>
    obtain ⟨name, value⟩ := field
    unfold popStaged at ih ⊢
    rw [List.filter_cons, Dict.lookup_cons_if]
    by_cases hname : name = pyText "staged"
    · rw [if_neg (by simp [hname]), ih, hname]
      split_ifs <;> rfl
    · rw [if_pos (by simp [hname]), Dict.lookup_cons_if, ih]
      by_cases hkey : key = name
      · rw [if_pos hkey, if_pos hkey, hkey, if_neg hname]
      · rw [if_neg hkey, if_neg hkey]

end Regular

/-! ### Calls -/

/-- A value that comes back from JSON equal to itself, for the floats whose text is read back. -/
def Scalar.Faithful (P : PyFloat → Prop) : Scalar → Prop
  | .float f => P f ∧ isNan f = false
  | .text s => JsonValue.NoSurrogate s
  | .date _ | .datetime _ | .bytes _ => False
  | _ => True

/-- Names and values that the file keeps. -/
def Call.Faithful (P : PyFloat → Prop) : Call → Prop
  | .stage pair uniqueKey keys loadId =>
    JsonValue.NoSurrogate (recordKey pair) ∧ (∀ name ∈ uniqueKey, JsonValue.NoSurrogate name) ∧
      (∀ key ∈ keys, ∀ field ∈ key.fields,
        JsonValue.NoSurrogate field.1 ∧ field.2.Faithful P) ∧ JsonValue.NoSurrogate loadId
  | _ => True

/-- What a call that writes makes of the slot of its pair. -/
inductive SlotStep (slot : Fields) : Call → Fields → Prop
  | stage (pair uniqueKey keys loadId) : SlotStep slot (.stage pair uniqueKey keys loadId)
      (Dict.set (pyText "staged") (.obj (ChildSnapshotRecord.toDict
        ⟨pair, uniqueKey, keys, loadId, pyText "staged"⟩)) slot)
  | commit (pair loadId staged) (h : stagedOf loadId slot = some staged) :
      SlotStep slot (.commit pair loadId) (popStaged (Dict.set (pyText "committed")
        (.obj (Dict.set (pyText "status") (.str (pyText "committed")) staged)) slot))
  | rollback (pair loadId) : SlotStep slot (.rollback pair loadId) (popStaged slot)

section Calls
variable {P : PyFloat → Prop} {floatText : PyFloat → PyText}

theorem regular_key {key : ChildKey} (h : ∀ field ∈ key.fields,
    JsonValue.NoSurrogate field.1 ∧ field.2.Faithful P) :
    JsonValue.Regular P JsonValue.NoSurrogate key.dumped := by
  have hnames : key.dumpedFields.map Prod.fst = key.fields.map Prod.fst := by
    simp [ChildKey.dumpedFields]
  refine ⟨by rw [hnames]; exact key.nodup, regularFields_iff.mpr ?_⟩
  unfold ChildKey.dumpedFields
  rw [List.forall_mem_map]
  intro field hfield
  obtain ⟨hname, hvalue⟩ := h field hfield
  refine ⟨hname, ?_⟩
  cases hscalar : field.2 with
  | none => trivial
  | bool b => trivial
  | int n => trivial
  | float f =>
    rw [hscalar] at hvalue
    exact hvalue.1
  | text s =>
    rw [hscalar] at hvalue
    exact hvalue
  | date d => exact JsonValue.noSurrogate_textOf _
  | datetime t => exact JsonValue.noSurrogate_textOf _
  | bytes b => exact JsonValue.noSurrogate_textOf _

theorem NoSurrogate.left {s t : PyText} (h : JsonValue.NoSurrogate (s ++ t)) :
    JsonValue.NoSurrogate s := fun c hc => h c (List.mem_append_left t hc)

theorem regular_record {pair : Pair} {uniqueKey : List PyText} {keys : List ChildKey}
    {loadId : PyText} (h : (Call.stage pair uniqueKey keys loadId).Faithful P) :
    JsonValue.Regular P JsonValue.NoSurrogate (.obj (ChildSnapshotRecord.toDict
      ⟨pair, uniqueKey, keys, loadId, pyText "staged"⟩)) := by
  obtain ⟨hpair, hunique, hkeys, hload⟩ := h
  have hroot : JsonValue.NoSurrogate pair.root := NoSurrogate.left (NoSurrogate.left hpair)
  have hchild : JsonValue.NoSurrogate pair.child :=
    fun c hc => hpair c (List.mem_append_right _ hc)
  have hliteral : ∀ s, JsonValue.NoSurrogate (pyText s) :=
    fun s => JsonValue.noSurrogate_textOf _
  have hnames : [pyText "root_table", pyText "child_table", pyText "unique_key", pyText "keys",
      pyText "load_id", pyText "status"].Nodup := by decide
  refine ⟨hnames, ⟨hliteral _, hroot, hliteral _, hchild, hliteral _, ?_, hliteral _, ?_,
    hliteral _, hload, hliteral _, hliteral _, trivial⟩⟩
  · refine regularItems_iff.mpr ?_
    rw [List.forall_mem_map]
    exact hunique
  · refine regularItems_iff.mpr ?_
    rw [List.forall_mem_map]
    exact fun key hkey => regular_key (hkeys key hkey)

/-- What is saved is loaded. -/
theorem save_load (hspelled : JsonValue.Spelled floatText JsonValue.Hooks.python P) {data : Fields}
    (h : JsonValue.Regular P JsonValue.NoSurrogate (.obj data)) :
    ∃ file, save floatText data = (file, .ok ()) ∧ load file = .ok data := by
  obtain ⟨text, htext⟩ := JsonValue.NoSurrogate.chars (JsonValue.noSurrogate_append
    (JsonValue.noSurrogate_indented hspelled h) (JsonValue.noSurrogate_textOf ['\n']))
  have hread := JsonValue.loads_indented hspelled h
  refine ⟨some (encodeUtf8 text), ?_, ?_⟩
  · unfold save
    rw [show [cp '\n'] = textOf ['\n'] from rfl, htext]
  · unfold load
    simp only [decodeUtf8_encodeUtf8, textOf_of_charsOf htext]
    rw [show textOf ['\n'] = [cp '\n'] from rfl, hread]

theorem regular_slot {pair : Pair} {data slot : Fields}
    (hdata : JsonValue.Regular P JsonValue.NoSurrogate (.obj data))
    (hslot : slotOf pair data = .ok slot) :
    JsonValue.Regular P JsonValue.NoSurrogate (.obj slot) ∧
      (slot ≠ [] → JsonValue.NoSurrogate (recordKey pair)) := by
  unfold slotOf at hslot
  split at hslot
  · cases hslot
    exact ⟨⟨List.nodup_nil, trivial⟩, fun h => absurd rfl h⟩
  · next hlookup =>
    cases hslot
    obtain ⟨hkey, hvalue⟩ := regular_lookup hdata hlookup
    exact ⟨hvalue, fun _ => hkey⟩
  · cases hslot

/-- A staged record stands in the slot, and names its load. -/
theorem stagedOf_eq {loadId : PyText} {slot record : Fields} :
    stagedOf loadId slot = some record ↔ slot.lookup (pyText "staged") = some (.obj record) ∧
      record.lookup (pyText "load_id") = some (.str loadId) := by
  unfold stagedOf
  constructor
  · intro h
    split at h
    · next staged hstaged =>
      split at h
      · next id hid =>
        split_ifs at h with heq
        cases h
        exact ⟨hstaged, by rw [hid, heq]⟩
      · cases h
    · cases h
  · rintro ⟨hstaged, hid⟩
    simp only [hstaged, hid, if_pos]

theorem saveSlot_load (hspelled : JsonValue.Spelled floatText JsonValue.Hooks.python P)
    {pair : Pair} {data slot : Fields}
    (hdata : JsonValue.Regular P JsonValue.NoSurrogate (.obj data))
    (hkey : JsonValue.NoSurrogate (recordKey pair))
    (hslot : JsonValue.Regular P JsonValue.NoSurrogate (.obj slot)) :
    ∃ file, saveSlot floatText pair data slot = (file, .ok ()) ∧
      load file = .ok (Dict.set (recordKey pair) (.obj slot) data) ∧
      JsonValue.Regular P JsonValue.NoSurrogate
        (.obj (Dict.set (recordKey pair) (.obj slot) data)) := by
  have hregular := regular_set hdata hkey hslot
  obtain ⟨file, hsave, hload⟩ := save_load hspelled hregular
  exact ⟨file, hsave, hload, hregular⟩

/-- STEP: a call leaves the file, having raised or found nothing to roll back, or it returns and
    the slot of its pair is replaced. -/
theorem perform_cases (hspelled : JsonValue.Spelled floatText JsonValue.Hooks.python P)
    {file : Option Bytes} {data : Fields} (hload : load file = .ok data)
    (hdata : JsonValue.Regular P JsonValue.NoSurrogate (.obj data)) {call : Call}
    (hcall : call.Faithful P) :
    ((perform floatText file call).1 = file ∧ ((perform floatText file call).2.toBool = false ∨
      ∃ pair loadId, call = .rollback pair loadId)) ∨
    ∃ slot slot' file', slotOf call.pair data = .ok slot ∧ SlotStep slot call slot' ∧
      perform floatText file call = (file', .ok ()) ∧
      load file' = .ok (Dict.set (recordKey call.pair) (.obj slot') data) ∧
      JsonValue.Regular P JsonValue.NoSurrogate
        (.obj (Dict.set (recordKey call.pair) (.obj slot') data)) := by
  have hopened : ∀ pair, opened file pair = (slotOf pair data).map fun slot => (data, slot) := by
    intro pair
    rw [opened, hload, ok_bind]
    cases slotOf pair data <;> rfl
  have hliteral : ∀ s, JsonValue.NoSurrogate (pyText s) :=
    fun s => JsonValue.noSurrogate_textOf _
  cases hslot : slotOf call.pair data with
  | error e =>
    refine .inl ?_
    cases call <;>
      (simp only [Call.pair] at hslot
       simp [perform, stageSnapshot, commitSnapshot, rollbackStaged, hopened, hslot, Except.map,
         Except.toBool])
  | ok slot =>
    obtain ⟨hregular, hname⟩ := regular_slot hdata hslot
    cases call with
    | stage pair uniqueKey keys loadId =>
      rw [Call.pair] at hslot
      obtain ⟨file', hsave, hread, hregular'⟩ := saveSlot_load hspelled hdata hcall.1
        (regular_set hregular (hliteral "staged") (regular_record hcall))
      refine .inr ⟨slot, _, file', rfl, .stage pair uniqueKey keys loadId, ?_, hread, hregular'⟩
      rw [perform, stageSnapshot, hopened, hslot]
      exact hsave
    | commit pair loadId =>
      rw [Call.pair] at hslot
      cases hstaged : stagedOf loadId slot with
      | none =>
        refine .inl ?_
        rw [perform, commitSnapshot, hopened, hslot]
        simp [Except.map, hstaged, Except.toBool]
      | some staged =>
        obtain ⟨hin, -⟩ := stagedOf_eq.mp hstaged
        have hne : slot ≠ [] := by
          rintro rfl
          cases hin
        have hstagedRegular := (regular_lookup hregular hin).2
        have hcommitted : JsonValue.Regular P JsonValue.NoSurrogate
            (.str (pyText "committed")) := hliteral "committed"
        obtain ⟨file', hsave, hread, hregular'⟩ := saveSlot_load hspelled hdata (hname hne)
          (regular_popStaged (regular_set hregular (hliteral "committed")
            (regular_set hstagedRegular (hliteral "status") hcommitted)))
        refine .inr ⟨slot, _, file', rfl, .commit pair loadId staged hstaged, ?_, hread, hregular'⟩
        rw [perform, commitSnapshot, hopened, hslot]
        simp only [Except.map, hstaged]
        exact hsave
    | rollback pair loadId =>
      rw [Call.pair] at hslot
      cases hstaged : stagedOf loadId slot with
      | none =>
        refine .inl ⟨?_, .inr ⟨pair, loadId, rfl⟩⟩
        rw [perform, rollbackStaged, hopened, hslot]
        simp [Except.map, hstaged]
      | some staged =>
        obtain ⟨hin, -⟩ := stagedOf_eq.mp hstaged
        have hne : slot ≠ [] := by
          rintro rfl
          cases hin
        obtain ⟨file', hsave, hread, hregular'⟩ := saveSlot_load hspelled hdata (hname hne)
          (regular_popStaged hregular)
        refine .inr ⟨slot, _, file', rfl, .rollback pair loadId, ?_, hread, hregular'⟩
        rw [perform, rollbackStaged, hopened, hslot]
        simp only [Except.map, hstaged]
        exact hsave

end Calls

/-! ### Runs -/

theorem keysOf_dumped {record : Fields} {keys : List ChildKey}
    (h : record.lookup (pyText "keys") = some (.arr (keys.map ChildKey.dumped))) :
    keysOf record = .ok (keys.map ChildKey.dumpedFields) := by
  have hfields : (keys.map ChildKey.dumped).filterMap fieldsOf =
      keys.map ChildKey.dumpedFields := by
    have hsome : fieldsOf ∘ ChildKey.dumped = some ∘ ChildKey.dumpedFields := rfl
    rw [List.filterMap_map, hsome, List.filterMap_eq_map]
  rw [keysOf, h]
  simp only [hfields]

/-- A slot holds what the history says of its pair. -/
structure Agrees (pair : Pair) (history : List Event) (slot : Fields) : Prop where
  staged : ∀ loadId record, stagedOf loadId slot = some record →
    ∃ keys, stagedBy pair loadId history = some keys ∧
      record.lookup (pyText "keys") = some (.arr (keys.map ChildKey.dumped))
  committed : committedKeys slot = .ok ((snapshotOf pair history).map ChildKey.dumpedFields)

/-- An event that neither stages nor commits anything for a pair. -/
structure Event.Quiet (pair : Pair) (e : Event) : Prop where
  stages : ∀ loadId, e.stages pair loadId = none
  commits : e.commits pair = none

theorem Event.quiet_of_ne {pair : Pair} {e : Event} (h : e.call.pair ≠ pair) : e.Quiet pair := by
  obtain ⟨call, succeeded⟩ := e
  cases call <;> rw [Call.pair] at h <;>
    exact ⟨fun loadId => by simp [Event.stages, h], by simp [Event.commits, h]⟩

theorem Event.quiet_of_failed {pair : Pair} {call : Call} : Event.Quiet pair ⟨call, false⟩ := by
  cases call <;> exact ⟨fun loadId => by simp [Event.stages], by simp [Event.commits]⟩

theorem Event.quiet_rollback {pair p : Pair} {loadId : PyText} {succeeded : Bool} :
    Event.Quiet pair ⟨.rollback p loadId, succeeded⟩ := ⟨fun _ => rfl, rfl⟩

namespace Agrees
variable {pair : Pair} {history : List Event} {slot : Fields}

theorem quiet (h : Agrees pair history slot) {e : Event} (he : e.Quiet pair) :
    Agrees pair (e :: history) slot := by
  have hstaged : ∀ loadId, stagedBy pair loadId (e :: history) = stagedBy pair loadId history := by
    intro loadId
    rw [stagedBy, List.findSome?_cons, he.stages]
    rfl
  have hsnapshot : snapshotOf pair (e :: history) = snapshotOf pair history := by
    rw [snapshotOf, he.commits]
  refine ⟨fun loadId record hrecord => ?_, ?_⟩
  · rw [hstaged]
    exact h.staged loadId record hrecord
  · rw [hsnapshot]
    exact h.committed

/-- STEP: staging. -/
theorem stage (h : Agrees pair history slot) (uniqueKey : List PyText) (keys : List ChildKey)
    (loadId : PyText) :
    Agrees pair (⟨.stage pair uniqueKey keys loadId, true⟩ :: history)
      (Dict.set (pyText "staged") (.obj (ChildSnapshotRecord.toDict
        ⟨pair, uniqueKey, keys, loadId, pyText "staged"⟩)) slot) := by
  constructor
  · intro id record hrecord
    obtain ⟨hin, hid⟩ := stagedOf_eq.mp hrecord
    rw [Dict.lookup_set, if_pos rfl] at hin
    cases hin
    obtain rfl : loadId = id := by
      cases hid
      rfl
    refine ⟨keys, ?_, rfl⟩
    rw [stagedBy, List.findSome?_cons]
    simp [Event.stages]
  · have hcommitted : committedKeys (Dict.set (pyText "staged") (.obj
        (ChildSnapshotRecord.toDict ⟨pair, uniqueKey, keys, loadId, pyText "staged"⟩)) slot) =
        committedKeys slot := by
      rw [committedKeys, Dict.lookup_set, if_neg (by decide)]
      rfl
    rw [hcommitted]
    exact h.committed

/-- STEP: committing. -/
theorem commit (h : Agrees pair history slot) {loadId : PyText} {staged : Fields}
    (hstaged : stagedOf loadId slot = some staged) :
    Agrees pair (⟨.commit pair loadId, true⟩ :: history) (popStaged (Dict.set (pyText "committed")
      (.obj (Dict.set (pyText "status") (.str (pyText "committed")) staged)) slot)) := by
  obtain ⟨keys, hkeys, hrecord⟩ := h.staged loadId staged hstaged
  constructor
  · intro id record hpopped
    obtain ⟨hin, -⟩ := stagedOf_eq.mp hpopped
    rw [lookup_popStaged, if_pos rfl] at hin
    cases hin
  · have hsnapshot : snapshotOf pair (⟨.commit pair loadId, true⟩ :: history) = keys := by
      simp [snapshotOf, Event.commits, hkeys]
    rw [hsnapshot, committedKeys, lookup_popStaged, if_neg (by decide), Dict.lookup_set,
      if_pos rfl]
    refine keysOf_dumped ?_
    rw [Dict.lookup_set, if_neg (by decide), hrecord]

/-- STEP: rolling back. -/
theorem rollback (h : Agrees pair history slot) (loadId : PyText) :
    Agrees pair (⟨.rollback pair loadId, true⟩ :: history) (popStaged slot) := by
  constructor
  · intro id record hpopped
    obtain ⟨hin, -⟩ := stagedOf_eq.mp hpopped
    rw [lookup_popStaged, if_pos rfl] at hin
    cases hin
  · rw [committedKeys, lookup_popStaged, if_neg (by decide)]
    exact (h.quiet Event.quiet_rollback).committed

end Agrees

/-- A pair shares its joined name with no other pair of a call. -/
def Apart (pair : Pair) (call : Call) : Prop :=
  recordKey call.pair = recordKey pair → call.pair = pair

/-- INVARIANT: the file is regular, and the slot of a pair agrees with the history. -/
def Holds (P : PyFloat → Prop) (pair : Pair) (l : Ledger) : Prop :=
  ∃ data slot, load l.file = .ok data ∧
    JsonValue.Regular P JsonValue.NoSurrogate (.obj data) ∧
    slotOf pair data = .ok slot ∧ Agrees pair l.history slot

section Runs
variable {P : PyFloat → Prop} {floatText : PyFloat → PyText}

theorem Holds.loadCommitted {pair : Pair} {l : Ledger} (h : Holds P pair l) :
    loadCommitted l.file pair = .ok ((snapshotOf pair l.history).map ChildKey.dumpedFields) := by
  obtain ⟨data, slot, hload, -, hslot, hagrees⟩ := h
  rw [SnapshotStore.loadCommitted, hload, ok_bind, hslot, ok_bind]
  exact hagrees.committed

/-- STEP: one call. -/
theorem Holds.step (hspelled : JsonValue.Spelled floatText JsonValue.Hooks.python P) {pair : Pair}
    {l : Ledger} (h : Holds P pair l) {call : Call} (hcall : call.Faithful P)
    (hapart : Apart pair call) : Holds P pair (l.step floatText call) := by
  obtain ⟨data, slot, hload, hdata, hslot, hagrees⟩ := h
  rcases perform_cases hspelled hload hdata hcall with ⟨hfile, hquiet⟩ |
    ⟨opened, slot', file', hopened, hstep, hperform, hread, hregular⟩
  · refine ⟨data, slot, by rw [Ledger.step, hfile, hload], hdata, hslot, hagrees.quiet ?_⟩
    rcases hquiet with hfailed | ⟨p, loadId, rfl⟩
    · rw [hfailed]
      exact Event.quiet_of_failed
    · exact Event.quiet_rollback
  · have hledger : l.step floatText call = ⟨file', ⟨call, true⟩ :: l.history⟩ := by
      rw [Ledger.step, hperform]
      rfl
    rw [hledger]
    by_cases hpair : call.pair = pair
    · subst hpair
      obtain rfl : slot = opened := by
        rw [hslot] at hopened
        exact Except.ok.inj hopened
      refine ⟨_, slot', hread, hregular, ?_, ?_⟩
      · rw [slotOf, Dict.lookup_set, if_pos rfl]
      · cases hstep with
        | stage p uniqueKey keys loadId => exact hagrees.stage uniqueKey keys loadId
        | commit p loadId staged hstaged => exact hagrees.commit hstaged
        | rollback p loadId => exact hagrees.rollback loadId
    · refine ⟨_, slot, hread, hregular, ?_, hagrees.quiet (Event.quiet_of_ne hpair)⟩
      have hkey : recordKey pair ≠ recordKey call.pair := fun heq => hpair (hapart heq.symm)
      rw [slotOf, Dict.lookup_set, if_neg hkey]
      exact hslot

/-- RUN: any calls. -/
theorem holds_run (hspelled : JsonValue.Spelled floatText JsonValue.Hooks.python P) {pair : Pair}
    {calls : List Call} (hcalls : ∀ call ∈ calls, call.Faithful P)
    (hapart : ∀ call ∈ calls, Apart pair call) : Holds P pair (run floatText calls) := by
  induction calls using List.reverseRecOn with
  | nil =>
    exact ⟨[], [], rfl, ⟨List.nodup_nil, trivial⟩, rfl, ⟨by rintro _ _ ⟨⟩, rfl⟩⟩
  | append_singleton calls call ih =>
    rw [run, List.foldl_append]
    have hstep := ih (fun c hc => hcalls c (List.mem_append_left _ hc))
      (fun c hc => hapart c (List.mem_append_left _ hc))
    exact hstep.step hspelled (hcalls call (by simp)) (hapart call (by simp))

end Runs

/-! ### What is read back -/

section Faithful
variable {P : PyFloat → Prop} {floatText : PyFloat → PyText}

theorem Scalar.Faithful.equal {v : Scalar} (h : v.Faithful P) : v.Equal v.dumped := by
  cases v with
  | float f => exact ⟨rfl, h.2⟩
  | none => trivial
  | bool b => rfl
  | int n => rfl
  | text s => rfl
  | date d => exact h.elim
  | datetime t => exact h.elim
  | bytes b => exact h.elim

theorem equal_dumpedFields {key : ChildKey} (h : ∀ field ∈ key.fields, field.2.Faithful P) :
    key.Equal key.dumpedFields := by
  rw [ChildKey.Equal, ChildKey.dumpedFields, List.forall₂_map_right_iff]
  exact List.forall₂_same.mpr fun field hfield => ⟨rfl, (h field hfield).equal⟩

/-- What a history commits was staged in it. -/
theorem snapshotOf_faithful {pair : Pair} : ∀ {history : List Event},
    (∀ e ∈ history, e.call.Faithful P) → ∀ key ∈ snapshotOf pair history,
      ∀ field ∈ key.fields, field.2.Faithful P
  | [], _, key, hkey => by cases hkey
  | e :: earlier, h, key, hkey => by
    obtain ⟨-, hearlier⟩ := List.forall_mem_cons.mp h
    rw [snapshotOf] at hkey
    split at hkey
    · next loadId hcommits =>
      cases hstaged : stagedBy pair loadId earlier with
      | none =>
        rw [hstaged] at hkey
        cases hkey
      | some keys =>
        rw [hstaged] at hkey
        obtain ⟨e, he, hstages⟩ := List.exists_of_findSome?_eq_some hstaged
        obtain ⟨call, succeeded⟩ := e
        have hcall := hearlier _ he
        cases call with
        | stage p uniqueKey keys' id =>
          simp only [Event.stages] at hstages
          split_ifs at hstages
          cases hstages
          exact fun field hfield => (hcall.2.2.1 key hkey field hfield).2
        | commit p id => cases hstages
        | rollback p id => cases hstages
    · exact snapshotOf_faithful hearlier key hkey

theorem history_run (calls : List Call) :
    ∀ e ∈ (run floatText calls).history, e.call ∈ calls := by
  induction calls using List.reverseRecOn with
  | nil => exact nofun
  | append_singleton calls call ih =>
    rw [run, List.foldl_append]
    intro e he
    rcases List.mem_cons.mp he with rfl | he
    · exact List.mem_append_right _ (List.mem_singleton.mpr rfl)
    · exact List.mem_append_left _ (ih e he)

/-- RUN: a pair whose joined name no other pair has is read as the last load that committed had
    staged it, and nothing but its own commits that return changes what is read. -/
theorem snapshots_kept (hspelled : JsonValue.Spelled floatText JsonValue.Hooks.python P)
    {calls : List Call} (hcalls : ∀ call ∈ calls, call.Faithful P) {pair : Pair}
    (hapart : ∀ call ∈ calls, Apart pair call) :
    (∃ keys, loadCommitted (run floatText calls).file pair = .ok keys ∧
      List.Forall₂ ChildKey.Equal (snapshotOf pair (run floatText calls).history) keys) ∧
    ∀ call, call.Faithful P → Apart pair call →
      (∀ loadId, call ≠ .commit pair loadId) ∨
        (perform floatText (run floatText calls).file call).2.toBool = false →
      loadCommitted (perform floatText (run floatText calls).file call).1 pair =
        loadCommitted (run floatText calls).file pair := by
  have hholds := holds_run hspelled hcalls hapart
  refine ⟨⟨_, hholds.loadCommitted, ?_⟩, ?_⟩
  · rw [List.forall₂_map_right_iff]
    refine List.forall₂_same.mpr fun key hkey => equal_dumpedFields (P := P) ?_
    exact snapshotOf_faithful (fun e he => hcalls _ (history_run calls e he)) key hkey
  · intro call hcall hpair hkeeps
    have hstep := (hholds.step hspelled hcall hpair).loadCommitted
    have hquiet : Event.commits pair
        ⟨call, (perform floatText (run floatText calls).file call).2.toBool⟩ = none := by
      rcases hkeeps with hother | hfailed
      · cases call with
        | stage p uniqueKey keys loadId => rfl
        | rollback p loadId => rfl
        | commit p loadId =>
          have hne : p ≠ pair := fun heq => hother loadId (by rw [heq])
          simp [Event.commits, hne]
      · rw [hfailed]
        exact Event.quiet_of_failed.commits
    rw [Ledger.step, snapshotOf, hquiet] at hstep
    rw [hholds.loadCommitted]
    exact hstep

end Faithful

/-! ### One key -/

/-- Without floats every float text will do. -/
theorem spelled_noFloat (floatText : PyFloat → PyText) :
    JsonValue.Spelled floatText JsonValue.Hooks.python JsonValue.NoFloat where
  object _ := JsonValue.Hooks.python_object
  opens _ h := h.elim
  float _ h := h.elim
  encodable _ h := h.elim

/-- A key of one column. -/
def oneColumn (value : Scalar) : ChildKey := ⟨[(pyText "id", value)], by simp⟩

/-- A load that stages one key and commits it. -/
def stageAndCommit (pair : Pair) (value : Scalar) : List Call :=
  [.stage pair [pyText "id"] [oneColumn value] (pyText "L1"), .commit pair (pyText "L1")]

/-- One table with one child. -/
def ordersItems : Pair := ⟨pyText "orders", pyText "items"⟩

/-- An integer key comes back. -/
theorem integer_key_kept :
    ∃ keys, loadCommitted (run (fun _ => []) (stageAndCommit ordersItems (.int 7))).file
        ordersItems = .ok keys ∧
      List.Forall₂ ChildKey.Equal (snapshotOf ordersItems
        (run (fun _ => []) (stageAndCommit ordersItems (.int 7))).history) keys :=
  (snapshots_kept (spelled_noFloat fun _ => [])
    (by
      have hname : ∀ s, JsonValue.NoSurrogate (pyText s) :=
        fun s => JsonValue.noSurrogate_textOf _
      simp only [stageAndCommit, List.forall_mem_cons, Call.Faithful, oneColumn, Scalar.Faithful]
      exact ⟨⟨hname "orders::items", ⟨hname _, nofun⟩, ⟨⟨⟨hname _, trivial⟩, nofun⟩, nofun⟩,
        hname _⟩, trivial, nofun⟩)
    (by
      simp only [stageAndCommit, List.forall_mem_cons]
      exact ⟨fun _ => rfl, fun _ => rfl, nofun⟩)).1

/-- The last day of January 2024. -/
def januaryEnd : Scalar := .date ⟨2024, 1, 31, by decide⟩

/-- A date does not come back: the load that staged it commits, and what is read equals no date. -/
theorem dated_key_lost :
    snapshotOf ordersItems (run (fun _ => []) (stageAndCommit ordersItems januaryEnd)).history =
      [oneColumn januaryEnd] ∧
    ∀ keys, loadCommitted (run (fun _ => []) (stageAndCommit ordersItems januaryEnd)).file
      ordersItems = .ok keys → ¬ List.Forall₂ ChildKey.Equal [oneColumn januaryEnd] keys := by
  constructor
  · have hreturned : (run (fun _ => []) (stageAndCommit ordersItems januaryEnd)).history.map
        Event.succeeded = [true, true] := by decide +kernel
    obtain ⟨staged, committed, hhistory⟩ : ∃ staged committed,
        (run (fun _ => []) (stageAndCommit ordersItems januaryEnd)).history =
          [⟨.commit ordersItems (pyText "L1"), committed⟩,
           ⟨.stage ordersItems [pyText "id"] [oneColumn januaryEnd] (pyText "L1"), staged⟩] :=
      ⟨_, _, rfl⟩
    rw [hhistory] at hreturned ⊢
    cases hreturned
    simp [snapshotOf, Event.commits, stagedBy, Event.stages]
  · rintro keys - hequal
    obtain ⟨read, rest, hread, -⟩ := List.forall₂_cons_left_iff.mp hequal
    obtain ⟨field, others, hfield, -⟩ := List.forall₂_cons_left_iff.mp hread
    exact hfield.2

end SnapshotStore
end Dpone.Normalization
