import Dpone.SqlClient.RequestFrames

/-! Request frames and requests correspond, up to how a path is written.

    The decoder compares the bytes with the canonical ones of the document, not with those of the
    request that the document denotes. A request holds a path, and several texts are one path. -/

namespace Dpone.SqlClient
open Dpone.Schemes Dpone.Contracts JsonValue

variable {floatText : PyFloat → PyText}

/-- Documents without floats, of any texts. -/
abbrev Floatless (v : JsonValue) : Prop := Regular NoFloat (fun _ => True) v

/-- The fields of a document in the order of their names, sorted throughout. -/
abbrev sortedFields (document : Fields) : Fields := sortedBy Prod.fst (sortFields document)

/-! ### Canonical bytes -/

mutual

theorem allFinite_of_floatless : ∀ {v : JsonValue}, Floatless v → allFinite v = true
  | .null, _ => rfl
  | .bool _, _ => rfl
  | .int _, _ => rfl
  | .float _, h => h.elim
  | .str _, _ => rfl
  | .arr _, h => allFiniteItems_of_floatless h
  | .obj _, h => allFiniteFields_of_floatless h.2

theorem allFiniteItems_of_floatless : ∀ {items : List JsonValue},
    RegularItems NoFloat (fun _ => True) items → allFiniteItems items = true
  | [], _ => rfl
  | item :: items, h => by
    rw [allFiniteItems, allFinite_of_floatless h.1, allFiniteItems_of_floatless h.2]
    rfl

theorem allFiniteFields_of_floatless : ∀ {fields : Fields},
    RegularFields NoFloat (fun _ => True) fields → allFiniteFields fields = true
  | [], _ => rfl
  | (_, value) :: fields, h => by
    rw [allFiniteFields, allFinite_of_floatless h.2.1, allFiniteFields_of_floatless h.2.2]
    rfl

end

/-- Encoded texts are decoded again. -/
theorem utf8_some {s : PyText} {payload : Bytes} (h : utf8 s = some payload) :
    ∃ chars, decodeUtf8 payload = some chars ∧ textOf chars = s := by
  obtain ⟨chars, hchars, rfl⟩ := Option.map_eq_some_iff.mp h
  exact ⟨chars, decodeUtf8_encodeUtf8 chars, textOf_of_charsOf hchars⟩

theorem canonicalJsonBytes_eq_some {v : JsonValue} {payload : Bytes} :
    canonicalJsonBytes floatText v = some payload ↔
      allFinite v = true ∧ utf8 (v.canonicalText floatText) = some payload := by
  unfold canonicalJsonBytes
  split_ifs with h
  · simp [h]
  · simp [h]

/-- LOSSLESS: the canonical bytes of an object without floats are read as its sorted fields. -/
theorem strictJsonObject_canonical {document : Fields} (hfloatless : Floatless (.obj document))
    {payload : Bytes} (h : canonicalJsonBytes floatText (.obj document) = some payload) :
    strictJsonObject payload = some (sortedFields document) ∧
      canonicalJsonBytes floatText (.obj (sortedFields document)) = some payload := by
  obtain ⟨-, hutf8⟩ := canonicalJsonBytes_eq_some.mp h
  obtain ⟨chars, hdecode, htext⟩ := utf8_some hutf8
  have hsorted : Floatless (.obj (sortedFields document)) := hfloatless.sortKeys
  have hlossless : Lossless floatText Hooks.strict NoFloat :=
    lossless_noFloat floatText fun fields hnodup => if_pos hnodup
  constructor
  · have hread : loads Hooks.strict (textOf chars) = some (.obj (sortedFields document)) := by
      rw [htext]
      exact loads_dumps hlossless hsorted
    rw [strictJsonObject, hdecode, Option.bind_some, hread]
  · refine canonicalJsonBytes_eq_some.mpr ⟨allFinite_of_floatless hsorted, ?_⟩
    have htwice := sortKeys_sortKeys (.obj document)
    rw [canonicalText] at hutf8 ⊢
    rw [← htwice] at hutf8
    exact hutf8

/-! ### Frames -/

/-- What is accepted as a frame: a length, and that many canonical bytes of a document. -/
structure Framed (floatText : PyFloat → PyText) (bytes : Bytes) (limit : ℕ) (document : Fields)
    (payload : Bytes) : Prop where
  bytes_eq : bytes = toBE 4 payload.length ++ payload
  size : 1 ≤ payload.length ∧ payload.length ≤ limit
  read : strictJsonObject payload = some document
  canonical : canonicalJsonBytes floatText (.obj document) = some payload

theorem toBE_ofBE {bytes : Bytes} (h : bytes.length = 4) : toBE 4 (ofBE bytes) = bytes := by
  rw [toBE, ofBE]
  have hlength : bytes.reverse.length = 4 := by simpa using h
  rw [← hlength, toLE_ofLE, List.reverse_reverse]

theorem unframe_ok {bytes : Bytes} {limit : ℕ} (hlimit : limit < 256 ^ 4) {diagnostic : PyText}
    {document : Fields} : unframe floatText bytes limit diagnostic = .ok document ↔
      ∃ payload, Framed floatText bytes limit document payload := by
  unfold unframe
  constructor
  · intro h
    by_cases hshort : bytes.length < 4
    · rw [if_pos hshort] at h
      cases h
    rw [if_neg hshort] at h
    simp only at h
    by_cases hsize : ofBE (bytes.take 4) < 1 ∨ limit < ofBE (bytes.take 4) ∨
        (bytes.drop 4).length ≠ ofBE (bytes.take 4)
    · rw [if_pos hsize] at h
      cases h
    rw [if_neg hsize] at h
    push Not at hsize
    obtain ⟨hone, hlimit', hlength⟩ := hsize
    rcases hread : strictJsonObject (bytes.drop 4) with _ | found
    · rw [hread] at h
      cases h
    rw [hread] at h
    simp only at h
    split_ifs at h with hcanonical
    cases h
    refine ⟨bytes.drop 4, ?_, ⟨by omega, by omega⟩, hread, hcanonical⟩
    rw [hlength, toBE_ofBE (by rw [List.length_take]; omega), List.take_append_drop]
  · rintro ⟨payload, rfl, ⟨hone, hmax⟩, hread, hcanonical⟩
    have htake : (toBE 4 payload.length ++ payload).take 4 = toBE 4 payload.length := by
      rw [List.take_left' (toBE_length 4 _)]
    have hdrop : (toBE 4 payload.length ++ payload).drop 4 = payload := by
      rw [List.drop_left' (toBE_length 4 _)]
    have hsize : ofBE (toBE 4 payload.length) = payload.length := ofBE_toBE (by omega)
    rw [if_neg (by rw [List.length_append, toBE_length]; omega)]
    simp only [htake, hdrop, hsize]
    rw [if_neg (by omega), hread]
    simp only
    rw [if_pos hcanonical]

theorem frame_ok {document : Fields} {limit : ℕ} {diagnostic : PyText} {bytes : Bytes} :
    frame floatText document limit diagnostic = .ok bytes ↔
      ∃ payload, canonicalJsonBytes floatText (.obj document) = some payload ∧
        (1 ≤ payload.length ∧ payload.length ≤ limit) ∧
        bytes = toBE 4 payload.length ++ payload := by
  unfold frame
  rcases hcanonical : canonicalJsonBytes floatText (.obj document) with _ | payload
  · simp
  · simp only [Option.some.injEq, exists_eq_left']
    have hempty : payload = [] ↔ ¬ 1 ≤ payload.length := by
      rw [← List.length_eq_zero_iff]
      omega
    split_ifs with hsize
    · refine iff_of_false (fun h => nomatch h) ?_
      rintro ⟨⟨hone, hmax⟩, -⟩
      rw [hempty] at hsize
      omega
    · rw [hempty] at hsize
      constructor
      · intro h
        exact ⟨by omega, (Except.ok.inj h).symm⟩
      · rintro ⟨-, rfl⟩
        rfl

/-- LOSSLESS: the frame of an object without floats is taken as its sorted fields. -/
theorem unframe_frame {document : Fields} (hfloatless : Floatless (.obj document)) {limit : ℕ}
    (hlimit : limit < 256 ^ 4) {diagnostic : PyText} {bytes : Bytes}
    (h : frame floatText document limit diagnostic = .ok bytes) :
    unframe floatText bytes limit diagnostic = .ok (sortedFields document) := by
  obtain ⟨payload, hpayload, hsize, hbytes⟩ := frame_ok.mp h
  obtain ⟨hread, hcanonical⟩ := strictJsonObject_canonical hfloatless hpayload
  exact (unframe_ok hlimit).mpr ⟨payload, hbytes, hsize, hread, hcanonical⟩

/-- One document is in one frame. -/
theorem Framed.unique {bytes bytes' : Bytes} {limit : ℕ} {document : Fields}
    {payload payload' : Bytes} (h : Framed floatText bytes limit document payload)
    (h' : Framed floatText bytes' limit document payload') : bytes = bytes' := by
  have hsame := h.canonical.symm.trans h'.canonical
  cases hsame
  rw [h.bytes_eq, h'.bytes_eq]

/-- No frame goes on where another ends. -/
theorem Framed.prefix_free {bytes bytes' : Bytes} {limit : ℕ} (hlimit : limit < 256 ^ 4)
    {document document' : Fields} {payload payload' : Bytes}
    (h : Framed floatText bytes limit document payload)
    (h' : Framed floatText bytes' limit document' payload') (hinitial : bytes <+: bytes') :
    bytes = bytes' := by
  refine hinitial.eq_of_length ?_
  obtain ⟨rest, hrest⟩ := hinitial
  have hhead := congrArg (fun bs => ofBE (bs.take 4)) hrest
  have hmax := h.size.2
  have hmax' := h'.size.2
  rw [h.bytes_eq, h'.bytes_eq, List.append_assoc] at hhead
  simp only [List.take_left' (toBE_length 4 _)] at hhead
  rw [ofBE_toBE (by omega), ofBE_toBE (by omega)] at hhead
  rw [h.bytes_eq, h'.bytes_eq, List.length_append, List.length_append, toBE_length, toBE_length,
    hhead]

/-! ### Reading fields -/

section Fields
variable {document : Fields} {key : PyText}

theorem intAt_eq_some {n : ℤ} :
    intAt document key = some n ↔ document.lookup key = some (.int n) := by
  unfold intAt
  split <;> simp_all

theorem textAt_eq_some {s : PyText} :
    textAt document key = some s ↔ document.lookup key = some (.str s) := by
  unfold textAt
  split <;> simp_all

theorem boolAt_eq_some {b : Bool} :
    boolAt document key = some b ↔ document.lookup key = some (.bool b) := by
  unfold boolAt
  split
  · next b' hb => simp [hb]
  · next hnone => exact iff_of_false (fun h => nomatch h) (hnone b)

theorem arrayAt_eq_some {items : List JsonValue} :
    arrayAt document key = some items ↔ document.lookup key = some (.arr items) := by
  unfold arrayAt
  split <;> simp_all

theorem keysAre_eq_true {names : List PyText} :
    keysAre document names = true ↔ ∀ name, name ∈ document.map Prod.fst ↔ name ∈ names := by
  simp only [keysAre, Bool.and_eq_true, List.all_eq_true, decide_eq_true_eq]
  constructor
  · rintro ⟨hknown, hall⟩ name
    exact ⟨hknown name, hall name⟩
  · intro h
    exact ⟨fun name => (h name).mp, fun name => (h name).mpr⟩

end Fields

/-! ### Columns -/

section Columns
variable {isSpace : CodePoint → Bool}

/-- The names of the fields of a column, and those of a request, are distinct. -/
theorem names_nodup : columnFields.Nodup ∧ requestFieldsV2.Nodup := by
  constructor <;> decide +kernel

theorem columnFields_nodup : columnFields.Nodup := names_nodup.1

theorem columnDocument_keys (c : NativeStageColumnMapping) :
    (columnDocument c).map Prod.fst = columnFields := rfl

theorem columnDocument_floatless (c : NativeStageColumnMapping) :
    Floatless (.obj (columnDocument c)) :=
  ⟨columnFields_nodup, trivial, trivial, trivial, trivial, trivial, trivial, trivial, trivial,
    trivial⟩

/-- LOSSLESS: the document of a valid column is read as the column, with its fields sorted. -/
theorem columnOf_sorted {c : NativeStageColumnMapping} (h : c.Valid isSpace) :
    columnOf isSpace (sortKeys (.obj (columnDocument c))) = some c := by
  have hnodup : ((columnDocument c).map Prod.fst).Nodup := columnFields_nodup
  obtain ⟨sorted, hsorted⟩ : ∃ sorted, sorted = sortedFields (columnDocument c) := ⟨_, rfl⟩
  have hlookup : ∀ e ∈ columnDocument c, sorted.lookup e.1 = some (sortKeys e.2) := by
    intro e he
    rw [hsorted]
    exact lookup_sorted hnodup (Dict.lookup_of_mem hnodup he)
  have hkeys : keysAre sorted columnFields = true := by
    rw [keysAre_eq_true]
    intro name
    have hperm := (sortedBy_perm Prod.fst (sortFields (columnDocument c))).map Prod.fst
    rw [hsorted, hperm.mem_iff, sortFields_keys, columnDocument_keys]
  simp only [columnDocument, List.forall_mem_cons] at hlookup
  obtain ⟨hordinal, hname, htype, hnullable, -⟩ := hlookup
  rw [sortKeys, ← sortedFields, ← hsorted, columnOf, if_pos hkeys, intAt_eq_some.mpr hordinal,
    Option.bind_some, textAt_eq_some.mpr hname, Option.bind_some, textAt_eq_some.mpr htype,
    Option.bind_some, boolAt_eq_some.mpr hnullable, Option.bind_some]
  exact if_pos h

/-- What is read as a column has the canonical text of the column's document. -/
theorem sortKeys_of_columnOf {item : JsonValue} {P : PyFloat → Prop}
    (hregular : Regular P (fun _ => True) item) {c : NativeStageColumnMapping}
    (h : columnOf isSpace item = some c) :
    sortKeys (.obj (columnDocument c)) = sortKeys item ∧ c.Valid isSpace := by
  cases item with
  | obj fields =>
    unfold columnOf at h
    simp only at h
    by_cases hkeys : keysAre fields columnFields = true
    · rw [if_pos hkeys] at h
      obtain ⟨ordinal, hordinal, h⟩ := Option.bind_eq_some_iff.mp h
      obtain ⟨targetName, hname, h⟩ := Option.bind_eq_some_iff.mp h
      obtain ⟨targetType, htype, h⟩ := Option.bind_eq_some_iff.mp h
      obtain ⟨nullable, hnullable, h⟩ := Option.bind_eq_some_iff.mp h
      split_ifs at h with hvalid
      cases h
      refine ⟨sortKeys_obj_eq columnFields_nodup hregular.1 ?_ ?_, hvalid⟩
      · intro name
        rw [columnDocument_keys]
        exact (keysAre_eq_true.mp hkeys name).symm
      · simp only [columnDocument, List.forall_mem_cons]
        exact ⟨⟨_, intAt_eq_some.mp hordinal, rfl⟩, ⟨_, textAt_eq_some.mp hname, rfl⟩,
          ⟨_, textAt_eq_some.mp htype, rfl⟩, ⟨_, boolAt_eq_some.mp hnullable, rfl⟩,
          List.forall_mem_nil _⟩
    · rw [if_neg hkeys] at h
      cases h
  | _ => cases h

theorem columns_sorted : ∀ {columns : List NativeStageColumnMapping},
    (∀ c ∈ columns, c.Valid isSpace) →
    (sortItems (columns.map fun c => .obj (columnDocument c))).mapM (columnOf isSpace) =
      some columns
  | [], _ => rfl
  | c :: columns, h => by
    obtain ⟨hc, hrest⟩ := List.forall_mem_cons.mp h
    rw [List.map_cons, sortItems, List.mapM_cons, columnOf_sorted hc, columns_sorted hrest]
    rfl

theorem sortItems_of_columns {P : PyFloat → Prop} : ∀ {items : List JsonValue}
    {columns : List NativeStageColumnMapping}, RegularItems P (fun _ => True) items →
    items.mapM (columnOf isSpace) = some columns →
    sortItems (columns.map fun c => .obj (columnDocument c)) = sortItems items
  | [], columns, _, h => by
    cases h
    rfl
  | item :: items, columns, hregular, h => by
    rw [List.mapM_cons] at h
    obtain ⟨c, hc, h⟩ := Option.bind_eq_some_iff.mp h
    obtain ⟨rest, hrest, h⟩ := Option.bind_eq_some_iff.mp h
    cases h
    rw [List.map_cons, sortItems, sortItems, (sortKeys_of_columnOf hregular.1 hc).1,
      sortItems_of_columns hregular.2 hrest]

end Columns

/-! ### Documents -/

section Documents
variable {isSpace : CodePoint → Bool} {casefold : PyText → PyText} {r : NativeStageWriteRequest}
  {path : PyText} {deadline : ℤ}

/-- The names of the fields of a document. -/
def fieldNames (layoutVersion : ℤ) : List PyText :=
  if layoutVersion = 2 then requestFieldsV2 else requestFieldsV1

theorem fieldNames_nodup (layoutVersion : ℤ) : (fieldNames layoutVersion).Nodup := by
  unfold fieldNames
  split_ifs
  · exact names_nodup.2
  · exact (List.nodup_append.mp names_nodup.2).1

/-- The first version has no field for the version of the layout. -/
theorem layout_version_unnamed : pyText "layout_version" ∉ requestFieldsV1 := by
  intro hmem
  exact (List.nodup_append.mp names_nodup.2).2.2 _ hmem _ List.mem_cons_self rfl

theorem documentAt_keys (r : NativeStageWriteRequest) (path : PyText) (deadline : ℤ) :
    (documentAt r path deadline).map Prod.fst = fieldNames r.layoutVersion := by
  unfold documentAt fieldNames
  split_ifs
  · rfl
  · rw [List.append_nil]
    rfl

theorem documentAt_nodup (r : NativeStageWriteRequest) (path : PyText) (deadline : ℤ) :
    ((documentAt r path deadline).map Prod.fst).Nodup := by
  rw [documentAt_keys]
  exact fieldNames_nodup r.layoutVersion

theorem documentAt_floatless (r : NativeStageWriteRequest) (path : PyText) (deadline : ℤ) :
    Floatless (.obj (documentAt r path deadline)) := by
  refine ⟨documentAt_nodup r path deadline, ?_⟩
  have hcolumns : Floatless (.arr (r.columns.map fun c => .obj (columnDocument c))) := by
    refine regularItems_iff.mpr ?_
    intro item hitem
    obtain ⟨c, -, rfl⟩ := List.mem_map.mp hitem
    exact columnDocument_floatless c
  rw [regularFields_iff, documentAt, List.forall_mem_append]
  constructor
  · simp only [commonDocument, List.forall_mem_cons]
    exact ⟨⟨trivial, trivial⟩, ⟨trivial, trivial⟩, ⟨trivial, trivial⟩, ⟨trivial, trivial⟩,
      ⟨trivial, trivial⟩, ⟨trivial, trivial⟩, ⟨trivial, trivial⟩, ⟨trivial, trivial⟩,
      ⟨trivial, trivial⟩, ⟨trivial, trivial⟩, ⟨trivial, trivial⟩, ⟨trivial, trivial⟩,
      ⟨trivial, trivial⟩, ⟨trivial, trivial⟩, ⟨trivial, trivial⟩, ⟨trivial, trivial⟩,
      ⟨trivial, trivial⟩, ⟨trivial, hcolumns⟩, List.forall_mem_nil _⟩
  · split_ifs
    · exact List.forall_mem_cons.mpr ⟨⟨trivial, trivial⟩, List.forall_mem_nil _⟩
    · exact List.forall_mem_nil _

theorem lookup_eq_none {document : Fields} {key : PyText} (h : key ∉ document.map Prod.fst) :
    document.lookup key = none := by
  rcases hlookup : document.lookup key with _ | value
  · rfl
  · exact absurd (List.mem_map_of_mem (Dict.mem_of_lookup hlookup)) h

/-- What a request is encoded for: the companion's proof, and a budget within its bounds. -/
def Sendable (r : NativeStageWriteRequest) (deadline : ℤ) : Prop :=
  r.proofCapability = sqlclientSessionProof ∧ 1 ≤ deadline ∧ deadline ≤ maxDeadlineMs

/-- LOSSLESS: the document of a request with any text of its path denotes the request. -/
theorem denoted_sorted {chars : Str}
    (hvalid : ({ r with filePath := PosixPath.ofText chars } : NativeStageWriteRequest).Valid
      isSpace casefold) (hsend : Sendable r deadline) :
    denoted isSpace casefold (sortedFields (documentAt r (textOf chars) deadline)) =
      some ({ r with filePath := PosixPath.ofText chars }, deadline) ∧
    textAt (sortedFields (documentAt r (textOf chars) deadline)) (pyText "file_path") =
      some (textOf chars) := by
  obtain ⟨hproof, hone, hmax⟩ := hsend
  have hnodup := documentAt_nodup r (textOf chars) deadline
  obtain ⟨sorted, hsorted⟩ :
    ∃ sorted, sorted = sortedFields (documentAt r (textOf chars) deadline) := ⟨_, rfl⟩
  rw [← hsorted]
  have hlookup : ∀ e ∈ documentAt r (textOf chars) deadline,
      sorted.lookup e.1 = some (sortKeys e.2) := by
    intro e he
    rw [hsorted]
    exact lookup_sorted hnodup (Dict.lookup_of_mem hnodup he)
  have hnames : ∀ name, name ∈ sorted.map Prod.fst ↔ name ∈ fieldNames r.layoutVersion := by
    intro name
    have hperm := (sortedBy_perm Prod.fst (sortFields (documentAt r (textOf chars) deadline))).map
      Prod.fst
    rw [hsorted, hperm.mem_iff, sortFields_keys, documentAt_keys]
  rw [documentAt, List.forall_mem_append] at hlookup
  obtain ⟨hcommon, hversion⟩ := hlookup
  simp only [commonDocument, List.forall_mem_cons] at hcommon
  obtain ⟨hschema, hprotocol, hattempt, hstage, hstageId, howner, hobject, hschemaHash, hpath,
    hrows, hencoded, hrow, hfile, hgrant, hproofText, hwire, hdeadline, hcolumns, -⟩ := hcommon
  have hlayout : layoutVersionOf sorted = some r.layoutVersion ∧
      (r.layoutVersion = 2 → sorted.lookup (pyText "layout_version") = some (.int 2)) := by
    rcases hvalid.version with hv | hv
    · have hv : r.layoutVersion = 1 := hv
      have hnone : sorted.lookup (pyText "layout_version") = none := by
        refine lookup_eq_none ?_
        rw [hnames, hv]
        exact layout_version_unnamed
      refine ⟨?_, fun htwo => by omega⟩
      rw [layoutVersionOf, hnone, hv]
    · have hv : r.layoutVersion = 2 := hv
      rw [if_pos hv] at hversion
      have htwo := hversion _ (List.mem_singleton_self _)
      refine ⟨?_, fun _ => htwo⟩
      rw [layoutVersionOf, htwo, hv]
      rfl
  have hchecks : documentChecks sorted r.layoutVersion deadline
      (sortItems (r.columns.map fun c => .obj (columnDocument c))) = true := by
    have hnonempty :
        (sortItems (r.columns.map fun c => .obj (columnDocument c))).isEmpty = false := by
      rw [sortItems_eq, List.map_map, List.isEmpty_map]
      exact List.isEmpty_eq_false_iff.mpr hvalid.nonempty
    have hfields : (if (sorted.lookup (pyText "schema_version")).any (equalsInt 1) = true then
        requestFieldsV1 else requestFieldsV2) = fieldNames r.layoutVersion := by
      rw [hschema]
      rcases hvalid.version with hv | hv
      · have hv : r.layoutVersion = 1 := hv
        rw [hv]
        rfl
      · have hv : r.layoutVersion = 2 := hv
        rw [hv]
        rfl
    simp only [documentChecks, Bool.and_eq_true, Bool.or_eq_true, decide_eq_true_eq,
      Bool.not_eq_true', hnonempty, and_true]
    rw [hfields]
    refine ⟨⟨⟨⟨⟨keysAre_eq_true.mpr hnames, hvalid.version⟩, ?_⟩, ?_⟩, ?_⟩, hone, hmax⟩
    · exact textAt_eq_some.mpr hprotocol
    · by_cases htwo : r.layoutVersion = 2
      · right
        rw [hlayout.2 htwo]
        rfl
      · exact .inl htwo
    · rw [← hproof]
      exact textAt_eq_some.mpr hproofText
  refine ⟨?_, textAt_eq_some.mpr hpath⟩
  have hrequest : requestOf isSpace casefold sorted r.columns =
      some { r with filePath := PosixPath.ofText chars } := by
    have hpathAt : pathAt sorted (pyText "file_path") = some (PosixPath.ofText chars) := by
      rw [pathAt, textAt_eq_some.mpr hpath, Option.bind_some, charsOf_textOf, Option.map_some]
    unfold requestOf
    rw [textAt_eq_some.mpr hattempt, textAt_eq_some.mpr hstage, textAt_eq_some.mpr hstageId,
      textAt_eq_some.mpr howner, intAt_eq_some.mpr hobject, textAt_eq_some.mpr hschemaHash, hpathAt,
      intAt_eq_some.mpr hrows, intAt_eq_some.mpr hencoded, intAt_eq_some.mpr hrow,
      textAt_eq_some.mpr hfile, textAt_eq_some.mpr hgrant, textAt_eq_some.mpr hproofText,
      textAt_eq_some.mpr hwire, hlayout.1]
    exact if_pos hvalid
  unfold denoted
  rw [arrayAt_eq_some.mpr hcolumns, intAt_eq_some.mpr hschema, intAt_eq_some.mpr hdeadline]
  show (if documentChecks sorted r.layoutVersion deadline _ = true then _ else none) = _
  rw [if_pos hchecks, columns_sorted hvalid.columns]
  show (requestOf isSpace casefold sorted r.columns).bind _ = _
  rw [hrequest]
  rfl

/-- The version of a request is that of its schema. -/
theorem version_of_checks {document : Fields} {schemaVersion layoutVersion : ℤ}
    {items : List JsonValue}
    (hschema : intAt document (pyText "schema_version") = some schemaVersion)
    (hlayout : layoutVersionOf document = some layoutVersion)
    (hchecks : documentChecks document schemaVersion deadline items = true) :
    layoutVersion = schemaVersion ∧
      (∀ name, name ∈ document.map Prod.fst ↔ name ∈ fieldNames layoutVersion) ∧
      (layoutVersion = 2 → document.lookup (pyText "layout_version") = some (.int 2)) := by
  simp only [documentChecks, Bool.and_eq_true, Bool.or_eq_true, decide_eq_true_eq] at hchecks
  obtain ⟨⟨⟨⟨⟨⟨hkeys, hversion⟩, -⟩, htwo⟩, -⟩, -⟩, -⟩ := hchecks
  rw [intAt_eq_some.mp hschema] at hkeys
  rcases hversion with rfl | rfl
  · have hnames := keysAre_eq_true.mp hkeys
    have hnone : document.lookup (pyText "layout_version") = none := by
      refine lookup_eq_none ?_
      rw [hnames]
      exact layout_version_unnamed
    rw [layoutVersionOf, hnone] at hlayout
    cases hlayout
    exact ⟨rfl, hnames, fun h => by omega⟩
  · have hnames := keysAre_eq_true.mp hkeys
    have hlookup := htwo.resolve_left (by simp)
    rcases hvalue : document.lookup (pyText "layout_version") with _ | value
    · rw [hvalue] at hlookup
      cases hlookup
    · rw [hvalue] at hlookup
      rw [layoutVersionOf, hvalue] at hlayout
      cases value with
      | int n =>
        cases hlayout
        have hn : layoutVersion = 2 := by simpa [equalsInt] using hlookup
        rw [hn]
        exact ⟨rfl, hnames, fun _ => rfl⟩
      | _ => cases hlayout

/-- CORRECT: a document denotes a valid request, and has the canonical text of its document but for
    how the path is written. -/
theorem sortKeys_of_denoted {document : Fields} {P : PyFloat → Prop}
    (hregular : Regular P (fun _ => True) (.obj document))
    (h : denoted isSpace casefold document = some (r, deadline)) :
    ∃ chars, textAt document (pyText "file_path") = some (textOf chars) ∧
      r.filePath = PosixPath.ofText chars ∧ r.Valid isSpace casefold ∧ Sendable r deadline ∧
      sortKeys (.obj (documentAt r (textOf chars) deadline)) = sortKeys (.obj document) := by
  unfold denoted at h
  obtain ⟨items, hitems, h⟩ := Option.bind_eq_some_iff.mp h
  obtain ⟨schemaVersion, hschema, h⟩ := Option.bind_eq_some_iff.mp h
  obtain ⟨budget, hbudget, h⟩ := Option.bind_eq_some_iff.mp h
  by_cases hchecks : documentChecks document schemaVersion budget items = true
  swap
  · rw [if_neg hchecks] at h
    cases h
  rw [if_pos hchecks] at h
  obtain ⟨columns, hcolumns, h⟩ := Option.bind_eq_some_iff.mp h
  obtain ⟨request, hrequest, h⟩ := Option.bind_eq_some_iff.mp h
  cases h
  unfold requestOf at hrequest
  obtain ⟨attemptId, hattempt, hrequest⟩ := Option.bind_eq_some_iff.mp hrequest
  obtain ⟨qualifiedStage, hstage, hrequest⟩ := Option.bind_eq_some_iff.mp hrequest
  obtain ⟨stageId, hstageId, hrequest⟩ := Option.bind_eq_some_iff.mp hrequest
  obtain ⟨owner, howner, hrequest⟩ := Option.bind_eq_some_iff.mp hrequest
  obtain ⟨objectId, hobject, hrequest⟩ := Option.bind_eq_some_iff.mp hrequest
  obtain ⟨schemaHash, hschemaHash, hrequest⟩ := Option.bind_eq_some_iff.mp hrequest
  obtain ⟨filePath, hpath, hrequest⟩ := Option.bind_eq_some_iff.mp hrequest
  obtain ⟨rows, hrows, hrequest⟩ := Option.bind_eq_some_iff.mp hrequest
  obtain ⟨encodedBytes, hencoded, hrequest⟩ := Option.bind_eq_some_iff.mp hrequest
  obtain ⟨rowBytes, hrow, hrequest⟩ := Option.bind_eq_some_iff.mp hrequest
  obtain ⟨fileHash, hfile, hrequest⟩ := Option.bind_eq_some_iff.mp hrequest
  obtain ⟨grant, hgrant, hrequest⟩ := Option.bind_eq_some_iff.mp hrequest
  obtain ⟨proof, hproof, hrequest⟩ := Option.bind_eq_some_iff.mp hrequest
  obtain ⟨wire, hwire, hrequest⟩ := Option.bind_eq_some_iff.mp hrequest
  obtain ⟨layoutVersion, hlayout, hrequest⟩ := Option.bind_eq_some_iff.mp hrequest
  simp only at hrequest
  split_ifs at hrequest with hvalid
  cases hrequest
  obtain ⟨hversion, hnames, htwo⟩ := version_of_checks hschema hlayout hchecks
  obtain ⟨pathText, hpathText, hchars⟩ := Option.map_eq_some_iff.mp hpath
  obtain ⟨text, htext, hcharsOf⟩ := Option.bind_eq_some_iff.mp hpathText
  have hpathChars := textOf_of_charsOf hcharsOf
  subst hpathChars hversion
  simp only [documentChecks, Bool.and_eq_true, Bool.or_eq_true, decide_eq_true_eq] at hchecks
  obtain ⟨⟨⟨⟨⟨-, hprotocol⟩, -⟩, hproofText⟩, hone, hmax⟩, -⟩ := hchecks
  refine ⟨pathText, htext, hchars.symm, hvalid, ⟨?_, hone, hmax⟩, ?_⟩
  · rw [hproof] at hproofText
    exact Option.some.inj hproofText
  · refine sortKeys_obj_eq (documentAt_nodup _ _ _) hregular.1 ?_ ?_
    · intro name
      rw [documentAt_keys, hnames]
    · have hitemsRegular : RegularItems P (fun _ => True) items :=
        (regularFields_iff.mp hregular.2 _ (Dict.mem_of_lookup (arrayAt_eq_some.mp hitems))).2
      rw [documentAt, List.forall_mem_append]
      constructor
      · simp only [commonDocument, List.forall_mem_cons]
        exact ⟨⟨_, intAt_eq_some.mp hschema, rfl⟩, ⟨_, textAt_eq_some.mp hprotocol, rfl⟩,
          ⟨_, textAt_eq_some.mp hattempt, rfl⟩, ⟨_, textAt_eq_some.mp hstage, rfl⟩,
          ⟨_, textAt_eq_some.mp hstageId, rfl⟩, ⟨_, textAt_eq_some.mp howner, rfl⟩,
          ⟨_, intAt_eq_some.mp hobject, rfl⟩, ⟨_, textAt_eq_some.mp hschemaHash, rfl⟩,
          ⟨_, textAt_eq_some.mp htext, rfl⟩, ⟨_, intAt_eq_some.mp hrows, rfl⟩,
          ⟨_, intAt_eq_some.mp hencoded, rfl⟩, ⟨_, intAt_eq_some.mp hrow, rfl⟩,
          ⟨_, textAt_eq_some.mp hfile, rfl⟩, ⟨_, textAt_eq_some.mp hgrant, rfl⟩,
          ⟨_, textAt_eq_some.mp hproof, rfl⟩, ⟨_, textAt_eq_some.mp hwire, rfl⟩,
          ⟨_, intAt_eq_some.mp hbudget, rfl⟩,
          ⟨_, arrayAt_eq_some.mp hitems,
            congrArg JsonValue.arr (sortItems_of_columns hitemsRegular hcolumns).symm⟩,
          List.forall_mem_nil _⟩
      · split_ifs with hv
        · exact List.forall_mem_cons.mpr ⟨⟨_, htwo hv, rfl⟩, List.forall_mem_nil _⟩
        · exact List.forall_mem_nil _

/-! ### Accepted frames -/

theorem requestMaxBytes_lt : requestMaxBytes < 256 ^ 4 := by decide

theorem encodeRequestFrame_ok {bytes : Bytes} :
    encodeRequestFrame floatText r deadline = .ok bytes ↔ Sendable r deadline ∧
      frame floatText (documentAt r (textOf r.filePath.text) deadline) requestMaxBytes
        invalidRequestFrame = .ok bytes := by
  unfold encodeRequestFrame Sendable
  split_ifs with h
  · refine iff_of_false (fun h => nomatch h) ?_
    rintro ⟨⟨hproof, hbudget⟩, -⟩
    rcases h with h | h
    · exact h hproof
    · exact h hbudget
  · push Not at h
    exact (and_iff_right ⟨h.1, h.2⟩).symm

theorem decodeRequestFrame_ok {bytes : Bytes} {document : Fields} :
    decodeRequestFrame floatText isSpace casefold bytes = .ok document ↔
      (∃ payload, Framed floatText bytes requestMaxBytes document payload) ∧
        (denoted isSpace casefold document).isSome = true := by
  have hunframe := @unframe_ok floatText bytes requestMaxBytes requestMaxBytes_lt
    invalidRequestFrame document
  rw [← hunframe]
  unfold decodeRequestFrame
  rcases unframe floatText bytes requestMaxBytes invalidRequestFrame with e | found
  · exact iff_of_false (fun h => nomatch h) fun h => nomatch h.1
  · show (if _ then _ else _) = _ ↔ _
    split_ifs with hsome
    · constructor
      · intro h
        cases h
        exact ⟨rfl, hsome⟩
      · rintro ⟨h, -⟩
        exact h
    · refine iff_of_false (fun h => nomatch h) ?_
      rintro ⟨h, hdenoted⟩
      cases h
      exact hsome hdenoted

/-- LOSSLESS: a frame of a request is accepted, however its path is written. -/
theorem frame_accepted {chars : Str}
    (hvalid : ({ r with filePath := PosixPath.ofText chars } : NativeStageWriteRequest).Valid
      isSpace casefold) (hsend : Sendable r deadline) {bytes : Bytes}
    (h : frame floatText (documentAt r (textOf chars) deadline) requestMaxBytes
      invalidRequestFrame = .ok bytes) :
    ∃ document, decodeRequestFrame floatText isSpace casefold bytes = .ok document ∧
      denoted isSpace casefold document =
        some ({ r with filePath := PosixPath.ofText chars }, deadline) ∧
      textAt document (pyText "file_path") = some (textOf chars) := by
  obtain ⟨hdenoted, hpath⟩ := denoted_sorted hvalid hsend
  refine ⟨_, decodeRequestFrame_ok.mpr ⟨?_, ?_⟩, hdenoted, hpath⟩
  · have hunframe : unframe floatText bytes requestMaxBytes invalidRequestFrame = _ :=
      unframe_frame (documentAt_floatless r _ deadline) requestMaxBytes_lt h
    exact (unframe_ok requestMaxBytes_lt).mp hunframe
  · rw [hdenoted]
    rfl

theorem encoded_accepted (hvalid : r.Valid isSpace casefold) {bytes : Bytes}
    (h : encodeRequestFrame floatText r deadline = .ok bytes) :
    ∃ document, decodeRequestFrame floatText isSpace casefold bytes = .ok document ∧
      denoted isSpace casefold document = some (r, deadline) ∧
      textAt document (pyText "file_path") = some (textOf r.filePath.text) := by
  obtain ⟨hsend, hframe⟩ := encodeRequestFrame_ok.mp h
  have hpath : PosixPath.ofText r.filePath.text = r.filePath := PosixPath.ofText_text r.filePath
  have hsame : ({ r with filePath := PosixPath.ofText r.filePath.text } : NativeStageWriteRequest) =
      r := by
    rw [hpath]
  rw [← hsame] at hvalid
  have haccepted := frame_accepted hvalid hsend hframe
  rw [hsame] at haccepted
  exact haccepted

/-- What is accepted denotes a valid request, and is its encoding if its path is written so. -/
theorem accepted_denotes {bytes : Bytes} {document : Fields}
    (h : decodeRequestFrame floatText isSpace casefold bytes = .ok document) :
    ∃ r deadline, denoted isSpace casefold document = some (r, deadline) ∧
      r.Valid isSpace casefold ∧
      (encodeRequestFrame floatText r deadline = .ok bytes ↔ PathIsNormal document) := by
  obtain ⟨⟨payload, hframed⟩, hsome⟩ := decodeRequestFrame_ok.mp h
  obtain ⟨⟨r, deadline⟩, hdenoted⟩ := Option.isSome_iff_exists.mp hsome
  have hregular :
      Regular (fun f => double.finite f.val = true) (fun _ => True) (.obj document) := by
    have hread := hframed.read
    unfold strictJsonObject at hread
    split at hread
    · next fields hfields =>
      cases hread
      obtain ⟨text, -, hloads⟩ := Option.bind_eq_some_iff.mp hfields
      exact loads_regular keeps_strict hloads
    · cases hread
  obtain ⟨chars, htext, hpath, hvalid, hsend, hsame⟩ := sortKeys_of_denoted hregular hdenoted
  have hnormal : PathIsNormal document ↔ r.filePath.text = chars := by
    rw [PathIsNormal, pathAt, htext, Option.bind_some, charsOf_textOf, Option.map_some,
      Option.map_some, Option.some.injEq, ← hpath]
    constructor
    · intro heq
      have hchars := congrArg charsOf heq
      rwa [charsOf_textOf, charsOf_textOf, Option.some.injEq] at hchars
    · rintro rfl
      rfl
  refine ⟨r, deadline, hdenoted, hvalid, ?_⟩
  rw [hnormal]
  constructor
  · intro hencode
    obtain ⟨document', hdecode', -, htext'⟩ := encoded_accepted hvalid hencode
    rw [h] at hdecode'
    cases hdecode'
    rw [htext] at htext'
    have hchars := congrArg charsOf (Option.some.inj htext')
    rw [charsOf_textOf, charsOf_textOf, Option.some.injEq] at hchars
    exact hchars.symm
  · intro hchars
    refine encodeRequestFrame_ok.mpr
      ⟨hsend, frame_ok.mpr ⟨payload, ?_, hframed.size, hframed.bytes_eq⟩⟩
    rw [hchars]
    obtain ⟨-, hutf8⟩ := canonicalJsonBytes_eq_some.mp hframed.canonical
    refine canonicalJsonBytes_eq_some.mpr
      ⟨allFinite_of_floatless (documentAt_floatless r _ deadline), ?_⟩
    rw [canonicalText, hsame]
    exact hutf8

/-- CORRECT: requests and frames, up to how a path is written.

    Every encoded request is decoded as itself. Every accepted frame denotes a valid request, and is
    the encoding of that request exactly when its path is in normal form. One document is in one
    frame, one request in one normal frame, and no accepted frame goes on where another ends. -/
theorem request_frames_exact_iff :
    (∀ r deadline bytes, r.Valid isSpace casefold →
      encodeRequestFrame floatText r deadline = .ok bytes →
      ∃ document, decodeRequestFrame floatText isSpace casefold bytes = .ok document ∧
        denoted isSpace casefold document = some (r, deadline)) ∧
    (∀ bytes document, decodeRequestFrame floatText isSpace casefold bytes = .ok document →
      ∃ r deadline, denoted isSpace casefold document = some (r, deadline) ∧
        r.Valid isSpace casefold ∧
        (encodeRequestFrame floatText r deadline = .ok bytes ↔ PathIsNormal document)) ∧
    (∀ bytes bytes' document, decodeRequestFrame floatText isSpace casefold bytes = .ok document →
      decodeRequestFrame floatText isSpace casefold bytes' = .ok document → bytes = bytes') ∧
    (∀ bytes bytes' document document',
      decodeRequestFrame floatText isSpace casefold bytes = .ok document →
      decodeRequestFrame floatText isSpace casefold bytes' = .ok document' →
      PathIsNormal document → PathIsNormal document' →
      denoted isSpace casefold document = denoted isSpace casefold document' → bytes = bytes') ∧
    ∀ bytes bytes' document document',
      decodeRequestFrame floatText isSpace casefold bytes = .ok document →
      decodeRequestFrame floatText isSpace casefold bytes' = .ok document' →
      bytes <+: bytes' → bytes = bytes' := by
  refine ⟨?_, ?_, ?_, ?_, ?_⟩
  · intro r deadline bytes hvalid hencode
    obtain ⟨document, hdecode, hdenoted, -⟩ := encoded_accepted hvalid hencode
    exact ⟨document, hdecode, hdenoted⟩
  · intro bytes document h
    exact accepted_denotes h
  · intro bytes bytes' document h h'
    obtain ⟨⟨payload, hframed⟩, -⟩ := decodeRequestFrame_ok.mp h
    obtain ⟨⟨payload', hframed'⟩, -⟩ := decodeRequestFrame_ok.mp h'
    exact hframed.unique hframed'
  · intro bytes bytes' document document' h h' hnormal hnormal' hsame
    obtain ⟨r, deadline, hdenoted, -, hencode⟩ := accepted_denotes h
    obtain ⟨r', deadline', hdenoted', -, hencode'⟩ := accepted_denotes h'
    rw [hdenoted, hdenoted'] at hsame
    cases hsame
    exact Except.ok.inj ((hencode.mpr hnormal).symm.trans (hencode'.mpr hnormal'))
  · intro bytes bytes' document document' h h' hinitial
    obtain ⟨⟨payload, hframed⟩, -⟩ := decodeRequestFrame_ok.mp h
    obtain ⟨⟨payload', hframed'⟩, -⟩ := decodeRequestFrame_ok.mp h'
    exact hframed.prefix_free requestMaxBytes_lt hframed' hinitial

end Documents

/-- One column, one row and the file `/tmp/a`. -/
def sampleRequest : NativeStageWriteRequest where
  attemptId := pyText "attempt-1"
  qualifiedStage := pyText "[stage].[raw_1]"
  stageIdSha256 := List.replicate 64 (cp '1')
  ownerBindingSha256 := List.replicate 64 (cp '2')
  objectId := 42
  schemaSha256 := List.replicate 64 (cp '3')
  filePath := PosixPath.ofText "/tmp/a".toList
  expectedRows := 1
  encodedBytes := 7
  maxRowBytes := 7
  fileSha256 := List.replicate 64 (cp '4')
  grantTokenSha256 := List.replicate 64 (cp '5')
  proofCapability := sqlclientSessionProof
  wireLayoutSha256 := List.replicate 64 (cp '6')
  columns := [⟨0, pyText "event_id", pyText "bigint", false⟩]
  layoutVersion := 1

/-- With a slash too many in its path, a request is in a second frame. -/
theorem path_framed_twice :
    ∃ bytes bytes' document document', bytes ≠ bytes' ∧
      decodeRequestFrame (fun _ => []) (fun c => c.val = 32) (fun s => s) bytes = .ok document ∧
      denoted (fun c => c.val = 32) (fun s => s) document = some (sampleRequest, 1000) ∧
      decodeRequestFrame (fun _ => []) (fun c => c.val = 32) (fun s => s) bytes' = .ok document' ∧
      textAt document' (pyText "file_path") = some (pyText "/tmp//a") ∧
      denoted (fun c => c.val = 32) (fun s => s) document' = some (sampleRequest, 1000) := by
  have hvalid : sampleRequest.Valid (fun c => c.val = 32) (fun s => s) := by decide +kernel
  have hsend : Sendable sampleRequest 1000 := ⟨rfl, by decide, by decide⟩
  have hone : (frame (fun _ => []) (documentAt sampleRequest (pyText "/tmp/a") 1000)
      requestMaxBytes invalidRequestFrame).isOk = true := by decide +kernel
  have htwo : (frame (fun _ => []) (documentAt sampleRequest (pyText "/tmp//a") 1000)
      requestMaxBytes invalidRequestFrame).isOk = true := by decide +kernel
  rcases hframe : frame (fun _ => []) (documentAt sampleRequest (pyText "/tmp/a") 1000)
    requestMaxBytes invalidRequestFrame with e | bytes
  · rw [hframe] at hone
    cases hone
  rcases hframe' : frame (fun _ => []) (documentAt sampleRequest (pyText "/tmp//a") 1000)
    requestMaxBytes invalidRequestFrame with e | bytes'
  · rw [hframe'] at htwo
    cases htwo
  obtain ⟨document, hdecode, hdenoted, htext⟩ :=
    @frame_accepted (fun _ => []) (fun c => c.val = 32) (fun s => s) sampleRequest 1000
      "/tmp/a".toList hvalid hsend bytes hframe
  obtain ⟨document', hdecode', hdenoted', htext'⟩ :=
    @frame_accepted (fun _ => []) (fun c => c.val = 32) (fun s => s) sampleRequest 1000
      "/tmp//a".toList hvalid hsend bytes' hframe'
  refine ⟨bytes, bytes', document, document', ?_, hdecode, hdenoted, hdecode', htext', hdenoted'⟩
  rintro rfl
  rw [hdecode] at hdecode'
  cases hdecode'
  rw [htext] at htext'
  have hdifferent : textOf "/tmp/a".toList ≠ textOf "/tmp//a".toList := by decide +kernel
  exact hdifferent (Option.some.inj htext')

end Dpone.SqlClient
