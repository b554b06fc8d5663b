import Dpone.NativeWire.ValueRoundTrip

/-! Which contracts the two layout validators accept.

    Both recompute the framing of a column from its declared type. They read types alike; they part
    on a character or binary type with two parameters, which the accelerator takes for a precision
    and a scale and the core does not, and on an empty target type, which only the accelerator
    refuses. CORRECT: the contracts over given names and types are accepted by both or by neither
    exactly when no column is of these two kinds, or when the names and types admit no contract. -/

namespace Dpone.NativeWire
open Dpone.Schemes

variable {py : Runtime}

/-! ### Framing -/

/-- Scale and width of a type with a fixed layout. -/
def fixedFraming (storage : Storage) (precision scale : Option ℕ) : Option (Option ℕ × ℕ) :=
  if storage.temporal then
    if scale.getD 7 ≤ 7 then some (some 7, 5 + temporalExtra storage) else none
  else if storage = .float ∧ precision.isSome then
    if 1 ≤ precision.getD 1 ∧ precision.getD 1 ≤ 53 then
      some (scale, if precision.getD 1 ≤ 24 then 4 else 8)
    else none
  else storage.fixedWidth.map fun width => (scale, width)

/-- What the producer computes is this framing. -/
theorem fixedFraming_core (storage : Storage) (precision scale : Option ℕ) :
    fixedFraming storage precision scale = (do
      let scale ← (physicalScale storage scale).toOption
      let width ← (fixedLength storage scale precision).toOption
      width.map fun width => (scale, width)) := by
  cases storage
  case float =>
    cases precision with
    | none => rfl
    | some p =>
      simp only [fixedFraming, physicalScale, fixedLength, Storage.temporal, Bool.false_eq_true,
        if_false, Option.isSome_some, and_self, if_true, Option.getD_some]
      split_ifs <;> rfl
  case time | datetime2 | datetimeoffset =>
    simp only [fixedFraming, physicalScale, Storage.temporal, if_true, timeLength]
    split_ifs with h <;> rfl
  all_goals rfl

theorem fixedFraming_some {storage : Storage} {precision scale sc : Option ℕ} {width : ℕ} :
    fixedFraming storage precision scale = some (sc, width) ↔
      physicalScale storage scale = .ok sc ∧
        fixedLength storage sc precision = .ok (some width) := by
  have hread : ∀ {α : Type} (x : Except PyError α) (a : α), x.toOption = some a ↔ x = .ok a := by
    intro α x a
    cases x <;> simp [Except.toOption]
  rw [fixedFraming_core]
  simp only [Option.bind_eq_bind, Option.bind_eq_some_iff, hread, Option.map_eq_some_iff,
    Prod.mk.injEq]
  constructor
  · rintro ⟨s, hs, w, hw, width', rfl, rfl, rfl⟩
    exact ⟨hs, hw⟩
  · rintro ⟨hs, hw⟩
    exact ⟨sc, hs, some width, hw, width, rfl, rfl, rfl⟩

/-! ### Nullability -/

theorem dropNullable_cons {c : Char} (h : ¬ py.isSpace c) (cs : Str) :
    dropNullable py 0 (c :: cs) = c :: dropNullable py 0 cs := by
  have hword : nullableWord py (c :: cs) = none := by simp [nullableWord, h]
  rw [dropNullable, hword]

theorem rdropWhile_cons {p : Char → Bool} {c : Char} (h : ¬ p c) (cs : Str) :
    (c :: cs).rdropWhile p = c :: cs.rdropWhile p := by
  rw [List.rdropWhile, List.rdropWhile, List.reverse_cons, List.dropWhile_append]
  split_ifs with hempty
  · have hnil : List.dropWhile p cs.reverse = [] := List.isEmpty_iff.mp hempty
    simp [hnil, h]
  · rw [List.reverse_append, List.reverse_singleton, List.singleton_append]

theorem strip_cons {c : Char} (h : ¬ py.isSpace c) (cs : Str) :
    strip py.toUnicode (c :: cs) = c :: cs.rdropWhile py.isSpace := by
  rw [strip, List.dropWhile_cons_of_neg h, rdropWhile_cons h]

/-- No admitted type starts as a `null` word does. -/
theorem ofName_null (cs : Str) : Storage.ofName ('n' :: 'u' :: 'l' :: cs) = .unsupported := by
  have hnone : Storage.admitted.find? (fun t => t.name.toList = 'n' :: 'u' :: 'l' :: cs) = none := by
    rw [List.find?_eq_none]
    intro t ht heq
    have hprefix : "nul".toList.isPrefixOf t.name.toList = true := by
      rw [of_decide_eq_true heq]
      rfl
    exact absurd hprefix ((by decide : ∀ t ∈ Storage.admitted,
      ¬ "nul".toList.isPrefixOf t.name.toList = true) t ht)
  rw [Storage.ofName, hnone]
  rfl

/-- A type spelled from `null` on has no native framing. -/
theorem ofName_of_null {dtype : Str}
    (h : "null".toList.isPrefixOf (py.lower (strip py.toUnicode dtype))) :
    Storage.ofName (rootOf py (normalizeType py dtype)) = .unsupported := by
  have hspace : ∀ c : Char, c.isAlphanum → ¬ py.isSpace c := by
    intro c hc hs
    exact py.space_not_word c hs (py.word_ascii c hc)
  obtain ⟨rest, hrest⟩ := List.isPrefixOf_iff_prefix.mp h
  change 'n' :: 'u' :: 'l' :: 'l' :: rest = _ at hrest
  have hn := hspace 'n' (by decide)
  have hu := hspace 'u' (by decide)
  have hl := hspace 'l' (by decide)
  rw [normalizeType, ← hrest, dropNullable_cons hn, dropNullable_cons hu, dropNullable_cons hl,
    rootOf, beforeParen, List.takeWhile_cons_of_pos (by decide),
    List.takeWhile_cons_of_pos (by decide), List.takeWhile_cons_of_pos (by decide),
    strip_cons hn, rdropWhile_cons hu, rdropWhile_cons hl]
  exact ofName_null _

/-- Where a type has a framing, the two readings of its nullability are one. -/
theorem isNullable_eq {dtype : Str}
    (h : Storage.ofName (rootOf py (normalizeType py dtype)) ≠ .unsupported) :
    isNullable py dtype = contains "nullable".toList (py.lower dtype) := by
  rw [isNullable, Bool.or_eq_left_iff_imp]
  intro hnull
  exact absurd (ofName_of_null hnull) h

/-! ### Framing of a declared type -/

/-- The physical facts of a column that follow from its declared type. -/
structure Framing where
  prefixWidth : ℕ
  fixedLength : Option ℕ
  precision : Option ℕ
  scale : Option ℕ
  encoding : Option Encoding
  deriving DecidableEq

/-- The facts a stored layout claims. -/
def NativeWireColumnLayout.framing (column : NativeWireColumnLayout) : Framing where
  prefixWidth := column.prefixWidth
  fixedLength := column.fixedLength
  precision := column.precision
  scale := column.scale
  encoding := column.encoding

variable (py) in
/-- The framing of a normalized type, if it has one. `sizes` is what goes for precision and scale
    of a character or binary type. -/
def framingOf (nullable : Bool) (sizes : Option ℕ × Option ℕ) (source : Str) : Option Framing :=
  let storage := Storage.ofName (rootOf py source)
  if storage.variableLength then
    if storage = .char ∧ nullable = false then none
    else some {
      prefixWidth := if contains "max".toList source then 8 else 2, fixedLength := none,
      precision := sizes.1, scale := sizes.2,
      encoding := some (if storage.national then .utf16le else .utf8) }
  else (fixedFraming storage (precisionScale py source).1 (precisionScale py source).2).map
    fun fixed => {
      prefixWidth := nativePrefixWidth storage nullable, fixedLength := some fixed.2,
      precision := (precisionScale py source).1, scale := fixed.1, encoding := none }

theorem physicalScale_variable {storage : Storage} (h : storage.variableLength = true)
    (scale : Option ℕ) : physicalScale storage scale = .ok scale := by
  cases storage <;> first | rfl | cases h

theorem framingOf_supported {nullable : Bool} {sizes : Option ℕ × Option ℕ} {source : Str}
    {f : Framing} (h : framingOf py nullable sizes source = some f) :
    Storage.ofName (rootOf py source) ≠ .unsupported := by
  intro hs
  simp only [framingOf, hs] at h
  cases h

/-- The layout the producer derives, where the type has one. -/
theorem layoutOf_supported {name dtype target : Str} {e : NativeWireColumnLayout} :
    layoutOf py name dtype target = .ok e ∧ e.storageType ≠ .unsupported ↔
      e.name = name ∧ e.sourceType = dtype ∧ e.targetType = target ∧
      e.storageType = .ofName (rootOf py (normalizeType py dtype)) ∧
      e.nullable = isNullable py dtype ∧
      framingOf py (isNullable py dtype) (none, none) (normalizeType py dtype) =
        some e.framing := by
  obtain ⟨ename, esource, etarget, enullable, estorage, eprefix, efixed, eprecision, escale,
    eencoding⟩ := e
  simp only [layoutOf, framingOf, NativeWireColumnLayout.framing]
  generalize normalizeType py dtype = source
  generalize isNullable py dtype = nullable
  generalize Storage.ofName (rootOf py source) = storage
  generalize precisionScale py source = sizes
  obtain ⟨precision, scale⟩ := sizes
  by_cases hvariable : storage.variableLength = true
  · rw [physicalScale_variable hvariable]
    by_cases hchar : storage = .char ∧ nullable = false
    · obtain ⟨rfl, rfl⟩ := hchar
      simp only [Storage.variableLength, fixedLength, Storage.fixedWidth, Storage.temporal, bind,
        Except.bind, pure, Except.pure]
      constructor
      · rintro ⟨h, hne⟩
        cases h
        exact absurd rfl hne
      · rintro ⟨-, -, -, -, -, h⟩
        cases h
    · have hne : storage ≠ .unsupported := by
        rintro rfl
        cases hvariable
      simp only [bind, Except.bind, hvariable, hchar, not_false_eq_true, and_self, if_true,
        if_false, pure, Except.pure, Except.ok.injEq, NativeWireColumnLayout.mk.injEq,
        Option.some.injEq, Framing.mk.injEq]
      constructor
      · rintro ⟨⟨rfl, rfl, rfl, rfl, rfl, rfl, rfl, rfl, rfl, rfl⟩, -⟩
        simp
      · rintro ⟨rfl, rfl, rfl, rfl, rfl, rfl, rfl, rfl, rfl, rfl⟩
        exact ⟨by simp, hne⟩
  · simp only [hvariable, Bool.false_eq_true, false_and, if_false, Option.map_eq_some_iff,
      Prod.exists, bind_ok]
    constructor
    · rintro ⟨⟨sc, hsc, fixed, hfixed, h⟩, hne⟩
      cases fixed with
      | none =>
        cases h
        exact absurd rfl hne
      | some width =>
        cases h
        exact ⟨rfl, rfl, rfl, rfl, rfl, _, width, fixedFraming_some.mpr ⟨hsc, hfixed⟩, rfl⟩
    · rintro ⟨rfl, rfl, rfl, rfl, rfl, sc, width, hfixed, h⟩
      obtain ⟨hsc, hwidth⟩ := fixedFraming_some.mp hfixed
      simp only [Framing.mk.injEq] at h
      obtain ⟨rfl, rfl, rfl, rfl, rfl⟩ := h
      refine ⟨⟨_, hsc, some width, hwidth, rfl⟩, ?_⟩
      intro hs
      rw [show estorage = .unsupported from hs] at hfixed
      cases hfixed

/-- CORRECT: the core accepts a column when it claims the derived framing, with no precision and no
    scale on a character or binary type. -/
theorem validateLayout_ok {i : ℕ} {column : NativeWireColumnLayout} :
    validateLayout py i column = .ok () ↔
      column.storageType = .ofName (rootOf py (normalizeType py column.sourceType)) ∧
      column.nullable = isNullable py column.sourceType ∧
      framingOf py (isNullable py column.sourceType) (none, none)
        (normalizeType py column.sourceType) = some column.framing := by
  constructor
  · intro h
    obtain ⟨expected, hexpected, h⟩ := bind_ok.mp h
    split_ifs at h with hrefused
    obtain ⟨hsupported, hsame⟩ := not_or.mp hrefused
    obtain ⟨hnullable, hstorage, hprefix, hfixed, hprecision, hscale, hencoding⟩ :=
      of_decide_eq_true (not_not.mp hsame)
    obtain ⟨-, -, -, hroot, hnull, hframing⟩ :=
      layoutOf_supported.mp ⟨hexpected, hsupported⟩
    refine ⟨hstorage.trans hroot, hnullable.trans hnull, hframing.trans ?_⟩
    simp [NativeWireColumnLayout.framing, hprefix, hfixed, hprecision, hscale, hencoding]
  · rintro ⟨hroot, hnull, hframing⟩
    obtain ⟨hexpected, hsupported⟩ := layoutOf_supported (e := column).mpr
      ⟨rfl, rfl, rfl, hroot, hnull, hframing⟩
    refine bind_ok.mpr ⟨column, hexpected, ?_⟩
    rw [if_neg]
    rintro (hs | hs)
    · exact hsupported hs
    · simp [sameFraming] at hs

theorem sourceType_ne_nil {dtype : Str}
    (h : Storage.ofName (rootOf py (normalizeType py dtype)) ≠ .unsupported) : dtype ≠ [] := by
  rintro rfl
  refine h ?_
  have hlower : py.lower (strip py.toUnicode []) = [] := (py.lower_eq_nil _).mpr rfl
  rw [normalizeType, hlower]
  rfl

theorem validateColumn_framing {column : NativeWireColumnLayout} {nullable : Bool}
    (hnullable : nullable = contains "nullable".toList (py.lower column.sourceType)) :
    validateColumn py column = .ok () ↔
      (column.name ≠ [] ∧ column.sourceType ≠ [] ∧ column.targetType ≠ []) ∧
      column.storageType = .ofName (rootOf py (normalizeType py column.sourceType)) ∧
      column.nullable = nullable ∧
      framingOf py nullable (precisionScale py (normalizeType py column.sourceType))
        (normalizeType py column.sourceType) = some column.framing := by
  have hsizes : columnPrecisionScale py (normalizeType py column.sourceType)
      (Storage.ofName (rootOf py (normalizeType py column.sourceType))) =
      precisionScale py (normalizeType py column.sourceType) := rfl
  simp only [validateColumn, bind_ok, raiseIf_ok, exists_and_left, exists_const, not_or, not_and,
    not_not, hsizes, ← hnullable, framingOf, NativeWireColumnLayout.framing, ← ne_eq]
  generalize normalizeType py column.sourceType = source
  generalize Storage.ofName (rootOf py source) = storage
  generalize precisionScale py source = sizes
  obtain ⟨precision, scale⟩ := sizes
  refine and_congr_right fun _ => ?_
  cases storage
  case char | varchar | nchar | nvarchar | binary | varbinary =>
    simp [Storage.temporal, Storage.variableLength, Storage.national, Storage.fixedWidth]
    grind
  case time | datetime2 | datetimeoffset =>
    simp [fixedFraming, Storage.temporal, Storage.variableLength, nativePrefixWidth]
    grind
  case float =>
    cases precision <;>
      simp [fixedFraming, Storage.temporal, Storage.variableLength, Storage.fixedWidth,
        nativePrefixWidth] <;>
      grind
  case unsupported =>
    simp [fixedFraming, Storage.temporal, Storage.variableLength, Storage.fixedWidth]
  all_goals
    simp [fixedFraming, Storage.temporal, Storage.variableLength, Storage.fixedWidth,
      nativePrefixWidth]
    grind

/-- CORRECT: the accelerator accepts a column when it is named and claims the derived framing, with
    the two parameters of a character or binary type as its precision and scale. -/
theorem validateColumn_ok {column : NativeWireColumnLayout} :
    validateColumn py column = .ok () ↔
      column.name ≠ [] ∧ column.targetType ≠ [] ∧
      column.storageType = .ofName (rootOf py (normalizeType py column.sourceType)) ∧
      column.nullable = isNullable py column.sourceType ∧
      framingOf py (isNullable py column.sourceType)
        (precisionScale py (normalizeType py column.sourceType))
        (normalizeType py column.sourceType) = some column.framing := by
  rw [validateColumn_framing rfl]
  constructor
  · rintro ⟨⟨hname, -, htarget⟩, hstorage, hnullable, hframing⟩
    rw [← isNullable_eq (framingOf_supported hframing)] at hnullable hframing
    exact ⟨hname, htarget, hstorage, hnullable, hframing⟩
  · rintro ⟨hname, htarget, hstorage, hnullable, hframing⟩
    have hsupported := framingOf_supported hframing
    rw [isNullable_eq hsupported] at hnullable hframing
    exact ⟨⟨hname, sourceType_ne_nil hsupported, htarget⟩, hstorage, hnullable, hframing⟩

/-! ### Character and binary types with two parameters -/

/-- Whether a type is a character or binary one with two parameters, as `varchar(10,2)` is. -/
def twoParameters (py : Runtime) (dtype : Str) : Bool :=
  let source := normalizeType py dtype
  (Storage.ofName (rootOf py source)).variableLength &&
    (search (parenPair py.toUnicode) source).isSome

/-- Only for such a type does it matter which sizes go for its precision and scale. -/
theorem framingOf_sizes {nullable : Bool} {dtype : Str} (h : ¬ twoParameters py dtype) :
    framingOf py nullable (precisionScale py (normalizeType py dtype)) (normalizeType py dtype) =
      framingOf py nullable (none, none) (normalizeType py dtype) := by
  simp only [twoParameters] at h
  generalize normalizeType py dtype = source at h
  by_cases hvariable : (Storage.ofName (rootOf py source)).variableLength = true
  · have hpair : search (parenPair py.toUnicode) source = none := by
      simpa [hvariable] using h
    have hsizes : precisionScale py source = (none, none) := by
      simp only [precisionScale, hpair]
      generalize Storage.ofName (rootOf py source) = storage at hvariable
      cases storage
      case char | varchar | nchar | nvarchar | binary | varbinary =>
        simp [Storage.exact, Storage.temporal]
      all_goals cases hvariable
    rw [hsizes]
  · simp only [framingOf, hvariable, Bool.false_eq_true, if_false]

/-- The two packages never give such a type the same framing. -/
theorem framingOf_twoParameters {nullable : Bool} {dtype : Str} {f : Framing}
    (h : twoParameters py dtype)
    (hcore : framingOf py nullable (none, none) (normalizeType py dtype) = some f) :
    framingOf py nullable (precisionScale py (normalizeType py dtype))
      (normalizeType py dtype) ≠ some f := by
  simp only [twoParameters, Bool.and_eq_true, Option.isSome_iff_exists] at h
  obtain ⟨hvariable, ⟨p, s⟩, hpair⟩ := h
  intro haccel
  by_cases hchar : Storage.ofName (rootOf py (normalizeType py dtype)) = .char ∧ nullable = false
  · simp only [framingOf, hvariable, if_true, if_pos hchar] at hcore
    cases hcore
  · simp only [framingOf, hvariable, if_true, if_neg hchar] at hcore haccel
    have hsizes : (precisionScale py (normalizeType py dtype)).1 = none :=
      congrArg Framing.precision (Option.some.inj (haccel.trans hcore.symm))
    simp [precisionScale, hpair] at hsizes

/-- Whether a type has a native layout. -/
def hasLayout (py : Runtime) (dtype : Str) : Bool :=
  (framingOf py (isNullable py dtype) (none, none) (normalizeType py dtype)).isSome

theorem hasLayout_of_sizes {dtype : Str} {sizes : Option ℕ × Option ℕ} {f : Framing}
    (h : framingOf py (isNullable py dtype) sizes (normalizeType py dtype) = some f) :
    hasLayout py dtype = true := by
  by_cases hvariable :
      (Storage.ofName (rootOf py (normalizeType py dtype))).variableLength = true
  · by_cases hchar : Storage.ofName (rootOf py (normalizeType py dtype)) = .char ∧
        isNullable py dtype = false
    · simp only [framingOf, hvariable, if_true, if_pos hchar] at h
      cases h
    · simp only [hasLayout, framingOf, hvariable, if_true, if_neg hchar, Option.isSome_some]
  · simp only [framingOf, if_neg hvariable] at h
    simp only [hasLayout, framingOf, if_neg hvariable, h, Option.isSome_some]

/-! ### Contracts over declared columns -/

/-- What a contract says of a column before any layout is derived. -/
structure Declaration where
  name : Str
  sourceType : Str
  targetType : Str
  deriving DecidableEq

def NativeWireColumnLayout.declaration (column : NativeWireColumnLayout) : Declaration where
  name := column.name
  sourceType := column.sourceType
  targetType := column.targetType

/-- A column both packages read alike. -/
def Plain (py : Runtime) (d : Declaration) : Prop :=
  d.targetType ≠ [] ∧ ¬ twoParameters py d.sourceType

/-- Columns a contract can be written for: named apart, of types with a native layout. -/
def Declarable (py : Runtime) (ds : List Declaration) : Prop :=
  ds ≠ [] ∧ (ds.map (·.name)).Nodup ∧ ∀ d ∈ ds, d.name ≠ [] ∧ hasLayout py d.sourceType

theorem validateLayouts_ok : ∀ {columns : List NativeWireColumnLayout} {i : ℕ},
    validateLayouts py i columns = .ok () ↔
      ∀ c ∈ columns, validateLayout py 0 c = .ok ()
  | [], _ => by simp [validateLayouts]
  | c :: cs, i => by
    have hordinal : validateLayout py i c = .ok () ↔ validateLayout py 0 c = .ok () :=
      validateLayout_ok.trans validateLayout_ok.symm
    rw [validateLayouts, bind_ok]
    simp only [List.mem_cons, forall_eq_or_imp, validateLayouts_ok, hordinal, exists_const]

theorem validateColumns_ok : ∀ {columns : List NativeWireColumnLayout},
    validateColumns py columns = .ok () ↔ ∀ c ∈ columns, validateColumn py c = .ok ()
  | [] => by simp [validateColumns]
  | c :: cs => by
    rw [validateColumns, bind_ok, List.forall_mem_cons]
    constructor
    · rintro ⟨⟨⟩, hc, hcs⟩
      exact ⟨hc, validateColumns_ok.mp hcs⟩
    · rintro ⟨hc, hcs⟩
      exact ⟨(), hc, validateColumns_ok.mpr hcs⟩

variable {digest : Digest}

/-- What both packages ask of a contract besides its columns' framing. -/
def Sealed (digest : Digest) (c : SourceNativeWireContract) : Prop :=
  (c.schemaVersion = nativeWireVersion ∧ c.sourceSystem = "mssql".toList ∧
    c.sourceFormat = "mssql-bcp-native".toList ∧ c.blockers = []) ∧
  c.columns ≠ [] ∧ (c.columns.map (·.name)).Nodup ∧
  c.typeLayoutHash = digest.layouts c.columns ∧
  c.schemaHash = digest.schema (c.columns.map fun col => (col.name, col.sourceType))

/-- CORRECT: what the core accepts. -/
theorem validateMssqlNativeContract_iff {c : SourceNativeWireContract} :
    validateMssqlNativeContract py digest c = .ok () ↔
      Sealed digest c ∧ ∀ col ∈ c.columns, col.name ≠ [] ∧ validateLayout py 0 col = .ok () := by
  have hnamed : [] ∉ c.columns.map (·.name) ↔ ∀ col ∈ c.columns, col.name ≠ [] := by
    simp
  simp only [validateMssqlNativeContract, bind_ok, raiseIf_ok, exists_const, not_or,
    not_not, hnamed]
  constructor
  · rintro ⟨⟨hversion, hsystem, hformat, hblockers, hne⟩, ⟨hname, hnodup⟩, ⟨⟩, hlayouts, hhash,
      hschema⟩
    exact ⟨⟨⟨hversion, hsystem, hformat, hblockers⟩, hne, hnodup, hhash, hschema⟩,
      fun col hcol => ⟨hname col hcol, validateLayouts_ok.mp hlayouts col hcol⟩⟩
  · rintro ⟨⟨⟨hversion, hsystem, hformat, hblockers⟩, hne, hnodup, hhash, hschema⟩, hcols⟩
    exact ⟨⟨hversion, hsystem, hformat, hblockers, hne⟩, ⟨fun col hcol => (hcols col hcol).1, hnodup⟩,
      (), validateLayouts_ok.mpr fun col hcol => (hcols col hcol).2, hhash, hschema⟩

/-- CORRECT: what the accelerator accepts. -/
theorem validateContract_iff {c : SourceNativeWireContract} (h : c.targetFormat = "Native".toList) :
    validateContract py digest c = .ok () ↔
      Sealed digest c ∧ ∀ col ∈ c.columns, validateColumn py col = .ok () := by
  simp only [validateContract, bind_ok, raiseIf_ok, exists_const, not_or, not_not]
  constructor
  · rintro ⟨⟨hversion, hformat, hsystem, -, hblockers⟩, hne, ⟨⟩, hcols, hnodup, hhash, hschema⟩
    exact ⟨⟨⟨hversion, hsystem, hformat, hblockers⟩, hne, hnodup, hhash.symm, hschema.symm⟩,
      validateColumns_ok.mp hcols⟩
  · rintro ⟨⟨⟨hversion, hsystem, hformat, hblockers⟩, hne, hnodup, hhash, hschema⟩, hcols⟩
    exact ⟨⟨hversion, hformat, hsystem, h, hblockers⟩, hne, (), validateColumns_ok.mpr hcols, hnodup,
      hhash.symm, hschema.symm⟩

/-- A plain column is accepted by both packages or by neither. -/
theorem plain_agree {col : NativeWireColumnLayout} (h : Plain py col.declaration) :
    validateColumn py col = .ok () ↔ col.name ≠ [] ∧ validateLayout py 0 col = .ok () := by
  have hsizes : ∀ nullable, framingOf py nullable
      (precisionScale py (normalizeType py col.sourceType)) (normalizeType py col.sourceType) =
      framingOf py nullable (none, none) (normalizeType py col.sourceType) :=
    fun _ => framingOf_sizes h.2
  rw [validateColumn_ok, validateLayout_ok, hsizes]
  exact and_congr_right fun _ => and_iff_right h.1

/-- A column both packages accept is plain. -/
theorem plain_of_both {col : NativeWireColumnLayout} (hcore : validateLayout py 0 col = .ok ())
    (haccel : validateColumn py col = .ok ()) : Plain py col.declaration := by
  obtain ⟨-, htarget, -, -, haccel⟩ := validateColumn_ok.mp haccel
  obtain ⟨-, -, hcore⟩ := validateLayout_ok.mp hcore
  exact ⟨htarget, fun htwo => framingOf_twoParameters htwo hcore haccel⟩

/-- The contract of declared columns, as the producer derives it. -/
def derivedColumn (py : Runtime) (d : Declaration) : NativeWireColumnLayout :=
  match framingOf py (isNullable py d.sourceType) (none, none) (normalizeType py d.sourceType) with
  | some f => {
    name := d.name, sourceType := d.sourceType, targetType := d.targetType,
    nullable := isNullable py d.sourceType,
    storageType := .ofName (rootOf py (normalizeType py d.sourceType)),
    prefixWidth := f.prefixWidth, fixedLength := f.fixedLength, precision := f.precision,
    scale := f.scale, encoding := f.encoding }
  | none => {
    name := d.name, sourceType := d.sourceType, targetType := d.targetType,
    nullable := isNullable py d.sourceType, storageType := .unsupported }

theorem derivedColumn_declaration (d : Declaration) : (derivedColumn py d).declaration = d := by
  rw [derivedColumn]
  split <;> rfl

theorem derivedColumn_ok {d : Declaration} (h : hasLayout py d.sourceType) :
    validateLayout py 0 (derivedColumn py d) = .ok () := by
  obtain ⟨f, hf⟩ := Option.isSome_iff_exists.mp h
  rw [validateLayout_ok, derivedColumn, hf]
  exact ⟨rfl, rfl, hf⟩

def derivedContract (py : Runtime) (digest : Digest) (ds : List Declaration) :
    SourceNativeWireContract where
  schemaVersion := nativeWireVersion
  sourceSystem := "mssql".toList
  sourceFormat := "mssql-bcp-native".toList
  targetFormat := "Native".toList
  columns := ds.map (derivedColumn py)
  schemaHash := digest.schema (ds.map fun d => (d.name, d.sourceType))
  typeLayoutHash := digest.layouts (ds.map (derivedColumn py))
  blockers := []

theorem derivedContract_declarations (ds : List Declaration) :
    (derivedContract py digest ds).columns.map (·.declaration) = ds := by
  simp [derivedContract, Function.comp_def, derivedColumn_declaration]

theorem derivedContract_ok {ds : List Declaration} (h : Declarable py ds) :
    validateMssqlNativeContract py digest (derivedContract py digest ds) = .ok () := by
  obtain ⟨hne, hnodup, hdeclared⟩ := h
  have hname : ∀ d, (derivedColumn py d).name = d.name := fun d =>
    congrArg Declaration.name (derivedColumn_declaration d)
  have hsource : ∀ d, (derivedColumn py d).sourceType = d.sourceType := fun d =>
    congrArg Declaration.sourceType (derivedColumn_declaration d)
  refine validateMssqlNativeContract_iff.mpr ⟨⟨⟨rfl, rfl, rfl, rfl⟩, ?_, ?_, rfl, ?_⟩, ?_⟩
  · simpa [derivedContract] using hne
  · simpa [derivedContract, Function.comp_def, hname] using hnodup
  · simp [derivedContract, Function.comp_def, hname, hsource]
  · intro col hcol
    obtain ⟨d, hd, rfl⟩ := List.mem_map.mp hcol
    rw [hname]
    exact ⟨(hdeclared d hd).1, derivedColumn_ok (hdeclared d hd).2⟩

/-- Only over declarable columns does either package accept a contract. -/
theorem declarable_of_accepted {c : SourceNativeWireContract} (hsealed : Sealed digest c)
    (h : ∀ col ∈ c.columns, col.name ≠ [] ∧ hasLayout py col.sourceType) :
    Declarable py (c.columns.map (·.declaration)) := by
  obtain ⟨-, hne, hnodup, -⟩ := hsealed
  refine ⟨by simpa using hne, ?_, ?_⟩
  · rw [List.map_map]
    exact hnodup
  · intro d hd
    obtain ⟨col, hcol, rfl⟩ := List.mem_map.mp hd
    exact h col hcol

/-- CORRECT (refinement): the two packages accept the same contracts over given columns exactly
    when every column has a target type and no character or binary type has two parameters, or
    when the columns admit no contract. -/
theorem validators_agree_iff (ds : List Declaration) :
    (∀ c : SourceNativeWireContract, c.targetFormat = "Native".toList →
      c.columns.map (·.declaration) = ds →
      (validateContract py digest c = .ok () ↔ validateMssqlNativeContract py digest c = .ok ())) ↔
    (∀ d ∈ ds, Plain py d) ∨ ¬ Declarable py ds := by
  constructor
  · intro hagree
    refine or_iff_not_imp_right.mpr fun hdeclarable d hd => ?_
    have hcore : validateMssqlNativeContract py digest (derivedContract py digest ds) = .ok () :=
      derivedContract_ok (not_not.mp hdeclarable)
    have haccel := (hagree (derivedContract py digest ds) rfl
      (derivedContract_declarations ds)).mpr hcore
    obtain ⟨-, hlayouts⟩ := validateMssqlNativeContract_iff.mp hcore
    obtain ⟨-, hcolumns⟩ := (validateContract_iff rfl).mp haccel
    have hmem : derivedColumn py d ∈ (derivedContract py digest ds).columns :=
      List.mem_map_of_mem hd
    have hplain := plain_of_both (hlayouts _ hmem).2 (hcolumns _ hmem)
    rwa [derivedColumn_declaration] at hplain
  · rintro hcases c htarget rfl
    rw [validateContract_iff htarget, validateMssqlNativeContract_iff]
    refine and_congr_right fun hsealed => ?_
    rcases hcases with hplain | hdeclarable
    · refine forall₂_congr fun col hcol => ?_
      exact plain_agree (hplain _ (List.mem_map_of_mem hcol))
    · constructor
      · intro h
        refine absurd (declarable_of_accepted hsealed fun col hcol => ?_) hdeclarable
        obtain ⟨hname, -, -, -, hframing⟩ := validateColumn_ok.mp (h col hcol)
        exact ⟨hname, hasLayout_of_sizes hframing⟩
      · intro h
        refine absurd (declarable_of_accepted hsealed fun col hcol => ?_) hdeclarable
        obtain ⟨hname, hlayout⟩ := h col hcol
        exact ⟨hname, hasLayout_of_sizes (validateLayout_ok.mp hlayout).2.2⟩

/-- `varchar(10,2)`: the core derives a length prefix and no sizes, the accelerator sizes 10 and 2. -/
theorem two_parameters_split_validators :
    let column : NativeWireColumnLayout := {
      name := "code".toList, sourceType := "varchar(10,2)".toList, targetType := "String".toList,
      nullable := false, storageType := .varchar, prefixWidth := 2, encoding := some .utf8 }
    let contract : SourceNativeWireContract := {
      schemaVersion := nativeWireVersion, sourceSystem := "mssql".toList,
      sourceFormat := "mssql-bcp-native".toList, targetFormat := "Native".toList,
      columns := [column], schemaHash := "sha256:schema".toList,
      typeLayoutHash := "sha256:layouts".toList, blockers := [] }
    let digest : Digest := {
      layouts := fun _ => "sha256:layouts".toList, schema := fun _ => "sha256:schema".toList }
    ¬ (validateContract .ascii digest contract = .ok () ↔
      validateMssqlNativeContract .ascii digest contract = .ok ()) := by
  decide

end Dpone.NativeWire
