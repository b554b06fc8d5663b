import Dpone.NativeWire.Layout
import Dpone.Schemes.Records

/-! ClickHouse Native blocks of the accelerator.

    A block says how many columns and how many rows it has, then holds each column: its name, its
    type, its null map and its data. Lengths and counts are variable integers, groups of seven bits
    from the lowest on, where every byte but the last has its high bit set. How one cell is written
    does not matter to the header, so the two functions that write cells are parameters. -/

namespace Dpone.NativeWire
open Dpone.Schemes

/-! ### Variable integers -/

/-- `var_uint`, and `_var_uint` of the block builder. -/
def varUint (current : ℕ) : Bytes :=
  if 0x80 ≤ current then UInt8.ofNat (current &&& 0x7F ||| 0x80) :: varUint (current >>> 7)
  else [UInt8.ofNat current]
termination_by current
decreasing_by
  rw [Nat.shiftRight_eq_div_pow]
  omega

/-- The loop of `read_var_uint`, over the bytes from `current` on. -/
def readGroups : Bytes → ℕ → ℕ → ℕ → Except PyError (ℕ × ℕ)
  | [], _, _, _ => .error (.valueError "clickhouse_native_invalid_varuint")
  | byte :: rest, current, shift, value =>
    let value := value ||| (byte.toNat &&& 0x7F) <<< shift
    if byte < 0x80 then .ok (value, current + 1)
    else readGroups rest (current + 1) (shift + 7) value

/-- `read_var_uint`. -/
def readVarUint (payload : Bytes) (offset : ℕ) : Except PyError (ℕ × ℕ) :=
  readGroups (payload.drop offset) offset 0 0

/-- The lowest group below the others. -/
theorem group_or_groups (n shift : ℕ) :
    (n &&& 0x7F) <<< shift ||| n >>> 7 <<< (shift + 7) = n <<< shift := by
  have hlow : n &&& 0x7F ||| n >>> 7 <<< 7 = n := by
    refine Nat.eq_of_testBit_eq fun i => ?_
    rw [Nat.testBit_or, Nat.testBit_and, Nat.testBit_shiftLeft, Nat.testBit_shiftRight,
      show (0x7F : ℕ) = 2 ^ 7 - 1 from rfl, Nat.testBit_two_pow_sub_one]
    by_cases hi : i < 7
    · simp [hi, Nat.not_le.mpr hi]
    · have hle : 7 ≤ i := Nat.not_lt.mp hi
      simp [hi, hle, Nat.add_sub_cancel' hle]
  rw [Nat.add_comm, Nat.shiftLeft_add, ← Nat.shiftLeft_or_distrib, hlow]

theorem toNat_last {n : ℕ} (h : n < 0x80) : (UInt8.ofNat n).toNat = n := by
  rw [UInt8.toNat_ofNat']
  omega

/-- A byte that continues: its group, and the high bit. -/
theorem toNat_group (n : ℕ) : (UInt8.ofNat (n &&& 0x7F ||| 0x80)).toNat = (n &&& 0x7F) + 0x80 := by
  have hlt : n &&& 0x7F < 0x80 := Nat.and_lt_two_pow n (by decide : (0x7F : ℕ) < 2 ^ 7)
  have hor : n &&& 0x7F ||| 0x80 = (n &&& 0x7F) + 0x80 := by
    rw [Nat.or_comm, Nat.add_comm]
    exact (Nat.two_pow_add_eq_or_of_lt (show _ < 2 ^ 7 from hlt) 1).symm
  rw [hor, UInt8.toNat_ofNat']
  omega

theorem group_and (n : ℕ) : (n &&& 0x7F) + 0x80 &&& 0x7F = n &&& 0x7F := by
  have hlt : n &&& 0x7F < 0x80 := Nat.and_lt_two_pow n (by decide : (0x7F : ℕ) < 2 ^ 7)
  rw [show (0x7F : ℕ) = 2 ^ 7 - 1 from rfl, Nat.and_two_pow_sub_one_eq_mod,
    Nat.and_two_pow_sub_one_eq_mod]
  omega

/-- RUN: reading on through a written number adds it above what was read before. -/
theorem readGroups_varUint (n : ℕ) : ∀ (suffix : Bytes) (current shift value : ℕ),
    readGroups (varUint n ++ suffix) current shift value =
      .ok (value ||| n <<< shift, current + (varUint n).length) := by
  induction n using Nat.strong_induction_on with
  | _ n ih =>
    intro suffix current shift value
    rw [varUint]
    by_cases hmore : 0x80 ≤ n
    · have hless : n >>> 7 < n := by
        rw [Nat.shiftRight_eq_div_pow]
        omega
      have hbyte : ¬ UInt8.ofNat (n &&& 0x7F ||| 0x80) < 0x80 := by
        rw [UInt8.lt_iff_toNat_lt, toNat_group]
        exact Nat.not_lt.mpr (Nat.le_add_left _ _)
      rw [if_pos hmore, List.cons_append, readGroups, if_neg hbyte, ih _ hless, toNat_group,
        group_and, Nat.or_assoc, group_or_groups,
        List.length_cons, Nat.add_assoc, Nat.add_comm 1]
    · have hlt : n < 0x80 := Nat.not_le.mp hmore
      have hbyte : UInt8.ofNat n < 0x80 := by
        rw [UInt8.lt_iff_toNat_lt, toNat_last hlt]
        exact hlt
      have hgroup : n &&& 0x7F = n := by
        rw [show (0x7F : ℕ) = 2 ^ 7 - 1 from rfl, Nat.and_two_pow_sub_one_eq_mod]
        exact Nat.mod_eq_of_lt hlt
      rw [if_neg hmore, List.cons_append, readGroups, if_pos hbyte, toNat_last hlt, hgroup]
      rfl

/-- LOSSLESS: a number is read back where it was written, up to the byte after it. -/
theorem readVarUint_varUint (before suffix : Bytes) (n : ℕ) :
    readVarUint (before ++ varUint n ++ suffix) before.length =
      .ok (n, before.length + (varUint n).length) := by
  rw [readVarUint, List.append_assoc, List.drop_left, readGroups_varUint, Nat.zero_or,
    Nat.shiftLeft_zero]

/-! ### Blocks -/

/-- `_encode_value` and `_default_value`: the bytes of a cell under a type without `Nullable`. -/
structure CellWriter where
  encodeValue : Bytes → ColumnLayout → Str → Except PyError Bytes
  defaultValue : Str → Except PyError Bytes

variable (py : Runtime) (cells : CellWriter)

/-- `_unwrap_nullable`. -/
def unwrapNullable (clickhouseType : Str) : Bool × Str :=
  let value := strip py.toUnicode clickhouseType
  if "nullable(".toList.isPrefixOf (py.lower value) ∧ [')'].isSuffixOf value then
    (true, strip py.toUnicode ((value.drop "Nullable(".length).dropLast))
  else (false, value)

/-- `_ch_string`. -/
def chString (value : Str) : Bytes := varUint (encodeUtf8 value).length ++ encodeUtf8 value

/-- `_BlockBuilder`. -/
structure BlockBuilder where
  columns : List ColumnLayout
  nullMaps : List Bytes
  data : List Bytes
  rows : ℕ

/-- `_BlockBuilder(columns)`. -/
def BlockBuilder.new (columns : List ColumnLayout) : BlockBuilder where
  columns := columns
  nullMaps := columns.map fun _ => []
  data := columns.map fun _ => []
  rows := 0

/-- One turn of the loop of `append`: what the cell adds to its column's null map and data. -/
def cellBytes (column : ColumnLayout) (value : Option Bytes) : Except PyError (Bytes × Bytes) := do
  let (nullable, innerType) := unwrapNullable py column.clickhouseType
  match nullable, value with
  | true, none => return ([1], ← cells.defaultValue innerType)
  | true, some payload => return ([0], ← cells.encodeValue payload column innerType)
  | false, none =>
    throw (.valueError
      s!"native_acceleration_null_for_non_nullable:{String.ofList column.name}")
  | false, some payload => return ([], ← cells.encodeValue payload column innerType)

/-- The loop of `append`, from the cell at `index` on. -/
def BlockBuilder.appendFrom (b : BlockBuilder) :
    ℕ → List (Option Bytes) → Except PyError BlockBuilder
  | _, [] => .ok b
  | index, value :: values =>
    match b.columns[index]? with
    | none => .error .indexError
    | some column => do
      let (mark, bytes) ← cellBytes py cells column value
      let b' := { b with
        nullMaps := b.nullMaps.modify index (· ++ mark), data := b.data.modify index (· ++ bytes) }
      b'.appendFrom (index + 1) values

/-- `append`. -/
def BlockBuilder.append (b : BlockBuilder) (values : List (Option Bytes)) :
    Except PyError BlockBuilder := do
  let b ← b.appendFrom py cells 0 values
  return { b with rows := b.rows + 1 }

/-- The block of a batch: every row appended to a new builder. -/
def BlockBuilder.ofRows (columns : List ColumnLayout) (rows : List (List (Option Bytes))) :
    Except PyError BlockBuilder :=
  rows.foldlM (fun b row => b.append py cells row) (.new columns)

/-- `to_bytes`. -/
def BlockBuilder.toBytes (b : BlockBuilder) : Bytes :=
  varUint b.columns.length ++ varUint b.rows ++
    (b.columns.zip (b.nullMaps.zip b.data)).flatMap fun (column, nulls, data) =>
      chString column.name ++ chString column.clickhouseType ++ nulls ++ data

/-- `row_count` of the framer. -/
def rowCount (blockPayload : Bytes) : Except PyError ℕ := do
  let (_, offset) ← readVarUint blockPayload 0
  let (rows, _) ← readVarUint blockPayload offset
  return rows

/-- The number that `row_count` skips. -/
def columnCount (blockPayload : Bytes) : Except PyError ℕ := do
  let (columns, _) ← readVarUint blockPayload 0
  return columns

variable {py cells}

/-- Appending cells keeps the columns and the row count. -/
theorem appendFrom_frame : ∀ {values : List (Option Bytes)} {index : ℕ} {b b' : BlockBuilder},
    b.appendFrom py cells index values = .ok b' → b'.columns = b.columns ∧ b'.rows = b.rows
  | [], _, _, _, h => by
    cases h
    exact ⟨rfl, rfl⟩
  | value :: values, index, b, b', h => by
    rw [BlockBuilder.appendFrom] at h
    cases hcolumn : b.columns[index]? with
    | none =>
      rw [hcolumn] at h
      cases h
    | some column =>
      rw [hcolumn] at h
      obtain ⟨⟨mark, bytes⟩, -, h⟩ := bind_ok.mp h
      obtain ⟨hcolumns, hrows⟩ := appendFrom_frame h
      exact ⟨hcolumns, hrows⟩

/-- STEP: a row appended is one row more. -/
theorem append_counts {b b' : BlockBuilder} {values : List (Option Bytes)}
    (h : b.append py cells values = .ok b') :
    b'.columns = b.columns ∧ b'.rows = b.rows + 1 := by
  obtain ⟨b₁, hfrom, h⟩ := bind_ok.mp h
  cases h
  obtain ⟨hcolumns, hrows⟩ := appendFrom_frame hfrom
  exact ⟨hcolumns, congrArg (· + 1) hrows⟩

/-- RUN: rows appended one after the other are counted. -/
theorem appends_count : ∀ {rows : List (List (Option Bytes))} {b b' : BlockBuilder},
    rows.foldlM (fun b row => b.append py cells row) b = .ok b' →
      b'.columns = b.columns ∧ b'.rows = b.rows + rows.length
  | [], _, _, h => by
    cases h
    exact ⟨rfl, rfl⟩
  | row :: rows, b, b', h => by
    rw [List.foldlM_cons] at h
    obtain ⟨b₁, hrow, hrest⟩ := bind_ok.mp h
    obtain ⟨hcolumns, hrows⟩ := append_counts hrow
    obtain ⟨hcolumns', hrows'⟩ := appends_count hrest
    rw [hcolumns', hrows', hrows, List.length_cons]
    exact ⟨hcolumns, by omega⟩

/-- The header of a block. -/
theorem toBytes_counts (b : BlockBuilder) :
    columnCount b.toBytes = .ok b.columns.length ∧ rowCount b.toBytes = .ok b.rows := by
  generalize hbody : ((b.columns.zip (b.nullMaps.zip b.data)).flatMap fun (column, nulls, data) =>
    chString column.name ++ chString column.clickhouseType ++ nulls ++ data) = body
  have hbytes : b.toBytes = varUint b.columns.length ++ varUint b.rows ++ body := by
    rw [BlockBuilder.toBytes, hbody]
  have hfirst : readVarUint b.toBytes 0 =
      .ok (b.columns.length, (varUint b.columns.length).length) := by
    rw [hbytes, List.append_assoc]
    simpa using readVarUint_varUint [] (varUint b.rows ++ body) b.columns.length
  have hsecond : readVarUint b.toBytes (varUint b.columns.length).length =
      .ok (b.rows, (varUint b.columns.length).length + (varUint b.rows).length) := by
    rw [hbytes]
    exact readVarUint_varUint (varUint b.columns.length) body b.rows
  constructor
  · rw [columnCount, hfirst]
    rfl
  · rw [rowCount, hfirst]
    change (readVarUint b.toBytes (varUint b.columns.length).length >>= _) = _
    rw [hsecond]
    rfl

/-- LOSSLESS: numbers come back from where they were written, and a block of any columns and any
    rows says how many it has of each. -/
theorem native_header_lossless (py : Runtime) (cells : CellWriter) :
    (∀ (before suffix : Bytes) (n : ℕ),
      readVarUint (before ++ varUint n ++ suffix) before.length =
        .ok (n, before.length + (varUint n).length)) ∧
    ∀ (columns : List ColumnLayout) (rows : List (List (Option Bytes))) (b : BlockBuilder),
      BlockBuilder.ofRows py cells columns rows = .ok b →
        columnCount b.toBytes = .ok columns.length ∧ rowCount b.toBytes = .ok rows.length := by
  refine ⟨readVarUint_varUint, fun columns rows b h => ?_⟩
  obtain ⟨hcolumns, hrows⟩ := appends_count h
  have hcounts := toBytes_counts b
  rw [hcolumns, hrows] at hcounts
  simpa [BlockBuilder.new] using hcounts

/-- A column of bytes as they are, and a batch with a NULL. -/
theorem native_header_of_two_rows :
    let column : ColumnLayout :=
      { name := "note".toList, storageType := .varbinary
        clickhouseType := "Nullable(String)".toList, nullable := true, prefixWidth := 8
        fixedLength := none, precision := none, scale := none, encoding := .utf8
        binaryEncoding := .none, sourceType := "varbinary(10)".toList }
    let cells : CellWriter :=
      { encodeValue := fun payload _ _ => .ok (varUint payload.length ++ payload)
        defaultValue := fun _ => .ok [0] }
    ∃ b, BlockBuilder.ofRows .ascii cells [column] [[some [7, 8]], [none]] = .ok b ∧
      columnCount b.toBytes = .ok 1 ∧ rowCount b.toBytes = .ok 2 := by
  intro column cells
  exact ⟨_, rfl,
    (native_header_lossless .ascii cells).2 [column] [[some [7, 8]], [none]] _ rfl⟩

end Dpone.NativeWire
