import Dpone.Schemes.Framing
import Dpone.Schemes.Generator

/-! The row-boundary chunk writer of `runtime/physical_chunk_writer.py` under the policy of
    `runtime/physical_chunk_policy.py`. A chunk is the bytes of its file: the file's name and
    directory are left out. SHA-256 is the parameter `sha256Hex`. -/

namespace Dpone.PhysicalChunks
open Dpone.Schemes

inductive PolicyError where
  | targetBytesInvalid
  | maxBytesInvalid
  | targetExceedsMaxBytes
  deriving DecidableEq

/-- The limits of `PhysicalChunkPolicy` that its constructor accepts. -/
structure PhysicalChunkPolicy where
  targetChunkBytes : ℕ
  maxChunkBytes : ℕ
  target_pos : 0 < targetChunkBytes
  max_pos : 0 < maxChunkBytes
  target_le : targetChunkBytes ≤ maxChunkBytes

/-- `PhysicalChunkPolicy.__post_init__`. -/
def PhysicalChunkPolicy.postInit (targetChunkBytes maxChunkBytes : ℤ) :
    Except PolicyError PhysicalChunkPolicy :=
  if htarget : 0 < targetChunkBytes then
    if hmax : 0 < maxChunkBytes then
      if hle : targetChunkBytes ≤ maxChunkBytes then
        .ok ⟨targetChunkBytes.toNat, maxChunkBytes.toNat, by omega, by omega, by omega⟩
      else .error .targetExceedsMaxBytes
    else .error .maxBytesInvalid
  else .error .targetBytesInvalid

/-- `PhysicalRowLimitExceeded`, raised by the framer that the rows are read from. -/
structure RowLimitExceeded where
  rowBytes : ℕ
  maxChunkBytes : ℕ
  deriving DecidableEq

inductive ChunkError where
  | chunkLimitExceeded (chunkIndex rowBytes maxChunkBytes : ℕ)
  | emptyRow
  | emptySeal
  deriving DecidableEq

structure PhysicalTransferChunk where
  file : Bytes
  chunkIndex : ℕ
  byteCount : ℕ
  rowCount : ℕ
  checksum : Str
  format : Str
  deriving DecidableEq

/-- `_OpenChunkState`: no file exists before the first row. -/
structure OpenChunkState where
  format : Str
  chunkIndex : ℕ
  nextIndex : ℕ
  file : Option Bytes
  digested : Bytes
  byteCount : ℕ
  rowCount : ℕ
  deriving DecidableEq

def OpenChunkState.init (format : Str) (index : ℕ) : OpenChunkState :=
  ⟨format, index, index + 1, none, [], 0, 0⟩

def OpenChunkState.write (state : OpenChunkState) (row : Bytes) : OpenChunkState :=
  { state with
    file := some (state.file.getD [] ++ row)
    digested := state.digested ++ row
    byteCount := state.byteCount + row.length
    rowCount := state.rowCount + 1 }

def checksumOf (sha256Hex : Bytes → Str) (content : Bytes) : Str :=
  "sha256:".toList ++ sha256Hex content

def OpenChunkState.seal (sha256Hex : Bytes → Str) (state : OpenChunkState) :
    Except ChunkError PhysicalTransferChunk :=
  match state.file with
  | none => .error .emptySeal
  | some file => .ok
    { file := file, chunkIndex := state.chunkIndex, byteCount := state.byteCount,
      rowCount := state.rowCount, checksum := checksumOf sha256Hex state.digested,
      format := state.format }

/-- An empty terminator is replaced when the writer is made. -/
structure RowBoundaryChunkWriter where
  policy : PhysicalChunkPolicy
  format : Str
  rowTerminator : Bytes
  terminator_ne : rowTerminator ≠ []

/-- `RowBoundaryChunkWriter.__init__`. -/
def RowBoundaryChunkWriter.init (policy : PhysicalChunkPolicy) (format : Str)
    (rowTerminator : Bytes) : RowBoundaryChunkWriter :=
  if h : rowTerminator = [] then ⟨policy, format, [10], by decide⟩
  else ⟨policy, format, rowTerminator, h⟩

namespace RowBoundaryChunkWriter
variable (sha256Hex : Bytes → Str) (w : RowBoundaryChunkWriter)

/-- Yields chunks until it returns or raises. -/
abbrev Writing (α : Type) := Generator PhysicalTransferChunk ChunkError α

open Generator

def checkRowLimit (state : OpenChunkState) (row : Bytes) : Except ChunkError Unit :=
  if w.policy.maxChunkBytes < row.length then
    .error (.chunkLimitExceeded state.chunkIndex row.length w.policy.maxChunkBytes)
  else .ok ()

def prepareRow (state : OpenChunkState) (row : Bytes) :
    Except ChunkError (OpenChunkState × Option PhysicalTransferChunk) := do
  w.checkRowLimit state row
  if state.byteCount ≠ 0 ∧ w.policy.maxChunkBytes < state.byteCount + row.length then
    let sealed ← state.seal sha256Hex
    pure (.init w.format state.nextIndex, some sealed)
  else pure (state, none)

/-- `if sealed is not None: yield sealed`. -/
def emitSealed : Option PhysicalTransferChunk → Writing Unit
  | some sealed => emit sealed
  | none => pure ()

/-- The part that the loops of `write` and `write_rows` share: one row of either. -/
def takeRow (state : OpenChunkState) (row : Bytes) : Writing OpenChunkState := do
  let (state, sealed) ← ofExcept (w.prepareRow sha256Hex state row)
  emitSealed sealed
  let state := state.write row
  if w.policy.targetChunkBytes ≤ state.byteCount then
    let sealed ← ofExcept (state.seal sha256Hex)
    emit sealed
    pure (.init w.format state.nextIndex)
  else pure state

/-- The chunk that is open when the rows end. -/
def sealRest (state : OpenChunkState) : Writing Unit :=
  if state.byteCount ≠ 0 then do
    let sealed ← ofExcept (state.seal sha256Hex)
    emit sealed
  else pure ()

/-- One turn of the loop of `write` over the fragments, with the bytes still pending. -/
def takeFragment (st : OpenChunkState × Bytes) (data : Bytes) : Writing (OpenChunkState × Bytes) :=
  if data = [] then pure st
  else do
    let parts := splitWord w.rowTerminator (st.2 ++ data)
    let state ← parts.dropLast.foldlM
      (fun state rowBody => w.takeRow sha256Hex state (rowBody ++ w.rowTerminator)) st.1
    let pending := parts.getLastD []
    ofExcept (w.checkRowLimit state pending)
    pure (state, pending)

/-- The bytes that no terminator ended are a row of their own. -/
def takePending (state : OpenChunkState) (pending : Bytes) : Writing OpenChunkState :=
  if pending = [] then pure state
  else do
    let (state, sealed) ← ofExcept (w.prepareRow sha256Hex state pending)
    emitSealed sealed
    pure (state.write pending)

def write (byteChunks : List Bytes) : Writing Unit := do
  let st ← byteChunks.foldlM (w.takeFragment sha256Hex) (.init w.format 0, [])
  let state ← w.takePending sha256Hex st.1 st.2
  sealRest sha256Hex state

/-- One turn of the loop of `write_rows`: the next row, or the framer's refusal of it. -/
def takeFramed (state : OpenChunkState) : Except RowLimitExceeded Bytes → Writing OpenChunkState
  | .error exc => raise (.chunkLimitExceeded state.chunkIndex exc.rowBytes exc.maxChunkBytes)
  | .ok [] => raise .emptyRow
  | .ok row => w.takeRow sha256Hex state row

def writeRows (rows : List (Except RowLimitExceeded Bytes)) : Writing Unit := do
  let state ← rows.foldlM (w.takeFramed sha256Hex) (.init w.format 0)
  sealRest sha256Hex state

end RowBoundaryChunkWriter
end Dpone.PhysicalChunks

/-! CORRECT: for content made of complete rows that fit, the writer seals the same chunks wherever
    the content is cut into fragments, and the same that it seals from the framed rows. The chunks
    are the packing of the rows: what is open after some rows is their last group, and the bytes
    still pending are those after the last terminator. -/

namespace Dpone.PhysicalChunks
open Dpone.Schemes

namespace RowBoundaryChunkWriter
variable (sha256Hex : Bytes → Str) (w : RowBoundaryChunkWriter)

/-- The chunk of a group of rows. -/
def chunk (index : ℕ) (group : List Bytes) : PhysicalTransferChunk where
  file := group.flatten
  chunkIndex := index
  byteCount := group.flatten.length
  rowCount := group.length
  checksum := checksumOf sha256Hex group.flatten
  format := w.format

/-- The state in which a group of rows is open. -/
def openState (index : ℕ) (group : List Bytes) : OpenChunkState where
  format := w.format
  chunkIndex := index
  nextIndex := index + 1
  file := if group = [] then none else some group.flatten
  digested := group.flatten
  byteCount := group.flatten.length
  rowCount := group.length

/-- The chunks of successive groups. -/
def chunksFrom : ℕ → List (List Bytes) → List PhysicalTransferChunk
  | _, [] => []
  | index, group :: groups => w.chunk sha256Hex index group :: chunksFrom (index + 1) groups

theorem chunksFrom_append : ∀ (index : ℕ) (groups more : List (List Bytes)),
    w.chunksFrom sha256Hex index (groups ++ more) =
      w.chunksFrom sha256Hex index groups ++ w.chunksFrom sha256Hex (index + groups.length) more
  | _, [], _ => rfl
  | index, group :: groups, more => by
    rw [List.cons_append, chunksFrom, chunksFrom_append, chunksFrom, List.cons_append,
      List.length_cons, Nat.add_right_comm, Nat.add_assoc index]

theorem chunksFrom_mapIdx : ∀ (index : ℕ) (groups : List (List Bytes)),
    w.chunksFrom sha256Hex index groups = groups.mapIdx fun i => w.chunk sha256Hex (index + i)
  | _, [] => rfl
  | index, group :: groups => by
    rw [chunksFrom, chunksFrom_mapIdx, List.mapIdx_cons]
    simp only [Nat.add_zero, Nat.add_assoc, Nat.add_comm 1]

theorem weight_rows (group : List Bytes) : weight List.length group = group.flatten.length := by
  rw [weight, List.length_flatten]

/-! ### One row -/

theorem openState_nil (index : ℕ) : w.openState index [] = .init w.format index := rfl

theorem openState_write (index : ℕ) (group : List Bytes) (row : Bytes) :
    (w.openState index group).write row = w.openState index (group ++ [row]) := by
  by_cases h : group = [] <;> simp [openState, OpenChunkState.write, h]

theorem seal_openState (index : ℕ) {group : List Bytes} (h : group ≠ []) :
    (w.openState index group).seal sha256Hex = .ok (w.chunk sha256Hex index group) := by
  simp [openState, OpenChunkState.seal, chunk, h]

/-- An open group has bytes as soon as it has a row. -/
theorem byteCount_openState (index : ℕ) {group : List Bytes} (h : ∀ row ∈ group, row ≠ []) :
    (w.openState index group).byteCount ≠ 0 ↔ group ≠ [] := by
  cases group with
  | nil => simp [openState]
  | cons row group =>
    have hrow : row ≠ [] := h row (List.mem_cons_self ..)
    simp [openState, hrow]

/-- What a row of this writer may be packed with. -/
abbrev roomOf (group : List Bytes) (row : Bytes) : List (List Bytes) × List Bytes :=
  makeRoom List.length w.policy.maxChunkBytes group row

theorem prepareRow_openState (index : ℕ) {group : List Bytes} {row : Bytes}
    (hgroup : ∀ r ∈ group, r ≠ []) (hrow : row.length ≤ w.policy.maxChunkBytes) :
    ∃ sealed, w.prepareRow sha256Hex (w.openState index group) row =
        .ok (w.openState (index + (w.roomOf group row).1.length) (w.roomOf group row).2, sealed) ∧
      emitSealed sealed = ⟨w.chunksFrom sha256Hex index (w.roomOf group row).1, .ok ()⟩ := by
  have hlimit : w.checkRowLimit (w.openState index group) row = .ok () :=
    if_neg (Nat.not_lt.mpr hrow)
  have hfull : (w.openState index group).byteCount ≠ 0 ∧
      w.policy.maxChunkBytes < (w.openState index group).byteCount + row.length ↔
      group ≠ [] ∧ w.policy.maxChunkBytes < weight List.length group + row.length := by
    rw [byteCount_openState w index hgroup, weight_rows]
    rfl
  by_cases h : group ≠ [] ∧ w.policy.maxChunkBytes < weight List.length group + row.length
  · refine ⟨some (w.chunk sha256Hex index group), ?_, ?_⟩
    · rw [prepareRow, hlimit, if_pos (hfull.mpr h), seal_openState sha256Hex w index h.1, roomOf,
        makeRoom, if_pos h]
      rfl
    · rw [roomOf, makeRoom, if_pos h]
      rfl
  · refine ⟨none, ?_, ?_⟩
    · rw [prepareRow, hlimit, if_neg (hfull.not.mpr h), roomOf, makeRoom, if_neg h]
      rfl
    · rw [roomOf, makeRoom, if_neg h]
      rfl

/-- STEP: a row that fits seals the groups that it closes. -/
theorem takeRow_openState (index : ℕ) {group : List Bytes} {row : Bytes}
    (hgroup : ∀ r ∈ group, r ≠ []) (hrow : row.length ≤ w.policy.maxChunkBytes) :
    let step := packStep List.length w.policy.targetChunkBytes w.policy.maxChunkBytes group row
    w.takeRow sha256Hex (w.openState index group) row =
      ⟨w.chunksFrom sha256Hex index step.1, .ok (w.openState (index + step.1.length) step.2)⟩ := by
  obtain ⟨sealed, hprepare, hemit⟩ := prepareRow_openState sha256Hex w index hgroup hrow
  have hcount : ∀ i g, (w.openState i g).byteCount = weight List.length g :=
    fun _ g => (weight_rows g).symm
  simp only [takeRow, hprepare, Generator.ofExcept_bind, hemit, Generator.bind_ok,
    openState_write, hcount, packStep]
  split_ifs with h
  · rw [seal_openState sha256Hex w _ (by simp), Generator.ofExcept_bind]
    simp [chunksFrom_append, chunksFrom, openState, Generator.pure_eq, Nat.add_assoc]
    rfl
  · simp [Generator.pure_eq]

/-! ### Runs of rows -/

/-- The groups that rows close, and the group that they leave open. -/
abbrev packed (group rows : List Bytes) : List (List Bytes) × List Bytes :=
  packLoop List.length w.policy.targetChunkBytes w.policy.maxChunkBytes group rows

/-- RUN: rows that fit seal the groups that they close. -/
theorem takeRows_openState : ∀ (rows : List Bytes) (index : ℕ) {group : List Bytes},
    (∀ r ∈ group, r ≠ []) →
    (∀ row ∈ rows, row ≠ [] ∧ row.length ≤ w.policy.maxChunkBytes) →
    rows.foldlM (w.takeRow sha256Hex) (w.openState index group) =
      ⟨w.chunksFrom sha256Hex index (w.packed group rows).1,
        .ok (w.openState (index + (w.packed group rows).1.length) (w.packed group rows).2)⟩
  | [], _, _, _, _ => rfl
  | row :: rows, index, group, hgroup, hrows => by
    obtain ⟨hne, hfit⟩ := hrows row (List.mem_cons_self ..)
    have hopen : ∀ r ∈ (packStep List.length w.policy.targetChunkBytes w.policy.maxChunkBytes
        group row).2, r ≠ [] := by
      intro r hr
      have hmem : r ∈ group ++ [row] := by
        rw [← packStep_flatten List.length w.policy.targetChunkBytes w.policy.maxChunkBytes]
        exact List.mem_append_right _ hr
      rcases List.mem_append.mp hmem with h | h
      · exact hgroup r h
      · rwa [List.mem_singleton.mp h]
    rw [List.foldlM_cons, takeRow_openState sha256Hex w index hgroup hfit, Generator.bind_ok,
      takeRows_openState rows _ hopen fun r hr => hrows r (List.mem_cons_of_mem _ hr)]
    simp [packed, packLoop, chunksFrom_append, Nat.add_assoc]

theorem sealRest_openState (index : ℕ) {group : List Bytes} (hgroup : ∀ r ∈ group, r ≠ []) :
    sealRest sha256Hex (w.openState index group) =
      ⟨w.chunksFrom sha256Hex index (closeLast group), .ok ()⟩ := by
  by_cases h : group = []
  · rw [sealRest, if_neg ((byteCount_openState w index hgroup).not.mpr (not_not.mpr h)), closeLast,
      if_pos h]
    rfl
  · rw [sealRest, if_pos ((byteCount_openState w index hgroup).mpr h),
      seal_openState sha256Hex w index h, closeLast, if_neg h]
    rfl

theorem packed_ne_nil {group rows : List Bytes} (hgroup : ∀ r ∈ group, r ≠ [])
    (hrows : ∀ row ∈ rows, row ≠ []) : ∀ r ∈ (w.packed group rows).2, r ≠ [] := by
  intro r hr
  have hmem : r ∈ group ++ rows := by
    rw [← packLoop_flatten List.length w.policy.targetChunkBytes w.policy.maxChunkBytes]
    exact List.mem_append_right _ hr
  rcases List.mem_append.mp hmem with h | h
  · exact hgroup r h
  · exact hrows r h

/-- The chunks of rows that are written one after the other. -/
def sealedChunks (rows : List Bytes) : List PhysicalTransferChunk :=
  w.chunksFrom sha256Hex 0
    (pack List.length w.policy.targetChunkBytes w.policy.maxChunkBytes rows)

/-- What follows when all rows were taken. -/
theorem sealRest_packed {rows : List Bytes} (hrows : ∀ row ∈ rows, row ≠ []) :
    (⟨w.chunksFrom sha256Hex 0 (w.packed [] rows).1,
        .ok (w.openState (w.packed [] rows).1.length (w.packed [] rows).2)⟩ >>=
      sealRest sha256Hex : Writing Unit) = ⟨w.sealedChunks sha256Hex rows, .ok ()⟩ := by
  have hempty : ∀ r ∈ ([] : List Bytes), r ≠ [] := by simp
  rw [Generator.bind_ok, sealRest_openState sha256Hex w _ (packed_ne_nil w hempty hrows)]
  simp [sealedChunks, pack, chunksFrom_append]

/-- CORRECT: framed rows that fit are sealed in the chunks of their packing. -/
theorem writeRows_packed {rows : List Bytes}
    (hrows : ∀ row ∈ rows, row ≠ [] ∧ row.length ≤ w.policy.maxChunkBytes) :
    w.writeRows sha256Hex (rows.map .ok) = ⟨w.sealedChunks sha256Hex rows, .ok ()⟩ := by
  have hempty : ∀ r ∈ ([] : List Bytes), r ≠ [] := by simp
  have htake : ∀ (rows : List Bytes) (state : OpenChunkState), (∀ row ∈ rows, row ≠ []) →
      (rows.map Except.ok).foldlM (w.takeFramed sha256Hex) state =
        rows.foldlM (w.takeRow sha256Hex) state := by
    intro rows
    induction rows with
    | nil => exact fun _ _ => rfl
    | cons row rows ih =>
      intro state hne
      obtain ⟨b, row, rfl⟩ := List.exists_cons_of_ne_nil (hne row (List.mem_cons_self ..))
      rw [List.map_cons, List.foldlM_cons, List.foldlM_cons]
      exact congrArg _ (funext fun s => ih s fun r hr => hne r (List.mem_cons_of_mem _ hr))
  rw [writeRows, htake rows _ fun r hr => (hrows r hr).1, ← openState_nil,
    takeRows_openState sha256Hex w rows 0 hempty hrows, Nat.zero_add]
  exact sealRest_packed sha256Hex w fun r hr => (hrows r hr).1

/-! ### Fragments -/

/-- Taking the bodies of framed rows with the terminator put back. -/
theorem takeBodies : ∀ {rows : List Bytes} (state : OpenChunkState),
    (∀ row ∈ rows, Framed w.rowTerminator row) →
      (rows.map (rowBody w.rowTerminator)).foldlM
        (fun state body => w.takeRow sha256Hex state (body ++ w.rowTerminator)) state =
      rows.foldlM (w.takeRow sha256Hex) state
  | [], _, _ => rfl
  | row :: rows, state, h => by
    rw [List.map_cons, List.foldlM_cons, List.foldlM_cons,
      (h row (List.mem_cons_self ..)).body_append]
    exact congrArg _ (funext fun s => takeBodies s fun r hr => h r (List.mem_cons_of_mem _ hr))

/-- STEP: a fragment takes the rows whose terminators end in it. -/
theorem takeFragment_framed {state : OpenChunkState} {pending data tail : Bytes}
    {rows : List Bytes} (hpending : ¬ w.rowTerminator <:+: pending)
    (hrows : ∀ row ∈ rows, Framed w.rowTerminator row) (htail : ¬ w.rowTerminator <:+: tail)
    (h : pending ++ data = rows.flatten ++ tail) (hfit : tail.length ≤ w.policy.maxChunkBytes) :
    w.takeFragment sha256Hex (state, pending) data =
      rows.foldlM (w.takeRow sha256Hex) state >>= fun state => pure (state, tail) := by
  have ht := w.terminator_ne
  rcases eq_or_ne data [] with rfl | hdata
  · -- an empty fragment is passed over: the rest holds no terminator
    rw [List.append_nil] at h
    obtain ⟨rfl, rfl⟩ := framed_rest ht hrows hpending htail h
    rfl
  · have hlimit : ∀ s, w.checkRowLimit s tail = .ok () := fun s => if_neg (Nat.not_lt.mpr hfit)
    rw [takeFragment, if_neg hdata]
    simp only [h, splitWord_framed ht htail hrows, List.dropLast_concat, List.getLastD_concat,
      takeBodies sha256Hex w _ hrows, hlimit, Generator.ofExcept_bind]

/-- Bytes that no terminator has ended yet are part of the next row or of the last rest. -/
theorem pending_fits {pending rest tail : Bytes} {rows : List Bytes} {limit : ℕ}
    (hpending : ¬ w.rowTerminator <:+: pending)
    (hrows : ∀ row ∈ rows, Framed w.rowTerminator row ∧ row.length ≤ limit)
    (htail : tail.length ≤ limit) (h : pending ++ rest = rows.flatten ++ tail) :
    pending.length ≤ limit := by
  cases rows with
  | nil =>
    have hlength := congrArg List.length h
    simp only [List.flatten_nil, List.nil_append, List.length_append] at hlength
    omega
  | cons row rows =>
    obtain ⟨hframed, hfit⟩ := hrows row (List.mem_cons_self ..)
    by_contra hlong
    have hprefix : row <+: pending := by
      refine List.prefix_of_prefix_length_le ⟨rows.flatten ++ tail, ?_⟩ ⟨rest, h⟩ (by omega)
      rw [List.flatten_cons, List.append_assoc]
    exact hpending (hframed.ends.isInfix.trans hprefix.isInfix)

/-- RUN: fragments take the rows of what they are cut from, wherever they are cut. -/
theorem takeFragments_framed : ∀ (fragments : List Bytes) (state : OpenChunkState)
    {pending tail : Bytes} {rows : List Bytes}, ¬ w.rowTerminator <:+: pending →
    (∀ row ∈ rows, Framed w.rowTerminator row ∧ row.length ≤ w.policy.maxChunkBytes) →
    ¬ w.rowTerminator <:+: tail → tail.length ≤ w.policy.maxChunkBytes →
    pending ++ fragments.flatten = rows.flatten ++ tail →
    fragments.foldlM (w.takeFragment sha256Hex) (state, pending) =
      rows.foldlM (w.takeRow sha256Hex) state >>= fun state => pure (state, tail)
  | [], state, pending, tail, rows, hpending, hrows, htail, _, h => by
    rw [List.flatten_nil, List.append_nil] at h
    obtain ⟨rfl, rfl⟩ := framed_rest w.terminator_ne (fun r hr => (hrows r hr).1) hpending htail h
    rfl
  | data :: fragments, state, pending, tail, rows, hpending, hrows, htail, hfit, h => by
    obtain ⟨done, rest, hdata, hdone, hrest⟩ := exists_framed w.terminator_ne (pending ++ data)
    obtain ⟨later, last, hlater, hframed, hlast⟩ :=
      exists_framed w.terminator_ne (rest ++ fragments.flatten)
    -- the rows are those of the fragment and those of the fragments after it
    have hall : rows.flatten ++ tail = (done ++ later).flatten ++ last := by
      rw [← h, List.flatten_cons, ← List.append_assoc, hdata, List.append_assoc, hlater,
        List.flatten_append, List.append_assoc]
    have hboth : ∀ row ∈ done ++ later, Framed w.rowTerminator row := by
      intro row hrow
      rcases List.mem_append.mp hrow with hrow | hrow
      · exact hdone row hrow
      · exact hframed row hrow
    obtain ⟨rfl, rfl⟩ := framed_unique w.terminator_ne (fun r hr => (hrows r hr).1) hboth htail
      hlast hall
    have hlaterFits : ∀ row ∈ later, Framed w.rowTerminator row ∧
        row.length ≤ w.policy.maxChunkBytes := fun r hr => hrows r (List.mem_append_right _ hr)
    have hrestFits := pending_fits w hrest hlaterFits hfit hlater
    rw [List.foldlM_cons, takeFragment_framed sha256Hex w hpending hdone hrest hdata hrestFits,
      List.foldlM_append, bind_assoc, bind_assoc]
    simp only [pure_bind]
    exact congrArg _ (funext fun s =>
      takeFragments_framed fragments s hrest hlaterFits htail hfit hlater)

/-- CORRECT: the fragments of framed rows that fit are sealed in the chunks of their packing. -/
theorem write_packed {rows fragments : List Bytes}
    (hrows : ∀ row ∈ rows, Framed w.rowTerminator row ∧ row.length ≤ w.policy.maxChunkBytes)
    (h : fragments.flatten = rows.flatten) :
    w.write sha256Hex fragments = ⟨w.sealedChunks sha256Hex rows, .ok ()⟩ := by
  have hclear : ¬ w.rowTerminator <:+: [] := fun hi => w.terminator_ne (List.infix_nil.mp hi)
  have hne : ∀ row ∈ rows, row ≠ [] ∧ row.length ≤ w.policy.maxChunkBytes :=
    fun r hr => ⟨(hrows r hr).1.ne_nil w.terminator_ne, (hrows r hr).2⟩
  have htaken := takeFragments_framed sha256Hex w fragments (.init w.format 0) hclear hrows hclear
    (Nat.zero_le _) (by rw [List.nil_append, List.append_nil, h])
  have hnone : ∀ state, w.takePending sha256Hex state [] = pure state := fun _ => rfl
  rw [write, htaken, ← openState_nil, takeRows_openState sha256Hex w rows 0 (by simp) hne,
    Nat.zero_add, bind_assoc]
  simp only [pure_bind, hnone]
  exact sealRest_packed sha256Hex w fun r hr => (hne r hr).1

/-- CORRECT: the chunks of complete rows that fit are groups of these rows, in order and within the
    limit, whether the writer is given the rows or any fragments of the content that they make. -/
theorem chunks_of_any_fragments (rows : List Bytes)
    (hrows : ∀ row ∈ rows, Framed w.rowTerminator row ∧ row.length ≤ w.policy.maxChunkBytes) :
    ∃ groups : List (List Bytes), groups.flatten = rows ∧
      (∀ group ∈ groups, group ≠ [] ∧ group.flatten.length ≤ w.policy.maxChunkBytes) ∧
      w.writeRows sha256Hex (rows.map .ok) = ⟨groups.mapIdx (w.chunk sha256Hex), .ok ()⟩ ∧
      ∀ fragments : List Bytes, fragments.flatten = rows.flatten →
        w.write sha256Hex fragments = ⟨groups.mapIdx (w.chunk sha256Hex), .ok ()⟩ := by
  have hne : ∀ row ∈ rows, row ≠ [] ∧ row.length ≤ w.policy.maxChunkBytes :=
    fun r hr => ⟨(hrows r hr).1.ne_nil w.terminator_ne, (hrows r hr).2⟩
  have hchunks : w.sealedChunks sha256Hex rows =
      (pack List.length w.policy.targetChunkBytes w.policy.maxChunkBytes rows).mapIdx
        (w.chunk sha256Hex) := by
    rw [sealedChunks, chunksFrom_mapIdx]
    simp only [Nat.zero_add]
  refine ⟨pack List.length w.policy.targetChunkBytes w.policy.maxChunkBytes rows,
    pack_flatten .., ?_, ?_, ?_⟩
  · intro group hgroup
    obtain ⟨hstart, hweight⟩ := pack_fits _ _ _ (fun r hr => (hrows r hr).2) group hgroup
    rw [weight_rows] at hweight
    exact ⟨hstart, hweight⟩
  · rw [← hchunks]
    exact writeRows_packed sha256Hex w hne
  · intro fragments h
    rw [← hchunks]
    exact write_packed sha256Hex w hrows h

/-- Rows ended by two equal bytes, in chunks of at most six bytes. -/
def twoByteWriter : RowBoundaryChunkWriter :=
  .init ⟨4, 6, by decide, by decide, by decide⟩ "native".toList [10, 10]

/-- A digest for closed runs. -/
def shortDigest (content : Bytes) : Str := hexText (content.take 4)

/-- The second row is its terminator alone, so four equal bytes stand between two bodies. -/
def twoByteRows : List Bytes := [[1, 10, 10], [10, 10], [2, 3, 10, 10]]

theorem chunks_of_any_fragments_two_bytes :
    ∃ groups : List (List Bytes), groups.flatten = twoByteRows ∧
      (∀ group ∈ groups, group ≠ [] ∧ group.flatten.length ≤ twoByteWriter.policy.maxChunkBytes) ∧
      twoByteWriter.writeRows shortDigest (twoByteRows.map .ok) =
        ⟨groups.mapIdx (twoByteWriter.chunk shortDigest), .ok ()⟩ ∧
      ∀ fragments : List Bytes, fragments.flatten = twoByteRows.flatten →
        twoByteWriter.write shortDigest fragments =
          ⟨groups.mapIdx (twoByteWriter.chunk shortDigest), .ok ()⟩ :=
  chunks_of_any_fragments shortDigest twoByteWriter twoByteRows (by decide)

end RowBoundaryChunkWriter
end Dpone.PhysicalChunks
