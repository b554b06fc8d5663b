import Dpone.NativeWire.SourceRows
import Dpone.Schemes.Generator

/-! Native frames of a stream of rows, with the bytes that they were split by.

    A row is put into the open frame unless the frame is full: of rows, of native bytes, or of what
    the rows are estimated to take between processes. The frame is then yielded and a new one is
    opened. A row that carries a reservation made under the same contract object and row limit is
    not sized again. -/

namespace Dpone.NativeWire
open Dpone.Schemes

/-- What is raised: by sizing, or for a row that no frame has room for. -/
inductive FrameError where
  | native (e : PyError)
  | windowContractError (text : String)
  deriving DecidableEq

/-- The limits of `NativeChunkLimits` that bound a frame, as its constructor checks them. -/
structure NativeChunkLimits where
  maxRows : ℕ
  maxBytes : ℕ
  maxRowBytes : ℕ
  rows_capped : 1 ≤ maxRows ∧ maxRows ≤ 1000000
  bytes_capped : 1 ≤ maxBytes ∧ maxBytes ≤ 1073741824
  row_positive : 1 ≤ maxRowBytes
  row_le : maxRowBytes ≤ maxBytes

/-- A row of the stream: as the driver hands it over, or with a reservation. -/
inductive StreamRow where
  | plain (row : SourceRow)
  | sized (row : SizedNativeRow)
  deriving DecidableEq

/-- `source_row`, after a reservation gave way to its values. -/
def StreamRow.source : StreamRow → SourceRow
  | .plain row => row
  | .sized row => .iterable row.values

/-- The same row without its reservation. -/
def StreamRow.unreserved (row : StreamRow) : StreamRow := .plain row.source

structure SizedNativeFrame where
  rows : List Row
  encodedBytes : ℕ
  deriving DecidableEq

/-- What `sized_native_frames` is called with, but for the rows; a check passes or raises when the
    row of an index was pulled. -/
structure FramesCall where
  contract : ContractRef
  limits : NativeChunkLimits
  check : Option (ℕ → Except FrameError Unit)
  ipcOverhead : ℕ

/-- The open frame with its two counters. -/
structure OpenFrame where
  rows : List Row
  nativeBytes : ℕ
  ipcBytes : ℕ

/-- A row with what it takes of the two bounds. -/
structure MeasuredRow where
  row : Row
  size : ℕ
  ipcSize : ℕ

variable (py : Runtime) (digest : Digest) (contracts : ContractRef → SourceNativeWireContract)
variable (pickleLength : Row → ℕ)

namespace FramesCall

/-- `[], 0, 64 + ipc_overhead`. -/
def fresh (call : FramesCall) : OpenFrame := ⟨[], 0, 64 + call.ipcOverhead⟩

variable {py digest}

/-- A reservation made under the same contract object and row limit. -/
def Matches (call : FramesCall) (reservation : SizedNativeRow) : Prop :=
  reservation.contract = call.contract ∧ reservation.maxRowBytes = call.limits.maxRowBytes

instance (call : FramesCall) (reservation : SizedNativeRow) :
    Decidable (call.Matches reservation) :=
  inferInstanceAs (Decidable (_ ∧ _))

/-- The size of a row: reserved where the reservation matches, else computed. -/
def rowSize (call : FramesCall) (encoder : MssqlNativeEncoder py digest) (row : Row) :
    StreamRow → Except PyError ℕ
  | .sized reservation =>
    if call.Matches reservation then .ok reservation.encodedBytes
    else encoder.encodedRowSize py digest row
  | .plain _ => encoder.encodedRowSize py digest row

/-- The check, made at every 1024th row. -/
def checkAt (call : FramesCall) (index : ℕ) : Except FrameError Unit :=
  match call.check with
  | some check => if index % 1024 = 0 then check index else .ok ()
  | none => .ok ()

/-- One turn of the loop up to the bounds of a single row. -/
def measure (call : FramesCall) (encoder : MssqlNativeEncoder py digest) (index : ℕ)
    (sourceRow : StreamRow) : Except FrameError MeasuredRow := do
  call.checkAt index
  let row ← sourceRow.source.detached.mapError .native
  let size ← (call.rowSize encoder row sourceRow).mapError .native
  let ipcSize := pickleLength row + 16
  if call.limits.maxRowBytes < size ∨ call.limits.maxBytes < ipcSize + 64 + call.ipcOverhead then
    .error (.windowContractError "mssql_native.row_exceeds_frame_limit")
  else .ok ⟨row, size, ipcSize⟩

end FramesCall

namespace OpenFrame

/-- A frame that has rows and no room for another. -/
def full (frame : OpenFrame) (limits : NativeChunkLimits) (m : MeasuredRow) : Bool :=
  frame.rows ≠ [] ∧ (limits.maxBytes < frame.nativeBytes + m.size ∨
    limits.maxBytes < frame.ipcBytes + m.ipcSize ∨ limits.maxRows ≤ frame.rows.length)

def append (frame : OpenFrame) (m : MeasuredRow) : OpenFrame :=
  ⟨frame.rows ++ [m.row], frame.nativeBytes + m.size, frame.ipcBytes + m.ipcSize⟩

/-- `SizedNativeFrame(tuple(frame), native_bytes)`. -/
def close (frame : OpenFrame) : SizedNativeFrame := ⟨frame.rows, frame.nativeBytes⟩

end OpenFrame

variable {py digest}

/-- The loop over the rows, and the flush after it. -/
def framesLoop (call : FramesCall) (encoder : MssqlNativeEncoder py digest) :
    List StreamRow → ℕ → OpenFrame → Bool → Generator SizedNativeFrame FrameError Unit
  | [], _, frame, emitted =>
    if frame.rows ≠ [] ∨ emitted = false then Generator.emit frame.close else pure ()
  | row :: rows, index, frame, emitted => do
    let m ← Generator.ofExcept (call.measure pickleLength encoder index row)
    if frame.full call.limits m then
      Generator.emit frame.close
      framesLoop call encoder rows (index + 1) (call.fresh.append m) true
    else framesLoop call encoder rows (index + 1) (frame.append m) emitted

variable (py digest)

/-- `sized_native_frames`. -/
def sizedNativeFrames (call : FramesCall) (rows : List StreamRow) :
    Generator SizedNativeFrame FrameError Unit := do
  let encoder ← Generator.ofExcept
    ((MssqlNativeEncoder.make py digest (contracts call.contract) call.limits.maxRowBytes).mapError
      FrameError.native)
  framesLoop pickleLength call encoder rows 0 call.fresh false

/-! ### What a frame is -/

variable {py digest}

/-- The native size of a row, as far as it has one. -/
def MssqlNativeEncoder.nativeSize (encoder : MssqlNativeEncoder py digest) (row : Row) : ℕ :=
  (encoder.encodedRowSize py digest row).toOption.getD 0

/-- What the rows are estimated to take between processes. -/
def ipcSizes (rows : List Row) : ℕ := (rows.map fun row => pickleLength row + 16).sum

/-- A frame that holds its exact native size, within all bounds. -/
structure SizedNativeFrame.Bounded (call : FramesCall) (encoder : MssqlNativeEncoder py digest)
    (frame : SizedNativeFrame) : Prop where
  sized : ∀ row ∈ frame.rows,
    encoder.encodedRowSize py digest row = .ok (encoder.nativeSize row)
  exact_size : frame.encodedBytes = (frame.rows.map encoder.nativeSize).sum
  rows_le : frame.rows.length ≤ call.limits.maxRows
  bytes_le : frame.encodedBytes ≤ call.limits.maxBytes
  ipc_le : ipcSizes pickleLength frame.rows ≤ call.limits.maxBytes
  submitted_le : frame.rows ≠ [] →
    64 + call.ipcOverhead + ipcSizes pickleLength frame.rows ≤ call.limits.maxBytes

/-- INVARIANT: the counters of the open frame are those of its rows, within the bounds. -/
structure OpenFrame.Counted (call : FramesCall) (encoder : MssqlNativeEncoder py digest)
    (frame : OpenFrame) : Prop where
  bounded : frame.close.Bounded pickleLength call encoder
  ipc : frame.ipcBytes = 64 + call.ipcOverhead + ipcSizes pickleLength frame.rows

/-- A row that fits: it has a native size, and a frame has room for its estimate. -/
structure StreamRow.Fits (call : FramesCall) (encoder : MssqlNativeEncoder py digest)
    (row : StreamRow) (detached : Row) : Prop where
  detached_ok : row.source.detached = .ok detached
  size_ok : encoder.encodedRowSize py digest detached = .ok (encoder.nativeSize detached)
  ipc_ok : pickleLength detached + 16 + 64 + call.ipcOverhead ≤ call.limits.maxBytes

/-- The reservations that match hold the exact sizes of their rows. -/
def Reserved (py : Runtime) (digest : Digest) (contracts : ContractRef → SourceNativeWireContract)
    (call : FramesCall) (rows : List StreamRow) : Prop :=
  ∀ r, StreamRow.sized r ∈ rows → call.Matches r → r.Exact py digest contracts

variable {contracts pickleLength}

theorem nativeSize_of_ok {encoder : MssqlNativeEncoder py digest} {row : Row} {n : ℕ}
    (h : encoder.encodedRowSize py digest row = .ok n) : encoder.nativeSize row = n := by
  rw [MssqlNativeEncoder.nativeSize, h]
  rfl

@[simp] theorem ipcSizes_append (rows : List Row) (row : Row) :
    ipcSizes pickleLength (rows ++ [row]) =
      ipcSizes pickleLength rows + (pickleLength row + 16) := by
  simp [ipcSizes]

@[simp] theorem ipcSizes_nil : ipcSizes pickleLength [] = 0 := rfl

theorem make_maxRowBytes {contract : SourceNativeWireContract} {maxRowBytes : ℤ}
    {encoder : MssqlNativeEncoder py digest}
    (h : MssqlNativeEncoder.make py digest contract maxRowBytes = .ok encoder) :
    encoder.maxRowBytes = maxRowBytes := by
  unfold MssqlNativeEncoder.make at h
  split at h
  · cases h
  · split_ifs at h
    cases h
    rfl

namespace FramesCall
variable {call : FramesCall} {encoder : MssqlNativeEncoder py digest}

theorem fresh_counted : call.fresh.Counted pickleLength call encoder where
  bounded := {
    sized := List.forall_mem_nil _
    exact_size := rfl
    rows_le := Nat.zero_le _
    bytes_le := Nat.zero_le _
    ipc_le := Nat.zero_le _
    submitted_le := fun h => absurd rfl h }
  ipc := rfl

/-- A reserved size is the one that sizing the row would come to. -/
theorem rowSize_unreserved
    (hmake : MssqlNativeEncoder.make py digest (contracts call.contract) call.limits.maxRowBytes =
      .ok encoder) {row : StreamRow} {detached : Row}
    (hreserved : ∀ r, row = .sized r → call.Matches r → r.Exact py digest contracts)
    (hdetached : row.source.detached = .ok detached) :
    call.rowSize encoder detached row = encoder.encodedRowSize py digest detached := by
  cases row with
  | plain row => rfl
  | sized r =>
    rw [rowSize]
    split_ifs with hmatch
    · rw [← hmatch.1, ← hmatch.2] at hmake
      cases hdetached
      exact ((hreserved r rfl hmatch).resized hmake).symm
    · rfl

/-- A row is measured alike with its reservation and without. -/
theorem measure_unreserved
    (hmake : MssqlNativeEncoder.make py digest (contracts call.contract) call.limits.maxRowBytes =
      .ok encoder) {row : StreamRow}
    (hreserved : ∀ r, row = .sized r → call.Matches r → r.Exact py digest contracts)
    (index : ℕ) :
    call.measure pickleLength encoder index row =
      call.measure pickleLength encoder index row.unreserved := by
  unfold measure
  refine bind_congr fun _ => ?_
  rw [show row.unreserved.source = row.source from rfl]
  cases hdetached : row.source.detached with
  | error e => rfl
  | ok detached =>
    simp only [Except.mapError, ok_bind]
    rw [rowSize_unreserved hmake hreserved hdetached]
    rfl

/-- A row that fits is measured by its exact size and its estimate. -/
theorem measure_fits
    (hmake : MssqlNativeEncoder.make py digest (contracts call.contract) call.limits.maxRowBytes =
      .ok encoder) {row : StreamRow} {detached : Row}
    (hreserved : ∀ r, row = .sized r → call.Matches r → r.Exact py digest contracts)
    (hfits : row.Fits pickleLength call encoder detached) {index : ℕ}
    (hcheck : call.checkAt index = .ok ()) :
    call.measure pickleLength encoder index row =
      .ok ⟨detached, encoder.nativeSize detached, pickleLength detached + 16⟩ := by
  have hsize := (rowSize_unreserved hmake hreserved hfits.detached_ok).trans hfits.size_ok
  have hle := encodedRowSize_le hfits.size_ok
  rw [make_maxRowBytes hmake, Nat.cast_le] at hle
  have hipc := hfits.ipc_ok
  rw [measure, hcheck, ok_bind, hfits.detached_ok, Except.mapError, ok_bind, hsize,
    Except.mapError, ok_bind, if_neg (by omega)]

end FramesCall

/-! ### The loop -/

namespace OpenFrame
variable {call : FramesCall} {encoder : MssqlNativeEncoder py digest}

/-- STEP: a row that fits is counted into a frame that is not full. -/
theorem Counted.append {frame : OpenFrame} (h : frame.Counted pickleLength call encoder)
    {detached : Row}
    (hsize : encoder.encodedRowSize py digest detached = .ok (encoder.nativeSize detached))
    (hnative : frame.nativeBytes + encoder.nativeSize detached ≤ call.limits.maxBytes)
    (hipc : frame.ipcBytes + (pickleLength detached + 16) ≤ call.limits.maxBytes)
    (hrows : frame.rows.length < call.limits.maxRows) :
    (frame.append ⟨detached, encoder.nativeSize detached, pickleLength detached + 16⟩).Counted
      pickleLength call encoder := by
  have hexact : frame.nativeBytes = (frame.rows.map encoder.nativeSize).sum := h.bounded.exact_size
  have hcounted := h.ipc
  refine ⟨⟨?_, ?_, ?_, hnative, ?_, fun _ => ?_⟩, ?_⟩
  · intro row hrow
    rcases List.mem_append.mp hrow with hrow | hrow
    · exact h.bounded.sized row hrow
    · rw [List.mem_singleton.mp hrow]
      exact hsize
  · simp [OpenFrame.append, close, hexact]
  · simp only [OpenFrame.append, close, List.length_append, List.length_singleton]
    omega
  · simp only [OpenFrame.append, close, ipcSizes_append]
    omega
  · simp only [OpenFrame.append, close, ipcSizes_append]
    omega
  · simp only [OpenFrame.append, ipcSizes_append]
    omega

end OpenFrame

/-- RUN: the frames that the loop yields, for rows that fit. -/
theorem framesLoop_fits {call : FramesCall} {encoder : MssqlNativeEncoder py digest}
    (hmake : MssqlNativeEncoder.make py digest (contracts call.contract) call.limits.maxRowBytes =
      .ok encoder) (hcheck : ∀ index, call.checkAt index = .ok ()) :
    ∀ {rows : List StreamRow} {detached : List Row} (index : ℕ) {frame : OpenFrame}
      (emitted : Bool), Reserved py digest contracts call rows →
      List.Forall₂ (StreamRow.Fits pickleLength call encoder) rows detached →
      frame.Counted pickleLength call encoder →
      ∃ frames, framesLoop pickleLength call encoder rows index frame emitted =
          ⟨frames, .ok ()⟩ ∧
        (frames.map SizedNativeFrame.rows).flatten = frame.rows ++ detached ∧
        (∀ f ∈ frames, f.Bounded pickleLength call encoder) ∧
        (frame.rows ≠ [] ∨ rows ≠ [] ∨ emitted = true → ∀ f ∈ frames, f.rows ≠ [])
  | [], _, _, frame, emitted, _, .nil, hcounted => by
    rw [framesLoop]
    split_ifs with hflush
    · refine ⟨[frame.close], rfl, by simp [OpenFrame.close], ?_, ?_⟩
      · intro f hf
        rw [List.mem_singleton.mp hf]
        exact hcounted.bounded
      · intro hsome f hf
        rw [List.mem_singleton.mp hf]
        rcases hsome with h | h | h
        · exact h
        · exact absurd rfl h
        · rcases hflush with hne | hno
          · exact hne
          · rw [h] at hno
            cases hno
    · rw [not_or, not_not] at hflush
      exact ⟨[], rfl, by simp [hflush.1], List.forall_mem_nil _, fun _ => List.forall_mem_nil _⟩
  | row :: rows, _, index, frame, emitted, hreserved, .cons (b := d) hfits hrest, hcounted => by
    have hmeasure := FramesCall.measure_fits hmake
      (fun r hr => hreserved r (hr ▸ List.mem_cons_self)) hfits (hcheck index)
    have hrows : Reserved py digest contracts call rows :=
      fun r hr => hreserved r (List.mem_cons_of_mem _ hr)
    have hnative := encodedRowSize_le hfits.size_ok
    rw [make_maxRowBytes hmake, Nat.cast_le] at hnative
    have hrow_le := call.limits.row_le
    have hipc := hfits.ipc_ok
    have hcapped := call.limits.rows_capped.1
    rw [framesLoop, hmeasure, Generator.ofExcept_bind]
    split_ifs with hfull
    · -- the full frame is yielded, and the row opens the next
      have hfresh : call.fresh.Counted pickleLength call encoder := FramesCall.fresh_counted
      have hopened := hfresh.append hfits.size_ok (by simp only [FramesCall.fresh]; omega)
        (by simp only [FramesCall.fresh]; omega) hcapped
      obtain ⟨frames, hrun, hflat, hbounded, hne⟩ := framesLoop_fits hmake hcheck
        (index + 1) true hrows hrest hopened
      have hfilled : frame.rows ≠ [] := by
        rw [OpenFrame.full, decide_eq_true_iff] at hfull
        exact hfull.1
      refine ⟨frame.close :: frames, ?_, ?_, ?_, ?_⟩
      · rw [Generator.emit_bind, hrun]
      · rw [List.map_cons, List.flatten_cons, hflat]
        simp [OpenFrame.close, OpenFrame.append, FramesCall.fresh]
      · intro f hf
        rcases List.mem_cons.mp hf with rfl | hf
        · exact hcounted.bounded
        · exact hbounded f hf
      · intro _ f hf
        rcases List.mem_cons.mp hf with rfl | hf
        · exact hfilled
        · exact hne (.inr (.inr rfl)) f hf
    · have hroom : frame.nativeBytes + encoder.nativeSize d ≤ call.limits.maxBytes ∧
          frame.ipcBytes + (pickleLength d + 16) ≤ call.limits.maxBytes ∧
          frame.rows.length < call.limits.maxRows := by
        rw [OpenFrame.full, decide_eq_true_iff] at hfull
        rcases eq_or_ne frame.rows [] with hnil | hne
        · have hexact : frame.nativeBytes = (frame.rows.map encoder.nativeSize).sum :=
            hcounted.bounded.exact_size
          have hestimate := hcounted.ipc
          rw [hnil] at hexact hestimate ⊢
          simp only [List.map_nil, List.sum_nil, ipcSizes_nil] at hexact hestimate
          rw [List.length_nil]
          omega
        · simp only [hne, ne_eq, not_false_eq_true, true_and] at hfull
          omega
      have happended := hcounted.append hfits.size_ok hroom.1 hroom.2.1 hroom.2.2
      obtain ⟨frames, hrun, hflat, hbounded, hne⟩ := framesLoop_fits hmake hcheck
        (index + 1) emitted hrows hrest happended
      refine ⟨frames, hrun, ?_, hbounded, fun _ => hne (.inl (by simp [OpenFrame.append]))⟩
      rw [hflat]
      simp [OpenFrame.append]

/-- The loop does not see the reservations. -/
theorem framesLoop_unreserved {call : FramesCall} {encoder : MssqlNativeEncoder py digest}
    (hmake : MssqlNativeEncoder.make py digest (contracts call.contract) call.limits.maxRowBytes =
      .ok encoder) : ∀ {rows : List StreamRow} {index : ℕ} {frame : OpenFrame} {emitted : Bool},
      Reserved py digest contracts call rows →
      framesLoop pickleLength call encoder (rows.map StreamRow.unreserved) index frame emitted =
        framesLoop pickleLength call encoder rows index frame emitted
  | [], _, _, _, _ => rfl
  | row :: rows, index, frame, emitted, hreserved => by
    have hrest : Reserved py digest contracts call rows :=
      fun r hr => hreserved r (List.mem_cons_of_mem _ hr)
    rw [List.map_cons, framesLoop, framesLoop, ← FramesCall.measure_unreserved hmake
      (fun r hr => hreserved r (hr ▸ List.mem_cons_self)) index]
    refine bind_congr fun m => ?_
    rw [framesLoop_unreserved hmake hrest, framesLoop_unreserved hmake hrest]

/-- CORRECT: rows that fit are framed in their order, each frame within its bounds and with the sum
    of its rows' exact native sizes, which are the lengths of their encodings; no frame is empty but
    the only one of an empty stream; and reservations that match change nothing. -/
theorem sized_native_frames_exact {call : FramesCall} {encoder : MssqlNativeEncoder py digest}
    (hmake : MssqlNativeEncoder.make py digest (contracts call.contract) call.limits.maxRowBytes =
      .ok encoder) (hcheck : ∀ index, call.checkAt index = .ok ()) {rows : List StreamRow}
    (hreserved : Reserved py digest contracts call rows) {detached : List Row}
    (hfits : List.Forall₂ (StreamRow.Fits pickleLength call encoder) rows detached) :
    ∃ frames, sizedNativeFrames py digest contracts pickleLength call rows = ⟨frames, .ok ()⟩ ∧
      (frames.map SizedNativeFrame.rows).flatten = detached ∧
      (∀ f ∈ frames, f.Bounded pickleLength call encoder) ∧
      (∀ f ∈ frames, ∀ row ∈ f.rows, ∀ payload, encoder.encodeRow py digest row = .ok payload →
        encoder.nativeSize row = payload.length) ∧
      (rows ≠ [] → ∀ f ∈ frames, f.rows ≠ []) ∧ (rows = [] → frames = [⟨[], 0⟩]) ∧
      sizedNativeFrames py digest contracts pickleLength call (rows.map StreamRow.unreserved) =
        ⟨frames, .ok ()⟩ := by
  obtain ⟨frames, hrun, hflat, hbounded, hne⟩ := framesLoop_fits hmake hcheck 0 false
    hreserved hfits FramesCall.fresh_counted
  have hcall : ∀ rows, sizedNativeFrames py digest contracts pickleLength call rows =
      framesLoop pickleLength call encoder rows 0 call.fresh false := fun rows => by
    rw [sizedNativeFrames, hmake]
    rfl
  refine ⟨frames, (hcall rows).trans hrun, hflat, hbounded, ?_, ?_, ?_, ?_⟩
  · intro f _ row _ payload hpayload
    exact nativeSize_of_ok (encodeRow_decides hpayload).1
  · exact fun h => hne (.inr (.inl h))
  · rintro rfl
    have hempty : framesLoop pickleLength call encoder [] 0 call.fresh false =
        ⟨[⟨[], 0⟩], .ok ()⟩ := rfl
    rw [hempty] at hrun
    exact (congrArg Generator.yielded hrun).symm
  · rw [hcall, framesLoop_unreserved hmake hreserved]
    exact hrun
/-- Frames of one row each. -/
def sampleFramesCall : FramesCall where
  contract := 1
  limits := ⟨1, 256, 64, by decide, by decide, by decide, by decide⟩
  check := none
  ipcOverhead := 30

/-- A NULL with an empty text, sized under that contract and limit. -/
def sampleReservation : SizedNativeRow := ⟨[.plain .none, .plain (.text [])], 1, 64, 3⟩

theorem two_rows_framed : ∃ frames,
    sizedNativeFrames Runtime.ascii blankDigest (fun _ => sampleContract) (fun _ => 40)
      sampleFramesCall [.sized sampleReservation,
        .plain (.mapping [("tag".toList, .plain (.text (textOf "ok".toList))),
          ("id".toList, .plain (.int 7))])] = ⟨frames, .ok ()⟩ ∧
    (frames.map SizedNativeFrame.rows).flatten = sampleRows := by
  have hmake : MssqlNativeEncoder.make Runtime.ascii blankDigest sampleContract 64 =
      .ok sampleEncoder := by rfl
  obtain ⟨frames, hrun, hflat, -⟩ :=
    @sized_native_frames_exact Runtime.ascii blankDigest (fun _ => sampleContract) (fun _ => 40)
      sampleFramesCall sampleEncoder hmake (fun _ => rfl)
      [.sized sampleReservation,
        .plain (.mapping [("tag".toList, .plain (.text (textOf "ok".toList))),
          ("id".toList, .plain (.int 7))])]
      (fun r hr _ => by
        rcases List.mem_cons.mp hr with h | h
        · cases h
          exact ⟨sampleEncoder, hmake, by rfl⟩
        · cases List.mem_singleton.mp h)
      sampleRows
      (.cons ⟨by rfl, by rfl, by decide⟩ (.cons ⟨by rfl, by rfl, by decide⟩ .nil))
  exact ⟨frames, hrun, hflat⟩

end Dpone.NativeWire
