import Dpone.Schemes.Text

/-! What the Python runtime contributes: exceptions, open binary files, and the tables and
    arithmetic of the interpreter that no code of a modelled program defines. -/

namespace Dpone.Schemes

/-- The exceptions the modelled functions raise, with their texts where the program writes them. -/
inductive PyError where
  | valueError (text : String)
  | eofError (text : String)
  | assertionError
  | indexError
  | keyError (text : String)
  | structError
  | overflowError
  | zeroDivisionError
  | databaseError
  | typeError
  deriving DecidableEq, Repr

/-- The interpreter: its character database and `bool(n % 10 ** -k)`, a remainder in binary
    floating point that may divide by an underflowed zero. -/
structure Runtime extends Unicode where
  remPow10Neg : ℕ → ℕ → Except PyError Bool

/-- The ASCII interpreter; no finite decimal `10 ** -k` divides a nonzero integer exactly. -/
def Runtime.ascii : Runtime where
  toUnicode := Unicode.ascii
  remPow10Neg n k := if k < 324 then .ok (n ≠ 0) else .error .zeroDivisionError

/-- `bool(n % 10 ** e)` for a possibly negative exponent. -/
def Runtime.remPow10 (py : Runtime) (n : ℕ) (e : ℤ) : Except PyError Bool :=
  if 0 ≤ e then .ok (n % 10 ^ e.toNat ≠ 0) else py.remPow10Neg n (-e).toNat

/-- `if p: raise e`. -/
def raiseIf (p : Prop) [Decidable p] (e : PyError) : Except PyError Unit :=
  if p then .error e else .ok ()

@[simp] theorem raiseIf_pos {p : Prop} [Decidable p] (h : p) (e : PyError) :
    raiseIf p e = .error e := if_pos h

@[simp] theorem raiseIf_neg {p : Prop} [Decidable p] (h : ¬ p) (e : PyError) :
    raiseIf p e = .ok () := if_neg h

@[simp] theorem raiseIf_ok {p : Prop} [Decidable p] {e : PyError} {u : Unit} :
    raiseIf p e = .ok u ↔ ¬ p := by
  by_cases h : p <;> simp [h]

/-- `payload[i]`. -/
def byteAt (payload : Bytes) (i : ℕ) : Except PyError UInt8 :=
  match payload[i]? with
  | some b => .ok b
  | none => .error .indexError

/-- A binary file opened for reading. -/
structure Handle where
  data : Bytes
  position : ℕ
  deriving DecidableEq

namespace Handle

/-- The bytes not yet read. -/
def rest (h : Handle) : Bytes := h.data.drop h.position

/-- `handle.read(n)`: up to `n` bytes, fewer only at the end of the file. -/
def read (h : Handle) (n : ℕ) : Bytes × Handle :=
  (h.rest.take n, { h with position := h.position + (h.rest.take n).length })

/-- Skipping `n` bytes that are there. -/
def advance (h : Handle) (n : ℕ) : Handle := { h with position := h.position + n }

@[simp] theorem advance_zero (h : Handle) : h.advance 0 = h := rfl

@[simp] theorem advance_advance (h : Handle) (m n : ℕ) :
    (h.advance m).advance n = h.advance (m + n) := by simp [advance, Nat.add_assoc]

@[simp] theorem rest_advance (h : Handle) (n : ℕ) : (h.advance n).rest = h.rest.drop n := by
  simp [advance, rest, List.drop_drop]

theorem read_eq (h : Handle) {n : ℕ} (hn : n ≤ h.rest.length) :
    h.read n = (h.rest.take n, h.advance n) := by
  simp [read, advance, Nat.min_eq_left hn]

end Handle

/-- The bounded read loop: at most 64 KiB a call until `length` bytes are there. The fuel counts
    calls; each brings at least one byte, so `length` calls are enough (`readLoop_eq`). -/
def readLoop (eof : PyError) : ℕ → Handle → ℕ → Bytes → Except PyError (Bytes × Handle)
  | fuel, handle, length, chunks =>
    if chunks.length < length then
      match fuel with
      | 0 => .error eof
      | fuel + 1 =>
        let (part, handle') := handle.read (min (length - chunks.length) 65536)
        if part = [] then .error eof else readLoop eof fuel handle' length (chunks ++ part)
    else .ok (chunks, handle)

/-- TOTAL: with a call per missing byte the loop returns exactly the missing bytes, or fails
    exactly when the file ends before them. -/
theorem readLoop_eq (eof : PyError) : ∀ (fuel : ℕ) (h : Handle) (length : ℕ) (chunks : Bytes),
    chunks.length ≤ length → length - chunks.length ≤ fuel →
    readLoop eof fuel h length chunks =
      if length - chunks.length ≤ h.rest.length then
        .ok (chunks ++ h.rest.take (length - chunks.length), h.advance (length - chunks.length))
      else .error eof
  | 0, h, length, chunks, hle, hf => by
      rw [readLoop, if_neg (by omega), if_pos (by omega)]
      have : length - chunks.length = 0 := by omega
      simp [this]
  | fuel + 1, h, length, chunks, hle, hf => by
      unfold readLoop
      by_cases hlt : chunks.length < length
      · rw [if_pos hlt]
        set need := length - chunks.length with hneed
        set part := h.rest.take (min need 65536) with hpart
        have hplen : part.length = min (min need 65536) h.rest.length := by
          rw [hpart, List.length_take]
        simp only [Handle.read, ← hpart]
        by_cases hnil : part = []
        · rw [if_pos hnil, if_neg]
          have : part.length = 0 := by rw [hnil]; rfl
          omega
        · have hpos : 0 < part.length := List.length_pos_of_ne_nil hnil
          have hrest : (h.advance part.length).rest = h.rest.drop part.length :=
            h.rest_advance _
          have hcl : (chunks ++ part).length = chunks.length + part.length := by simp
          rw [if_neg hnil]
          change readLoop eof fuel (h.advance part.length) length (chunks ++ part) = _
          rw [readLoop_eq eof fuel _ length (chunks ++ part) (by omega) (by omega), hrest, hcl,
            List.length_drop]
          by_cases hok : need ≤ h.rest.length
          · rw [if_pos (by omega), if_pos hok, Handle.advance_advance, List.append_assoc]
            have hpl : part.length = min need 65536 := by omega
            have hsplit : part ++ (h.rest.drop part.length).take
                (length - (chunks.length + part.length)) = h.rest.take need := by
              rw [hpl, hpart, ← List.take_add]
              congr 1; omega
            rw [hsplit]; congr 3; omega
          · rw [if_neg (by omega), if_neg hok]
      · rw [if_neg hlt]
        have : length - chunks.length = 0 := by omega
        simp [this]

end Dpone.Schemes
