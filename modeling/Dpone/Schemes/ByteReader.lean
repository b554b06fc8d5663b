import Mathlib.Data.List.Forall2
import Dpone.Schemes.Records

/-! Readers that consume a byte string from the front.

    `ReadsTo x bytes r` says all a reader does on a piece of its input, whatever follows: it has the
    outcome `r` and, if it returns, has consumed the piece. Pieces are put together by `bind`, so a
    reader is proved along its code. A reader that stops early is described by `Answers`. -/

namespace Dpone.Schemes

/-! ### Big-endian integers -/

/-- Unsigned big-endian value. -/
def ofBE (bs : Bytes) : ℕ := ofLE bs.reverse

/-- Two's-complement big-endian value. -/
def ofBESigned (bs : Bytes) : ℤ := ofLESigned bs.reverse

def toBE (w n : ℕ) : Bytes := (toLE w n).reverse

def toBESigned (w : ℕ) (v : ℤ) : Bytes := (toLESigned w v).reverse

@[simp] theorem toBE_length (w n : ℕ) : (toBE w n).length = w := by
  rw [toBE, List.length_reverse, toLE_length]

@[simp] theorem toBESigned_length (w : ℕ) (v : ℤ) : (toBESigned w v).length = w := by
  rw [toBESigned, List.length_reverse, toLESigned_length]

/-- LOSSLESS: an unsigned integer of the width is read back. -/
theorem ofBE_toBE {w n : ℕ} (h : n < 256 ^ w) : ofBE (toBE w n) = n := by
  rw [ofBE, toBE, List.reverse_reverse, ofLE_toLE w n h]

/-- LOSSLESS: a signed integer of the width is read back. -/
theorem ofBESigned_toBESigned {w : ℕ} {v : ℤ} (hlo : -(256 ^ w : ℤ) ≤ 2 * v)
    (hhi : 2 * v < (256 ^ w : ℤ)) : ofBESigned (toBESigned w v) = v := by
  rw [ofBESigned, toBESigned, List.reverse_reverse, ofLESigned_toLESigned hlo hhi]

/-! ### Readers -/

abbrev ByteReader (α : Type) := StateT Bytes (Except PyError) α

variable {α β : Type}

/-- On `bytes` in front of anything, the reader has the outcome `r` and leaves the rest. -/
def ReadsTo (x : ByteReader α) (bytes : Bytes) (r : Except PyError α) : Prop :=
  ∀ rest, x.run (bytes ++ rest) = r.map fun a => (a, rest)

theorem ReadsTo.pure (a : α) : ReadsTo (Pure.pure a) [] (.ok a) := fun _ => rfl

/-- RUN RULE: a reader followed by another reads the two pieces in order. -/
theorem ReadsTo.bind {x : ByteReader α} {f : α → ByteReader β} {first second : Bytes} {a : α}
    {r : Except PyError β} (hx : ReadsTo x first (.ok a)) (hf : ReadsTo (f a) second r) :
    ReadsTo (x >>= f) (first ++ second) r := by
  intro rest
  rw [List.append_assoc, StateT.run_bind, hx]
  exact hf rest

/-- A reader that raised ends there. -/
theorem ReadsTo.bind_error {x : ByteReader α} {f : α → ByteReader β} {first : Bytes} {e : PyError}
    (hx : ReadsTo x first (.error e)) (second : Bytes) :
    ReadsTo (x >>= f) (first ++ second) (.error e) := by
  intro rest
  rw [List.append_assoc, StateT.run_bind, hx]
  rfl

/-- A reader followed by one that consumes nothing. -/
theorem ReadsTo.andThen {x : ByteReader α} {f : α → ByteReader β} {bytes : Bytes} {a : α}
    {r : Except PyError β} (hx : ReadsTo x bytes (.ok a)) (hf : ReadsTo (f a) [] r) :
    ReadsTo (x >>= f) bytes r := by
  have h := hx.bind hf
  rwa [List.append_nil] at h

/-- What is done with a value that was read. -/
theorem ReadsTo.map {x : ByteReader α} {bytes : Bytes} {r : Except PyError α}
    (hx : ReadsTo x bytes r) (f : α → β) :
    ReadsTo (x >>= fun a => Pure.pure (f a)) bytes (r.map f) := by
  intro rest
  rw [StateT.run_bind, hx]
  cases r <;> rfl

/-- A computation on what was read, which may raise. -/
theorem ReadsTo.lift (r : Except PyError α) : ReadsTo (liftM r) [] r := by
  intro rest
  cases r <;> rfl

/-- The same reader, once for each piece. -/
def readMany (x : ByteReader α) : ℕ → ByteReader (List α)
  | 0 => pure []
  | n + 1 => do
    let a ← x
    return a :: (← readMany x n)

theorem ReadsTo.many {x : ByteReader α} {encode : α → Bytes} : ∀ {as : List α},
    (∀ a ∈ as, ReadsTo x (encode a) (.ok a)) →
      ReadsTo (readMany x as.length) (as.flatMap encode) (.ok as)
  | [], _ => ReadsTo.pure []
  | a :: as, h => by
    have htail : ReadsTo (readMany x as.length) (as.flatMap encode) (.ok as) :=
      ReadsTo.many fun b hb => h b (List.mem_cons_of_mem a hb)
    exact (h a (List.mem_cons_self ..)).bind (htail.map (a :: ·))

/-- What a reader gives on its whole input. -/
def Answers (x : ByteReader α) (bytes : Bytes) (r : Except PyError α) : Prop :=
  (x.run bytes).map Prod.fst = r

theorem ReadsTo.answers {x : ByteReader α} {bytes : Bytes} {r : Except PyError α}
    (h : ReadsTo x bytes r) : Answers x bytes r := by
  have hrun := h []
  rw [List.append_nil] at hrun
  rw [Answers, hrun]
  cases r <;> rfl

theorem Answers.pure (a : α) (bytes : Bytes) : Answers (Pure.pure a) bytes (.ok a) := rfl

theorem ReadsTo.bindAnswers {x : ByteReader α} {f : α → ByteReader β} {first second : Bytes} {a : α}
    {r : Except PyError β} (hx : ReadsTo x first (.ok a)) (hf : Answers (f a) second r) :
    Answers (x >>= f) (first ++ second) r := by
  rw [Answers, StateT.run_bind, hx]
  exact hf

theorem Answers.map {x : ByteReader α} {bytes : Bytes} {r : Except PyError α}
    (hx : Answers x bytes r) (f : α → β) :
    Answers (x >>= fun a => Pure.pure (f a)) bytes (r.map f) := by
  rw [Answers] at hx
  rw [Answers, StateT.run_bind, ← hx]
  cases x.run bytes <;> rfl

end Dpone.Schemes
