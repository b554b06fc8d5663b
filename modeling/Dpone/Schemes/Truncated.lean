import Dpone.Schemes.ByteReader

/-! Readers on inputs that end too early.

    A reader that slices its input does not notice the end: it reads a shorter piece and goes on
    with nothing. So on a truncated piece it either raises or is left at the end (`RunsOut`), and a
    later reader has to notice, which depends on what it does on no input at all. -/

namespace Dpone.Schemes

/-- What is left of the bytes when some of them are lost at the end. -/
def Truncated (cut bytes : Bytes) : Prop := ∃ lost, lost ≠ [] ∧ cut ++ lost = bytes

theorem not_truncated_nil {cut : Bytes} : ¬ Truncated cut [] := by
  rintro ⟨lost, hne, heq⟩
  exact hne (List.append_eq_nil_iff.mp heq).2

theorem Truncated.length_lt {cut bytes : Bytes} (h : Truncated cut bytes) :
    cut.length < bytes.length := by
  obtain ⟨lost, hne, rfl⟩ := h
  have hpos := List.length_pos_of_ne_nil hne
  rw [List.length_append]
  omega

/-- Two pieces are cut in the first, or in the second behind the whole of the first. -/
theorem truncated_append {cut first second : Bytes} :
    Truncated cut (first ++ second) ↔
      Truncated cut first ∨ ∃ cut', Truncated cut' second ∧ cut = first ++ cut' := by
  constructor
  · rintro ⟨lost, hne, heq⟩
    rcases List.append_eq_append_iff.mp heq with ⟨between, hfirst, hlost⟩ | ⟨cut', hcut, hsecond⟩
    · cases between with
      | nil =>
        refine .inr ⟨[], ⟨lost, hne, by simpa using hlost⟩, by simpa using hfirst.symm⟩
      | cons b between => exact .inl ⟨b :: between, List.cons_ne_nil b between, hfirst.symm⟩
    · exact .inr ⟨cut', ⟨lost, hne, hsecond.symm⟩, hcut⟩
  · rintro (⟨lost, hne, rfl⟩ | ⟨cut', ⟨lost, hne, rfl⟩, rfl⟩)
    · exact ⟨lost ++ second, by simp [hne], (List.append_assoc cut lost second).symm⟩
    · exact ⟨lost, hne, List.append_assoc first cut' lost⟩

variable {α β : Type}

/-! ### At the end of the input -/

/-- With nothing to read, the reader leaves nothing. -/
def StaysAtEnd (x : ByteReader α) : Prop := ∀ a rest, x.run [] = .ok (a, rest) → rest = []

/-- It raises on these bytes. -/
def Raises (x : ByteReader α) (bytes : Bytes) : Prop := ∃ e, x.run bytes = .error e

theorem Raises.staysAtEnd {x : ByteReader α} (h : Raises x []) : StaysAtEnd x := by
  obtain ⟨e, he⟩ := h
  intro a rest hok
  rw [he] at hok
  cases hok

theorem Raises.bind {x : ByteReader α} {bytes : Bytes} (h : Raises x bytes)
    (f : α → ByteReader β) : Raises (x >>= f) bytes := by
  obtain ⟨e, he⟩ := h
  exact ⟨e, by rw [StateT.run_bind, he]; rfl⟩

theorem raises_bind_of_run {x : ByteReader α} {f : α → ByteReader β} {bytes rest : Bytes} {a : α}
    (hx : x.run bytes = .ok (a, rest)) : Raises (x >>= f) bytes ↔ Raises (f a) rest := by
  unfold Raises
  rw [StateT.run_bind, hx]
  rfl

theorem not_raises_pure (a : α) (bytes : Bytes) : ¬ Raises (Pure.pure a : ByteReader α) bytes := by
  rintro ⟨e, ⟨⟩⟩

theorem raises_map {x : ByteReader α} {bytes : Bytes} (f : α → β) :
    Raises (x >>= fun a => Pure.pure (f a)) bytes ↔ Raises x bytes := by
  constructor
  · rintro ⟨e, he⟩
    rw [StateT.run_bind] at he
    cases hrun : x.run bytes with
    | error e' => exact ⟨e', hrun⟩
    | ok read => rw [hrun] at he; cases he
  · exact fun h => h.bind _

theorem StaysAtEnd.pure (a : α) : StaysAtEnd (Pure.pure a) := by
  intro b rest h
  cases h
  rfl

theorem StaysAtEnd.lift (r : Except PyError α) : StaysAtEnd (liftM r : ByteReader α) := by
  intro b rest h
  cases r with
  | error e => cases h
  | ok a =>
    cases h
    rfl

theorem StaysAtEnd.bind {x : ByteReader α} {f : α → ByteReader β} (hx : StaysAtEnd x)
    (hf : ∀ a, StaysAtEnd (f a)) : StaysAtEnd (x >>= f) := by
  intro b rest h
  obtain ⟨⟨a, rest'⟩, ha, hb⟩ := bind_ok.mp h
  obtain rfl := hx a rest' ha
  exact hf a b rest hb

/-! ### On truncated bytes -/

/-- On every truncation of the bytes, the reader raises or reads to the end. -/
def RunsOut (x : ByteReader α) (bytes : Bytes) : Prop :=
  ∀ cut, Truncated cut bytes → ∀ a rest, x.run cut = .ok (a, rest) → rest = []

theorem RunsOut.nil (x : ByteReader α) : RunsOut x [] :=
  fun _ hcut => absurd hcut not_truncated_nil

/-- RUN RULE: one reader after another, on two pieces. -/
theorem RunsOut.bind {x : ByteReader α} {f : α → ByteReader β} {first second : Bytes} {a : α}
    (hreads : ReadsTo x first (.ok a)) (hx : RunsOut x first) (hf : RunsOut (f a) second)
    (hend : ∀ a, StaysAtEnd (f a)) : RunsOut (x >>= f) (first ++ second) := by
  intro cut hcut b rest h
  rcases truncated_append.mp hcut with hcut | ⟨cut', hcut', rfl⟩
  · obtain ⟨⟨a', rest'⟩, ha', hb⟩ := bind_ok.mp h
    obtain rfl := hx cut hcut a' rest' ha'
    exact hend a' b rest hb
  · rw [StateT.run_bind, hreads] at h
    exact hf cut' hcut' b rest h

/-- A reader that raised on the first piece reads no further. -/
theorem RunsOut.bind_error {x : ByteReader α} {f : α → ByteReader β} {first : Bytes} {e : PyError}
    (hreads : ReadsTo x first (.error e)) (hx : RunsOut x first)
    (hend : ∀ a, StaysAtEnd (f a)) (second : Bytes) : RunsOut (x >>= f) (first ++ second) := by
  intro cut hcut b rest h
  rcases truncated_append.mp hcut with hcut | ⟨cut', -, rfl⟩
  · obtain ⟨⟨a', rest'⟩, ha', hb⟩ := bind_ok.mp h
    obtain rfl := hx cut hcut a' rest' ha'
    exact hend a' b rest hb
  · rw [StateT.run_bind, hreads] at h
    cases h

/-- A reader followed by one that consumes nothing. -/
theorem RunsOut.andThen {x : ByteReader α} {f : α → ByteReader β} {bytes : Bytes}
    (hx : RunsOut x bytes) (hend : ∀ a, StaysAtEnd (f a)) : RunsOut (x >>= f) bytes := by
  intro cut hcut b rest h
  obtain ⟨⟨a, rest'⟩, ha, hb⟩ := bind_ok.mp h
  obtain rfl := hx cut hcut a rest' ha
  exact hend a b rest hb

theorem RunsOut.map {x : ByteReader α} {bytes : Bytes} (hx : RunsOut x bytes) (f : α → β) :
    RunsOut (x >>= fun a => Pure.pure (f a)) bytes :=
  hx.andThen fun a => StaysAtEnd.pure (f a)

/-- A reader that is left at the end where the next one raises. -/
theorem RunsOut.raises {x : ByteReader α} {f : α → ByteReader β} {cut bytes : Bytes}
    (hx : RunsOut x bytes) (hcut : Truncated cut bytes) (hf : ∀ a, Raises (f a) []) :
    Raises (x >>= f) cut := by
  cases hrun : x.run cut with
  | error e => exact ⟨e, by rw [StateT.run_bind, hrun]; rfl⟩
  | ok read =>
    obtain ⟨a, rest⟩ := read
    obtain rfl := hx cut hcut a rest hrun
    obtain ⟨e, he⟩ := hf a
    exact ⟨e, by rw [StateT.run_bind, hrun]; exact he⟩

/-! ### Rejecting every truncation -/

/-- The reader raises on every truncation of the bytes. -/
def RejectsTruncations (x : ByteReader α) (bytes : Bytes) : Prop :=
  ∀ cut, Truncated cut bytes → Raises x cut

/-- What follows a piece that was read raises where it does on its own. -/
theorem ReadsTo.raises_bind {x : ByteReader α} {f : α → ByteReader β} {first second : Bytes} {a : α}
    (hx : ReadsTo x first (.ok a)) :
    Raises (x >>= f) (first ++ second) ↔ Raises (f a) second :=
  raises_bind_of_run (hx second)

/-- RUN RULE: two pieces are guarded when each is. -/
theorem ReadsTo.rejects_bind {x : ByteReader α} {f : α → ByteReader β} {first second : Bytes}
    {a : α} (hx : ReadsTo x first (.ok a)) :
    RejectsTruncations (x >>= f) (first ++ second) ↔
      RejectsTruncations (x >>= f) first ∧ RejectsTruncations (f a) second := by
  constructor
  · refine fun h => ⟨fun cut hcut => h cut (truncated_append.mpr (.inl hcut)), fun cut hcut => ?_⟩
    exact hx.raises_bind.mp (h (first ++ cut) (truncated_append.mpr (.inr ⟨cut, hcut, rfl⟩)))
  · rintro ⟨hfirst, hsecond⟩ cut hcut
    rcases truncated_append.mp hcut with hcut | ⟨cut', hcut', rfl⟩
    · exact hfirst cut hcut
    · exact hx.raises_bind.mpr (hsecond cut' hcut')

/-- A piece that raises when it is whole, read by one that is never fooled by its end. -/
theorem RunsOut.rejects_bind {x : ByteReader α} {f : α → ByteReader β} {first : Bytes} {e : PyError}
    (hreads : ReadsTo x first (.error e)) (hx : RunsOut x first) (hf : ∀ a, Raises (f a) [])
    (second : Bytes) : RejectsTruncations (x >>= f) (first ++ second) := by
  intro cut hcut
  rcases truncated_append.mp hcut with hcut | ⟨cut', -, rfl⟩
  · exact hx.raises hcut hf
  · exact ⟨e, by rw [StateT.run_bind, hreads]; rfl⟩

/-- What returns on no input guards no bytes at all. -/
theorem not_rejects {x : ByteReader α} {bytes : Bytes} (hne : bytes ≠ []) {a : α} {rest : Bytes}
    (hx : x.run [] = .ok (a, rest)) : ¬ RejectsTruncations x bytes := by
  intro h
  obtain ⟨e, he⟩ := h [] ⟨bytes, hne, rfl⟩
  rw [hx] at he
  cases he

end Dpone.Schemes
