import Mathlib.Data.Bool.AllAny
import Mathlib.Data.List.DropRight
import Dpone.Schemes.NumberText
import Dpone.Schemes.Replace

/-! Literals inside a text: what a word or a quote cuts off, quotes written twice, and numbers
    recognised by their pattern alone.

    A text is cut at the first occurrence of a separator; where the separator's first character
    occurs in it once, what stands before is found exactly when it does not contain the separator.
    A text whose quotes are doubled is read back by a scanner and by a replacement. -/

namespace Dpone.Schemes

/-- The tables agree with ASCII on its characters. -/
structure Unicode.AsciiExact (u : Unicode) : Prop where
  space : ∀ c : Char, c.toNat < 128 → u.isSpace c = asciiSpace c
  digit : ∀ c : Char, c.toNat < 128 → (u.digit c).isSome = c.isDigit

theorem ascii_exact : Unicode.ascii.AsciiExact where
  space _ _ := rfl
  digit c _ := by
    show (if c.isDigit then some (c.toNat - 48) else none).isSome = c.isDigit
    split_ifs with h <;> simp [h]

section Words
variable {α : Type} [DecidableEq α]

/-- What follows a word at the front of a text. -/
def cutPrefix : List α → List α → Option (List α)
  | [], s => some s
  | _ :: _, [] => none
  | x :: w, c :: s => if x = c then cutPrefix w s else none

theorem cutPrefix_eq_some : ∀ {w s t : List α}, cutPrefix w s = some t ↔ s = w ++ t
  | [], s, t => by simp [cutPrefix]
  | x :: w, [], t => by simp [cutPrefix]
  | x :: w, c :: s, t => by
    rw [cutPrefix, List.cons_append, List.cons.injEq]
    split_ifs with h
    · rw [cutPrefix_eq_some]
      exact ⟨fun hs => ⟨h.symm, hs⟩, fun hs => hs.2⟩
    · exact ⟨nofun, fun hs => absurd hs.1.symm h⟩

@[simp] theorem cutPrefix_append (w t : List α) : cutPrefix w (w ++ t) = some t :=
  cutPrefix_eq_some.mpr rfl

/-- `text.partition(sep)`: what stands before the first occurrence of a separator, and after it. -/
def partitionAt (sep : List α) : List α → List α × List α
  | [] => ([], [])
  | c :: s =>
    match cutPrefix sep (c :: s) with
    | some t => ([], t)
    | none => (c :: (partitionAt sep s).1, (partitionAt sep s).2)

variable {x : α} {w : List α}

/-- A separator does not begin in a text that does not contain it. -/
theorem cutPrefix_none_of_not_infix (hx : x ∉ w) {c : α} {s t : List α}
    (h : ¬ x :: w <:+: c :: s) : cutPrefix (x :: w) (c :: s ++ (x :: w ++ t)) = none := by
  rw [Option.eq_none_iff_forall_ne_some]
  intro r hr
  rcases List.append_eq_append_iff.mp (cutPrefix_eq_some.mp hr) with ⟨m, hm, htail⟩ | ⟨m, hm, -⟩
  · -- the separator would begin a second time inside itself
    cases m with
    | nil => exact h ⟨[], [], by simpa using hm⟩
    | cons d m =>
      obtain ⟨rfl, -⟩ : x = d ∧ _ := by simpa using htail
      obtain ⟨-, rfl⟩ : x = c ∧ w = s ++ x :: m := by simpa using hm
      exact hx (by simp)
  · exact h ⟨[], m, by simpa using hm.symm⟩

/-- A text is cut at the separator put after it, if it does not contain it. -/
theorem partitionAt_append (hx : x ∉ w) : ∀ {s : List α} (t : List α), ¬ x :: w <:+: s →
    partitionAt (x :: w) (s ++ (x :: w ++ t)) = (s, t)
  | [], t, _ => by
    have hcut : cutPrefix (x :: w) (x :: (w ++ t)) = some t := cutPrefix_append (x :: w) t
    rw [List.nil_append, List.cons_append, partitionAt, hcut]
  | c :: s, t, h => by
    have hcut := cutPrefix_none_of_not_infix (t := t) hx h
    rw [List.cons_append] at hcut
    rw [List.cons_append, partitionAt, hcut,
      partitionAt_append hx t fun hs => h (hs.trans (List.suffix_cons c s).isInfix)]

/-- Characters that no separator begins with are passed. -/
theorem partitionAt_skip : ∀ {a : List α} (s : List α), x ∉ a →
    partitionAt (x :: w) (a ++ s) =
      (a ++ (partitionAt (x :: w) s).1, (partitionAt (x :: w) s).2)
  | [], s, _ => rfl
  | c :: a, s, h => by
    rw [List.mem_cons, not_or] at h
    have hcut : cutPrefix (x :: w) (c :: (a ++ s)) = none := by
      rw [cutPrefix, if_neg h.1]
    rw [List.cons_append, partitionAt, hcut, partitionAt_skip s h.2]
    rfl

/-- A text that contains the separator is cut inside. -/
theorem partitionAt_infix : ∀ {s : List α} (t : List α), x :: w <:+: s →
    ∃ a b, s = a ++ (x :: w ++ b) ∧ partitionAt (x :: w) (s ++ t) = (a, b ++ t)
  | [], t, h => by simp at h
  | c :: s, t, h => by
    rw [List.cons_append, partitionAt]
    cases hcut : cutPrefix (x :: w) (c :: (s ++ t)) with
    | some r =>
      have hr : c :: s ++ t = x :: w ++ r := cutPrefix_eq_some.mp hcut
      have hprefix : x :: w <+: c :: s :=
        List.prefix_of_prefix_length_le ⟨r, hr.symm⟩ (List.prefix_append _ t) h.length_le
      obtain ⟨b, hb⟩ := hprefix
      rw [← hb, List.append_assoc, List.append_cancel_left_eq] at hr
      exact ⟨[], b, by rw [← hb]; rfl, by rw [hr]⟩
    | none =>
      have htail : x :: w <:+: s := by
        rcases List.infix_cons_iff.mp h with ⟨b, hb⟩ | htail
        · have hsome : cutPrefix (x :: w) (c :: (s ++ t)) = some (b ++ t) := by
            rw [cutPrefix_eq_some, ← List.cons_append, ← hb, List.append_assoc]
          rw [hcut] at hsome
          cases hsome
        · exact htail
      obtain ⟨a, b, rfl, hpart⟩ := partitionAt_infix t htail
      exact ⟨c :: a, b, rfl, by rw [hpart]⟩

omit [DecidableEq α] in
/-- A character of a rendered list stands in one of its pieces. -/
theorem flatMap_eq_append_cons {β : Type} {f : β → List α} {c : α} : ∀ {l : List β} {a b : List α},
    l.flatMap f = a ++ c :: b → ∃ l₁ y l₂ a' b', l = l₁ ++ y :: l₂ ∧ a = l₁.flatMap f ++ a' ∧
      f y = a' ++ c :: b' ∧ b = b' ++ l₂.flatMap f
  | [], a, b, h => by simp at h
  | y :: l, a, b, h => by
    rw [List.flatMap_cons] at h
    rcases List.append_eq_append_iff.mp h with ⟨m, rfl, hm⟩ | ⟨m, hm, htail⟩
    · obtain ⟨l₁, z, l₂, a', b', rfl, rfl, hz, hb⟩ := flatMap_eq_append_cons hm
      exact ⟨y :: l₁, z, l₂, a', b', rfl, by simp, hz, hb⟩
    · cases m with
      | nil =>
        obtain ⟨l₁, z, l₂, a', b', rfl, ha, hz, hb⟩ :=
          flatMap_eq_append_cons (a := []) (by simpa using htail.symm)
        refine ⟨y :: l₁, z, l₂, a', b', rfl, ?_, hz, hb⟩
        rw [List.flatMap_cons, List.append_assoc, ← ha, hm]
        simp
      | cons d m =>
        obtain ⟨rfl, hb⟩ : c = d ∧ b = m ++ l.flatMap f := by simpa using htail
        exact ⟨[], y, l, a, m, rfl, rfl, hm, hb⟩

/-! ### Doubled quotes -/

/-- A text with every quote written twice. -/
def doubled (q : α) (s : List α) : List α := s.flatMap fun c => if c = q then [q, q] else [c]

/-- What stands before a single quote, quotes written twice being one; and what follows it. -/
def readDoubled (q : α) : List α → List α × List α
  | [] => ([], [])
  | [c] => if c = q then ([], []) else ([c], [])
  | c :: d :: s =>
    if c = q then
      if d = q then (q :: (readDoubled q s).1, (readDoubled q s).2) else ([], d :: s)
    else (c :: (readDoubled q (d :: s)).1, (readDoubled q (d :: s)).2)

variable {q : α}

@[simp] theorem doubled_nil : doubled q [] = [] := rfl

theorem doubled_quote (s : List α) : doubled q (q :: s) = q :: q :: doubled q s := by
  simp [doubled]

theorem doubled_plain {c : α} (h : c ≠ q) (s : List α) : doubled q (c :: s) = c :: doubled q s := by
  simp [doubled, h]

theorem doubled_append (s t : List α) : doubled q (s ++ t) = doubled q s ++ doubled q t :=
  List.flatMap_append

theorem doubled_of_not_mem : ∀ {s : List α}, q ∉ s → doubled q s = s
  | [], _ => rfl
  | c :: s, h => by
    rw [List.mem_cons, not_or] at h
    rw [doubled_plain (Ne.symm h.1), doubled_of_not_mem h.2]

theorem readDoubled_pair (s : List α) :
    readDoubled q (q :: q :: s) = (q :: (readDoubled q s).1, (readDoubled q s).2) := by
  simp [readDoubled]

theorem readDoubled_plain {c : α} (h : c ≠ q) (s : List α) :
    readDoubled q (c :: s) = (c :: (readDoubled q s).1, (readDoubled q s).2) := by
  cases s <;> simp [readDoubled, h]

theorem readDoubled_close {rest : List α} (h : rest.head? ≠ some q) :
    readDoubled q (q :: rest) = ([], rest) := by
  cases rest with
  | nil => simp [readDoubled]
  | cons d rest =>
    have hd : d ≠ q := fun hd => h (by rw [hd]; rfl)
    simp [readDoubled, hd]

theorem mem_doubled {c : α} {s : List α} : c ∈ doubled q s ↔ c ∈ s := by
  unfold doubled
  rw [List.mem_flatMap]
  constructor
  · rintro ⟨d, hd, hc⟩
    split_ifs at hc with hq
    · obtain rfl : c = q := by simpa using hc
      exact hq ▸ hd
    · rw [List.mem_singleton.mp hc]
      exact hd
  · intro hc
    refine ⟨c, hc, ?_⟩
    split_ifs with hq <;> simp [hq]

/-- LOSSLESS: a quoted text is read up to its closing quote. -/
theorem readDoubled_doubled {rest : List α} (h : rest.head? ≠ some q) : ∀ s : List α,
    readDoubled q (doubled q s ++ q :: rest) = (s, rest)
  | [] => readDoubled_close h
  | c :: s => by
    have ih := readDoubled_doubled h s
    by_cases hc : c = q
    · rw [hc, doubled_quote, List.cons_append, List.cons_append, readDoubled_pair, ih]
    · rw [doubled_plain hc, List.cons_append, readDoubled_plain hc, ih]

/-- A quoted text that is not closed is read to its end. -/
theorem readDoubled_open : ∀ s : List α, readDoubled q (doubled q s) = (s, [])
  | [] => rfl
  | c :: s => by
    have ih := readDoubled_open s
    by_cases hc : c = q
    · rw [hc, doubled_quote, readDoubled_pair, ih]
    · rw [doubled_plain hc, readDoubled_plain hc, ih]

/-- A character other than a quote cuts a doubled text where it cuts the text. -/
theorem doubled_eq_append_cons {c : α} (hc : c ≠ q) {s a b : List α}
    (h : doubled q s = a ++ c :: b) : ∃ s' r, s = s' ++ c :: r ∧ a = doubled q s' := by
  obtain ⟨l₁, y, l₂, a', b', rfl, rfl, hy, -⟩ := flatMap_eq_append_cons h
  have hyc : c ∈ (if y = q then [q, q] else [y]) := by rw [hy]; simp
  split_ifs at hy hyc with hyq
  · exact absurd (by simpa using hyc) hc
  · obtain rfl := List.mem_singleton.mp hyc
    obtain rfl : a' = [] := by
      cases a' with
      | nil => rfl
      | cons d a' => simp at hy
    exact ⟨l₁, l₂, rfl, List.append_nil _⟩

/-- LOSSLESS: one quote for two gives the text back. -/
theorem replaceAll_doubled : ∀ s : List α, replaceAll [q, q] [q] (doubled q s) = s
  | [] => replaceAll_nil
  | c :: s => by
    by_cases hc : c = q
    · rw [hc, doubled_quote]
      change replaceAll [q, q] [q] ([q, q] ++ doubled q s) = _
      rw [replaceAll_word (by simp), replaceAll_doubled s, List.singleton_append]
    · have hne : ¬ [q, q] <+: c :: doubled q s := fun h =>
        hc (List.cons_prefix_cons.mp h).1.symm
      rw [doubled_plain hc, replaceAll_cons hne, replaceAll_doubled s]

/-- A replacement brings in no character but those of the new word. -/
theorem mem_replaceFrom {old new : List α} {c : α} : ∀ {k : ℕ} {s : List α},
    c ∈ replaceFrom old new k s → c ∈ s ∨ c ∈ new
  | 0, [], h | _ + 1, [], h => by cases h
  | k + 1, _ :: s, h =>
    (mem_replaceFrom (k := k) (s := s) h).imp_left (List.mem_cons_of_mem _)
  | 0, d :: s, h => by
    rw [replaceFrom] at h
    split_ifs at h
    · rcases List.mem_append.mp h with h | h
      · exact .inr h
      · exact (mem_replaceFrom h).imp_left (List.mem_cons_of_mem _)
    · rcases List.mem_cons.mp h with rfl | h
      · exact .inl (List.mem_cons_self ..)
      · exact (mem_replaceFrom h).imp_left (List.mem_cons_of_mem _)

end Words

/-! ### Numbers by their pattern -/

section Patterns
variable (u : Unicode)

/-- The text that `$` ends: it also matches before a final newline. -/
def chomp (s : Str) : Str := if s.getLast? = some '\n' then s.dropLast else s

def dropMinus : Str → Str
  | '-' :: s => s
  | s => s

/-- `\d+`. -/
def allDigits (s : Str) : Bool := s ≠ [] && s.all fun c => (u.digit c).isSome

/-- `^-?\d+$`. -/
def intPattern (s : Str) : Bool := allDigits u (dropMinus (chomp s))

/-- `^-?\d+\.\d+$`. -/
def decimalPattern (s : Str) : Bool :=
  allDigits u ((dropMinus (chomp s)).takeWhile (· ≠ '.')) &&
    allDigits u (((dropMinus (chomp s)).dropWhile (· ≠ '.')).drop 1)

end Patterns

namespace NumberText

/-- Digits and a point alone. -/
def Positional : NumberText → Prop
  | .finite _ _ _ none => True
  | _ => False

end NumberText

open NumberText

variable {u : Unicode}

theorem allDigits_digitText {ds : List (Fin 10)} (h : ds ≠ []) :
    allDigits u (digitText ds) = true := by
  have hne : digitText ds ≠ [] := by simpa [digitText] using h
  refine Bool.and_eq_true_iff.mpr ⟨decide_eq_true hne, List.all_eq_true.mpr fun c hc => ?_⟩
  obtain ⟨d, rfl⟩ := mem_digitText hc
  rw [digit_digitChar]
  rfl

theorem wellFormed_plain {negative : Bool} {whole fraction : List (Fin 10)} (h : whole ≠ []) :
    (NumberText.finite negative whole fraction none).WellFormed := ⟨h, nofun⟩

theorem chomp_text {n : NumberText} (h : n.WellFormed) : chomp n.text = n.text := by
  obtain ⟨c, hc, hlast⟩ := text_last h
  obtain ⟨r, hr⟩ := hlast
  have hne : c ≠ '\n' := by
    rintro rfl
    exact absurd hc (by decide)
  rw [chomp, if_neg]
  rw [← hr, List.getLast?_concat]
  exact fun h => hne (Option.some.inj h)

theorem dropMinus_numeral {negative : Bool} {whole fraction : List (Fin 10)}
    {exponent : Option (Bool × List (Fin 10))} (hwhole : whole ≠ []) :
    dropMinus (NumberText.finite negative whole fraction exponent).text =
      digitText whole ++ pointText fraction ++ exponentText exponent := by
  obtain ⟨d, t, hhead⟩ := numeral_head (pointText fraction ++ exponentText exponent) hwhole
  rw [← List.append_assoc] at hhead
  cases negative
  · have hminus := (digitChar_facts d).2.2.1
    rw [text, signText, if_neg (by decide), List.nil_append, hhead]
    unfold dropMinus
    split
    · next heq => exact absurd (List.cons.inj heq).1 hminus
    · rfl
  · rfl

/-- An integer text has the integer pattern and is read as that integer. -/
theorem intPattern_whole (negative : Bool) {whole : List (Fin 10)} (hwhole : whole ≠ []) :
    intPattern u (NumberText.finite negative whole [] none).text = true := by
  rw [intPattern, chomp_text (wellFormed_plain hwhole), dropMinus_numeral hwhole]
  simpa [pointText, exponentText] using allDigits_digitText hwhole

theorem intDigits_digitText : ∀ {ds : List (Fin 10)} {after : Bool} {n : ℕ},
    ds ≠ [] ∨ after = true → intDigits u after n (digitText ds) =
      some (ds.foldl (fun n d => n * 10 + d.val) n)
  | [], after, n, h => by
    rcases h with h | rfl
    · exact absurd rfl h
    · rfl
  | d :: ds, after, n, _ => by
    rw [digitText, List.map_cons, intDigits, if_neg (digitChar_facts d).2.2.2.2.1, digit_digitChar,
      Option.bind_some, List.foldl_cons, Nat.mul_comm n 10]
    exact intDigits_digitText (.inr rfl)

theorem pyInt_whole (negative : Bool) {whole : List (Fin 10)} (hwhole : whole ≠ []) :
    ∃ k : ℤ, pyInt u (NumberText.finite negative whole [] none).text = some k ∧
      (NumberText.finite negative whole [] none).number.value = some (k : ℚ) := by
  have hread : intDigits u false 0 (digitText whole) = some (spelled whole) :=
    intDigits_digitText (.inl hwhole)
  have hvalue : (NumberText.finite negative whole [] none).number.value =
      some (signed negative (spelled whole : ℚ)) := by
    simp [number, PyNumber.value, exponentValue, scaledFraction]
  have hstrip := strip_text (u := u) (n := .finite negative whole [] none) (wellFormed_plain hwhole)
  obtain ⟨d, t, hhead⟩ := numeral_head [] hwhole
  rw [List.append_nil] at hhead
  unfold pyInt
  rw [hstrip, hvalue]
  cases negative
  · refine ⟨spelled whole, ?_, by simp [signed]⟩
    have htext : (NumberText.finite false whole [] none).text = digitText whole := by
      simp [text, signText, pointText, exponentText]
    rw [htext]
    split
    · next heq => exact absurd (List.cons.inj (hhead.symm.trans heq)).1 (digitChar_facts d).2.2.1
    · next heq =>
      exact absurd (List.cons.inj (hhead.symm.trans heq)).1 (digitChar_facts d).2.2.2.1
    · rw [hread, Option.map_some]
  · refine ⟨-(spelled whole : ℤ), ?_, by simp [signed]⟩
    have htext : (NumberText.finite true whole [] none).text = '-' :: digitText whole := by
      simp [text, signText, pointText, exponentText]
    rw [htext]
    simp only [hread, Option.map_some]

theorem exists_digitText : ∀ {s : Str}, (∀ c ∈ s, ∃ d < 10, c = digitChar d) →
    ∃ ds, s = digitText ds
  | [], _ => ⟨[], rfl⟩
  | c :: s, h => by
    obtain ⟨d, hd, rfl⟩ := h c (List.mem_cons_self ..)
    obtain ⟨ds, rfl⟩ := exists_digitText fun c hc => h c (List.mem_cons_of_mem _ hc)
    exact ⟨⟨d, hd⟩ :: ds, rfl⟩

/-- An integer is printed as a number without a fraction. -/
theorem intText_whole (n : ℤ) : ∃ (negative : Bool) (whole : List (Fin 10)), whole ≠ [] ∧
    intText n = (NumberText.finite negative whole [] none).text := by
  obtain ⟨whole, hwhole⟩ := exists_digitText fun c hc => mem_numeral (Nat.log 10 n.natAbs + 1) _ hc
  have htext : decimalText n.natAbs = digitText whole := hwhole
  have hne : whole ≠ [] := by
    rintro rfl
    exact decimalText_ne_nil _ htext
  refine ⟨decide (n < 0), whole, hne, ?_⟩
  rw [intText, htext]
  split_ifs with hneg <;> simp [text, signText, pointText, exponentText, hneg]

/-- A text with a fraction has the decimal pattern, and not that of an integer. -/
theorem decimalPattern_fraction (hu : u.AsciiExact) (negative : Bool)
    {whole fraction : List (Fin 10)} (hwhole : whole ≠ []) (hfraction : fraction ≠ []) :
    intPattern u (NumberText.finite negative whole fraction none).text = false ∧
      decimalPattern u (NumberText.finite negative whole fraction none).text = true := by
  have hpoint : pointText fraction = '.' :: digitText fraction := if_neg hfraction
  have hbody : dropMinus (chomp (NumberText.finite negative whole fraction none).text) =
      digitText whole ++ '.' :: digitText fraction := by
    rw [chomp_text (wellFormed_plain hwhole), dropMinus_numeral hwhole, hpoint, exponentText,
      List.append_nil]
  constructor
  · rw [intPattern, hbody, allDigits, Bool.and_eq_false_iff]
    refine .inr (List.all_eq_false.mpr ⟨'.', by simp, ?_⟩)
    rw [hu.digit '.' (by decide)]
    decide
  · have hdigits : ∀ c ∈ digitText whole, (decide (c ≠ '.')) = true := by
      intro c hc
      obtain ⟨d, rfl⟩ := mem_digitText hc
      exact decide_eq_true (digitChar_facts d).1
    obtain ⟨htake, hdrop⟩ := taken_run (t := '.' :: digitText fraction) hdigits (by simp)
    rw [decimalPattern, hbody, htake, hdrop, allDigits_digitText hwhole, List.drop_one,
      List.tail_cons, allDigits_digitText hfraction]
    rfl

theorem allDigits_mem {s : Str} (h : allDigits u s = true) {c : Char} (hc : c ∈ s) :
    (u.digit c).isSome := List.all_eq_true.mp (Bool.and_eq_true_iff.mp h).2 c hc

/-- The characters of a text that has a pattern. -/
theorem mem_of_pattern {s : Str} (h : intPattern u s = true ∨ decimalPattern u s = true) {c : Char}
    (hc : c ∈ s) : c = '\n' ∨ c = '-' ∨ c = '.' ∨ (u.digit c).isSome := by
  have hbody : c = '\n' ∨ c = '-' ∨ c ∈ dropMinus (chomp s) := by
    have hchomp : c = '\n' ∨ c ∈ chomp s := by
      unfold chomp
      split_ifs with hlast
      · obtain ⟨t, rfl⟩ := List.getLast?_eq_some_iff.mp hlast
        rw [List.dropLast_concat]
        exact (List.mem_append.mp hc).symm.imp_left List.mem_singleton.mp
      · exact .inr hc
    refine hchomp.imp_right fun hc => ?_
    unfold dropMinus
    split
    · next heq =>
      rw [heq] at hc
      exact List.mem_cons.mp hc
    · exact .inr hc
  refine hbody.imp_right fun hbody => hbody.imp_right fun hbody => ?_
  rcases h with h | h
  · exact .inr (allDigits_mem h hbody)
  · obtain ⟨hwhole, hfraction⟩ := Bool.and_eq_true_iff.mp h
    rw [← List.takeWhile_append_dropWhile (p := (· ≠ '.')) (l := dropMinus (chomp s))] at hbody
    rcases List.mem_append.mp hbody with hbody | hbody
    · exact .inr (allDigits_mem hwhole hbody)
    · cases hdrop : (dropMinus (chomp s)).dropWhile (· ≠ '.') with
      | nil => rw [hdrop] at hbody; cases hbody
      | cons d t =>
        rw [hdrop] at hbody hfraction
        rcases List.mem_cons.mp hbody with rfl | hbody
        · have hhead := List.head?_dropWhile_not (· ≠ '.') (dropMinus (chomp s))
          rw [hdrop] at hhead
          exact .inl (by simpa using hhead)
        · exact .inr (allDigits_mem hfraction hbody)

/-- Other printed numbers have no pattern. -/
theorem pattern_positional (hu : u.AsciiExact) {n : NumberText} (h : ¬ n.Positional) :
    intPattern u n.text = false ∧ decimalPattern u n.text = false := by
  obtain ⟨c, hc, hletter⟩ : ∃ c ∈ n.text, c = 'e' ∨ c = 'I' ∨ c = 'N' := by
    cases n with
    | nan => exact ⟨'N', by decide, .inr (.inr rfl)⟩
    | infinity negative => exact ⟨'I', by cases negative <;> decide, .inr (.inl rfl)⟩
    | finite negative whole fraction exponent =>
      cases exponent with
      | none => exact absurd trivial h
      | some e => exact ⟨'e', by simp [text, exponentText], .inl rfl⟩
  have hdigit : (u.digit c).isSome = false ∧ c ≠ '\n' ∧ c ≠ '-' ∧ c ≠ '.' := by
    rcases hletter with rfl | rfl | rfl
    all_goals exact ⟨by rw [hu.digit _ (by decide)]; decide, by decide, by decide, by decide⟩
  have hneither : ¬ (intPattern u n.text = true ∨ decimalPattern u n.text = true) := by
    intro hpattern
    rcases mem_of_pattern hpattern hc with h | h | h | h
    · exact hdigit.2.1 h
    · exact hdigit.2.2.1 h
    · exact hdigit.2.2.2 h
    · rw [hdigit.1] at h
      cases h
  exact ⟨Bool.eq_false_iff.mpr fun h => hneither (.inl h),
    Bool.eq_false_iff.mpr fun h => hneither (.inr h)⟩

/-- The characters of a printed number. -/
theorem mem_text {n : NumberText} {c : Char} (h : c ∈ n.text) :
    c.isAlphanum ∨ c = '-' ∨ c = '+' ∨ c = '.' := by
  have hdigits : ∀ {ds : List (Fin 10)}, c ∈ digitText ds → c.isAlphanum := by
    intro ds h
    obtain ⟨d, rfl⟩ := mem_digitText h
    exact digitChar_alphanum d
  have hsign : ∀ {negative : Bool}, c ∈ signText negative → c = '-' := by
    intro negative h
    cases negative
    · cases h
    · exact List.mem_singleton.mp h
  cases n with
  | nan =>
    have hname : ∀ c ∈ "NaN".toList, c.isAlphanum := List.all_iff_forall_prop.mp (by decide)
    exact .inl (hname c h)
  | infinity negative =>
    have hname : ∀ c ∈ "Infinity".toList, c.isAlphanum := List.all_iff_forall_prop.mp (by decide)
    rcases List.mem_append.mp h with h | h
    · exact .inr (.inl (hsign h))
    · exact .inl (hname c h)
  | finite negative whole fraction exponent =>
    rcases List.mem_append.mp h with h | h
    · exact .inr (.inl (hsign h))
    rcases List.mem_append.mp h with h | h
    · rcases mantissa_chars h with rfl | ⟨d, rfl⟩
      · exact .inr (.inr (.inr rfl))
      · exact .inl (digitChar_alphanum d)
    · cases exponent with
      | none => cases h
      | some e =>
        rcases List.mem_cons.mp h with rfl | h
        · exact .inl rfl
        rcases List.mem_cons.mp h with rfl | h
        · split_ifs
          · exact .inr (.inl rfl)
          · exact .inr (.inr (.inl rfl))
        · exact .inl (hdigits h)

end Dpone.Schemes
