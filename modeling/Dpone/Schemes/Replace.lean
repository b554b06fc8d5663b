import Mathlib.Data.List.Basic
import Mathlib.Data.List.Infix
import Mathlib.Logic.Function.Basic

/-! Exact replacement of a word, left to right and without overlaps, over any alphabet.

    An escape table sends each of its characters to a marker followed by a code. LOSSLESS: carrying
    out its replacements one after the other and undoing them one after the other, the marker last,
    gives the text back; so does marking every occurrence of a word by a longer word that begins
    with it, and taking the marks away. -/

namespace Dpone.Schemes
variable {α : Type} [DecidableEq α]

/-- Replacement after `k` more characters of an occurrence have been passed. -/
def replaceFrom (old new : List α) : ℕ → List α → List α
  | _, [] => []
  | k + 1, _ :: s => replaceFrom old new k s
  | 0, c :: s =>
    if old.isPrefixOf (c :: s) then new ++ replaceFrom old new (old.length - 1) s
    else c :: replaceFrom old new 0 s

/-- `text.replace(old, new)` for a non-empty `old`. -/
def replaceAll (old new s : List α) : List α := replaceFrom old new 0 s

variable {old new : List α}

@[simp] theorem replaceAll_nil : replaceAll old new [] = [] := by simp [replaceAll, replaceFrom]

theorem replaceFrom_append : ∀ s t : List α,
    replaceFrom old new s.length (s ++ t) = replaceAll old new t
  | [], t => rfl
  | _ :: s, t => by
    simp only [List.cons_append, List.length_cons, replaceFrom]
    exact replaceFrom_append s t

theorem replaceAll_word (h : old ≠ []) (s : List α) :
    replaceAll old new (old ++ s) = new ++ replaceAll old new s := by
  cases old with
  | nil => exact absurd rfl h
  | cons c w =>
    have hprefix : (c :: w).isPrefixOf (c :: (w ++ s)) = true :=
      List.isPrefixOf_iff_prefix.mpr ⟨s, rfl⟩
    rw [replaceAll, List.cons_append, replaceFrom, if_pos hprefix, List.length_cons,
      Nat.add_sub_cancel, replaceFrom_append]

theorem replaceAll_cons {c : α} {s : List α} (h : ¬ old <+: c :: s) :
    replaceAll old new (c :: s) = c :: replaceAll old new s := by
  have hprefix : ¬ old.isPrefixOf (c :: s) = true := fun hp => h (List.isPrefixOf_iff_prefix.mp hp)
  rw [replaceAll, replaceFrom, if_neg hprefix, replaceAll]

theorem replaceAll_single (c : α) : ∀ s : List α,
    replaceAll [c] new s = s.flatMap fun x => if x = c then new else [x]
  | [] => by simp
  | x :: s => by
    rw [List.flatMap_cons, ← replaceAll_single c s]
    by_cases hx : x = c
    · rw [if_pos hx, hx]
      exact replaceAll_word (List.cons_ne_nil c []) s
    · rw [if_neg hx, List.singleton_append]
      exact replaceAll_cons fun hp => hx (List.cons_prefix_cons.mp hp).1.symm

/-- A word that cannot begin anywhere is not replaced. -/
theorem replaceAll_of_not_mem {x : α} {w : List α} : ∀ {s : List α}, x ∉ s →
    replaceAll (x :: w) new s = s
  | [], _ => replaceAll_nil
  | c :: s, h => by
    have hc : ¬ x :: w <+: c :: s := fun hp =>
      h (List.mem_cons.mpr (.inl (List.cons_prefix_cons.mp hp).1))
    rw [replaceAll_cons hc, replaceAll_of_not_mem fun hx => h (List.mem_cons_of_mem _ hx)]

/-! ### Marking a word -/

/-- A short prefix of a marked text is a prefix of the text itself. -/
theorem prefix_of_marked {mark : List α} (hold : old ≠ []) {w : List α}
    (hw : w.length ≤ old.length) : ∀ s : List α,
    w <+: replaceAll old (old ++ mark) s → w <+: s := by
  intro s
  induction s generalizing w with
  | nil => intro h; simpa using h
  | cons c s ih =>
    intro h
    by_cases hprefix : old <+: c :: s
    · obtain ⟨t, ht⟩ := hprefix
      rw [← ht, replaceAll_word hold, List.append_assoc] at h
      exact ht ▸ (List.prefix_of_prefix_length_le h (List.prefix_append _ _) hw).trans
        (List.prefix_append _ _)
    · rw [replaceAll_cons hprefix] at h
      cases w with
      | nil => exact List.nil_prefix
      | cons d w =>
        obtain ⟨rfl, htail⟩ := List.cons_prefix_cons.mp h
        exact List.cons_prefix_cons.mpr ⟨rfl, ih (Nat.le_of_succ_le hw) htail⟩

/-- LOSSLESS: taking the marks away gives the text back. -/
theorem replaceAll_marked (mark : List α) (hold : old ≠ []) (s : List α) :
    replaceAll (old ++ mark) old (replaceAll old (old ++ mark) s) = s := by
  have hmarked : old ++ mark ≠ [] := fun h => hold (List.append_eq_nil_iff.mp h).1
  induction hn : s.length using Nat.strong_induction_on generalizing s with
  | _ n ih =>
    by_cases hprefix : old <+: s
    · obtain ⟨t, rfl⟩ := hprefix
      have hlt : t.length < n := by
        have := List.length_pos_iff.mpr hold
        simp only [← hn, List.length_append]
        omega
      rw [replaceAll_word hold, replaceAll_word hmarked, ih _ hlt t rfl]
    · cases s with
      | nil => simp
      | cons c s =>
        have hlt : s.length < n := by simp [← hn]
        have hnone : ¬ old ++ mark <+: c :: replaceAll old (old ++ mark) s := by
          intro h
          have h' := (List.prefix_append old mark).trans h
          rw [← replaceAll_cons hprefix] at h'
          exact hprefix (prefix_of_marked hold le_rfl _ h')
        rw [replaceAll_cons hprefix, replaceAll_cons hnone, ih _ hlt s rfl]

/-! ### Escape tables -/

section Escapes
variable (marker : α)

/-- The image of one character: a marker and its code where the table has it, itself otherwise. -/
def escapeChar : List (α × α) → α → List α
  | [], x => [x]
  | e :: table, x => if x = e.1 then [marker, e.2] else escapeChar table x

/-- The replacements of a table, carried out one after the other. -/
def escapeAll (table : List (α × α)) (s : List α) : List α :=
  table.foldl (fun s e => replaceAll [e.1] [marker, e.2] s) s

/-- The same replacements undone one after the other. -/
def unescapeAll (table : List (α × α)) (s : List α) : List α :=
  table.foldl (fun s e => replaceAll [marker, e.2] [e.1] s) s

variable {marker}

theorem escapeChar_of_not_mem {x : α} : ∀ {table : List (α × α)}, (∀ e ∈ table, x ≠ e.1) →
    escapeChar marker table x = [x]
  | [], _ => rfl
  | e :: table, h => by
    rw [escapeChar, if_neg (h e (List.mem_cons_self ..))]
    exact escapeChar_of_not_mem fun e he => h e (List.mem_cons_of_mem _ he)

/-- What an image is: the character itself, which the table does not have, or a marked code. -/
theorem escapeChar_cases (marker x : α) : ∀ table : List (α × α),
    (escapeChar marker table x = [x] ∧ ∀ e ∈ table, x ≠ e.1) ∨
      ∃ e ∈ table, x = e.1 ∧ escapeChar marker table x = [marker, e.2]
  | [] => .inl ⟨rfl, by simp⟩
  | e :: table => by
    rw [escapeChar]
    by_cases hx : x = e.1
    · exact .inr ⟨e, List.mem_cons_self .., hx, if_pos hx⟩
    · rw [if_neg hx]
      rcases escapeChar_cases marker x table with ⟨heq, hnot⟩ | ⟨d, hd, hxd, heq⟩
      · exact .inl ⟨heq, fun d hd => (List.mem_cons.mp hd).elim (fun h => h ▸ hx) (hnot d)⟩
      · exact .inr ⟨d, List.mem_cons_of_mem _ hd, hxd, heq⟩

theorem escapeChar_of_mem {e : α × α} : ∀ {table : List (α × α)},
    table.Pairwise (fun d e => e.1 ≠ d.1) → e ∈ table → escapeChar marker table e.1 = [marker, e.2]
  | d :: table, hpair, he => by
    have hlater := List.pairwise_cons.mp hpair
    rcases List.mem_cons.mp he with rfl | he
    · exact if_pos rfl
    · rw [escapeChar, if_neg (hlater.1 e he)]
      exact escapeChar_of_mem hlater.2 he

/-- Tables with the same entries escape alike. -/
theorem escapeChar_congr {table table' : List (α × α)} (hsame : ∀ e, e ∈ table ↔ e ∈ table')
    (hpair : table'.Pairwise fun d e => e.1 ≠ d.1) :
    escapeChar marker table = escapeChar marker table' := by
  funext x
  rcases escapeChar_cases marker x table with ⟨heq, hnot⟩ | ⟨e, he, rfl, heq⟩
  · rw [heq, escapeChar_of_not_mem fun e he => hnot e ((hsame e).mpr he)]
  · rw [heq, escapeChar_of_mem hpair ((hsame e).mp he)]

/-- No replacement of the table touches what an earlier one has written. -/
theorem escapeAll_eq : ∀ {table : List (α × α)} (s : List α),
    table.Pairwise (fun d e => e.1 ≠ marker ∧ e.1 ≠ d.2) →
    escapeAll marker table s = s.flatMap (escapeChar marker table)
  | [], s, _ => by
    simp only [escapeAll, List.foldl_nil]
    exact (List.flatMap_singleton' s).symm
  | e :: table, s, h => by
    have hlater := List.pairwise_cons.mp h
    have himage : (fun x => (if x = e.1 then [marker, e.2] else [x]).flatMap
        (escapeChar marker table)) = escapeChar marker (e :: table) := by
      funext x
      rw [escapeChar]
      split_ifs
      · have hmarker : escapeChar marker table marker = [marker] :=
          escapeChar_of_not_mem fun d hd => (hlater.1 d hd).1.symm
        have hcode : escapeChar marker table e.2 = [e.2] :=
          escapeChar_of_not_mem fun d hd => (hlater.1 d hd).2.symm
        simp [hmarker, hcode]
      · simp
    calc escapeAll marker (e :: table) s
        = escapeAll marker table (replaceAll [e.1] [marker, e.2] s) := rfl
      _ = (s.flatMap fun x => if x = e.1 then [marker, e.2] else [x]).flatMap
            (escapeChar marker table) := by rw [escapeAll_eq _ hlater.2, replaceAll_single]
      _ = s.flatMap (escapeChar marker (e :: table)) := by rw [List.flatMap_assoc, himage]

/-- Undoing one replacement, in a text whose markers all open a code. -/
theorem replaceAll_code {e : α × α} {table : List (α × α)}
    (hmarker : ∃ d ∈ e :: table, d.1 = marker) (hcodes : ∀ d ∈ e :: table, d.2 ≠ marker)
    (hkey : ∀ d ∈ table, d.1 ≠ e.1) (hcode : ∀ d ∈ table, d.2 ≠ e.2) : ∀ s : List α,
    replaceAll [marker, e.2] [e.1] (s.flatMap (escapeChar marker (e :: table))) =
      s.flatMap (escapeChar marker table)
  | [] => by simp
  | x :: s => by
    rw [List.flatMap_cons, List.flatMap_cons, ← replaceAll_code hmarker hcodes hkey hcode s]
    set rest := s.flatMap (escapeChar marker (e :: table))
    rcases escapeChar_cases marker x (e :: table) with ⟨heq, hnot⟩ | ⟨d, hd, hxd, heq⟩
    · obtain ⟨d, hd, hdm⟩ := hmarker
      have hx : x ≠ marker := fun h => hnot d hd (h.trans hdm.symm)
      have htail : escapeChar marker table x = [x] :=
        escapeChar_of_not_mem fun d hd => hnot d (List.mem_cons_of_mem _ hd)
      rw [heq, htail]
      exact replaceAll_cons fun hp => hx (List.cons_prefix_cons.mp hp).1.symm
    · rcases List.mem_cons.mp hd with rfl | hd'
      · have htail : escapeChar marker table x = [d.1] := by
          rw [escapeChar_of_not_mem fun c hc => by rw [hxd]; exact (hkey c hc).symm, hxd]
        rw [heq, htail]
        exact replaceAll_word (List.cons_ne_nil _ _) rest
      · have hhead : x ≠ e.1 := fun h => hkey d hd' (hxd.symm.trans h)
        have htail : escapeChar marker table x = [marker, d.2] := by
          rw [← heq, escapeChar, if_neg hhead]
        rw [heq, htail, List.cons_append, List.singleton_append]
        have hother : ¬ [marker, e.2] <+: marker :: d.2 :: rest := fun hp =>
          hcode d hd' (List.cons_prefix_cons.mp (List.cons_prefix_cons.mp hp).2).1.symm
        have hinner : ¬ [marker, e.2] <+: d.2 :: rest := fun hp =>
          hcodes d hd (List.cons_prefix_cons.mp hp).1.symm
        rw [replaceAll_cons hother, replaceAll_cons hinner, List.cons_append,
          List.singleton_append]

/-- LOSSLESS: a table whose last entry is the marker's own undoes what it has escaped. -/
theorem unescapeAll_escapeChar {last : α × α} (hlast : last.1 = marker) :
    ∀ {table : List (α × α)} (s : List α),
    (∀ d ∈ table ++ [last], d.2 ≠ marker) →
    (table ++ [last]).Pairwise (fun d e => e.1 ≠ d.1 ∧ e.2 ≠ d.2) →
    unescapeAll marker (table ++ [last]) (s.flatMap (escapeChar marker (table ++ [last]))) = s
  | [], s, hcodes, _ => by
    have h := replaceAll_code ⟨last, List.mem_singleton_self last, hlast⟩ hcodes (by simp) (by simp)
      s
    simp only [List.nil_append, unescapeAll, List.foldl_cons, List.foldl_nil]
    rw [h]
    exact List.flatMap_singleton' s
  | e :: table, s, hcodes, hpair => by
    have hlater := List.pairwise_cons.mp hpair
    have h := replaceAll_code
      ⟨last, List.mem_cons_of_mem _ (List.mem_append_right _ (List.mem_singleton_self last)), hlast⟩
      hcodes (fun d hd => (hlater.1 d hd).1) (fun d hd => (hlater.1 d hd).2) s
    have htail := unescapeAll_escapeChar hlast s
      (fun d hd => hcodes d (List.mem_cons_of_mem _ hd)) hlater.2
    simp only [List.cons_append, unescapeAll, List.foldl_cons] at h htail ⊢
    rw [h]
    exact htail

/-- A text without markers is left alone. -/
theorem unescapeAll_of_not_mem {s : List α} (h : marker ∉ s) : ∀ table : List (α × α),
    unescapeAll marker table s = s
  | [] => rfl
  | e :: table => by
    have hhead : replaceAll [marker, e.2] [e.1] s = s := replaceAll_of_not_mem h
    rw [unescapeAll, List.foldl_cons, hhead]
    exact unescapeAll_of_not_mem h table

/-! ### Scanners -/

/-- A scanner that takes an escaped text from left to right. -/
structure Unescaper (marker : α) (table : List (α × α)) where
  read : List α → List α
  read_nil : read [] = []
  read_plain : ∀ c s, c ≠ marker → read (c :: s) = c :: read s
  read_code : ∀ e ∈ table, ∀ s, read (marker :: e.2 :: s) = e.1 :: read s

omit [DecidableEq α] in
theorem Unescaper.read_of_not_mem {table : List (α × α)} (scan : Unescaper marker table) :
    ∀ {s : List α}, marker ∉ s → scan.read s = s
  | [], _ => scan.read_nil
  | c :: s, h => by
    have hc : c ≠ marker := fun hc => h (List.mem_cons.mpr (.inl hc.symm))
    rw [scan.read_plain c s hc, scan.read_of_not_mem fun hs => h (List.mem_cons_of_mem _ hs)]

/-- LOSSLESS: a scanner of a table that escapes the marker reads an escaped text back. -/
theorem Unescaper.read_escaped {table : List (α × α)} (scan : Unescaper marker table)
    (hmarker : ∃ e ∈ table, e.1 = marker) : ∀ s : List α,
    scan.read (s.flatMap (escapeChar marker table)) = s
  | [] => scan.read_nil
  | x :: s => by
    have htail := scan.read_escaped hmarker s
    rw [List.flatMap_cons]
    rcases escapeChar_cases marker x table with ⟨heq, hnot⟩ | ⟨e, he, rfl, heq⟩
    · obtain ⟨d, hd, hdm⟩ := hmarker
      rw [heq, List.singleton_append, scan.read_plain x _ fun h => hnot d hd (h.trans hdm.symm),
        htail]
    · rw [heq, List.cons_append, List.singleton_append, scan.read_code e he, htail]

end Escapes

end Dpone.Schemes
