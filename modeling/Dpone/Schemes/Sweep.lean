import Mathlib.Order.Basic
import Dpone.Schemes.Records

/-! Sweeping a range from its lower end, piece by piece.

    A sweep makes a piece at the cursor and moves the cursor past it, until the cursor has reached
    the end. If every piece starts at the cursor, ends at the next one and is not empty, the sweep
    ends, and unless a piece cannot be made the pieces meet end to end from the first cursor to the
    end of the range. -/

namespace Dpone.Schemes

/-- Pieces with end points that meet end to end from `a` to `b`, each of them nonempty. -/
inductive Chain {P α : Type} [LT α] (lo hi : P → α) : α → α → List P → Prop
  | nil (a : α) : Chain lo hi a a []
  | cons {a b : α} {p : P} {ps : List P} : lo p = a → a < hi p → Chain lo hi (hi p) b ps →
      Chain lo hi a b (p :: ps)

namespace Chain
variable {P α : Type} [LinearOrder α] {lo hi : P → α} {a b : α} {ps : List P}

theorem le (h : Chain lo hi a b ps) : a ≤ b := by
  induction h with
  | nil => exact le_rfl
  | cons _ hlt _ ih => exact hlt.le.trans ih

theorem lo_ge (h : Chain lo hi a b ps) : ∀ p ∈ ps, a ≤ lo p := by
  induction h with
  | nil => intro p hp; cases hp
  | cons hlo hlt _ ih =>
    intro q hq
    rcases List.mem_cons.mp hq with rfl | hq
    · exact hlo.ge
    · exact hlt.le.trans (ih q hq)

/-- CORRECT: the pieces hold exactly the values from `a` up to `b`. -/
theorem mem_iff (h : Chain lo hi a b ps) (v : α) :
    (∃ p ∈ ps, lo p ≤ v ∧ v < hi p) ↔ a ≤ v ∧ v < b := by
  induction h with
  | nil a => simp
  | @cons a b p ps hlo hlt hrest ih =>
    simp only [List.mem_cons, exists_eq_or_imp, ih, hlo]
    constructor
    · rintro (⟨hav, hv⟩ | ⟨hv, hvb⟩)
      · exact ⟨hav, hv.trans_le hrest.le⟩
      · exact ⟨hlt.le.trans hv, hvb⟩
    · rintro ⟨hav, hvb⟩
      rcases lt_or_ge v (hi p) with hv | hv
      · exact .inl ⟨hav, hv⟩
      · exact .inr ⟨hv, hvb⟩

/-- MONOTONE: every piece ends before all later ones start. -/
theorem pairwise (h : Chain lo hi a b ps) : ps.Pairwise fun p q => hi p ≤ lo q := by
  induction h with
  | nil => exact List.Pairwise.nil
  | cons _ _ hrest ih => exact List.Pairwise.cons hrest.lo_ge ih

/-- Neighbours meet. -/
theorem meets (h : Chain lo hi a b ps) : ps.IsChain fun p q => hi p = lo q := by
  induction h with
  | nil => exact .nil
  | cons _ _ hrest ih =>
    cases hrest with
    | nil => exact .singleton _
    | cons hlo _ _ => exact .cons_cons hlo.symm ih

end Chain

variable {C P : Type}

/-- `while not done(cursor): piece; cursor = next`, the pieces numbered. A piece may raise. -/
def sweep (done : C → Bool) (piece : ℕ → C → Except PyError (P × C)) :
    ℕ → ℕ → C → Option (Except PyError (List P))
  | 0, _, _ => none
  | fuel + 1, index, cursor =>
    if done cursor then some (.ok [])
    else match piece index cursor with
      | .error e => some (.error e)
      | .ok (p, next) => (sweep done piece fuel (index + 1) next).map (Except.map (p :: ·))

/-- What a sweep needs of its step: under an invariant, a piece goes from the cursor to the next one,
    which is past it and not past the end. -/
structure Sweeps (done : C → Bool) (piece : ℕ → C → Except PyError (P × C)) (I : C → Prop)
    (good : P → Prop) (place : C → ℤ) (number : P → ℕ) (lo hi : P → ℤ) (stop : ℤ) : Prop where
  done_iff : ∀ c, I c → (done c = true ↔ stop ≤ place c)
  step : ∀ {index c p next}, I c → place c < stop → piece index c = .ok (p, next) →
    I next ∧ (good p ∧ number p = index) ∧ (lo p = place c ∧ hi p = place next) ∧
      place c < place next ∧ place next ≤ stop

/-- How a sweep ends: with all pieces, or at a cursor where the piece raises. -/
def SweepEnds (piece : ℕ → C → Except PyError (P × C)) (I : C → Prop) (good : P → Prop)
    (place : C → ℤ) (number : P → ℕ) (lo hi : P → ℤ) (start stop : ℤ) (index : ℕ) :
    Except PyError (List P) → Prop
  | .ok ps => Chain lo hi start stop ps ∧ ps.map number = List.range' index ps.length ∧
      ∀ p ∈ ps, good p
  | .error e => ∃ c i, I c ∧ start ≤ place c ∧ place c < stop ∧ piece i c = .error e

variable {done : C → Bool} {piece : ℕ → C → Except PyError (P × C)} {I : C → Prop}
  {good : P → Prop} {place : C → ℤ} {number : P → ℕ} {lo hi : P → ℤ} {stop : ℤ}

/-- TOTAL, CORRECT: with fuel for every place up to the end, a sweep ends. -/
theorem sweep_ends (h : Sweeps done piece I good place number lo hi stop) :
    ∀ (fuel index : ℕ) (c : C), I c → place c ≤ stop → (stop - place c).toNat < fuel →
      ∃ r, sweep done piece fuel index c = some r ∧
        SweepEnds piece I good place number lo hi (place c) stop index r
  | 0, _, _, _, _, hfuel => absurd hfuel (Nat.not_lt_zero _)
  | fuel + 1, index, c, hI, hle, hfuel => by
      unfold sweep
      by_cases hdone : done c = true
      · have hend : place c = stop := le_antisymm hle ((h.done_iff c hI).mp hdone)
        rw [if_pos hdone, hend]
        exact ⟨_, rfl, .nil stop, rfl, fun _ hp => nomatch hp⟩
      · have hlt : place c < stop := by
          rw [h.done_iff c hI] at hdone; omega
        rw [if_neg hdone]
        cases hpiece : piece index c with
        | error e => exact ⟨_, rfl, c, index, hI, le_rfl, hlt, hpiece⟩
        | ok r =>
          obtain ⟨p, next⟩ := r
          obtain ⟨hI', ⟨hgood, hnumber⟩, ⟨hlo, hhi⟩, hmoves, hnext⟩ := h.step hI hlt hpiece
          obtain ⟨r, hr, hends⟩ := sweep_ends h fuel (index + 1) next hI' hnext (by omega)
          refine ⟨r.map (p :: ·), by simp [hr], ?_⟩
          cases r with
          | error e =>
            obtain ⟨c', i, hc', hlo', hhi', hraise⟩ := hends
            exact ⟨c', i, hc', hmoves.le.trans hlo', hhi', hraise⟩
          | ok ps =>
            obtain ⟨hchain, hnumbers, hall⟩ := hends
            rw [← hhi] at hchain hmoves
            refine ⟨.cons hlo hmoves hchain, ?_, ?_⟩
            · rw [List.map_cons, hnumbers, hnumber, List.length_cons, List.range'_succ]
            · exact List.forall_mem_cons.mpr ⟨hgood, hall⟩

/-- More fuel changes nothing. -/
theorem sweep_mono : ∀ {fuel fuel' index : ℕ} {c : C} {r : Except PyError (List P)},
    fuel ≤ fuel' → sweep done piece fuel index c = some r → sweep done piece fuel' index c = some r
  | 0, _, _, _, _, _, h => by cases h
  | fuel + 1, 0, _, _, _, hle, _ => absurd hle (by omega)
  | fuel + 1, fuel' + 1, index, c, r, hle, h => by
      unfold sweep at h ⊢
      split_ifs at h ⊢ with hdone
      · exact h
      · cases hpiece : piece index c with
        | error e => rw [hpiece] at h; exact h
        | ok pn =>
          rw [hpiece] at h
          obtain ⟨r', hr', hmap⟩ := Option.map_eq_some_iff.mp h
          simp only
          rw [sweep_mono (Nat.le_of_succ_le_succ hle) hr', ← hmap]
          rfl

/-! ### Edges known beforehand -/

/-- Where a list of pieces raised. -/
theorem mapM_error {A : Type} {f : A → Except PyError P} {e : PyError} :
    ∀ {l : List A}, l.mapM f = .error e → ∃ a ∈ l, f a = .error e
  | [], h => by cases h
  | a :: l, h => by
      rw [List.mapM_cons] at h
      rcases bind_error.mp h with h | ⟨p, -, h⟩
      · exact ⟨a, List.mem_cons_self, h⟩
      · rcases bind_error.mp h with h | ⟨ps, -, h⟩
        · obtain ⟨b, hb, hraise⟩ := mapM_error h
          exact ⟨b, List.mem_cons_of_mem a hb, hraise⟩
        · cases h

/-- CORRECT: pieces between consecutive edges meet end to end. -/
theorem mapM_chain {f : ℕ → Except PyError P} (edge : ℕ → ℤ) {n : ℕ}
    (h : ∀ {k p}, k < n → f k = .ok p →
      (good p ∧ number p = k + 1) ∧ (lo p = edge k ∧ hi p = edge (k + 1)) ∧ edge k < edge (k + 1)) :
    ∀ (m k : ℕ) {ps : List P}, k + m = n → (List.range' k m).mapM f = .ok ps →
      Chain lo hi (edge k) (edge n) ps ∧ ps.map number = List.range' (k + 1) ps.length ∧
        ∀ p ∈ ps, good p
  | 0, k, ps, hn, hps => by
      cases hps
      obtain rfl : k = n := hn
      exact ⟨.nil _, rfl, fun _ hp => nomatch hp⟩
  | m + 1, k, ps, hn, hps => by
      rw [List.range'_succ, List.mapM_cons] at hps
      obtain ⟨p, hp, hps⟩ := bind_ok.mp hps
      obtain ⟨rest, hrest, hps⟩ := bind_ok.mp hps
      cases hps
      obtain ⟨⟨hgood, hnumber⟩, ⟨hlo, hhi⟩, hlt⟩ := h (by omega) hp
      obtain ⟨hchain, hnumbers, hall⟩ := mapM_chain edge h m (k + 1) (by omega) hrest
      rw [← hhi] at hchain hlt
      refine ⟨.cons hlo hlt hchain, ?_, List.forall_mem_cons.mpr ⟨hgood, hall⟩⟩
      rw [List.map_cons, hnumbers, hnumber, List.length_cons, List.range'_succ]

end Dpone.Schemes
