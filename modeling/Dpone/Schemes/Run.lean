import Mathlib.Order.Basic

/-! Runs of a labelled step relation.

    A run records the state before each step with the step's label. An invariant is proved once per
    step; `always_iff` is the rule for a property that only some steps keep: it holds in every
    state of a run exactly when every step of the run is one of those. -/

namespace Dpone.Schemes

variable {S L : Type} {step : S → L → S → Prop} {s₀ : S}

/-- A run from `s₀`: its steps with the states they were taken in, and the state it ends in. -/
inductive Run (step : S → L → S → Prop) (s₀ : S) : List (S × L) → S → Prop
  | nil : Run step s₀ [] s₀
  | snoc {τ : List (S × L)} {s s' : S} {l : L} :
      Run step s₀ τ s → step s l s' → Run step s₀ (τ ++ [(s, l)]) s'

namespace Run
variable {τ : List (S × L)} {s : S}

theorem cons {s₁ s₂ : S} {l : L} (hs : step s₀ l s₁) (h : Run step s₁ τ s₂) :
    Run step s₀ ((s₀, l) :: τ) s₂ := by
  induction h with
  | nil => exact snoc (τ := []) nil hs
  | snoc _ hlast ih => exact snoc (τ := (s₀, l) :: _) ih hlast

/-- RUN RULE: what every step keeps holds in the last state. -/
theorem invariant {I : S → Prop} (h₀ : I s₀) (hstep : ∀ {s l s'}, I s → step s l s' → I s')
    (h : Run step s₀ τ s) : I s := by
  induction h with
  | nil => exact h₀
  | snoc _ hs ih => exact hstep ih hs

/-- What every step keeps holds in every state of the run. -/
theorem invariant_before {I : S → Prop} (h₀ : I s₀)
    (hstep : ∀ {s l s'}, I s → step s l s' → I s') (h : Run step s₀ τ s) :
    ∀ p ∈ τ, I p.1 := by
  induction h with
  | nil => intro p hp; cases hp
  | snoc hrun hs ih =>
    intro p hp
    rcases List.mem_append.mp hp with hp | hp
    · exact ih p hp
    · rw [List.mem_singleton.mp hp]; exact invariant h₀ hstep hrun

/-- RUN RULE: what every step that meets a condition keeps holds in every state of a run whose
    steps all meet it. -/
theorem invariant_while {I : S → Prop} {cond : S → L → Prop} (h₀ : I s₀)
    (hstep : ∀ {s l s'}, I s → cond s l → step s l s' → I s') (h : Run step s₀ τ s)
    (hcond : ∀ p ∈ τ, cond p.1 p.2) : (∀ p ∈ τ, I p.1) ∧ I s := by
  induction h with
  | nil => exact ⟨nofun, h₀⟩
  | @snoc τ s s' l hrun hs ih =>
    obtain ⟨hbefore, hlast⟩ := ih fun p hp => hcond p (by simp [hp])
    refine ⟨fun p hp => ?_, hstep hlast (hcond (s, l) (by simp)) hs⟩
    rcases List.mem_append.mp hp with hp | hp
    · exact hbefore p hp
    · rw [List.mem_singleton.mp hp]; exact hlast

/-- RUN RULE: what a step never undoes, once it holds in a state of the run, holds at its end. -/
theorem persists {I P : S → Prop} (hstep : ∀ {s l s'}, I s → P s → step s l s' → P s')
    (h : Run step s₀ τ s) (hI : ∀ p ∈ τ, I p.1) : ∀ p ∈ τ, P p.1 → P s := by
  induction h with
  | nil => exact nofun
  | @snoc τ s s' l hrun hs ih =>
    intro p hp hP
    have hlast : P s := by
      rcases List.mem_append.mp hp with hold | hnew
      · exact ih (fun q hq => hI q (by simp [hq])) p hold hP
      · rwa [List.mem_singleton.mp hnew] at hP
    exact hstep (hI (s, l) (by simp)) hlast hs

/-- RUN RULE: under an invariant `J`, a property that a step keeps exactly when the step meets a
    condition holds in every state of a run exactly when every step meets the condition. -/
theorem always_iff {J I : S → Prop} {cond : S → L → Prop} (hJ₀ : J s₀) (hI₀ : I s₀)
    (hJ : ∀ {s l s'}, J s → step s l s' → J s')
    (hI : ∀ {s l s'}, J s → I s → step s l s' → (I s' ↔ cond s l)) (h : Run step s₀ τ s) :
    ((∀ p ∈ τ, I p.1) ∧ I s) ↔ ∀ p ∈ τ, cond p.1 p.2 := by
  induction h with
  | nil => simp [hI₀]
  | @snoc τ s s' l hrun hs ih =>
    have hj := invariant hJ₀ hJ hrun
    constructor
    · rintro ⟨hbefore, hlast⟩ p hp
      have hs' : I s := hbefore (s, l) (by simp)
      rcases List.mem_append.mp hp with hp | hp
      · exact ih.mp ⟨fun q hq => hbefore q (by simp [hq]), hs'⟩ p hp
      · rw [List.mem_singleton.mp hp]; exact (hI hj hs' hs).mp hlast
    · intro hcond
      obtain ⟨hbefore, hlast⟩ := ih.mpr fun p hp => hcond p (by simp [hp])
      refine ⟨fun p hp => ?_, (hI hj hlast hs).mpr (hcond (s, l) (by simp))⟩
      rcases List.mem_append.mp hp with hp | hp
      · exact hbefore p hp
      · rw [List.mem_singleton.mp hp]; exact hlast

/-- RUN RULE: where a mark puts the system in `P`, which every step keeps and which forbids some
    labels, none of these follows the mark. -/
theorem never_after {J P : S → Prop} {mark forbidden : L → Prop} (hJ₀ : J s₀)
    (hJ : ∀ {s l s'}, J s → step s l s' → J s')
    (hmark : ∀ {s l s'}, J s → mark l → step s l s' → P s')
    (hkeep : ∀ {s l s'}, J s → P s → step s l s' → P s' ∧ ¬ forbidden l)
    (h : Run step s₀ τ s) {τ₁ τ₂ : List (S × L)} {p : S × L} (hsplit : τ = τ₁ ++ p :: τ₂)
    (hp : mark p.2) : (∀ q ∈ τ₂, ¬ forbidden q.2) ∧ P s := by
  induction h generalizing τ₂ with
  | nil => cases τ₁ <;> cases hsplit
  | @snoc τ s s' l hrun hs ih =>
    have hj := invariant hJ₀ hJ hrun
    rcases List.eq_nil_or_concat τ₂ with rfl | ⟨τ₃, q, rfl⟩
    · obtain ⟨-, hlast⟩ := List.append_inj' hsplit rfl
      obtain rfl := List.singleton_inj.mp hlast
      exact ⟨nofun, hmark hj hp hs⟩
    · have hsplit' : τ ++ [(s, l)] = (τ₁ ++ p :: τ₃) ++ [q] := by simpa using hsplit
      obtain ⟨hbefore, hlast⟩ := List.append_inj' hsplit' rfl
      obtain rfl := List.singleton_inj.mp hlast
      obtain ⟨hnone, hP⟩ := ih hbefore
      obtain ⟨hP', hl⟩ := hkeep hj hP hs
      refine ⟨fun r hr => ?_, hP'⟩
      rw [List.concat_eq_append] at hr
      rcases List.mem_append.mp hr with hr | hr
      · exact hnone r hr
      · rw [List.mem_singleton.mp hr]
        exact hl

/-- RUN RULE: a measure that grows by one at some steps counts them. -/
theorem counts {p : S × L → Bool} {f : S → ℕ} (h₀ : f s₀ = 0)
    (hstep : ∀ {s l s'}, step s l s' → f s' = f s + if p (s, l) then 1 else 0)
    (h : Run step s₀ τ s) : τ.countP p = f s := by
  induction h with
  | nil => simp [h₀]
  | snoc hrun hs ih => rw [List.countP_append, ih, List.countP_singleton, hstep hs]

/-- REFINEMENT RULE: where each step is a step of another system on part of the state, or leaves
    that part alone, a run is a run of the other system. -/
theorem simulates {S' L' : Type} {step' : S' → L' → S' → Prop} (view : S → S')
    (label : L → Option L')
    (hsilent : ∀ {s l s'}, step s l s' → label l = none → view s' = view s)
    (hstep : ∀ {s l s' l'}, step s l s' → label l = some l' → step' (view s) l' (view s'))
    (h : Run step s₀ τ s) :
    Run step' (view s₀) (τ.filterMap fun p => (label p.2).map fun l' => (view p.1, l'))
      (view s) := by
  induction h with
  | nil => exact nil
  | @snoc τ s s' l hrun hs ih =>
    rw [List.filterMap_append]
    cases hl : label l with
    | none =>
      rw [hsilent hs hl]
      simpa [hl] using ih
    | some l' =>
      have hlast := snoc ih (hstep hs hl)
      simpa [hl] using hlast

end Run

/-- Running labels in order with a step function. -/
def execute (f : S → L → Option S) : S → List L → Option (List (S × L) × S)
  | s, [] => some ([], s)
  | s, l :: ls => do
    let s' ← f s l
    let (τ, last) ← execute f s' ls
    return ((s, l) :: τ, last)

/-- CORRECT: what is executed is a run. -/
theorem run_of_execute {f : S → L → Option S} : ∀ {s : S} {ls : List L} {τ : List (S × L)} {s' : S},
    execute f s ls = some (τ, s') → Run (fun s l s' => f s l = some s') s τ s'
  | s, [], _, _, h => by
    cases h
    exact .nil
  | s, l :: ls, _, _, h => by
    simp only [execute, Option.bind_eq_bind, Option.bind_eq_some_iff, pure, Option.some.injEq] at h
    obtain ⟨s₁, hs, ⟨τ, last⟩, hrest, h⟩ := h
    cases h
    exact Run.cons hs (run_of_execute hrest)


end Dpone.Schemes
