import Mathlib.Logic.Function.Basic
import Dpone.Schemes.Run

/-! The admission gate of threaded backfill execution.

    `_ChunkAdmission` is a lock and a flag. A claim runs under the lock and only while the flag is
    open; a rejected claim, a claim that raises and `close` set the flag before they let the lock
    go. The gate is stated for any parties that call it in any order: every access to the lock and
    to the flag is a step of its own, and the steps of the parties interleave freely.

    INVARIANT: the lock is held by the party inside. RUN: after a claim was rejected or has raised,
    and after a `close` that returned, no claim starts. -/

namespace Dpone.Backfill
open Dpone.Schemes

/-- What a claim callback comes to. -/
inductive GateReply where
  | acquired | rejected | raised
  deriving DecidableEq, Repr

/-- Where a party is in the gate's code. -/
inductive GatePc where
  | outside
  /-- `acquire` waits for the lock. -/
  | entering
  /-- `acquire` holds the lock and looks at the flag. -/
  | testing
  /-- The claim callback runs. -/
  | claiming
  | replied (reply : GateReply)
  /-- `acquire` lets the lock go and returns; `none` is the refusal without a claim. -/
  | leaving (outcome : Option GateReply)
  /-- `close` waits for the lock. -/
  | closing
  /-- `close` holds the lock. -/
  | setting
  | shut
  deriving DecidableEq, Repr

/-- Whether a party is between the two ends of a `with self._lock` block. -/
def GatePc.inside : GatePc → Bool
  | outside | entering | closing => false
  | _ => true

inductive GateAct where
  | callAcquire | lockAcquire | refuse | letIn | reply (reply : GateReply)
  | settle (reply : GateReply) | leave (outcome : Option GateReply)
  | callClose | lockClose | setClosed | returnClose
  deriving DecidableEq, Repr

/-- The gate with where every party is in it. -/
structure Gate (P : Type) where
  lock : Option P
  closed : Bool
  pc : P → GatePc

variable {P : Type} [DecidableEq P]

/-- `_ChunkAdmission()`. -/
def Gate.init (P : Type) : Gate P where
  lock := none
  closed := false
  pc _ := .outside

def Gate.move (g : Gate P) (p : P) (pc : GatePc) : Gate P :=
  { g with pc := Function.update g.pc p pc }

/-- One step of a party in `acquire` or `close`. -/
def Gate.step (g : Gate P) (p : P) : GateAct → Option (Gate P)
  | .callAcquire => if g.pc p = .outside then some (g.move p .entering) else none
  | .lockAcquire =>
    if g.pc p = .entering ∧ g.lock = none then some { g.move p .testing with lock := some p }
    else none
  | .refuse =>
    if g.pc p = .testing ∧ g.closed = true then some (g.move p (.leaving none)) else none
  | .letIn => if g.pc p = .testing ∧ g.closed = false then some (g.move p .claiming) else none
  | .reply r => if g.pc p = .claiming then some (g.move p (.replied r)) else none
  | .settle r =>
    -- an acquired claim returns as it is; any other sets the flag first
    if g.pc p = .replied r then
      some { g.move p (.leaving (some r)) with closed := g.closed || r ≠ .acquired }
    else none
  | .leave outcome =>
    if g.pc p = .leaving outcome then some { g.move p .outside with lock := none } else none
  | .callClose => if g.pc p = .outside then some (g.move p .closing) else none
  | .lockClose =>
    if g.pc p = .closing ∧ g.lock = none then some { g.move p .setting with lock := some p }
    else none
  | .setClosed =>
    if g.pc p = .setting then some { g.move p .shut with closed := true } else none
  | .returnClose => if g.pc p = .shut then some { g.move p .outside with lock := none } else none

/-! ### What a step does -/

namespace GateAct

/-- Where a step starts. -/
def source : GateAct → GatePc
  | callAcquire | callClose => .outside
  | lockAcquire => .entering
  | refuse | letIn => .testing
  | reply _ => .claiming
  | settle r => .replied r
  | leave outcome => .leaving outcome
  | lockClose => .closing
  | setClosed => .setting
  | returnClose => .shut

/-- Where it ends. -/
def target : GateAct → GatePc
  | callAcquire => .entering
  | lockAcquire => .testing
  | refuse => .leaving none
  | letIn => .claiming
  | reply r => .replied r
  | settle r => .leaving (some r)
  | leave _ | returnClose => .outside
  | callClose => .closing
  | lockClose => .setting
  | setClosed => .shut

def takesLock : GateAct → Bool
  | lockAcquire | lockClose => true
  | _ => false

def freesLock : GateAct → Bool
  | leave _ | returnClose => true
  | _ => false

/-- Whether a step sets the flag. -/
def closes : GateAct → Bool
  | settle r => r ≠ .acquired
  | setClosed => true
  | _ => false

/-- A claim rejected or raised, and `close` returned. -/
def stops : GateAct → Bool
  | reply r => r ≠ .acquired
  | returnClose => true
  | _ => false

theorem inside_iff (a : GateAct) :
    (a.target.inside = true ↔ a.takesLock = true ∨ a.source.inside = true ∧ a.freesLock = false) ∧
      (a.takesLock = true → a.source.inside = false) ∧
      (a.freesLock = true → a.source.inside = true ∧ a.takesLock = false) := by
  cases a <;> simp [source, target, takesLock, freesLock, GatePc.inside]

end GateAct

/-- The step relation of the gate, for runs. -/
def GateStep (g : Gate P) (l : P × GateAct) (g' : Gate P) : Prop := g.step l.1 l.2 = some g'

/-- STEP: everything a step can do. -/
theorem Gate.step_cases {g g' : Gate P} {p : P} {a : GateAct} (h : g.step p a = some g') :
    (g.pc p = a.source ∧ g'.pc = Function.update g.pc p a.target) ∧
      g'.closed = (g.closed || a.closes) ∧
      (g'.lock = if a.takesLock then some p else if a.freesLock then none else g.lock) ∧
      (a.takesLock = true → g.lock = none) ∧ (a = .letIn → g.closed = false) := by
  cases a <;> simp only [Gate.step, Option.ite_none_right_eq_some, Option.some.injEq] at h <;>
    obtain ⟨hguard, rfl⟩ := h <;>
    simp_all [Gate.move, GateAct.source, GateAct.target, GateAct.closes, GateAct.takesLock,
      GateAct.freesLock]

/-- FRAME: the other parties stay where they are. -/
theorem Gate.step_other {g g' : Gate P} {p q : P} {a : GateAct} (h : g.step p a = some g')
    (hne : q ≠ p) : g'.pc q = g.pc q := by
  rw [(step_cases h).1.2, Function.update_of_ne hne]

theorem Gate.step_self {g g' : Gate P} {p : P} {a : GateAct} (h : g.step p a = some g') :
    g.pc p = a.source ∧ g'.pc p = a.target := by
  obtain ⟨⟨hsource, htarget⟩, -⟩ := step_cases h
  exact ⟨hsource, by rw [htarget, Function.update_self]⟩

/-! ### Mutual exclusion -/

/-- INVARIANT: the lock is held by the one party inside, and a `close` about to return has set the
    flag. -/
structure Gate.Sound (g : Gate P) : Prop where
  exclusive : ∀ p, (g.pc p).inside = true ↔ g.lock = some p
  shut : ∀ p, g.pc p = .shut → g.closed = true

omit [DecidableEq P] in
theorem Gate.Sound.init : (Gate.init P).Sound where
  exclusive p := by simp [Gate.init, GatePc.inside]
  shut p h := by simp [Gate.init] at h

theorem exclusive_step {g g' : Gate P} {p : P} {a : GateAct} (h : g.Sound)
    (hstep : g.step p a = some g') (q : P) : (g'.pc q).inside = true ↔ g'.lock = some q := by
  obtain ⟨-, -, hlock, hfree, -⟩ := Gate.step_cases hstep
  obtain ⟨hsource, htarget⟩ := Gate.step_self hstep
  obtain ⟨hinside, htakes, hfrees⟩ := a.inside_iff
  have hp := h.exclusive p
  have hq := h.exclusive q
  rw [hsource] at hp
  rw [hlock]
  by_cases hqp : q = p
  · subst hqp
    rw [htarget, hinside, hp]
    split_ifs with ht hf
    · simp [ht]
    · simp [ht, hf]
    · simp [ht, hf]
  · rw [Gate.step_other hstep hqp, hq]
    split_ifs with ht hf
    · rw [hfree ht]
      simp [Ne.symm hqp]
    · rw [hp.mp (hfrees hf).1]
      simp [Ne.symm hqp]
    · rfl

/-- STEP: the invariant is kept. -/
theorem Gate.Sound.step {g g' : Gate P} {p : P} {a : GateAct} (h : g.Sound)
    (hstep : g.step p a = some g') : g'.Sound where
  exclusive := exclusive_step h hstep
  shut q hq := by
    obtain ⟨-, hclosed, -⟩ := Gate.step_cases hstep
    rw [hclosed]
    by_cases hqp : q = p
    · rw [hqp, (Gate.step_self hstep).2] at hq
      cases a <;> simp_all [GateAct.target, GateAct.closes]
    · rw [Gate.step_other hstep hqp] at hq
      rw [h.shut q hq, Bool.true_or]

/-! ### Closing -/

/-- The flag is set, or the party inside is about to set it. -/
def Gate.Stopped (g : Gate P) : Prop :=
  g.closed = true ∨ ∃ p r, g.pc p = .replied r ∧ r ≠ .acquired

/-- STEP: a rejected claim, a claim that raised and a `close` that returned stop the gate. -/
theorem stopped_of_stops {g g' : Gate P} {p : P} {a : GateAct} (h : g.Sound)
    (hstep : g.step p a = some g') (hstops : a.stops = true) : g'.Stopped := by
  obtain ⟨-, hclosed, -⟩ := Gate.step_cases hstep
  obtain ⟨hsource, htarget⟩ := Gate.step_self hstep
  cases a with
  | reply r =>
    have hr : r ≠ .acquired := by simpa [GateAct.stops] using hstops
    exact .inr ⟨p, r, htarget, hr⟩
  | returnClose => exact .inl (by rw [hclosed, h.shut p hsource, Bool.true_or])
  | _ => cases hstops

/-- STEP: a stopped gate stays so and admits no claim. -/
theorem gate_stopped_step {g g' : Gate P} {p : P} {a : GateAct} (h : g.Sound) (hstopped : g.Stopped)
    (hstep : g.step p a = some g') : g'.Stopped ∧ a ≠ .letIn := by
  obtain ⟨-, hclosed, -, -, hopen⟩ := Gate.step_cases hstep
  obtain ⟨hsource, -⟩ := Gate.step_self hstep
  rcases hstopped with hflag | ⟨q, r, hq, hr⟩
  · refine ⟨.inl (by rw [hclosed, hflag, Bool.true_or]), ?_⟩
    intro hletIn
    rw [hopen hletIn] at hflag
    cases hflag
  · by_cases hqp : q = p
    · subst hqp
      rw [hq] at hsource
      cases a <;> cases hsource
      exact ⟨.inl (by rw [hclosed]; simp [GateAct.closes, hr]), nofun⟩
    · refine ⟨.inr ⟨q, r, by rw [Gate.step_other hstep hqp, hq], hr⟩, ?_⟩
      -- two parties would be inside
      rintro rfl
      have hinq : g.lock = some q := (h.exclusive q).mp (by rw [hq]; rfl)
      have hinp : g.lock = some p := (h.exclusive p).mp (by rw [hsource]; rfl)
      rw [hinq] at hinp
      exact hqp (Option.some.inj hinp)

/-- The step from open to closed. -/
def closesGate (p : Gate P × (P × GateAct)) : Bool := !p.1.closed && p.2.2.closes

variable {τ : List (Gate P × (P × GateAct))} {g : Gate P}

/-- RUN: for any parties in any order, no claim starts after one was rejected or has raised, or
    after a `close` that returned. -/
theorem gate_admits_none_after (h : Run GateStep (Gate.init P) τ g)
    {τ₁ τ₂ : List (Gate P × (P × GateAct))} {p : Gate P × (P × GateAct)}
    (hsplit : τ = τ₁ ++ p :: τ₂) (hp : p.2.2.stops = true) : ∀ q ∈ τ₂, q.2.2 ≠ .letIn := by
  have hmark : ∀ {s : Gate P} {l : P × GateAct} {s' : Gate P}, s.Sound → l.2.stops = true →
      GateStep s l s' → s'.Stopped := fun h hstops hs => stopped_of_stops h hs hstops
  have hkeep : ∀ {s : Gate P} {l : P × GateAct} {s' : Gate P}, s.Sound → s.Stopped →
      GateStep s l s' → s'.Stopped ∧ ¬ l.2 = .letIn := fun h hstopped hs => gate_stopped_step h hstopped hs
  exact (Run.never_after Gate.Sound.init (fun h hs => h.step hs) hmark hkeep h hsplit hp).1

/-- STEP: a closed gate stays closed. -/
theorem closed_step {g g' : Gate P} {p : P} {a : GateAct} (hstep : g.step p a = some g')
    (hclosed : g.closed = true) : g'.closed = true := by
  rw [(Gate.step_cases hstep).2.1, hclosed, Bool.true_or]

/-- RUN: the gate goes from open to closed once, if it is closed at the end. -/
theorem gate_closes_once (h : Run GateStep (Gate.init P) τ g) :
    τ.countP closesGate = if g.closed then 1 else 0 := by
  refine Run.counts (f := fun g => if g.closed then 1 else 0) rfl ?_ h
  rintro s ⟨p, a⟩ s' hs
  obtain ⟨-, hclosed, -⟩ := Gate.step_cases hs
  cases hflag : s.closed <;> cases ha : a.closes <;> simp [closesGate, hclosed, hflag, ha]

end Dpone.Backfill
