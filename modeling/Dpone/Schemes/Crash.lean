import Mathlib.Logic.Function.Basic

/-! Programs that can be killed between two calls of the system.

    A program takes a world and ends with a value, with an exception, or killed; every way to end
    leaves a world. `Ends` says what holds of each of the three: `Q` of a value and its world, `R`
    of an exception and its world, `C` of the world a killed program leaves. -/

namespace Dpone.Schemes.Crash

inductive Outcome (E W α : Type) where
  | done (value : α) (world : W)
  | raised (error : E) (world : W)
  | killed (world : W)
  deriving DecidableEq

def Outcome.world {E W α : Type} : Outcome E W α → W
  | .done _ w => w
  | .raised _ w => w
  | .killed w => w

/-- What holds of a value, of an exception and after a kill. -/
def Outcome.Ends {E W α : Type} (Q : α → W → Prop) (R : E → W → Prop) (C : W → Prop) :
    Outcome E W α → Prop
  | .done a w => Q a w
  | .raised e w => R e w
  | .killed w => C w

def Prog (E W α : Type) := W → Outcome E W α

variable {E W α β : Type}

def Prog.bind (m : Prog E W α) (f : α → Prog E W β) : Prog E W β := fun w =>
  match m w with
  | .done a w => f a w
  | .raised e w => .raised e w
  | .killed w => .killed w

instance : Monad (Prog E W) where
  pure a := fun w => .done a w
  bind := Prog.bind

def raise (e : E) : Prog E W α := fun w => .raised e w

/-- `try: … except`: nothing is handled after a kill. -/
def rescue (m : Prog E W α) (handler : E → Prog E W α) : Prog E W α := fun w =>
  match m w with
  | .done a w => .done a w
  | .raised e w => handler e w
  | .killed w => .killed w

/-! ### Rules -/

variable {Q : α → W → Prop} {R : E → W → Prop} {C : W → Prop} {w : W}

theorem Outcome.Ends.imp {Q' : α → W → Prop} {R' : E → W → Prop} {C' : W → Prop}
    {o : Outcome E W α} (h : o.Ends Q R C) (hQ : ∀ a w, Q a w → Q' a w)
    (hR : ∀ e w, R e w → R' e w) (hC : ∀ w, C w → C' w) : o.Ends Q' R' C' := by
  cases o with
  | done a w => exact hQ a w h
  | raised e w => exact hR e w h
  | killed w => exact hC w h

/-- What holds however a program ends. -/
theorem Outcome.Ends.always {I : W → Prop} {o : Outcome E W α}
    (h : o.Ends (fun _ => I) (fun _ => I) I) : I o.world := by
  cases o <;> exact h

@[simp] theorem pure_ends (a : α) : ((pure a : Prog E W α) w).Ends Q R C ↔ Q a w := Iff.rfl

@[simp] theorem raise_ends (e : E) : ((raise e : Prog E W α) w).Ends Q R C ↔ R e w := Iff.rfl

/-- SEQUENCE: the rest starts in the worlds in which the first part returns. -/
theorem bind_ends {Q : β → W → Prop} {m : Prog E W α} {f : α → Prog E W β} :
    ((m >>= f) w).Ends Q R C ↔ (m w).Ends (fun a w => (f a w).Ends Q R C) R C := by
  change (Prog.bind m f w).Ends Q R C ↔ _
  unfold Prog.bind
  cases m w <;> rfl

/-- HANDLER: it starts in the worlds in which the body raises. -/
theorem rescue_ends {m : Prog E W α} {handler : E → Prog E W α} :
    (rescue m handler w).Ends Q R C ↔ (m w).Ends Q (fun e w => (handler e w).Ends Q R C) C := by
  unfold rescue
  cases m w <;> rfl

theorem bind_done {m : Prog E W α} {f : α → Prog E W β} {a : α} {w' : W} (h : m w = .done a w') :
    (m >>= f) w = f a w' := by
  change Prog.bind m f w = _
  rw [Prog.bind, h]

theorem rescue_done {m : Prog E W α} {handler : E → Prog E W α} {a : α} {w' : W}
    (h : m w = .done a w') : rescue m handler w = .done a w' := by
  rw [rescue, h]

end Dpone.Schemes.Crash
