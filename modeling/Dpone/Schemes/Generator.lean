import Mathlib.Logic.Function.Basic

/-! Generators: what is yielded until the end, and the value or the exception they end with. -/

namespace Dpone.Schemes

structure Generator (Y E α : Type) where
  yielded : List Y
  ends : Except E α

namespace Generator
variable {Y E α β : Type}

@[ext] theorem ext {m m' : Generator Y E α} (hyielded : m.yielded = m'.yielded)
    (hends : m.ends = m'.ends) : m = m' := by
  cases m
  cases m'
  simp_all

/-- Nothing is yielded after an exception. -/
def bind (m : Generator Y E α) (f : α → Generator Y E β) : Generator Y E β :=
  match m.ends with
  | .ok a => ⟨m.yielded ++ (f a).yielded, (f a).ends⟩
  | .error e => ⟨m.yielded, .error e⟩

instance : Monad (Generator Y E) where
  pure a := ⟨[], .ok a⟩
  bind := Generator.bind

/-- `yield y`. -/
def emit (y : Y) : Generator Y E Unit := ⟨[y], .ok ()⟩

def raise (e : E) : Generator Y E α := ⟨[], .error e⟩

/-- A call that yields nothing. -/
def ofExcept (r : Except E α) : Generator Y E α := ⟨[], r⟩

theorem pure_eq (a : α) : (pure a : Generator Y E α) = ⟨[], .ok a⟩ := rfl

/-- SEQUENCE: the rest is yielded after what came before it. -/
@[simp] theorem bind_ok (ys : List Y) (a : α) (f : α → Generator Y E β) :
    ((⟨ys, .ok a⟩ : Generator Y E α) >>= f) = ⟨ys ++ (f a).yielded, (f a).ends⟩ := rfl

@[simp] theorem bind_error (ys : List Y) (e : E) (f : α → Generator Y E β) :
    ((⟨ys, .error e⟩ : Generator Y E α) >>= f) = ⟨ys, .error e⟩ := rfl

@[simp] theorem ofExcept_bind (a : α) (f : α → Generator Y E β) :
    (ofExcept (.ok a) >>= f) = f a := rfl

@[simp] theorem emit_bind (y : Y) (f : Unit → Generator Y E β) :
    (emit y >>= f) = ⟨y :: (f ()).yielded, (f ()).ends⟩ := rfl

theorem bind_assoc {γ : Type} (m : Generator Y E α) (f : α → Generator Y E β)
    (g : β → Generator Y E γ) : m >>= f >>= g = m >>= fun a => f a >>= g := by
  rcases m with ⟨ys, e | a⟩
  · rfl
  · simp only [bind_ok]
    rcases f a with ⟨zs, e | b⟩
    · rfl
    · simp only [bind_ok, List.append_assoc]

theorem id_map (m : Generator Y E α) : id <$> m = m := by
  rcases m with ⟨ys, e | a⟩
  · rfl
  · simp [Functor.map, Generator.bind]

instance : LawfulMonad (Generator Y E) :=
  LawfulMonad.mk' (Generator Y E) id_map (fun _ _ => rfl) bind_assoc

end Generator
end Dpone.Schemes
