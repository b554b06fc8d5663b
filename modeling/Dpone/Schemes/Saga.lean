import Mathlib.Order.Basic

/-! Sequential programs whose external calls may fail, and whose process may stop at any of them.

    A program takes a world to a world and returns, raises or stops. Exceptions can be handled and
    run `finally` blocks; a stop cannot, and runs nothing. `Triple` is total correctness over the
    three endings: one condition for a return, one for both other endings, which is where a restart
    will find the world. `Always` is the rule for facts that need no precondition: a transitive
    relation between the world before and the world after, whatever the ending. -/

namespace Dpone.Schemes

/-- How a program ends. -/
inductive Outcome (ε α : Type) where
  | returned (a : α)
  | raised (e : ε)
  | stopped
  deriving DecidableEq, Repr

def Program (σ ε α : Type) := σ → Outcome ε α × σ

namespace Program
variable {σ ε α β : Type}

def ret (a : α) : Program σ ε α := fun s => (.returned a, s)

def raise (e : ε) : Program σ ε α := fun s => (.raised e, s)

def seq (x : Program σ ε α) (f : α → Program σ ε β) : Program σ ε β := fun s =>
  match x s with
  | (.returned a, s) => f a s
  | (.raised e, s) => (.raised e, s)
  | (.stopped, s) => (.stopped, s)

instance : Monad (Program σ ε) where
  pure := ret
  bind := seq

theorem bind_apply (x : Program σ ε α) (f : α → Program σ ε β) (s : σ) :
    (x >>= f) s = match x s with
      | (.returned a, s) => f a s
      | (.raised e, s) => (.raised e, s)
      | (.stopped, s) => (.stopped, s) := rfl

/-- A sequence returns only if its first program does. -/
theorem returned_of_bind {x : Program σ ε α} {f : α → Program σ ε β} {s s' : σ} {b : β}
    (h : (x >>= f) s = (.returned b, s')) :
    ∃ a s₁, x s = (.returned a, s₁) ∧ f a s₁ = (.returned b, s') := by
  rw [bind_apply] at h
  rcases hx : x s with ⟨a | e | _, s₁⟩ <;> rw [hx] at h
  · exact ⟨a, s₁, rfl, h⟩
  · cases h
  · cases h

theorem seq_ret (x : Program σ ε α) : seq x ret = x := by
  funext s
  unfold seq ret
  rcases x s with ⟨_ | _ | _, _⟩ <;> rfl

theorem seq_assoc (x : Program σ ε α) (f : α → Program σ ε β) {γ : Type}
    (g : β → Program σ ε γ) : seq (seq x f) g = seq x fun a => seq (f a) g := by
  funext s
  unfold seq
  rcases x s with ⟨_ | _ | _, _⟩ <;> rfl

instance : LawfulMonad (Program σ ε) :=
  LawfulMonad.mk' _ (fun x => seq_ret x) (fun _ _ => rfl) (fun x f g => seq_assoc x f g)

def modify (f : σ → σ) : Program σ ε Unit := fun s => (.returned (), f s)

def read (f : σ → α) : Program σ ε α := fun s => (.returned (f s), s)

/-- `if p: raise e`. -/
def raiseWhen (p : Prop) [Decidable p] (e : ε) : Program σ ε Unit :=
  if p then raise e else ret ()

/-- `try: x; except Exception: handler`. -/
def exceptDo (x : Program σ ε α) (handler : ε → Program σ ε α) : Program σ ε α := fun s =>
  match x s with
  | (.raised e, s) => handler e s
  | r => r

/-- `try: x; finally: cleanup`. A primary exception outlives one raised by the cleanup. -/
def finallyDo (x : Program σ ε α) (cleanup : Program σ ε Unit) : Program σ ε α := fun s =>
  match x s with
  | (.stopped, s) => (.stopped, s)
  | (.raised e, s) =>
    match cleanup s with
    | (.stopped, s) => (.stopped, s)
    | (_, s) => (.raised e, s)
  | (.returned a, s) =>
    match cleanup s with
    | (.returned _, s) => (.returned a, s)
    | (.raised e, s) => (.raised e, s)
    | (.stopped, s) => (.stopped, s)

/-- How the environment answers a call. -/
inductive Answer (ε α : Type) where
  | returns (a : α)
  | raises (e : ε)
  | stops

/-- A call: a return leaves the world `done`, any other ending leaves it `failed`. -/
def ask (answer : Answer ε α) (done failed : σ → σ) : Program σ ε α := fun s =>
  match answer with
  | .returns a => (.returned a, done s)
  | .raises e => (.raised e, failed s)
  | .stops => (.stopped, failed s)

/-- How a call raises: an `Exception`, or another `BaseException`. -/
inductive Raised where
  | exception
  | interrupt
  deriving DecidableEq, Repr

/-- A call to an environment that answers the calls by their number. -/
def answered (number : σ → ℕ) (next : σ → σ) (replies : ℕ → Except ε α) : Program σ ε α := fun s =>
  match replies (number s) with
  | .ok a => (.returned a, next s)
  | .error e => (.raised e, next s)

/-! ### What every ending keeps -/

/-- However `x` ends, the world before and the world after are related. -/
def Always (R : σ → σ → Prop) (x : Program σ ε α) : Prop := ∀ s, R s (x s).2

section Always
variable {R : σ → σ → Prop}

theorem Always.bind [IsTrans σ R] {x : Program σ ε α} {f : α → Program σ ε β} (hx : Always R x)
    (hf : ∀ a, Always R (f a)) : Always R (x >>= f) := by
  intro s
  have h := hx s
  rw [bind_apply]
  rcases hxs : x s with ⟨a | e | _, s'⟩ <;> rw [hxs] at h
  · exact Trans.trans h (hf a s')
  · exact h
  · exact h

theorem Always.pure [Std.Refl R] {a : α} : Always R (Pure.pure a : Program σ ε α) :=
  fun s => Std.Refl.refl s

theorem Always.raise [Std.Refl R] {e : ε} : Always R (raise e : Program σ ε α) :=
  fun s => Std.Refl.refl s

/-- What the rest of a program keeps, measured from where it starts. -/
theorem Always.after [Std.Refl R] {x : Program σ ε α} {f : α → Program σ ε β}
    (hf : ∀ a, Always R (f a)) (s : σ) : R (x s).2 ((x >>= f) s).2 := by
  rw [bind_apply]
  rcases x s with ⟨a | e | _, s'⟩
  · exact hf a s'
  · exact Std.Refl.refl s'
  · exact Std.Refl.refl s'

theorem Always.mono {R' : σ → σ → Prop} {x : Program σ ε α} (h : Always R x)
    (hR : ∀ {s s'}, R s s' → R' s s') : Always R' x :=
  fun s => hR (h s)

theorem Always.ask {answer : Answer ε α} {done failed : σ → σ} (hd : ∀ s, R s (done s))
    (hf : ∀ s, R s (failed s)) : Always R (ask answer done failed) := by
  intro s
  cases answer
  · exact hd s
  · exact hf s
  · exact hf s

theorem Always.ite {p : Prop} [Decidable p] {x y : Program σ ε α} (hx : Always R x)
    (hy : Always R y) : Always R (if p then x else y) := by
  split
  · exact hx
  · exact hy

end Always

/-! ### Pre- and postconditions -/

/-- From `P`, a return reaches `Q` and every other ending reaches `E`. -/
def Triple (P : σ → Prop) (x : Program σ ε α) (Q : α → σ → Prop) (E : σ → Prop) : Prop :=
  ∀ s, P s → match x s with
    | (.returned a, s') => Q a s'
    | (_, s') => E s'

variable {P P' : σ → Prop} {Q Q' : α → σ → Prop} {R : β → σ → Prop} {E E' : σ → Prop}

theorem Triple.pure {a : α} (h : ∀ s, P s → Q a s) : Triple P (Pure.pure a : Program σ ε α) Q E :=
  h

theorem Triple.raise {e : ε} (h : ∀ s, P s → E s) : Triple P (raise e : Program σ ε α) Q E := h

theorem Triple.bind {x : Program σ ε α} {f : α → Program σ ε β} (hx : Triple P x Q E)
    (hf : ∀ a, Triple (Q a) (f a) R E) : Triple P (x >>= f) R E := by
  intro s hs
  have h := hx s hs
  change match seq x f s with | (.returned a, s') => R a s' | (_, s') => E s'
  unfold seq
  cases hxs : x s with
  | mk o s' =>
    rw [hxs] at h
    cases o with
    | returned a => exact hf a s' h
    | raised e => exact h
    | stopped => exact h

theorem Triple.modify {f : σ → σ} {Q : Unit → σ → Prop} (h : ∀ s, P s → Q () (f s)) :
    Triple P (modify f : Program σ ε Unit) Q E := h

theorem Triple.read {f : σ → α} (h : ∀ s, P s → Q (f s) s) :
    Triple P (read f : Program σ ε α) Q E := h

theorem Triple.weaken {x : Program σ ε α} (h : Triple P x Q E) (hP : ∀ s, P' s → P s)
    (hQ : ∀ a s, Q a s → Q' a s) (hE : ∀ s, E s → E' s) : Triple P' x Q' E' := by
  intro s hs
  have := h s (hP s hs)
  cases hx : x s with
  | mk o s' =>
    rw [hx] at this
    cases o with
    | returned a => exact hQ a s' this
    | raised e => exact hE s' this
    | stopped => exact hE s' this

theorem Triple.of_always {R : σ → σ → Prop} {x : Program σ ε α} (h : Always R x) (u : σ) :
    Triple (· = u) x (fun _ => R u) (R u) := by
  rintro s rfl
  have := h s
  rcases hx : x s with ⟨a | e | _, s'⟩ <;> rw [hx] at this <;> exact this

theorem Triple.of_forall {x : Program σ ε α} (h : ∀ u, P u → Triple (· = u) x Q E) :
    Triple P x Q E :=
  fun s hs => h s hs s rfl

/-- A fact that is not about the world. -/
theorem Triple.of_fact {p : Prop} {x : Program σ ε α} (h : p → Triple P x Q E) :
    Triple (fun s => p ∧ P s) x Q E :=
  fun s hs => h hs.1 s hs.2

theorem Triple.raiseWhen {p : Prop} [Decidable p] {e : ε} {Q : Unit → σ → Prop}
    (hp : ∀ s, P s → p → E s) (hn : ∀ s, P s → ¬ p → Q () s) :
    Triple P (raiseWhen p e) Q E := by
  intro s hs
  unfold Program.raiseWhen
  by_cases h : p
  · rw [if_pos h]; exact hp s hs h
  · rw [if_neg h]; exact hn s hs h

theorem Triple.ask {answer : Answer ε α} {done failed : σ → σ}
    (hd : ∀ a s, answer = .returns a → P s → Q a (done s)) (hf : ∀ s, P s → E (failed s)) :
    Triple P (ask answer done failed) Q E := by
  intro s hs
  cases answer
  · exact hd _ s rfl hs
  · exact hf s hs
  · exact hf s hs

theorem Triple.ite {p : Prop} [Decidable p] {x y : Program σ ε α} (hx : p → Triple P x Q E)
    (hy : ¬ p → Triple P y Q E) : Triple P (if p then x else y) Q E := by
  split
  · exact hx ‹_›
  · exact hy ‹_›

/-- An answered call: the postconditions know the answer. -/
theorem Triple.answered {number : σ → ℕ} {next : σ → σ} {replies : ℕ → Except ε α}
    (hQ : ∀ a s, replies (number s) = .ok a → P s → Q a (next s))
    (hE : ∀ e s, replies (number s) = .error e → P s → E (next s)) :
    Triple P (answered number next replies) Q E := by
  intro s hs
  unfold Program.answered
  cases hreply : replies (number s) with
  | ok a => exact hQ a s hreply hs
  | error e => exact hE e s hreply hs

/-- A handler starts where the exception left the world; a stop passes it by. -/
theorem Triple.exceptFrom {F : σ → Prop} {x : Program σ ε α} {handler : ε → Program σ ε α}
    (hx : Triple P x Q F) (hstop : ∀ s, F s → E s) (hh : ∀ e, Triple F (handler e) Q E) :
    Triple P (Program.exceptDo x handler) Q E := by
  intro s hs
  have h := hx s hs
  unfold Program.exceptDo
  cases hxs : x s with
  | mk o s' =>
    rw [hxs] at h
    cases o with
    | returned a => exact h
    | raised e => exact hh e s' h
    | stopped => exact hstop s' h

/-- A program whose process does not stop in it. -/
def Unstopped (x : Program σ ε α) : Prop := ∀ s, (x s).1 ≠ .stopped

section Unstopped

theorem Unstopped.pure {a : α} : Unstopped (Pure.pure a : Program σ ε α) := fun _ h => nomatch h

theorem Unstopped.raise {e : ε} : Unstopped (raise e : Program σ ε α) := fun _ h => nomatch h

theorem Unstopped.modify {f : σ → σ} : Unstopped (modify f : Program σ ε Unit) :=
  fun _ h => nomatch h

theorem Unstopped.answered {number : σ → ℕ} {next : σ → σ} {replies : ℕ → Except ε α} :
    Unstopped (answered number next replies) := by
  intro s
  unfold Program.answered
  cases replies (number s) <;> simp

theorem Unstopped.bind {x : Program σ ε α} {f : α → Program σ ε β} (hx : Unstopped x)
    (hf : ∀ a, Unstopped (f a)) : Unstopped (x >>= f) := by
  intro s
  have h := hx s
  rw [bind_apply]
  rcases hxs : x s with ⟨a | e | _, s'⟩ <;> rw [hxs] at h
  · exact hf a s'
  · simp
  · exact absurd rfl h

theorem Unstopped.ite {p : Prop} [Decidable p] {x y : Program σ ε α} (hx : Unstopped x)
    (hy : Unstopped y) : Unstopped (if p then x else y) := by
  split
  · exact hx
  · exact hy

end Unstopped

/-- A handler of a program that does not stop has to restore nothing else. -/
theorem Triple.exceptUnstopped {x : Program σ ε α} {handler : ε → Program σ ε α}
    (hx : Triple P x Q E') (hlive : Unstopped x) (hh : ∀ e, Triple E' (handler e) Q E) :
    Triple P (Program.exceptDo x handler) Q E := by
  intro s hs
  have h := hx s hs
  have hs' := hlive s
  unfold Program.exceptDo
  rcases hxs : x s with ⟨a | e | _, s'⟩ <;> rw [hxs] at h hs'
  · exact h
  · exact hh e s' h
  · exact absurd rfl hs'

theorem Triple.exceptDo {x : Program σ ε α} {handler : ε → Program σ ε α} (hx : Triple P x Q E)
    (hh : ∀ e, Triple E (handler e) Q E) : Triple P (exceptDo x handler) Q E :=
  Triple.exceptFrom hx (fun _ h => h) hh

/-- A cleanup that keeps both conditions does not disturb what it follows. -/
theorem Triple.finallyDo {x : Program σ ε α} {cleanup : Program σ ε Unit} (hx : Triple P x Q E)
    (hQ : ∀ a, Triple (Q a) cleanup (fun _ => Q a) E) (hE : Triple E cleanup (fun _ => E) E) :
    Triple P (finallyDo x cleanup) Q E := by
  intro s hs
  have h := hx s hs
  unfold Program.finallyDo
  cases hxs : x s with
  | mk o s' =>
    rw [hxs] at h
    cases o with
    | stopped => exact h
    | returned a =>
      have hc := hQ a s' h
      cases hcs : cleanup s' with
      | mk o' s'' => rw [hcs] at hc; cases o' <;> simpa [hcs] using hc
    | raised e =>
      have hc := hE s' h
      cases hcs : cleanup s' with
      | mk o' s'' => rw [hcs] at hc; cases o' <;> simpa [hcs] using hc

/-- RUN RULE: a condition that every execution keeps, however it ends, holds after any sequence of
    executions. -/
theorem Triple.runs {ι : Type} {x : ι → Program σ ε α} (h : ∀ i, Triple P (x i) (fun _ => P) P) :
    ∀ (is : List ι) (s : σ), P s → P (is.foldl (fun s i => (x i s).2) s)
  | [], _, hs => hs
  | i :: is, s, hs => by
      refine Triple.runs h is (x i s).2 ?_
      have hi := h i s hs
      cases hx : x i s with
      | mk o s' => rw [hx] at hi; cases o <;> exact hi

end Program

end Dpone.Schemes
