import Mathlib.Order.Lattice

/-! Time-limited leases on one resource.

    The log of a resource, newest event first, records who was promised what. A slot is what the
    resource itself remembers: its current owner and expiry. `Tracks` ties the two together; every
    operation that respects the slot keeps it, and from it follow mutual exclusion (`exclusive`)
    and that only the owner of the last open grant ever ends a lease (`EndsAreHeld`). -/

namespace Dpone.Schemes

/-- What can happen to the lease of a resource. -/
inductive LeaseEvent (O T : Type) where
  | granted (owner : O) (expiry : T)
  | extended (owner : O) (expiry : T)
  | ended (owner : O)
  | reclaimed
  deriving DecidableEq

namespace LeaseEvent
variable {O T : Type}

/-- The owner of the last grant, unless it has been ended or reclaimed since. -/
def holder : List (LeaseEvent O T) → Option O
  | [] => none
  | .granted o _ :: _ => some o
  | .extended _ _ :: older => holder older
  | .ended _ :: _ => none
  | .reclaimed :: _ => none

/-- `o` was told that its lease lasts until `t`, and has not ended it since. -/
def Promised (o : O) (t : T) : List (LeaseEvent O T) → Prop
  | [] => False
  | .granted o' t' :: older => (o' = o ∧ t' = t) ∨ Promised o t older
  | .extended o' t' :: older => (o' = o ∧ t' = t) ∨ Promised o t older
  | .ended o' :: older => o' ≠ o ∧ Promised o t older
  | .reclaimed :: older => Promised o t older

/-- Every lease was ended by the owner of the grant that was open then. -/
def EndsAreHeld : List (LeaseEvent O T) → Prop
  | [] => True
  | .ended o :: older => holder older = some o ∧ EndsAreHeld older
  | .granted _ _ :: older => EndsAreHeld older
  | .extended _ _ :: older => EndsAreHeld older
  | .reclaimed :: older => EndsAreHeld older

/-- How often the resource was granted. -/
def grants : List (LeaseEvent O T) → ℕ
  | [] => 0
  | .granted _ _ :: older => grants older + 1
  | .extended _ _ :: older => grants older
  | .ended _ :: older => grants older
  | .reclaimed :: older => grants older

/-- How often a lease of the resource was ended by its owner. -/
def ends : List (LeaseEvent O T) → ℕ
  | [] => 0
  | .granted _ _ :: older => ends older
  | .extended _ _ :: older => ends older
  | .ended _ :: older => ends older + 1
  | .reclaimed :: older => ends older

/-- An end takes its grant with it, so an open grant is still to be used up. -/
theorem ends_add_open_le_grants : ∀ (log : List (LeaseEvent O T)), EndsAreHeld log →
    ends log + (holder log).elim 0 (fun _ => 1) ≤ grants log
  | [], _ => by simp [ends, holder, grants]
  | .granted _ _ :: older, h => by
      have ih := ends_add_open_le_grants older h
      simp only [ends, holder, grants, Option.elim]
      omega
  | .extended _ _ :: older, h => ends_add_open_le_grants older h
  | .ended o :: older, h => by
      have ih := ends_add_open_le_grants older h.2
      rw [h.1] at ih
      simpa [ends, holder, grants] using ih
  | .reclaimed :: older, h => by
      have ih := ends_add_open_le_grants older h
      simp only [ends, holder, grants, Option.elim]
      omega

variable [LinearOrder T] {slot : Option (O × T)} {now : T} {log : List (LeaseEvent O T)}

/-- INVARIANT: the slot names the holder, and covers every promise that has not run out. -/
structure Tracks (slot : Option (O × T)) (now : T) (log : List (LeaseEvent O T)) : Prop where
  holder_eq : holder log = slot.map Prod.fst
  covers : ∀ o t, Promised o t log → now < t → ∃ e, slot = some (o, e) ∧ t ≤ e
  held : EndsAreHeld log

namespace Tracks

theorem start (now : T) : Tracks (none : Option (O × T)) now [] :=
  ⟨rfl, fun _ _ h => h.elim, trivial⟩

/-- Time passes. -/
theorem later {now' : T} (h : Tracks slot now log) (hle : now ≤ now') : Tracks slot now' log :=
  ⟨h.holder_eq, fun o t hp ht => h.covers o t hp (hle.trans_lt ht), h.held⟩

/-- STEP: a grant, once the slot is free or run out. -/
theorem grant (h : Tracks slot now log) (hfree : ∀ o e, slot = some (o, e) → e ≤ now)
    (o : O) (e : T) : Tracks (some (o, e)) now (.granted o e :: log) := by
  refine ⟨rfl, fun o' t hp ht => ?_, h.held⟩
  rcases hp with ⟨rfl, rfl⟩ | hp
  · exact ⟨e, rfl, le_rfl⟩
  · obtain ⟨e', hslot, hle⟩ := h.covers o' t hp ht
    exact absurd (ht.trans_le hle) (hfree o' e' hslot).not_gt

/-- STEP: the owner extends its lease; a shorter request is met by the lease it has. -/
theorem extend {o : O} {e : T} (h : Tracks (some (o, e)) now log) (e' : T) :
    Tracks (some (o, max e e')) now (.extended o e' :: log) := by
  refine ⟨h.holder_eq, fun o' t hp ht => ?_, h.held⟩
  rcases hp with ⟨rfl, rfl⟩ | hp
  · exact ⟨_, rfl, le_max_right _ _⟩
  · obtain ⟨e₁, hslot, hle⟩ := h.covers o' t hp ht
    obtain ⟨rfl, rfl⟩ := Prod.mk.inj (Option.some.inj hslot)
    exact ⟨_, rfl, hle.trans (le_max_left _ _)⟩

/-- STEP: the owner ends its lease, run out or not. -/
theorem finish {o : O} {e : T} (h : Tracks (some (o, e)) now log) :
    Tracks none now (.ended o :: log) := by
  refine ⟨rfl, fun o' t hp ht => ?_, h.holder_eq, h.held⟩
  obtain ⟨e₁, hslot, _⟩ := h.covers o' t hp.2 ht
  exact absurd (Prod.mk.inj (Option.some.inj hslot)).1 hp.1

/-- STEP: a lease that has run out is taken back. -/
theorem reclaim {o : O} {e : T} (h : Tracks (some (o, e)) now log) (hrun : e ≤ now) :
    Tracks none now (.reclaimed :: log) := by
  refine ⟨rfl, fun o' t hp ht => ?_, h.held⟩
  obtain ⟨e₁, hslot, hle⟩ := h.covers o' t hp ht
  obtain ⟨rfl, rfl⟩ := Prod.mk.inj (Option.some.inj hslot)
  exact absurd (ht.trans_le hle) hrun.not_gt

/-- CORRECT (mutual exclusion): two owners never hold unexpired promises at one time. -/
theorem exclusive (h : Tracks slot now log) {o o' : O} {t t' : T} (hp : Promised o t log)
    (ht : now < t) (hp' : Promised o' t' log) (ht' : now < t') : o = o' := by
  obtain ⟨e, hslot, _⟩ := h.covers o t hp ht
  obtain ⟨e', hslot', _⟩ := h.covers o' t' hp' ht'
  rw [hslot] at hslot'
  exact (Prod.mk.inj (Option.some.inj hslot')).1

end Tracks

end LeaseEvent

end Dpone.Schemes
