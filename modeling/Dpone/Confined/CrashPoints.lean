import Dpone.Confined.Custody

/-! Calls without another writer and without a failing system call: each is made, or the process
    is killed before it. What such a call does to the directory is known exactly. -/

namespace Dpone.Confined
open Dpone.Schemes Dpone.Schemes.Crash

/-- Nobody installs anything, every call is made, and the process is killed only where `crash`
    allows it. -/
def Steady (crash : Prop) (turns : List Turn) : Prop :=
  ∀ t ∈ turns, t.installs = [] ∧ (t.fate = .made ∨ t.fate = .killed ∧ crash) ∧ 0 < t.written

/-- A steady world with this directory. -/
def At (crash : Prop) (d : Directory) (w : World) : Prop := Steady crash w.turns ∧ w.leaves = d

variable {site : Site} {crash : Prop} {d : Directory} {w : World}

theorem at_next (site : Site) (h : At crash d w) : At crash d (w.next site).2 ∧ (w.next site).1.installs = [] ∧
    ((w.next site).1.fate = .made ∨ (w.next site).1.fate = .killed ∧ crash) ∧
    0 < (w.next site).1.written := by
  obtain ⟨hsteady, hd⟩ := h
  unfold World.next
  cases hturns : w.turns with
  | nil => exact ⟨⟨hsteady, hd⟩, rfl, .inl rfl, (by decide : 0 < 4096)⟩
  | cons t turns =>
    have ht := hsteady t (by simp [hturns])
    refine ⟨?_, ht⟩
    simp only [ht.1, List.foldl_nil]
    exact ⟨fun t' ht' => hsteady t' (by simp [hturns, ht']), hd⟩

/-- CALL RULE: a steady call does what the directory says, or the process is killed before it. -/
theorem syscall_at {α : Type} {effect : Turn → Directory → Except Fault (α × Directory)}
    {Q : α → World → Prop} {R : Fault → World → Prop} {C : World → Prop} (h : At crash d w)
    (hmade : ∀ t a d', 0 < t.written → effect t d = .ok (a, d') → ∀ w, At crash d' w → Q a w)
    (herror : ∀ t e, effect t d = .error e → ∀ w, At crash d w → R e w)
    (hkilled : ∀ w, crash → w.leaves = d → C w) :
    (syscall site effect w).Ends Q R C := by
  obtain ⟨hat, -, hfate, hwritten⟩ := at_next site h
  have hnever : ∀ applied, (w.next site).1.fate ≠ .failed applied := by
    intro applied hfailed
    rcases hfate with hfate | ⟨hfate, -⟩ <;> (rw [hfate] at hfailed; cases hfailed)
  unfold syscall
  dsimp only
  split
  · rename_i hkill
    rcases hfate with hfate | ⟨-, hcrash⟩
    · rw [hfate] at hkill; cases hkill
    · exact hkilled _ hcrash hat.2
  · exact absurd (by assumption) (hnever _)
  · exact absurd (by assumption) (hnever _)
  · rename_i heq
    rw [hat.2] at heq
    exact hmade _ _ _ hwritten heq _ ⟨hat.1, rfl⟩
  · rename_i heq
    rw [hat.2] at heq
    exact herror _ _ heq _ hat

/-! ### What each call does -/

theorem fsync_at (h : At crash d w) : (fsync site w).Ends (fun _ => At crash d)
    (fun _ _ => False) (fun w => crash ∧ w.leaves = d) := by
  refine syscall_at h (fun t a d' _ heq w hw => ?_) (fun t e heq => ?_) fun _ hc hd => ⟨hc, hd⟩
  · cases heq; exact hw
  · cases heq

theorem statLeaf_at {name : Str} {f : LeafFile} (hf : d.leaf name = some f) (h : At crash d w) :
    (statLeaf site name w).Ends (fun identity w => At crash d w ∧ identity = f.identity)
      (fun _ _ => False) (fun w => crash ∧ w.leaves = d) := by
  refine syscall_at h (fun t a d' _ heq w hw => ?_) (fun t e heq => ?_) fun _ hc hd => ⟨hc, hd⟩
  · rw [hf] at heq; cases heq; exact ⟨hw, rfl⟩
  · rw [hf] at heq; cases heq

theorem unlink_at {name : Str} {f : LeafFile} (hf : d.leaf name = some f) (h : At crash d w) :
    (unlink site name w).Ends (fun _ => At crash (d.remove name)) (fun _ _ => False)
      (fun w => crash ∧ w.leaves = d) := by
  refine syscall_at h (fun t a d' _ heq w hw => ?_) (fun t e heq => ?_) fun _ hc hd => ⟨hc, hd⟩
  · rw [hf] at heq; cases heq; exact hw
  · rw [hf] at heq; cases heq

theorem atomicExchange_at {a b : Str} (ha : d.leaf a ≠ none) (hb : d.leaf b ≠ none)
    (h : At crash d w) :
    (atomicExchange site a b w).Ends (fun _ => At crash (d.exchanged a b)) (fun _ _ => False)
      (fun w => crash ∧ w.leaves = d) := by
  have hboth : (d.leaf a).isSome ∧ (d.leaf b).isSome :=
    ⟨Option.isSome_iff_ne_none.mpr ha, Option.isSome_iff_ne_none.mpr hb⟩
  refine syscall_at h (fun t x d' _ heq w hw => ?_) (fun t e heq => ?_) fun _ hc hd => ⟨hc, hd⟩
  · rw [if_pos hboth] at heq; cases heq; exact hw
  · rw [if_pos hboth] at heq; cases heq

/-- A read returns the file, unless it is missing or too large. -/
theorem readConfinedLeaf_at (name : Str) (maxBytes : ℕ) (h : At crash d w) :
    (readConfinedLeaf site name maxBytes w).Ends
      (fun snapshot w => At crash d w ∧ ∃ f, d.leaf name = some f ∧
        f.content.length ≤ maxBytes ∧ snapshot = f.snapshot site)
      (fun e w => At crash d w ∧ ∃ code, e = .confinedFile code ∧
        (code = "file_not_found" ∧ d.leaf name = none ∨
          code = "file_too_large" ∧ ∃ f, d.leaf name = some f ∧ maxBytes < f.content.length))
      (fun w => crash ∧ w.leaves = d) := by
  unfold readConfinedLeaf
  rw [rescue_ends]
  refine syscall_at h (fun t a d' _ heq w hw => ?_) (fun t e heq w hw => ?_)
    fun _ hc hd => ⟨hc, hd⟩
  · split at heq
    · cases heq
    · rename_i f hf
      split_ifs at heq with hsize
      cases heq
      exact ⟨hw, f, hf, Nat.not_lt.mp hsize, rfl⟩
  · split at heq
    · rename_i hf
      cases heq
      exact ⟨hw, _, rfl, .inl ⟨rfl, hf⟩⟩
    · rename_i f hf
      split_ifs at heq with hsize
      cases heq
      exact ⟨hw, _, rfl, .inr ⟨rfl, f, hf, hsize⟩⟩

/-- The identity under the name is the one that was read: the leaf goes. -/
theorem removeSnapshot_at {name : Str} {f : LeafFile} {snapshot : FileSnapshot}
    (hf : d.leaf name = some f) (hsnapshot : snapshot.identity = f.identity)
    (h : At crash d w) :
    (removeSnapshot site name snapshot w).Ends (fun _ => At crash (d.remove name))
      (fun _ _ => False)
      (fun w => crash ∧ (w.leaves = d ∨ w.leaves = d.remove name)) := by
  unfold removeSnapshot found
  rw [bind_ends, rescue_ends, bind_ends]
  refine (statLeaf_at hf h).imp (fun identity w h => ?_) (fun _ _ h => h.elim)
    fun _ h => ⟨h.1, .inl h.2⟩
  obtain ⟨h, rfl⟩ := h
  change (if _ then _ else _ : Call _) w |>.Ends _ _ _
  rw [if_neg (fun hne => hne hsnapshot.symm), bind_ends]
  refine (unlink_at hf h).imp (fun _ w h => ?_) (fun _ _ h => h.elim) fun _ h => ⟨h.1, .inl h.2⟩
  exact (fsync_at h).imp (fun _ _ h => h) (fun _ _ h => h.elim) fun _ h => ⟨h.1, .inr h.2⟩

theorem removeTransactionJournal_at (journal : JournalFile) {f : LeafFile}
    (hf : d.leaf journal.name = some f) (hidentity : journal.identity = f.identity)
    (h : At crash d w) :
    (removeTransactionJournal site journal w).Ends (fun _ => At crash (d.remove journal.name))
      (fun _ _ => False)
      (fun w => crash ∧ (w.leaves = d ∨ w.leaves = d.remove journal.name)) := by
  unfold removeTransactionJournal found
  rw [bind_ends, rescue_ends, bind_ends]
  refine (statLeaf_at hf h).imp (fun identity w h => ?_) (fun _ _ h => h.elim)
    fun _ h => ⟨h.1, .inl h.2⟩
  obtain ⟨h, rfl⟩ := h
  change (if _ then _ else _ : Call _) w |>.Ends _ _ _
  rw [if_neg (fun hne => hne hidentity.symm), rescue_ends, bind_ends]
  refine (unlink_at hf h).imp (fun _ w h => ?_) (fun _ _ h => h.elim) fun _ h => ⟨h.1, .inl h.2⟩
  unfold fsyncDirectory
  rw [rescue_ends]
  exact (fsync_at h).imp (fun _ _ h => h) (fun _ _ h => h.elim) fun _ h => ⟨h.1, .inr h.2⟩

end Dpone.Confined
