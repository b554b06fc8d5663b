import Dpone.Confined.Mutations

/-! No call loses what another writer installed.

    `Kept` says of a world that every installed file that no later writer replaced is still in the
    directory, unless some journal names its digest. It holds across every system call: names only
    move, and a leaf is unlinked only where `Free` says that its file is not owed. The rules below
    hold for every schedule, whatever is installed in between. -/

namespace Dpone.Confined
open Dpone.Schemes Dpone.Schemes.Crash

variable (site : Site)

/-! ### What is kept -/

/-- Unlinking the leaf loses nothing: its file is not owed, or a journal names its digest. -/
def Free (d : Directory) (owed : List LeafFile) (named : List Str) (name : Str) : Prop :=
  ∀ f, d.leaf name = some f → f ∈ owed → site.sha256 f.content ∈ named

structure Kept (d : Directory) (owed : List LeafFile) (named : List Str) : Prop where
  /-- Live files have different inode numbers. -/
  distinct : ∀ m n f g, d.leaf m = some f → d.leaf n = some g → f.inode = g.inode → m = n
  present : ∀ f ∈ owed, site.sha256 f.content ∈ named ∨ ∃ n, d.leaf n = some f
  journalFree : Free site d owed named (journalName site.target)
  journalNamed : ∀ f record, d.leaf (journalName site.target) = some f →
    decode f.content site.target = .ok record →
    record.expectedSha256 ∈ named ∧ record.desiredSha256 ∈ named

theorem journalName_ne (target : Str) : journalName target ≠ target := by
  intro h
  have := congrArg List.length h
  simp [journalName] at this
  omega

section Moves
variable {site} {d : Directory} {owed : List LeafFile} {named : List Str}

/-- INVARIANT: another writer installs a file under the target name. -/
theorem Kept.install {w : World} (h : Kept site w.leaves w.owed w.named) (file : ℕ × Str) :
    Kept site (w.install site file).leaves (w.install site file).owed
      (w.install site file).named := by
  have hfresh := fun n f (hf : w.leaves.leaf n = some f) =>
    Directory.freshInode_free (d := w.leaves) file.1 hf
  have hjournal : (w.install site file).leaves.leaf (journalName site.target) =
      w.leaves.leaf (journalName site.target) := by
    simp [World.install, Directory.leaf_put, journalName_ne]
  refine ⟨?_, ?_, ?_, ?_⟩
  · intro m n f g hf hg heq
    simp only [World.install, Directory.leaf_put] at hf hg
    split_ifs at hf hg with hm hn hn
    · exact hm.trans hn.symm
    · cases hf; exact absurd heq.symm (hfresh n g hg)
    · cases hg; exact absurd heq (hfresh m f hf)
    · exact h.distinct m n f g hf hg heq
  · intro f hf
    simp only [World.install, Directory.leaf_put, List.mem_cons, List.mem_filter,
      decide_eq_true_eq] at hf ⊢
    rcases hf with rfl | ⟨hf, htarget⟩
    · exact .inr ⟨site.target, if_pos rfl⟩
    · refine (h.present f hf).imp id fun ⟨n, hn⟩ => ⟨n, ?_⟩
      rw [if_neg, hn]
      rintro rfl
      exact htarget hn
  · intro f hf howed
    rw [hjournal] at hf
    simp only [World.install, List.mem_cons, List.mem_filter] at howed
    rcases howed with rfl | ⟨howed, -⟩
    · exact absurd rfl (hfresh _ _ hf)
    · exact h.journalFree f hf howed
  · intro f record hf
    rw [hjournal] at hf
    exact h.journalNamed f record hf

/-- INVARIANT: an exchange of two names other than the journal's. -/
theorem Kept.exchanged (h : Kept site d owed named) {a b : Str} (ha : journalName site.target ≠ a)
    (hb : journalName site.target ≠ b) : Kept site (d.exchanged a b) owed named := by
  have hjournal : (d.exchanged a b).leaf (journalName site.target) =
      d.leaf (journalName site.target) := by
    rw [Directory.leaf_exchanged, Directory.swapped, if_neg ha, if_neg hb]
  refine ⟨?_, ?_, ?_, ?_⟩
  · intro m n f g hf hg heq
    rw [Directory.leaf_exchanged] at hf hg
    have := h.distinct _ _ f g hf hg heq
    rw [← Directory.swapped_swapped a b m, this, Directory.swapped_swapped]
  · intro f hf
    refine (h.present f hf).imp id fun ⟨n, hn⟩ => ⟨Directory.swapped a b n, ?_⟩
    rw [Directory.leaf_exchanged, Directory.swapped_swapped, hn]
  · intro f hf
    rw [hjournal] at hf
    exact h.journalFree f hf
  · intro f record hf
    rw [hjournal] at hf
    exact h.journalNamed f record hf

/-- INVARIANT: the removal of a leaf that is free. -/
theorem Kept.remove (h : Kept site d owed named) {name : Str} (hfree : Free site d owed named name) :
    Kept site (d.remove name) owed named := by
  have hleaf : ∀ n f, (d.remove name).leaf n = some f → d.leaf n = some f := by
    intro n f hf
    rw [Directory.leaf_remove] at hf
    split_ifs at hf with hn
    exact hf
  refine ⟨fun m n f g hf hg => h.distinct m n f g (hleaf m f hf) (hleaf n g hg), ?_,
    fun f hf => h.journalFree f (hleaf _ f hf), fun f r hf => h.journalNamed f r (hleaf _ f hf)⟩
  intro f hf
  rcases h.present f hf with hnamed | ⟨n, hn⟩
  · exact .inl hnamed
  · by_cases hname : n = name
    · exact .inl (hfree f (hname ▸ hn) hf)
    · exact .inr ⟨n, by rw [Directory.leaf_remove, if_neg hname, hn]⟩

/-- A new file, under a name that was free, is not owed unless a journal names its digest. -/
theorem Kept.free_put (h : Kept site d owed named) {name : Str} {file : LeafFile}
    (hinode : ∀ n f, d.leaf n = some f → n ≠ name → f.inode ≠ file.inode)
    (hold : Free site d owed named name) : Free site (d.put name file) owed named name := by
  intro f hf howed
  rw [Directory.leaf_put, if_pos rfl] at hf
  obtain rfl := Option.some.inj hf
  rcases h.present _ howed with hnamed | ⟨n, hn⟩
  · exact hnamed
  · by_cases hname : n = name
    · exact hold _ (hname ▸ hn) howed
    · exact absurd rfl (hinode n _ hn hname)

/-- INVARIANT: a leaf of the process gets a new file, or its file new bytes. -/
theorem Kept.put (h : Kept site d owed named) {name : Str} {file : LeafFile}
    (hinode : ∀ n f, d.leaf n = some f → n ≠ name → f.inode ≠ file.inode)
    (hfree : Free site d owed named name)
    (hjournal : name = journalName site.target → ∀ record,
      decode file.content site.target = .ok record →
      record.expectedSha256 ∈ named ∧ record.desiredSha256 ∈ named) :
    Kept site (d.put name file) owed named := by
  refine ⟨?_, ?_, ?_, ?_⟩
  · intro m n f g hf hg heq
    rw [Directory.leaf_put] at hf hg
    split_ifs at hf hg with hm hn hn
    · exact hm.trans hn.symm
    · cases hf; exact absurd heq.symm (hinode n g hg hn)
    · cases hg; exact absurd heq (hinode m f hf hm)
    · exact h.distinct m n f g hf hg heq
  · intro f hf
    rcases h.present f hf with hnamed | ⟨n, hn⟩
    · exact .inl hnamed
    · by_cases hname : n = name
      · exact .inl (hfree f (hname ▸ hn) hf)
      · exact .inr ⟨n, by rw [Directory.leaf_put, if_neg hname, hn]⟩
  · by_cases hname : journalName site.target = name
    · rw [hname]
      exact h.free_put hinode hfree
    · intro f hf
      rw [Directory.leaf_put, if_neg hname] at hf
      exact h.journalFree f hf
  · intro f record hf
    rw [Directory.leaf_put] at hf
    split_ifs at hf with hname
    · obtain rfl := Option.some.inj hf
      exact hjournal hname.symm record
    · exact h.journalNamed f record hf

/-- More named digests release more, never less. -/
theorem Kept.noted (h : Kept site d owed named) (digests : List Str) :
    Kept site d owed (digests ++ named) := by
  refine ⟨h.distinct, fun f hf => (h.present f hf).imp (List.mem_append_right _) id,
    fun f hf howed => List.mem_append_right _ (h.journalFree f hf howed), fun f r hf hr => ?_⟩
  exact (h.journalNamed f r hf hr).imp (List.mem_append_right _) (List.mem_append_right _)

end Moves

/-! ### Calls -/

/-- What neither an install nor the passing of a turn ends. -/
structure Stable (P : World → Prop) : Prop where
  install : ∀ w file, P w → P (w.install site file)
  turns : ∀ w turns, P w → P { w with turns }

variable {site} {P : World → Prop} {w : World}

theorem Stable.next (hP : Stable site P) (h : P w) : P (w.next site).2 := by
  have hinstalls : ∀ (files : List (ℕ × Str)) w, P w → P (files.foldl (World.install site) w) := by
    intro files
    induction files with
    | nil => exact fun w h => h
    | cons file files ih => exact fun w h => ih _ (hP.install w file h)
  unfold World.next
  split
  · exact h
  · exact hinstalls _ _ (hP.turns _ _ h)

theorem Stable.and {P' : World → Prop} (hP : Stable site P) (hP' : Stable site P') :
    Stable site fun w => P w ∧ P' w :=
  ⟨fun w file h => ⟨hP.install w file h.1, hP'.install w file h.2⟩,
    fun w turns h => ⟨hP.turns w turns h.1, hP'.turns w turns h.2⟩⟩

theorem Stable.or {P' : World → Prop} (hP : Stable site P) (hP' : Stable site P') :
    Stable site fun w => P w ∨ P' w :=
  ⟨fun w file h => h.imp (hP.install w file) (hP'.install w file),
    fun w turns h => h.imp (hP.turns w turns) (hP'.turns w turns)⟩

/-- CALL RULE: what holds before a call holds at its turn; then the call is made, or not. -/
theorem syscall_ends {α : Type} {effect : Turn → Directory → Except Fault (α × Directory)}
    {Q : α → World → Prop} {R : World → Prop} (hP : Stable site P) (h : P w)
    (hstay : ∀ w, P w → R w)
    (hmade : ∀ t w a d, P w → effect t w.leaves = .ok (a, d) →
      Q a { w with leaves := d } ∧ R { w with leaves := d }) :
    (syscall site effect w).Ends Q (fun _ => R) P := by
  have hnext := hP.next h
  unfold syscall
  dsimp only
  split
  · exact hnext
  · rename_i heq; exact (hmade _ _ _ _ hnext heq).2
  · exact hstay _ hnext
  · rename_i heq; exact (hmade _ _ _ _ hnext heq).1
  · exact hstay _ hnext

/-- The call keeps `P`, however it ends. -/
def Keeps {α : Type} (P : World → Prop) (m : Call α) : Prop :=
  ∀ w, P w → (m w).Ends (fun _ => P) (fun _ => P) P

theorem pure_keeps {α : Type} (a : α) : Keeps P (pure a) := fun _ h => h

theorem raise_keeps {α : Type} (e : Fault) : Keeps P (raise e : Call α) := fun _ h => h

theorem bind_keeps {α β : Type} {m : Call α} {f : α → Call β}
    (h : (m w).Ends (fun _ => P) (fun _ => P) P) (hf : ∀ a, Keeps P (f a)) :
    ((m >>= f) w).Ends (fun _ => P) (fun _ => P) P :=
  bind_ends.mpr (h.imp (fun a w h => hf a w h) (fun _ _ h => h) fun _ h => h)

theorem rescue_keeps {α : Type} {m : Call α} {handler : Fault → Call α}
    (h : (m w).Ends (fun _ => P) (fun _ => P) P) (hhandler : ∀ e, Keeps P (handler e)) :
    (rescue m handler w).Ends (fun _ => P) (fun _ => P) P :=
  rescue_ends.mpr (h.imp (fun _ _ h => h) (fun e w h => hhandler e w h) fun _ h => h)

theorem fsync_keeps (hP : Stable site P) : Keeps P (fsync site) := fun _ h =>
  syscall_ends hP h (fun _ h => h) fun _ _ _ _ h heq => by cases heq; exact ⟨h, h⟩

/-- What a stat returns is read off the leaf. -/
theorem statLeaf_ends (hP : Stable site P) (h : P w) (name : Str) :
    (statLeaf site name w).Ends
      (fun identity w => P w ∧ ∃ f, w.leaves.leaf name = some f ∧ identity = f.identity)
      (fun _ => P) P := by
  refine syscall_ends hP h (fun _ h => h) fun t w a d h heq => ?_
  split at heq
  · cases heq
  · rename_i f hf
    cases heq
    exact ⟨⟨h, f, hf, rfl⟩, h⟩

theorem readConfinedLeaf_ends (hP : Stable site P) (h : P w) (name : Str) (maxBytes : ℕ) :
    (readConfinedLeaf site name maxBytes w).Ends
      (fun snapshot w => P w ∧ ∃ f, w.leaves.leaf name = some f ∧ snapshot = f.snapshot site)
      (fun _ => P) P := by
  unfold readConfinedLeaf
  rw [rescue_ends]
  refine (syscall_ends (R := P) hP h (fun _ h => h) (Q := fun snapshot w => P w ∧
    ∃ f, w.leaves.leaf name = some f ∧ snapshot = f.snapshot site)
    fun t w a d h heq => ?_).imp (fun _ _ h => h) (fun e w h => ?_) fun _ h => h
  · split at heq
    · cases heq
    · rename_i f hf
      split_ifs at heq
      cases heq
      exact ⟨⟨h, f, hf, rfl⟩, h⟩
  · cases e <;> exact h

theorem unlink_ends {P' : World → Prop} (hP : Stable site P) (h : P w) {name : Str}
    (hstay : ∀ w, P w → P' w)
    (hgone : ∀ w, P w → P' { w with leaves := w.leaves.remove name }) :
    (unlink site name w).Ends (fun _ => P') (fun _ => P') P := by
  refine syscall_ends hP h hstay fun t w a d h heq => ?_
  split at heq
  · cases heq
  · cases heq
    exact ⟨hgone w h, hgone w h⟩

theorem atomicExchange_ends {A : World → Prop} (hP : Stable site P) (h : P w) {a b : Str}
    {R : World → Prop} (hstay : ∀ w, P w → R w) (hafter : ∀ w, A w → R w)
    (hdone : ∀ w, P w → w.leaves.leaf a ≠ none → w.leaves.leaf b ≠ none →
      A { w with leaves := w.leaves.exchanged a b }) :
    (atomicExchange site a b w).Ends (fun _ => A) (fun _ => R) P := by
  refine syscall_ends hP h hstay fun t w x d h heq => ?_
  split_ifs at heq with hboth
  cases heq
  have := hdone w h (Option.isSome_iff_ne_none.mp hboth.1) (Option.isSome_iff_ne_none.mp hboth.2)
  exact ⟨this, hafter _ this⟩

theorem found_ends {α : Type} {m : Call α} {Q : Option α → World → Prop} {R C : World → Prop}
    (h : (m w).Ends (fun a => Q (some a)) (fun _ => P) C) (hnone : ∀ w, P w → Q none w)
    (hR : ∀ w, P w → R w) : (found m w).Ends Q (fun _ => R) C := by
  unfold found
  rw [rescue_ends, bind_ends]
  refine h.imp (fun a w h => h) (fun e w h => ?_) fun _ h => h
  cases e with
  | fileNotFound => exact hnone w h
  | _ => exact hR w h

/-! ### What the calls of other writers leave alone -/

theorem leaf_stable (site : Site) {name : Str} (hname : name ≠ site.target) (p : Option LeafFile → Prop) :
    Stable site fun w => p (w.leaves.leaf name) :=
  ⟨fun w file h => by simpa [World.install, Directory.leaf_put, hname] using h, fun _ _ h => h⟩

theorem target_stable : Stable site fun w => w.leaves.leaf site.target ≠ none :=
  ⟨fun w file _ => by simp [World.install, Directory.leaf_put], fun _ _ h => h⟩

theorem named_stable (site : Site) (digest : Str) : Stable site fun w => digest ∈ w.named :=
  ⟨fun _ _ h => h, fun _ _ h => h⟩

theorem kept_stable (site : Site) : Stable site fun w => Kept site w.leaves w.owed w.named :=
  ⟨fun _ file h => h.install file, fun _ _ h => h⟩

theorem free_stable {name : Str} (hname : name ≠ site.target) :
    Stable site fun w => Free site w.leaves w.owed w.named name := by
  refine ⟨fun w file h f hf howed => ?_, fun _ _ h => h⟩
  simp only [World.install, Directory.leaf_put, if_neg hname, List.mem_cons,
    List.mem_filter] at hf howed
  rcases howed with rfl | ⟨howed, -⟩
  · exact absurd rfl (Directory.freshInode_free (d := w.leaves) file.1 hf)
  · exact h f hf howed

/-! ### Removals -/

theorem removeSnapshot_ends {P' : World → Prop} (hP : Stable site P) (hP' : Stable site P')
    {name : Str} (snapshot : FileSnapshot) (hstay : ∀ w, P w → P' w)
    (hgone : ∀ w, P w → P' { w with leaves := w.leaves.remove name }) (h : P w) :
    (removeSnapshot site name snapshot w).Ends (fun _ => P') (fun _ => P') P' := by
  unfold removeSnapshot
  rw [bind_ends]
  refine (found_ends (Q := fun _ => P) (R := P') ((statLeaf_ends hP h name).imp
    (fun _ _ h => h.1) (fun _ _ h => h) fun _ h => h) (fun _ h => h) hstay).imp
    (fun current w h => ?_) (fun _ _ h => h) hstay
  cases current with
  | none => exact hstay w h
  | some current =>
    dsimp only
    split_ifs
    · exact hstay w h
    · rw [bind_ends]
      exact (unlink_ends hP h hstay hgone).imp (fun _ w h => fsync_keeps hP' w h)
        (fun _ _ h => h) hstay

/-- A leaf that is free is removed, or not. -/
theorem removeSnapshot_kept {name : Str} (hname : name ≠ site.target) (snapshot : FileSnapshot)
    (h : Kept site w.leaves w.owed w.named) (hfree : Free site w.leaves w.owed w.named name) :
    (removeSnapshot site name snapshot w).Ends
      (fun _ w => Kept site w.leaves w.owed w.named)
      (fun _ w => Kept site w.leaves w.owed w.named)
      fun w => Kept site w.leaves w.owed w.named :=
  removeSnapshot_ends ((kept_stable site).and (free_stable hname)) (kept_stable site) snapshot
    (fun _ h => h.1) (fun _ h => h.1.remove h.2) ⟨h, hfree⟩

theorem fsyncDirectory_keeps (hP : Stable site P) : Keeps P (fsyncDirectory site) := fun w h => by
  unfold fsyncDirectory
  rw [rescue_ends]
  exact fsync_keeps hP w h

theorem removeTransactionJournal_keeps {journal : JournalFile}
    (hname : journal.name = journalName site.target) :
    Keeps (fun w => Kept site w.leaves w.owed w.named) (removeTransactionJournal site journal) := by
  intro w h
  unfold removeTransactionJournal
  rw [bind_ends]
  refine (found_ends (Q := fun _ w => Kept site w.leaves w.owed w.named)
    (R := fun w => Kept site w.leaves w.owed w.named) ((statLeaf_ends (kept_stable site) h _).imp
    (fun _ _ h => h.1) (fun _ _ h => h) fun _ h => h) (fun _ h => h) fun _ h => h).imp
    (fun current w h => ?_) (fun _ _ h => h) fun _ h => h
  cases current with
  | none => exact h
  | some current =>
    dsimp only
    split_ifs
    · exact h
    · rw [rescue_ends, bind_ends]
      exact (unlink_ends (kept_stable site) h (fun _ h => h)
        fun w h => h.remove (hname ▸ h.journalFree)).imp
        (fun _ w h => fsyncDirectory_keeps (kept_stable site) w h) (fun _ _ h => h) fun _ h => h

end Dpone.Confined
