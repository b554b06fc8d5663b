import Dpone.Confined.Replacing

/-! Replacement under kills and other writers.

    Two results about every schedule. With other writers, nothing they installed is lost unless its
    digest is one that a journal names (`kept_of_calls`). Without them, a recovery after a kill finds
    the old file or the new one, complete, and says which (`Verdict`). -/

namespace Dpone.Confined
open Dpone.Schemes Dpone.Schemes.Crash

variable {site : Site} {call : Replacement} {d d' : Directory} {w : World}

/-! ### With other writers -/

/-- One call on the site, with its schedule. -/
inductive SiteCall where
  | replace (call : Replacement) (turns : List Turn)
  | recover (turns : List Turn)

/-- The world a call leaves, however it ends. -/
def SiteCall.run (site : Site) (w : World) : SiteCall → World
  | .replace call turns => (replaceFileIfDigest site call { w with turns }).world
  | .recover turns => (recoverTransaction site { w with turns }).world

/-- INVARIANT: one call. -/
theorem SiteCall.run_safe (c : SiteCall) (h : Safe site w) : Safe site (c.run site w) := by
  have hturns : ∀ turns, Safe site { w with turns } := fun turns => safe_stable.turns w turns h
  cases c with
  | replace call turns => exact (replaceFileIfDigest_safe call (hturns turns)).always
  | recover turns => exact (recoverTransaction_safe (hturns turns)).always

/-- RUN: calls one after the other, each with any schedule. -/
theorem kept_of_calls : ∀ (calls : List SiteCall) {w : World}, Safe site w →
    Safe site (calls.foldl (SiteCall.run site) w)
  | [], _, h => h
  | c :: calls, _, h => kept_of_calls calls (c.run_safe h)

/-! ### Without another writer -/

/-- What a recovery says of a replacement that started in `d` and stopped in `d'`. -/
inductive Verdict (site : Site) (call : Replacement) (d d' : Directory) :
    RecoveryOutcome → Directory → Prop
  /-- No journal: the call has not begun its transaction, or has ended it. -/
  | outside (hidle : d'.leaf (journalName site.target) = none)
      (htarget : d'.leaf site.target = d.leaf site.target ∨
        d'.leaf site.target ≠ none ∧ d'.leaf site.target = d.leaf call.replacementName) :
      Verdict site call d d' { status := .none } d'
  | rolledBack {d'' : Directory} (record : JournalRecord) (hpending : Pending site d' record)
      (hclear : Cleared site record d' d'') (htarget : d''.leaf site.target = d.leaf site.target)
      (hdigest : digestAt site d'' site.target = some record.expectedSha256) :
      Verdict site call d d' { status := .rolledBack } d''
  /-- The replacement of this call, or the one of an earlier call that was killed. -/
  | committed {d'' : Directory} (record : JournalRecord) (hpending : Pending site d' record)
      (hclear : Cleared site record d' d'')
      (htarget : d''.leaf site.target = d.leaf call.replacementName ∨
        d.leaf (journalName site.target) ≠ none ∧ d''.leaf site.target = d.leaf site.target)
      (hdigest : digestAt site d'' site.target = some record.desiredSha256) :
      Verdict site call d d' { status := .committed, committed := true } d''
  /-- The journal was cut short: everything stays, and the target is the old file. -/
  | torn (htorn : Torn site d') (htarget : d'.leaf site.target = d.leaf site.target) :
      Verdict site call d d' (recoveryRequired (some (journalName site.target))) d'

theorem Recovered.target {o : RecoveryOutcome} (h : Recovered site d' o d) :
    d.leaf site.target = d'.leaf site.target := by
  cases h with
  | idle => rfl
  | torn => rfl
  | committed record hpending _ hclear => exact hclear.target (sibling_of_valid hpending.names)
  | rolledBack record hpending _ hclear => exact hclear.target (sibling_of_valid hpending.names)

/-- A directory in which a replacement stops stands, or is orphaned by the recovery in it. -/
theorem Stopped.standing (hstanding : Standing site d) (h : Stopped site call d d') :
    Standing site d' ∨ d.leaf (journalName site.target) ≠ none ∧ Orphaned site d' := by
  cases h with
  | recovering h =>
    rcases h with rfl | ⟨record, hpending, hrow, hcut⟩
    · exact .inl hstanding
    · obtain ⟨f, hf, -⟩ := hpending.journal
      exact (Killed.after hstanding (.inr ⟨record, hpending, hrow, hcut⟩)).1.imp id
        fun h => ⟨by rw [hf]; nofun, h⟩
  | before hidle => exact .inl (.idle hidle)
  | writing htorn => exact .inl (.torn htorn)
  | prepared record h hrow => exact .inl (.prepared record h hrow)
  | committed record h hrow => exact .inl (.committed record h hrow)
  | finished hidle => exact .inl (.idle hidle)

/-- Which file is under the target name where a replacement stops. -/
theorem Stopped.target (hstanding : Standing site d) (h : Stopped site call d d') :
    d'.leaf site.target = d.leaf site.target ∨
      d'.leaf site.target ≠ none ∧ d'.leaf site.target = d.leaf call.replacementName := by
  cases h with
  | recovering h => exact .inl (h.after hstanding).2
  | before _ h => exact .inl h
  | writing _ h => exact .inl h
  | prepared _ _ _ h => exact .inl h
  | committed record _ hrow h =>
    obtain ⟨t, ht⟩ := target_present (.inl hrow)
    exact .inr ⟨by rw [ht]; nofun, h⟩
  | finished _ hpresent h => exact .inr ⟨hpresent, h⟩

/-! The states of a journal exclude each other. -/

theorem Pending.not_idle {record : JournalRecord} (h : Pending site d record) :
    d.leaf (journalName site.target) ≠ none := by
  obtain ⟨f, hf, -⟩ := h.journal
  rw [hf]; nofun

theorem Pending.not_torn {record : JournalRecord} (h : Pending site d record) :
    ¬Torn site d := by
  rintro ⟨g, hg, hbad⟩
  obtain ⟨f, hf, hsize, hdecode⟩ := h.journal
  rw [hf] at hg
  obtain rfl := Option.some.inj hg
  rcases hbad with hlong | hbad
  · exact absurd hsize (Nat.not_le.mpr hlong)
  · exact hbad record hdecode

theorem Torn.not_idle (h : Torn site d) : d.leaf (journalName site.target) ≠ none := by
  obtain ⟨f, hf, -⟩ := h
  rw [hf]; nofun

theorem Pending.unique {record record' : JournalRecord} (h : Pending site d record)
    (h' : Pending site d record') : record = record' := by
  obtain ⟨f, hf, -, hdecode⟩ := h.journal
  obtain ⟨g, hg, -, hdecode'⟩ := h'.journal
  rw [hf] at hg
  obtain rfl := Option.some.inj hg
  exact Except.ok.inj (hdecode.symm.trans hdecode')

theorem Pending.not_both {record : JournalRecord} (h : Pending site d record)
    (hprepared : Prepared site d record) : ¬Committed site d record := fun hcommitted =>
  h.differ (Option.some.inj (hprepared.1.symm.trans hcommitted.1))

/-- STEP: the verdict of a recovery that nothing cuts short. -/
theorem Stopped.verdict {o : RecoveryOutcome} {d'' : Directory} (hstanding : Standing site d)
    (h : Stopped site call d d') (hrecovered : Recovered site d' o d'') :
    Verdict site call d d' o d'' := by
  have htarget := hrecovered.target
  have hearlier : Killed site d d' → d'.leaf (journalName site.target) ≠ none →
      d.leaf (journalName site.target) ≠ none := by
    rintro (rfl | ⟨record, hpending, -⟩) hjournal
    · exact hjournal
    · exact hpending.not_idle
  cases hrecovered with
  | idle hidle => exact .outside hidle (h.target hstanding)
  | torn htorn =>
    refine .torn htorn ?_
    cases h with
    | recovering h => exact (h.after hstanding).2
    | before hidle => exact absurd hidle htorn.not_idle
    | writing _ h => exact h
    | prepared _ hpending => exact absurd htorn hpending.not_torn
    | committed _ hpending => exact absurd htorn hpending.not_torn
    | finished hidle => exact absurd hidle htorn.not_idle
  | committed record hpending hrow hclear =>
    refine .committed record hpending hclear ?_ ?_
    · rw [htarget]
      cases h with
      | recovering h => exact .inr ⟨hearlier h hpending.not_idle, (h.after hstanding).2⟩
      | before hidle => exact absurd hidle hpending.not_idle
      | writing htorn => exact absurd htorn hpending.not_torn
      | prepared record' hpending' hprepared =>
        obtain rfl := hpending.unique hpending'
        exact absurd hrow (hpending.not_both hprepared)
      | committed _ _ _ h => exact .inl h
      | finished hidle => exact absurd hidle hpending.not_idle
    · rw [← hrow.1, digestAt, digestAt, htarget]
  | rolledBack record hpending hrow hclear =>
    refine .rolledBack record hpending hclear ?_ ?_
    · rw [htarget]
      cases h with
      | recovering h => exact (h.after hstanding).2
      | before hidle => exact absurd hidle hpending.not_idle
      | writing htorn => exact absurd htorn hpending.not_torn
      | prepared _ _ _ h => exact h
      | committed record' hpending' hcommitted =>
        obtain rfl := hpending.unique hpending'
        exact absurd hcommitted (hpending.not_both hrow)
      | finished hidle => exact absurd hidle hpending.not_idle
    · rw [← hrow.1, digestAt, digestAt, htarget]

/-- A recovery in which nothing fails returns. -/
theorem recovery_returns {exchange : Str} {calm : List Turn}
    (hnames : validateTransactionNames site site.target exchange = .ok ())
    (hstanding : Standing site d) (hcalm : Steady False calm) :
    ∃ o w', recoverTransaction site { leaves := d, turns := calm } = .done o w' ∧
      Recovered site d o w'.leaves := by
  have hends := recoverTransaction_at hnames hstanding
    (w := { leaves := d, turns := calm }) ⟨hcalm, rfl⟩
  cases hrun : recoverTransaction site { leaves := d, turns := calm } with
  | done o w' =>
    rw [hrun] at hends
    obtain ⟨d', hat, hrecovered⟩ := hends
    exact ⟨o, w', rfl, hat.2 ▸ hrecovered⟩
  | raised e w' => rw [hrun] at hends; exact hends.elim
  | killed w' => rw [hrun] at hends; exact hends.1.elim

theorem Verdict.idle {o : RecoveryOutcome} {d'' : Directory} (h : Verdict site call d d' o d'')
    (hdone : o.recoveryRequired = false) : d''.leaf (journalName site.target) = none := by
  cases h with
  | outside hidle => exact hidle
  | rolledBack _ _ hclear => exact hclear.idle
  | committed _ _ hclear => exact hclear.idle
  | torn => cases hdone

/-- Recovery of a directory without a journal reports none and changes nothing. -/
theorem recovery_again {exchange : Str} {calm : List Turn}
    (hnames : validateTransactionNames site site.target exchange = .ok ())
    (hidle : d.leaf (journalName site.target) = none) (hcalm : Steady False calm) :
    ∃ w', recoverTransaction site { leaves := d, turns := calm } =
      .done { status := .none } w' ∧ w'.leaves = d := by
  obtain ⟨o, w', hrun, hrecovered⟩ := recovery_returns hnames (.idle hidle) hcalm
  generalize hleaves : w'.leaves = d' at hrecovered
  cases hrecovered with
  | idle => exact ⟨w', hrun, hleaves⟩
  | torn htorn => exact absurd hidle htorn.not_idle
  | committed _ hpending => exact absurd hidle hpending.not_idle
  | rolledBack _ hpending => exact absurd hidle hpending.not_idle

/-- CORRECT: a replacement that is killed anywhere is recovered to the old file or the new one,
    once; and whatever other writers do meanwhile, what they installed is still there. -/
theorem replacement_recoverable
    (hnames : validateTransactionNames site site.target call.replacementName = .ok ()) :
    (∀ (d : Directory) (turns calm again : List Turn), Standing site d → Steady True turns →
      Steady False calm → Steady False again →
      let d' := (replaceFileIfDigest site call { leaves := d, turns }).world.leaves
      (d.leaf (journalName site.target) ≠ none ∧ Orphaned site d') ∨
        ∃ o w, recoverTransaction site { leaves := d', turns := calm } = .done o w ∧
          Verdict site call d d' o w.leaves ∧
          (o.recoveryRequired = false → ∃ w',
            recoverTransaction site { leaves := w.leaves, turns := again } =
              .done { status := .none } w' ∧ w'.leaves = w.leaves)) ∧
    ∀ (w : World) (calls : List SiteCall), Kept site w.leaves w.owed w.named →
      let w' := calls.foldl (SiteCall.run site) w
      ∀ f ∈ w'.owed, site.sha256 f.content ∈ w'.named ∨ ∃ n, w'.leaves.leaf n = some f := by
  refine ⟨fun d turns calm again hstanding hturns hcalm hagain => ?_, fun w calls h =>
    (kept_of_calls calls h).present⟩
  dsimp only
  have hstopped : Stopped site call d
      (replaceFileIfDigest site call { leaves := d, turns }).world.leaves := by
    have hends := replaceFileIfDigest_at hnames hstanding
      (w := { leaves := d, turns }) ⟨hturns, rfl⟩
    exact (hends.imp (fun _ _ h => h) (fun _ _ h => h) fun _ h => h.2).always
      (I := fun w : World => Stopped site call d w.leaves)
  generalize (replaceFileIfDigest site call { leaves := d, turns }).world.leaves = d' at hstopped ⊢
  rcases hstopped.standing hstanding with hd' | horphaned
  · obtain ⟨o, w, hrun, hrecovered⟩ := recovery_returns hnames hd' hcalm
    have hverdict := hstopped.verdict hstanding hrecovered
    exact .inr ⟨o, w, hrun, hverdict, fun hdone =>
      recovery_again hnames (hverdict.idle hdone) hagain⟩
  · exact .inl horphaned

/-! ### Runs on one file -/

/-- Digests of the two texts of the example; every other text has one of its own kind. -/
def notesSha256 (content : Str) : Str :=
  if content = "old".toList then
    "sha256:cba06b5736faf67e54b07b561eae94395e774c517a7d910a54369e1263ccfbd4".toList
  else if content = "new".toList then
    "sha256:11507a0e2f5e69d5dfa40a62a1bd7b6ee57e6bcd85c67c9b8431b36fff21c437".toList
  else "sha256:".toList ++ List.replicate 64 '0'

def notesSite : Site := ⟨"notes.yml".toList, 100, 255, notesSha256⟩

def notesCall : Replacement := ⟨"notes.new".toList, notesSha256 "old".toList⟩

def notes : Directory :=
  (Directory.put [] "notes.new".toList ⟨2, "new".toList⟩).put "notes.yml".toList ⟨1, "old".toList⟩

def madeTurn : Turn := { fate := .made }

/-- Killed before call number `n`. -/
def killedAt (n : ℕ) : List Turn := List.replicate n madeTurn ++ [{ fate := .killed }]

/-- The directory that the killed replacement leaves. -/
def notesKilled (n : ℕ) : Directory :=
  (replaceFileIfDigest notesSite notesCall { leaves := notes, turns := killedAt n }).world.leaves

/-- What recovery reports, and the files it leaves under the two names. -/
def notesRecovered (n : ℕ) : Option (RecoveryOutcome × Option LeafFile × Option LeafFile) :=
  match recoverTransaction notesSite { leaves := notesKilled n, turns := [] } with
  | .done o w => some (o, w.leaves.leaf "notes.yml".toList, w.leaves.leaf "notes.new".toList)
  | _ => none

/-- Another writer puts the expected bytes back under the target name before the exchange. -/
def notesReinstalled : World :=
  (replaceFileIfDigest notesSite notesCall
    { leaves := notes, turns := List.replicate 5 madeTurn ++ [{ installs := [(7, "old".toList)] }] }).world

/-- Killed while it writes its journal, the replacement needs a recovery by hand; killed before its
    journal or after it, the prepared file stays, or status none goes with the new file; and a file
    installed with the expected bytes goes with the old one. -/
theorem torn_journal_needs_recovery :
    notesRecovered 4 = some (recoveryRequired (some (journalName "notes.yml".toList)),
      some ⟨1, "old".toList⟩, some ⟨2, "new".toList⟩) ∧
    notesRecovered 3 = some ({ status := .none }, some ⟨1, "old".toList⟩,
      some ⟨2, "new".toList⟩) ∧
    notesRecovered 18 = some ({ status := .none }, some ⟨2, "new".toList⟩, none) ∧
    (⟨7, "old".toList⟩ ∈ notesReinstalled.owed ∧
      ∀ entry ∈ notesReinstalled.leaves, entry.2.content ≠ "old".toList) := by
  decide +kernel

theorem kept_start {d : Directory} (hidle : d.leaf (journalName site.target) = none)
    (hdistinct : ∀ m n f g, d.leaf m = some f → d.leaf n = some g → f.inode = g.inode → m = n) :
    Kept site d [] [] :=
  ⟨hdistinct, nofun, nofun, fun f _ hf => by rw [hidle] at hf; cases hf⟩

theorem notes_kept : Kept notesSite notes [] [] := by
  refine kept_start (by decide) fun m n f g hf hg heq => ?_
  have hfiles : ∀ n f, notes.leaf n = some f →
      n = "notes.yml".toList ∧ f.inode = 1 ∨ n = "notes.new".toList ∧ f.inode = 2 := by
    intro n f hf
    rw [notes, Directory.leaf_put, Directory.leaf_put] at hf
    split_ifs at hf with htarget hexchange
    · cases hf; exact .inl ⟨htarget, rfl⟩
    · cases hf; exact .inr ⟨hexchange, rfl⟩
    · cases hf
  rcases hfiles m f hf with ⟨hm, hf⟩ | ⟨hm, hf⟩ <;> rcases hfiles n g hg with ⟨hn, hg⟩ | ⟨hn, hg⟩
  · exact hm.trans hn.symm
  · omega
  · omega
  · exact hm.trans hn.symm

/-- Killed right after the exchange; and with a writer before the exchange. -/
theorem notes_recoverable :
    ((notes.leaf (journalName notesSite.target) ≠ none ∧ Orphaned notesSite (notesKilled 11)) ∨
      ∃ o w, recoverTransaction notesSite { leaves := notesKilled 11, turns := [] } = .done o w ∧
        Verdict notesSite notesCall notes (notesKilled 11) o w.leaves ∧
        (o.recoveryRequired = false → ∃ w',
          recoverTransaction notesSite { leaves := w.leaves, turns := [] } =
            .done { status := .none } w' ∧ w'.leaves = w.leaves)) ∧
    (let w' := [SiteCall.replace notesCall
        (List.replicate 5 madeTurn ++ [{ installs := [(7, "third".toList)] }])].foldl
          (SiteCall.run notesSite) { leaves := notes, turns := [] }
      ∀ f ∈ w'.owed, notesSha256 f.content ∈ w'.named ∨ ∃ n, w'.leaves.leaf n = some f) := by
  have hnames : validateTransactionNames notesSite notesSite.target notesCall.replacementName =
      .ok () := by decide
  refine ⟨(replacement_recoverable hnames).1 notes (killedAt 11) [] [] (.idle (by decide))
    ?_ nofun nofun, (replacement_recoverable hnames).2
      { leaves := notes, turns := [] } _ notes_kept⟩
  intro t ht
  rcases List.mem_append.mp ht with ht | ht
  · rw [List.eq_of_mem_replicate ht]
    exact ⟨rfl, .inl rfl, (by decide : 0 < 4096)⟩
  · rw [List.mem_singleton.mp ht]
    exact ⟨rfl, .inr ⟨rfl, trivial⟩, (by decide : 0 < 4096)⟩

end Dpone.Confined
