import Dpone.Confined.CrashPoints

/-! Recovery without another writer.

    `Standing` lists the directories that a killed call leaves: no journal, a journal that was not
    written to its end, or a whole journal in one of three rows of the table. `Orphaned` is the
    fourth row, which the table does not have: the prepared file is gone, its journal is not, and
    the target still has the expected bytes. -/

namespace Dpone.Confined
open Dpone.Schemes Dpone.Schemes.Crash

variable (site : Site)

/-- The digest under a name. -/
def digestAt (d : Directory) (name : Str) : Option Str :=
  (d.leaf name).map fun f => site.sha256 f.content

/-- A whole journal on the site, with its names and the files under them. -/
structure Pending (d : Directory) (record : JournalRecord) : Prop where
  journal : ∃ f, d.leaf (journalName site.target) = some f ∧ f.content.length ≤ journalMaxBytes ∧
    decode f.content site.target = .ok record
  names : validateTransactionNames site site.target record.exchangeName = .ok ()
  differ : record.expectedSha256 ≠ record.desiredSha256
  fits : ∀ n f, n = site.target ∨ n = record.exchangeName → d.leaf n = some f →
    f.content.length ≤ site.maxBytes

/-- The journal's text is not whole. -/
def Torn (d : Directory) : Prop :=
  ∃ f, d.leaf (journalName site.target) = some f ∧
    (journalMaxBytes < f.content.length ∨ ∀ record, decode f.content site.target ≠ .ok record)

/-- The rows that the recovery table decides. -/
def Committed (d : Directory) (record : JournalRecord) : Prop :=
  digestAt site d site.target = some record.desiredSha256 ∧
    (digestAt site d record.exchangeName = some record.expectedSha256 ∨
      d.leaf record.exchangeName = none)

def Prepared (d : Directory) (record : JournalRecord) : Prop :=
  digestAt site d site.target = some record.expectedSha256 ∧
    digestAt site d record.exchangeName = some record.desiredSha256

inductive Standing (d : Directory) : Prop
  | idle (h : d.leaf (journalName site.target) = none)
  | torn (h : Torn site d)
  | committed (record : JournalRecord) (h : Pending site d record) (hrow : Committed site d record)
  | prepared (record : JournalRecord) (h : Pending site d record) (hrow : Prepared site d record)

/-- The row that is missing: the prepared file was removed and its journal was not. -/
def Orphaned (d : Directory) : Prop :=
  ∃ record, Pending site d record ∧
    digestAt site d site.target = some record.expectedSha256 ∧
    d.leaf record.exchangeName = none

/-- The directory without the leaves of a transaction. -/
def Cleared (record : JournalRecord) (d d' : Directory) : Prop :=
  ∀ n, d'.leaf n = if n = journalName site.target ∨ n = record.exchangeName then none else d.leaf n

variable {site} {crash : Prop} {d : Directory} {w : World}

/-! ### Loading a journal -/

theorem validNames_target {exchange : Str}
    (h : validateTransactionNames site site.target exchange = .ok ()) :
    transactionJournalName site.target = .ok (journalName site.target) ∧
      validateTransactionLeaf site site.target = .ok () ∧
      ¬site.nameMax < encodedLength (journalName site.target) := by
  unfold validateTransactionNames at h
  obtain ⟨journal, hjournal, h⟩ := bind_ok.mp h
  obtain ⟨_, htarget, h⟩ := bind_ok.mp h
  obtain ⟨_, -, h⟩ := bind_ok.mp h
  have hname : journal = journalName site.target := by
    obtain ⟨_, -, hname⟩ := bind_ok.mp hjournal
    exact (Except.ok.inj hname).symm
  subst hname
  refine ⟨hjournal, htarget, fun hlong => ?_⟩
  split_ifs at h

theorem validLeaf_of_names {exchange : Str}
    (h : validateTransactionNames site site.target exchange = .ok ()) :
    validateLeafSyntax site.target = .ok () ∧ validateLeafSyntax exchange = .ok () := by
  unfold validateTransactionNames at h
  obtain ⟨_, -, h⟩ := bind_ok.mp h
  obtain ⟨_, htarget, h⟩ := bind_ok.mp h
  obtain ⟨_, hexchange, -⟩ := bind_ok.mp h
  obtain ⟨_, htarget, -⟩ := bind_ok.mp htarget
  obtain ⟨_, hexchange, -⟩ := bind_ok.mp hexchange
  exact ⟨htarget, hexchange⟩

theorem loadTransactionJournal_at {exchange : Str}
    (hnames : validateTransactionNames site site.target exchange = .ok ()) (h : At crash d w) :
    (loadTransactionJournal site w).Ends
      (fun loaded w => At crash d w ∧
        (loaded = none ∧ d.leaf (journalName site.target) = none ∨
          ∃ f record, d.leaf (journalName site.target) = some f ∧
            f.content.length ≤ journalMaxBytes ∧ decode f.content site.target = .ok record ∧
            loaded = some ⟨journalName site.target, record, f.identity⟩))
      (fun e w => At crash d w ∧ (∃ code, e = .journal code) ∧ Torn site d)
      (fun w => crash ∧ w.leaves = d) := by
  obtain ⟨hname, -, hlong⟩ := validNames_target hnames
  unfold loadTransactionJournal
  rw [hname]
  change (if _ then _ else _ : Call _) w |>.Ends _ _ _
  rw [if_neg hlong, bind_ends, rescue_ends, bind_ends]
  refine (readConfinedLeaf_at _ _ h).imp (fun snapshot w h => ?_) (fun fault w h => ?_)
    fun _ h => h
  · obtain ⟨h, f, hf, hsize, rfl⟩ := h
    change ((ofExcept (decode f.content site.target) >>= _ : Call _) w).Ends _ _ _
    cases hdecode : decode f.content site.target with
    | error e =>
      refine ⟨h, ?_, f, hf, .inr fun record hr => by rw [hdecode] at hr; cases hr⟩
      exact decode_errors _ _ e hdecode
    | ok record => exact ⟨h, .inr ⟨f, record, hf, hsize, hdecode, rfl⟩⟩
  · obtain ⟨h, code, rfl, ⟨rfl, hnone⟩ | ⟨rfl, f, hf, hsize⟩⟩ := h
    · exact ⟨h, .inl ⟨rfl, hnone⟩⟩
    · exact ⟨h, ⟨_, rfl⟩, f, hf, .inl hsize⟩

/-! ### The table -/

theorem readOptional_at {name : Str}
    (hfits : ∀ f, d.leaf name = some f → f.content.length ≤ site.maxBytes) (h : At crash d w) :
    (readOptional site name w).Ends
      (fun side w => At crash d w ∧ side = (d.leaf name).map (·.snapshot site))
      (fun _ _ => False) (fun w => crash ∧ w.leaves = d) := by
  unfold readOptional
  rw [rescue_ends, bind_ends]
  refine (readConfinedLeaf_at _ _ h).imp (fun snapshot w h => ?_) (fun fault w h => ?_)
    fun _ h => h
  · obtain ⟨h, f, hf, -, rfl⟩ := h
    exact ⟨h, by rw [hf]; rfl⟩
  · obtain ⟨h, code, rfl, ⟨rfl, hnone⟩ | ⟨rfl, f, hf, hsize⟩⟩ := h
    · exact ⟨h, by rw [hnone]; rfl⟩
    · exact absurd (hfits f hf) (Nat.not_le.mpr hsize)

/-- Where a recovery can be cut: nothing removed, the artifact, or both leaves. -/
def Cut (site : Site) (record : JournalRecord) (d d' : Directory) : Prop :=
  d' = d ∨ d' = d.remove record.exchangeName ∨ Cleared site record d d'

theorem cleared_both (record : JournalRecord) :
    Cleared site record d ((d.remove record.exchangeName).remove (journalName site.target)) := by
  intro n
  rw [Directory.leaf_remove, Directory.leaf_remove]
  split_ifs <;> simp_all

theorem cleared_journal {record : JournalRecord} (h : d.leaf record.exchangeName = none) :
    Cleared site record d (d.remove (journalName site.target)) := by
  intro n
  rw [Directory.leaf_remove]
  split_ifs <;> simp_all

theorem finishRecovery_at {journal : JournalFile} {f : LeafFile} (status : RecoveryStatus)
    (committed : Bool) (hname : journal.name = journalName site.target)
    (hsibling : Sibling site journal.record.exchangeName)
    (hf : d.leaf (journalName site.target) = some f) (hidentity : journal.identity = f.identity)
    (h : At crash d w) :
    (finishRecovery site journal ((d.leaf journal.record.exchangeName).map (·.snapshot site))
        status committed w).Ends
      (fun o w => ∃ d', At crash d' w ∧ Cleared site journal.record d d' ∧
        o = { status, committed })
      (fun _ _ => False) (fun w => crash ∧ Cut site journal.record d w.leaves) := by
  unfold finishRecovery
  rw [rescue_ends]
  cases hside : d.leaf journal.record.exchangeName with
  | none =>
    change ((removeTransactionJournal site journal >>= _ : Call _) w).Ends _ _ _
    rw [bind_ends]
    refine (removeTransactionJournal_at _ (hname ▸ hf) hidentity h).imp (fun _ w h => ?_)
      (fun _ _ h => h.elim) fun w h => ⟨h.1, ?_⟩
    · exact ⟨_, h, hname ▸ cleared_journal hside, rfl⟩
    · rcases h.2 with h | h
      · exact .inl h
      · exact .inr (.inr (h ▸ hname ▸ cleared_journal hside))
  | some x =>
    change ((removeSnapshot site journal.record.exchangeName (x.snapshot site) >>= _ :
      Call _) w).Ends _ _ _
    rw [bind_ends]
    refine (removeSnapshot_at hside rfl h).imp (fun _ w h => ?_) (fun _ _ h => h.elim)
      fun w h => ⟨h.1, h.2.imp id .inl⟩
    have hf' : (d.remove journal.record.exchangeName).leaf journal.name = some f := by
      rw [hname, Directory.leaf_remove, if_neg hsibling.ne_journal.symm, hf]
    rw [bind_ends]
    refine (removeTransactionJournal_at _ hf' hidentity h).imp (fun _ w h => ?_)
      (fun _ _ h => h.elim) fun w h => ⟨h.1, ?_⟩
    · exact ⟨_, h, hname ▸ cleared_both _, rfl⟩
    · rcases h.2 with h | h
      · exact .inr (.inl h)
      · exact .inr (.inr (h ▸ hname ▸ cleared_both _))

/-- What recovery reports and leaves, from a standing directory. -/
inductive Recovered (site : Site) (d : Directory) : RecoveryOutcome → Directory → Prop
  | idle (h : d.leaf (journalName site.target) = none) : Recovered site d { status := .none } d
  | torn (h : Torn site d) :
      Recovered site d (recoveryRequired (some (journalName site.target))) d
  | committed {d' : Directory} (record : JournalRecord) (h : Pending site d record)
      (hrow : Committed site d record) (hclear : Cleared site record d d') :
      Recovered site d { status := .committed, committed := true } d'
  | rolledBack {d' : Directory} (record : JournalRecord) (h : Pending site d record)
      (hrow : Prepared site d record) (hclear : Cleared site record d d') :
      Recovered site d { status := .rolledBack } d'

/-- Where a recovery of a standing directory can be killed. -/
def Killed (site : Site) (d d' : Directory) : Prop :=
  d' = d ∨ ∃ record, Pending site d record ∧
    (Committed site d record ∨ Prepared site d record) ∧ Cut site record d d'

/-- The rows `committed` and `prepared` of the table. -/
theorem recoverDecided_at (journal : JournalFile) {f t : LeafFile}
    (hname : journal.name = journalName site.target)
    (hf : d.leaf (journalName site.target) = some f) (hidentity : journal.identity = f.identity)
    (hpending : Pending site d journal.record) (ht : d.leaf site.target = some t)
    (hrow : Committed site d journal.record ∨ Prepared site d journal.record)
    (h : At crash d w) :
    (recoverDecided site journal (t.snapshot site)
        ((d.leaf journal.record.exchangeName).map (·.snapshot site)) w).Ends
      (fun o w => ∃ d', At crash d' w ∧ Recovered site d o d') (fun _ _ => False)
      (fun w => crash ∧ Killed site d w.leaves) := by
  have hsibling := sibling_of_valid hpending.names
  have hkilled : ∀ w : World, crash ∧ Cut site journal.record d w.leaves →
      crash ∧ Killed site d w.leaves := fun w h => ⟨h.1, .inr ⟨_, hpending, hrow, h.2⟩⟩
  have hdigest : ((d.leaf journal.record.exchangeName).map (·.snapshot site)).map
      (·.sha256) = digestAt site d journal.record.exchangeName := by
    unfold digestAt
    cases d.leaf journal.record.exchangeName <;> rfl
  have htarget : digestAt site d site.target = some (t.snapshot site).sha256 := by
    unfold digestAt; rw [ht]; rfl
  unfold recoverDecided
  simp only [hdigest]
  rcases hrow with hcommitted | hprepared
  · have hdesired : (t.snapshot site).sha256 = journal.record.desiredSha256 :=
      Option.some.inj (htarget.symm.trans hcommitted.1)
    have hne : (t.snapshot site).sha256 ≠ journal.record.expectedSha256 :=
      fun heq => hpending.differ (heq.symm.trans hdesired)
    rcases hcommitted.2 with hside | hgone
    · rw [if_pos ⟨hdesired, hside⟩]
      refine (finishRecovery_at _ _ hname hsibling hf hidentity h).imp (fun o w h => ?_)
        (fun _ _ h => h) hkilled
      obtain ⟨d', h, hclear, rfl⟩ := h
      exact ⟨d', h, .committed _ hpending hcommitted hclear⟩
    · have hnone : digestAt site d journal.record.exchangeName = none := by
        unfold digestAt; rw [hgone]; rfl
      rw [if_neg (by rw [hnone]; exact fun h => nomatch h.2), if_neg (fun h => hne h.1),
        if_pos ⟨hdesired, by rw [hgone]; rfl⟩]
      have hfinish := finishRecovery_at .committed true hname
        hsibling hf hidentity h
      rw [hgone] at hfinish
      refine hfinish.imp (fun o w h => ?_) (fun _ _ h => h) hkilled
      obtain ⟨d', h, hclear, rfl⟩ := h
      exact ⟨d', h, .committed _ hpending hcommitted hclear⟩
  · have hexpected : (t.snapshot site).sha256 = journal.record.expectedSha256 :=
      Option.some.inj (htarget.symm.trans hprepared.1)
    have hne : (t.snapshot site).sha256 ≠ journal.record.desiredSha256 :=
      fun heq => hpending.differ (hexpected.symm.trans heq)
    rw [if_neg (fun h => hne h.1), if_pos ⟨hexpected, hprepared.2⟩]
    refine (finishRecovery_at _ _ hname hsibling hf hidentity h).imp (fun o w h => ?_)
      (fun _ _ h => h) hkilled
    obtain ⟨d', h, hclear, rfl⟩ := h
    exact ⟨d', h, .rolledBack _ hpending hprepared hclear⟩

/-- A standing directory has no journal, an unfinished one, or one of the decided rows. -/
theorem Standing.cases (h : Standing site d) :
    d.leaf (journalName site.target) = none ∨ Torn site d ∨ ∃ record, Pending site d record ∧
      (Committed site d record ∨ Prepared site d record) := by
  cases h with
  | idle h => exact .inl h
  | torn h => exact .inr (.inl h)
  | committed record h hrow => exact .inr (.inr ⟨record, h, .inl hrow⟩)
  | prepared record h hrow => exact .inr (.inr ⟨record, h, .inr hrow⟩)

theorem target_present {record : JournalRecord}
    (h : Committed site d record ∨ Prepared site d record) : ∃ t, d.leaf site.target = some t := by
  have htarget : ∃ digest, digestAt site d site.target = some digest :=
    h.elim (fun h => ⟨_, h.1⟩) fun h => ⟨_, h.1⟩
  obtain ⟨digest, hdigest⟩ := htarget
  obtain ⟨t, ht, -⟩ := Option.map_eq_some_iff.mp hdigest
  exact ⟨t, ht⟩

/-- RUN: recovery from a standing directory, made to its end or killed. -/
theorem recoverTransaction_at {exchange : Str}
    (hnames : validateTransactionNames site site.target exchange = .ok ())
    (hstanding : Standing site d) (h : At crash d w) :
    (recoverTransaction site w).Ends (fun o w => ∃ d', At crash d' w ∧ Recovered site d o d')
      (fun _ _ => False) (fun w => crash ∧ Killed site d w.leaves) := by
  obtain ⟨hname, hleaf, -⟩ := validNames_target hnames
  have hstay : ∀ w : World, crash ∧ w.leaves = d → crash ∧ Killed site d w.leaves :=
    fun w h => ⟨h.1, .inl h.2⟩
  unfold recoverTransaction
  rw [hleaf, bind_ends, rescue_ends, bind_ends]
  change ((loadTransactionJournal site >>= _ : Call _) w).Ends _ _ _
  rw [bind_ends]
  refine (loadTransactionJournal_at hnames h).imp (fun loaded w h => ?_) (fun fault w h => ?_) hstay
  · obtain ⟨h, ⟨rfl, hnone⟩ | ⟨f, record, hf, hsize, hdecode, rfl⟩⟩ := h
    · exact ⟨d, h, .idle hnone⟩
    -- the journal was read: it is whole, so the directory is in one of the decided rows
    obtain ⟨hpending, hrow⟩ : Pending site d record ∧
        (Committed site d record ∨ Prepared site d record) := by
      rcases hstanding.cases with hnone | ⟨g, hg, hbad⟩ | ⟨record', hpending, hrow⟩
      · rw [hnone] at hf; cases hf
      · rw [hf] at hg
        obtain rfl := Option.some.inj hg
        rcases hbad with hlong | hbad
        · exact absurd hsize (Nat.not_le.mpr hlong)
        · exact absurd hdecode (hbad record)
      · obtain ⟨g, hg, -, hdecode'⟩ := hpending.journal
        rw [hf] at hg
        obtain rfl := Option.some.inj hg
        rw [hdecode] at hdecode'
        obtain rfl := Except.ok.inj hdecode'
        exact ⟨hpending, hrow⟩
    obtain ⟨t, ht⟩ := target_present hrow
    change ((rescue _ _ >>= _ : Call _) w).Ends _ _ _
    rw [bind_ends, rescue_ends, bind_ends]
    simp only [decode_target hdecode, hpending.names]
    change ((readOptional site site.target >>= _ : Call _) w).Ends _ _ _
    rw [bind_ends]
    refine (readOptional_at (fun f hf => hpending.fits _ f (.inl rfl) hf) h).imp
      (fun target w htarget => ?_) (fun _ _ h => h.elim) hstay
    obtain ⟨h, rfl⟩ := htarget
    rw [bind_ends]
    refine (readOptional_at (fun f hf => hpending.fits _ f (.inr rfl) hf) h).imp
      (fun side w hside => ?_) (fun _ _ h => h.elim) hstay
    obtain ⟨h, rfl⟩ := hside
    rw [ht]
    exact recoverDecided_at ⟨journalName site.target, record, f.identity⟩ rfl hf rfl
      hpending ht hrow h
  · obtain ⟨h, ⟨code, rfl⟩, htorn⟩ := h
    refine ⟨d, h, ?_⟩
    have hsafe : safeJournalName site.target = some (journalName site.target) := by
      rw [safeJournalName, hname]; rfl
    rw [hsafe]
    exact .torn htorn

/-! ### What a recovery leaves behind -/

theorem Cleared.idle {record : JournalRecord} {d' : Directory} (h : Cleared site record d d') :
    d'.leaf (journalName site.target) = none := by rw [h, if_pos (.inl rfl)]

theorem Cleared.target {record : JournalRecord} {d' : Directory}
    (hsibling : Sibling site record.exchangeName) (h : Cleared site record d d') :
    d'.leaf site.target = d.leaf site.target := by
  rw [h, if_neg]
  exact not_or.mpr ⟨(journalName_ne _).symm, hsibling.ne_target.symm⟩

/-- A killed recovery leaves the target as it was, and a directory that stands or is orphaned. -/
theorem Killed.after {d' : Directory} (hstanding : Standing site d) (h : Killed site d d') :
    (Standing site d' ∨ Orphaned site d') ∧ d'.leaf site.target = d.leaf site.target := by
  rcases h with rfl | ⟨record, hpending, hrow, rfl | rfl | hclear⟩
  · exact ⟨.inl hstanding, rfl⟩
  · exact ⟨.inl hstanding, rfl⟩
  · have hsibling := sibling_of_valid hpending.names
    have hkeep : ∀ n, n ≠ record.exchangeName →
        (d.remove record.exchangeName).leaf n = d.leaf n := fun n hn => by
      rw [Directory.leaf_remove, if_neg hn]
    have hgone : (d.remove record.exchangeName).leaf record.exchangeName = none := by
      rw [Directory.leaf_remove, if_pos rfl]
    have htarget := hkeep site.target hsibling.ne_target.symm
    have hpending' : Pending site (d.remove record.exchangeName) record := by
      obtain ⟨f, hf, hsize, hdecode⟩ := hpending.journal
      refine ⟨⟨f, by rw [hkeep _ hsibling.ne_journal.symm, hf], hsize, hdecode⟩, hpending.names,
        hpending.differ, fun n g hn hg => ?_⟩
      rcases hn with rfl | rfl
      · exact hpending.fits _ g (.inl rfl) (htarget ▸ hg)
      · rw [hgone] at hg; cases hg
    have hdigest : digestAt site (d.remove record.exchangeName) site.target =
        digestAt site d site.target := by unfold digestAt; rw [htarget]
    refine ⟨?_, htarget⟩
    rcases hrow with hrow | hrow
    · exact .inl (.committed record hpending' ⟨hdigest.trans hrow.1, .inr hgone⟩)
    · exact .inr ⟨record, hpending', hdigest.trans hrow.1, hgone⟩
  · exact ⟨.inl (.idle hclear.idle), hclear.target (sibling_of_valid hpending.names)⟩

end Dpone.Confined
