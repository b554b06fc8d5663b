import Dpone.Confined.Recovery

/-! Replacement without another writer: every directory in which the process can be killed. -/

namespace Dpone.Confined
open Dpone.Schemes Dpone.Schemes.Crash

variable {site : Site} {crash : Prop} {d : Directory} {w : World}

theorem Directory.put_put (d : Directory) (name : Str) (f g : LeafFile) :
    (d.put name f).put name g = d.put name g := by
  simp [Directory.put, List.filter_filter]

/-! ### Writing a journal -/

/-- A journal file is there with a beginning of the record's text. -/
def Writing (site : Site) (record : JournalRecord) (d d' : Directory) : Prop :=
  ∃ f, f.content <+: encodeText record ∧ d' = d.put (journalName site.target) f

theorem writeAll_at (record : JournalRecord) : ∀ (fuel : ℕ) (payload : Str) {f : LeafFile}
    {w : World}, payload.length ≤ fuel → f.content ++ payload = encodeText record →
    At crash (d.put (journalName site.target) f) w →
    (writeAll site (journalName site.target) fuel payload w).Ends
      (fun _ w => ∃ f, f.content = encodeText record ∧
        At crash (d.put (journalName site.target) f) w)
      (fun _ _ => False) (fun w => crash ∧ Writing site record d w.leaves)
  | fuel, [], f, w, _, hcontent, h => by
    have hwhole : f.content = encodeText record := by simpa using hcontent
    cases fuel <;> exact ⟨f, hwhole, h⟩
  | fuel + 1, c :: payload, f, w, hfuel, hcontent, h => by
    have hleaf : (d.put (journalName site.target) f).leaf (journalName site.target) = some f := by
      rw [Directory.leaf_put, if_pos rfl]
    unfold writeAll
    rw [bind_ends]
    refine syscall_at h (fun t written d' hwritten heq w hw => ?_) (fun t e heq => ?_)
      fun w hc hd => ⟨hc, f, ⟨_, hcontent⟩, hd⟩
    · rw [hleaf] at heq
      obtain ⟨rfl, rfl⟩ := Prod.mk.inj (Except.ok.inj heq)
      rw [Directory.put_put] at hw
      have hpos : 0 < min t.written (c :: payload).length :=
        Nat.lt_min.mpr ⟨hwritten, Nat.succ_pos _⟩
      have htake : (c :: payload).take t.written ++
          (c :: payload).drop (min t.written (c :: payload).length) = c :: payload := by
        rcases Nat.le_total t.written (c :: payload).length with hle | hle
        · rw [Nat.min_eq_left hle, List.take_append_drop]
        · rw [Nat.min_eq_right hle, List.take_of_length_le hle, List.drop_length,
            List.append_nil]
      rw [if_neg hpos.ne']
      refine writeAll_at record fuel _ ?_ ?_ hw
      · rw [List.length_drop]
        simp only [List.length_cons] at hfuel hpos ⊢
        omega
      · rw [List.append_assoc, htake, hcontent]
    · rw [hleaf] at heq; cases heq

/-- What a journal's creation leaves: nothing, a beginning of its text, or the whole of it. -/
theorem createTransactionJournal_at {record : JournalRecord}
    (htarget : record.targetName = site.target)
    (hidle : d.leaf (journalName site.target) = none) (h : At crash d w) :
    (createTransactionJournal site record w).Ends
      (fun journal w => ∃ f, f.content = encodeText record ∧
        f.content.length ≤ journalMaxBytes ∧
        validateSha256 record.expectedSha256 = .ok () ∧
        validateSha256 record.desiredSha256 = .ok () ∧
        journal = ⟨journalName site.target, record, f.identity⟩ ∧
        At crash (d.put (journalName site.target) f) w)
      (fun _ => At crash d)
      (fun w => crash ∧ (w.leaves = d ∨ Writing site record d w.leaves)) := by
  unfold createTransactionJournal
  rw [htarget]
  cases hnames : validateTransactionNames site site.target record.exchangeName with
  | error e => exact h
  | ok _ =>
  cases hexpected : validateSha256 record.expectedSha256 with
  | error e => exact h
  | ok _ =>
  cases hdesired : validateSha256 record.desiredSha256 with
  | error e => exact h
  | ok _ =>
  by_cases hsize : journalMaxBytes < (encodeText record).length
  · have hencode : encode record = .error (.journal "journal_too_large") := if_pos hsize
    simp only [hencode]
    exact h
  have hencode : encode record = .ok (encodeText record) := if_neg hsize
  simp only [hencode]
  have hnoted : At crash d
      { w with named := record.expectedSha256 :: record.desiredSha256 :: w.named } := h
  change ((rescue _ _ >>= _ : Call _) _).Ends _ _ _
  rw [bind_ends, rescue_ends, bind_ends]
  refine syscall_at hnoted (fun t _ d' _ heq w hw => ?_) (fun t e heq => ?_)
    fun w hc hd => ⟨hc, .inl hd⟩
  swap
  · rw [if_neg (by rw [hidle]; nofun)] at heq; cases heq
  rw [if_neg (by rw [hidle]; nofun)] at heq
  obtain ⟨-, rfl⟩ := Prod.mk.inj (Except.ok.inj heq)
  rw [bind_ends]
  refine (writeAll_at record _ _ (Nat.le_refl _) (List.nil_append _) hw).imp
    (fun _ w h => ?_) (fun _ _ h => h.elim) fun _ h => ⟨h.1, .inr h.2⟩
  obtain ⟨f, hf, h⟩ := h
  have hleaf : (d.put (journalName site.target) f).leaf (journalName site.target) = some f := by
    rw [Directory.leaf_put, if_pos rfl]
  have hcut : ∀ w : World, crash ∧ w.leaves = d.put (journalName site.target) f →
      crash ∧ (w.leaves = d ∨ Writing site record d w.leaves) :=
    fun w h => ⟨h.1, .inr ⟨f, hf ▸ List.prefix_rfl, h.2⟩⟩
  rw [bind_ends]
  refine (statLeaf_at hleaf h).imp (fun identity w h => ?_) (fun _ _ h => h.elim) hcut
  obtain ⟨h, rfl⟩ := h
  rw [if_neg (fun hne => hne (congrArg List.length hf)), bind_ends]
  refine (fsync_at h).imp (fun _ w h => ?_) (fun _ _ h => h.elim) hcut
  refine (statLeaf_at hleaf h).imp (fun identity w h => ?_) (fun _ _ h => h.elim) hcut
  obtain ⟨h, rfl⟩ := h
  unfold fsyncDirectory
  rw [bind_ends, rescue_ends]
  refine (fsync_at h).imp (fun _ w h => ?_) (fun _ _ h => h.elim) hcut
  exact ⟨f, hf, hf ▸ Nat.not_lt.mp hsize, trivial, trivial, rfl, h⟩

/-! ### The exchange -/

/-- Where the process can stop in a replacement, seen from the directory it started in. -/
inductive Stopped (site : Site) (call : Replacement) (d d' : Directory) : Prop
  /-- In the recovery of an earlier transaction, or before anything was changed. -/
  | recovering (h : Killed site d d')
  /-- No journal is there, and the target is the one it was. -/
  | before (hidle : d'.leaf (journalName site.target) = none)
      (htarget : d'.leaf site.target = d.leaf site.target)
  | writing (htorn : Torn site d') (htarget : d'.leaf site.target = d.leaf site.target)
  | prepared (record : JournalRecord) (h : Pending site d' record) (hrow : Prepared site d' record)
      (htarget : d'.leaf site.target = d.leaf site.target)
  | committed (record : JournalRecord) (h : Pending site d' record)
      (hrow : Committed site d' record)
      (htarget : d'.leaf site.target = d.leaf call.replacementName)
  | finished (hidle : d'.leaf (journalName site.target) = none)
      (hpresent : d'.leaf site.target ≠ none)
      (htarget : d'.leaf site.target = d.leaf call.replacementName)

theorem leafMatchesSnapshot_at {name : Str} {f : LeafFile} (hf : d.leaf name = some f)
    (hsize : f.content.length ≤ site.maxBytes) (h : At crash d w) :
    (leafMatchesSnapshot site name (f.snapshot site) w).Ends
      (fun found w => At crash d w ∧ found = true) (fun _ _ => False)
      (fun w => crash ∧ w.leaves = d) := by
  unfold leafMatchesSnapshot
  rw [bind_ends, rescue_ends, bind_ends]
  refine (readConfinedLeaf_at _ _ h).imp (fun snapshot w h => ?_) (fun fault w h => ?_)
    fun _ h => h
  · obtain ⟨h, g, hg, -, rfl⟩ := h
    rw [hf] at hg
    obtain rfl := Option.some.inj hg
    exact ⟨h, by simp⟩
  · obtain ⟨-, code, -, ⟨-, hnone⟩ | ⟨-, g, hg, hlong⟩⟩ := h
    · rw [hf] at hnone; cases hnone
    · rw [hf] at hg
      obtain rfl := Option.some.inj hg
      exact absurd hsize (Nat.not_le.mpr hlong)

/-- The site of one exchange: old file, new file, and the journal that names their digests. -/
structure Exchange (site : Site) (record : JournalRecord) (d : Directory)
    (old new journal : LeafFile) : Prop where
  names : validateTransactionNames site site.target record.exchangeName = .ok ()
  differ : record.expectedSha256 ≠ record.desiredSha256
  text : journal.content.length ≤ journalMaxBytes ∧
    decode journal.content site.target = .ok record
  target : d.leaf site.target = some old
  exchange : d.leaf record.exchangeName = some new
  oldDigest : site.sha256 old.content = record.expectedSha256
  newDigest : site.sha256 new.content = record.desiredSha256
  oldSize : old.content.length ≤ site.maxBytes
  newSize : new.content.length ≤ site.maxBytes

section Exchange
variable {record : JournalRecord} {old new journal : LeafFile}

/-- The leaves once the journal is there and, later, once the names are exchanged. -/
theorem Exchange.leaves (h : Exchange site record d old new journal) :
    let d₁ := d.put (journalName site.target) journal
    let d₂ := d₁.exchanged site.target record.exchangeName
    (d₁.leaf (journalName site.target) = some journal ∧ d₁.leaf site.target = some old ∧
      d₁.leaf record.exchangeName = some new) ∧
    d₂.leaf (journalName site.target) = some journal ∧ d₂.leaf site.target = some new ∧
      d₂.leaf record.exchangeName = some old := by
  have hsibling := sibling_of_valid h.names
  have hjournal : (d.put (journalName site.target) journal).leaf (journalName site.target) =
      some journal := by rw [Directory.leaf_put, if_pos rfl]
  have htarget : (d.put (journalName site.target) journal).leaf site.target = some old := by
    rw [Directory.leaf_put, if_neg (journalName_ne _).symm, h.target]
  have hexchange : (d.put (journalName site.target) journal).leaf record.exchangeName =
      some new := by rw [Directory.leaf_put, if_neg hsibling.ne_journal, h.exchange]
  refine ⟨⟨hjournal, htarget, hexchange⟩, ?_, ?_, ?_⟩ <;>
    rw [Directory.leaf_exchanged, Directory.swapped]
  · rw [if_neg (journalName_ne _), if_neg hsibling.ne_journal.symm, hjournal]
  · rw [if_pos rfl, hexchange]
  · rw [if_neg hsibling.ne_target, if_pos rfl, htarget]

theorem Exchange.pending (h : Exchange site record d old new journal) {d' : Directory}
    (hjournal : d'.leaf (journalName site.target) = some journal)
    (hfiles : ∀ n f, n = site.target ∨ n = record.exchangeName → d'.leaf n = some f →
      f = old ∨ f = new) : Pending site d' record :=
  ⟨⟨journal, hjournal, h.text⟩, h.names, h.differ, fun n f hn hf => by
    rcases hfiles n f hn hf with rfl | rfl
    · exact h.oldSize
    · exact h.newSize⟩

/-- Before the exchange the table says `prepared`. -/
theorem Exchange.prepared (h : Exchange site record d old new journal) :
    Pending site (d.put (journalName site.target) journal) record ∧
      Prepared site (d.put (journalName site.target) journal) record := by
  obtain ⟨⟨hjournal, htarget, hexchange⟩, -⟩ := h.leaves
  refine ⟨h.pending hjournal fun n f hn hf => ?_, ?_, ?_⟩
  · rcases hn with rfl | rfl
    · rw [htarget] at hf; exact .inl (Option.some.inj hf).symm
    · rw [hexchange] at hf; exact .inr (Option.some.inj hf).symm
  · rw [digestAt, htarget, Option.map_some, h.oldDigest]
  · rw [digestAt, hexchange, Option.map_some, h.newDigest]

/-- After it, with the old file or without, the table says `committed`. -/
theorem Exchange.committed (h : Exchange site record d old new journal) {d' : Directory}
    (hjournal : d'.leaf (journalName site.target) = some journal)
    (htarget : d'.leaf site.target = some new)
    (hexchange : d'.leaf record.exchangeName = some old ∨ d'.leaf record.exchangeName = none) :
    Pending site d' record ∧ Committed site d' record := by
  refine ⟨h.pending hjournal fun n f hn hf => ?_, ?_, hexchange.imp (fun hold => ?_) id⟩
  · rcases hn with rfl | rfl
    · rw [htarget] at hf; exact .inr (Option.some.inj hf).symm
    · rcases hexchange with hold | hgone
      · rw [hold] at hf; exact .inl (Option.some.inj hf).symm
      · rw [hgone] at hf; cases hf
  · rw [digestAt, htarget, Option.map_some, h.newDigest]
  · rw [digestAt, hold, Option.map_some, h.oldDigest]

/-- RUN: from a whole journal to the end, or to where the process is killed. -/
theorem exchangePrepared_at {call : Replacement}
    (hexchange : record.exchangeName = call.replacementName)
    (hexpected : record.expectedSha256 = call.expectedSha256)
    (h : Exchange site record d old new journal)
    (hat : At crash (d.put (journalName site.target) journal) w) :
    (exchangePrepared site call ⟨journalName site.target, record, journal.identity⟩
        (new.snapshot site) w).Ends
      (fun _ w => Stopped site call d w.leaves) (fun _ _ => False)
      (fun w => crash ∧ Stopped site call d w.leaves) := by
  obtain ⟨⟨hj₁, ht₁, hx₁⟩, hj₂, ht₂, hx₂⟩ := h.leaves
  have hsibling := sibling_of_valid h.names
  have hkilled₁ : ∀ w : World, crash ∧ w.leaves = d.put (journalName site.target) journal →
      crash ∧ Stopped site call d w.leaves := fun w hw =>
    ⟨hw.1, hw.2 ▸ .prepared record h.prepared.1 h.prepared.2 (ht₁.trans h.target.symm)⟩
  generalize hd₁ : d.put (journalName site.target) journal = d₁ at *
  generalize hd₂ : d₁.exchanged site.target record.exchangeName = d₂ at *
  have hkilled₂ : ∀ w : World, crash ∧ w.leaves = d₂ → crash ∧ Stopped site call d w.leaves := by
    intro w hw
    obtain ⟨hpending, hrow⟩ := h.committed hj₂ ht₂ (.inl hx₂)
    exact ⟨hw.1, hw.2 ▸ .committed record hpending hrow
      (ht₂.trans (hexchange ▸ h.exchange.symm))⟩
  -- without the old file, and then without the journal
  have hj₃ : (d₂.remove record.exchangeName).leaf (journalName site.target) = some journal := by
    rw [Directory.leaf_remove, if_neg hsibling.ne_journal.symm, hj₂]
  have ht₃ : (d₂.remove record.exchangeName).leaf site.target = some new := by
    rw [Directory.leaf_remove, if_neg hsibling.ne_target.symm, ht₂]
  have hx₃ : (d₂.remove record.exchangeName).leaf record.exchangeName = none := by
    rw [Directory.leaf_remove, if_pos rfl]
  have hremoved : Stopped site call d (d₂.remove record.exchangeName) := by
    obtain ⟨hpending, hrow⟩ := h.committed hj₃ ht₃ (.inr hx₃)
    exact .committed record hpending hrow (ht₃.trans (hexchange ▸ h.exchange.symm))
  have hidle : ((d₂.remove record.exchangeName).remove (journalName site.target)).leaf
      (journalName site.target) = none := by rw [Directory.leaf_remove, if_pos rfl]
  have hpresent : ((d₂.remove record.exchangeName).remove (journalName site.target)).leaf
      site.target ≠ none := by
    rw [Directory.leaf_remove, if_neg (journalName_ne _).symm, ht₃]
    nofun
  have htarget : ((d₂.remove record.exchangeName).remove (journalName site.target)).leaf
      site.target = d.leaf call.replacementName := by
    rw [Directory.leaf_remove, if_neg (journalName_ne _).symm, ht₃, ← hexchange, h.exchange]
  unfold exchangePrepared
  rw [← hexchange, bind_ends, rescue_ends]
  refine (atomicExchange_at (by rw [ht₁]; nofun) (by rw [hx₁]; nofun) hat).imp
    (fun _ w hat => ?_) (fun _ _ h => h.elim) hkilled₁
  rw [hd₂] at hat
  rw [bind_ends, rescue_ends, bind_ends]
  refine (fsync_at hat).imp (fun _ w hat => ?_) (fun _ _ h => h.elim) hkilled₂
  change ((rescue _ _ >>= _ : Call _) w).Ends _ _ _
  rw [bind_ends, rescue_ends]
  refine (readConfinedLeaf_at _ _ hat).imp (fun displaced w hread => ?_) (fun fault w hread => ?_)
    hkilled₂
  swap
  · obtain ⟨-, code, -, ⟨-, hnone⟩ | ⟨-, g, hg, hlong⟩⟩ := hread
    · rw [hx₂] at hnone; cases hnone
    · rw [hx₂] at hg
      obtain rfl := Option.some.inj hg
      exact absurd h.oldSize (Nat.not_le.mpr hlong)
  obtain ⟨hat, g, hg, -, rfl⟩ := hread
  rw [hx₂] at hg
  obtain rfl := Option.some.inj hg
  have hdigest : (old.snapshot site).sha256 = call.expectedSha256 :=
    h.oldDigest.trans hexpected
  rw [if_neg (fun hne => hne hdigest), bind_ends]
  refine (leafMatchesSnapshot_at ht₂ h.newSize hat).imp (fun found w hmatch => ?_)
    (fun _ _ h => h.elim) hkilled₂
  obtain ⟨hat, rfl⟩ := hmatch
  simp only [if_neg (by decide : ¬true = false)]
  unfold finishCommitted
  rw [rescue_ends, bind_ends]
  refine (removeSnapshot_at hx₂ rfl hat).imp (fun _ w hat => ?_) (fun _ _ h => h.elim)
    fun w hw => ?_
  · rw [bind_ends]
    refine (removeTransactionJournal_at ⟨journalName site.target, record, journal.identity⟩
      hj₃ rfl hat).imp (fun _ w hat => ?_) (fun _ _ h => h.elim) fun w hw => ?_
    · exact .finished (hat.2 ▸ hidle) (hat.2 ▸ hpresent) (hat.2 ▸ htarget)
    · rcases hw with ⟨hc, hw | hw⟩
      · exact ⟨hc, hw ▸ hremoved⟩
      · exact ⟨hc, .finished (hw ▸ hidle) (hw ▸ hpresent) (hw ▸ htarget)⟩
  · rcases hw with ⟨hc, hw | hw⟩
    · exact hkilled₂ w ⟨hc, hw⟩
    · exact ⟨hc, hw ▸ hremoved⟩

end Exchange

/-! ### The whole call -/

/-- Seen from the directory that a finished recovery left, and from the one before it. -/
theorem Stopped.of_recovered {call : Replacement} {d₁ d' : Directory}
    (hidle : d₁.leaf (journalName site.target) = none)
    (htarget : d₁.leaf site.target = d.leaf site.target)
    (hexchange : d₁.leaf call.replacementName ≠ none →
      d₁.leaf call.replacementName = d.leaf call.replacementName)
    (h : Stopped site call d₁ d') : Stopped site call d d' := by
  cases h with
  | recovering h =>
    rcases h with rfl | ⟨record, hpending, -⟩
    · exact .before hidle htarget
    · obtain ⟨f, hf, -⟩ := hpending.journal
      rw [hidle] at hf; cases hf
  | before h ht => exact .before h (ht.trans htarget)
  | writing h ht => exact .writing h (ht.trans htarget)
  | prepared record h hrow ht => exact .prepared record h hrow (ht.trans htarget)
  | committed record h hrow ht =>
    obtain ⟨t, hpresent⟩ := target_present (.inl hrow)
    exact .committed record h hrow (ht.trans (hexchange (by rw [← ht, hpresent]; nofun)))
  | finished h hpresent ht =>
    exact .finished h hpresent (ht.trans (hexchange (by rwa [← ht])))

/-- A journal file cut short is torn, or so nearly whole that it is read. -/
theorem Exchange.writing {record : JournalRecord} {call : Replacement}
    {old new journal : LeafFile} (hnames : validateTransactionNames site site.target
      record.exchangeName = .ok ()) (hdiffer : record.expectedSha256 ≠ record.desiredSha256)
    (htarget : d.leaf site.target = some old) (hexchange : d.leaf record.exchangeName = some new)
    (hold : site.sha256 old.content = record.expectedSha256)
    (hnew : site.sha256 new.content = record.desiredSha256)
    (holdSize : old.content.length ≤ site.maxBytes) (hnewSize : new.content.length ≤ site.maxBytes)
    (hcontent : journal.content <+: encodeText record) :
    Stopped site call d (d.put (journalName site.target) journal) := by
  have hjournal : (d.put (journalName site.target) journal).leaf (journalName site.target) =
      some journal := by rw [Directory.leaf_put, if_pos rfl]
  have hkept : (d.put (journalName site.target) journal).leaf site.target = d.leaf site.target := by
    rw [Directory.leaf_put, if_neg (journalName_ne _).symm]
  by_cases hsize : journalMaxBytes < journal.content.length
  · exact .writing ⟨journal, hjournal, .inl hsize⟩ hkept
  cases hdecode : decode journal.content site.target with
  | error e =>
    exact .writing ⟨journal, hjournal, .inr fun r hr => by rw [hdecode] at hr; cases hr⟩ hkept
  | ok read =>
    obtain rfl := decode_beginning hcontent hdecode
    have h : Exchange site read d old new journal := ⟨hnames, hdiffer,
      ⟨Nat.not_lt.mp hsize, hdecode⟩, htarget, hexchange, hold, hnew, holdSize, hnewSize⟩
    exact .prepared read h.prepared.1 h.prepared.2 hkept

theorem readForReplace_at (name : Str) (h : At crash d w) :
    (readForReplace site name w).Ends
      (fun snapshot w => At crash d w ∧ ∃ f, d.leaf name = some f ∧
        f.content.length ≤ site.maxBytes ∧ snapshot = f.snapshot site)
      (fun _ => At crash d) (fun w => crash ∧ w.leaves = d) := by
  unfold readForReplace
  rw [rescue_ends]
  refine (readConfinedLeaf_at _ _ h).imp (fun _ _ h => h) (fun fault w h => ?_) fun _ h => h
  obtain ⟨h, code, rfl, -⟩ := h
  exact h

/-- From a directory without a journal. -/
theorem replaceRecovered_at {call : Replacement}
    (hnames : validateTransactionNames site site.target call.replacementName = .ok ())
    (hidle : d.leaf (journalName site.target) = none) (hat : At crash d w) :
    (replaceRecovered site call w).Ends (fun _ w => Stopped site call d w.leaves)
      (fun _ w => Stopped site call d w.leaves)
      (fun w => crash ∧ Stopped site call d w.leaves) := by
  have hbefore : ∀ w : World, w.leaves = d → Stopped site call d w.leaves :=
    fun w h => by rw [h]; exact .before hidle rfl
  unfold replaceRecovered
  rw [bind_ends]
  refine (readForReplace_at _ hat).imp (fun target w htarget => ?_)
    (fun _ w hat => hbefore w hat.2) fun w h => ⟨h.1, hbefore w h.2⟩
  obtain ⟨hat, old, hold, holdSize, rfl⟩ := htarget
  rw [bind_ends]
  refine (readForReplace_at _ hat).imp (fun replacement w hreplacement => ?_)
    (fun _ w hat => hbefore w hat.2) fun w h => ⟨h.1, hbefore w h.2⟩
  obtain ⟨hat, new, hnew, hnewSize, rfl⟩ := hreplacement
  split_ifs with hexpected hsame
  · exact hbefore w hat.2
  · exact hbefore w hat.2
  have hexpected : site.sha256 old.content = call.expectedSha256 := not_not.mp hexpected
  rw [bind_ends, rescue_ends]
  refine (createTransactionJournal_at rfl hidle hat).imp (fun journal w h => ?_)
    (fun fault w hat => ?_) fun w h => ⟨h.1, ?_⟩
  · obtain ⟨f, hf, hsize, hshaE, hshaD, rfl, hat⟩ := h
    have hsibling := sibling_of_valid hnames
    have hdecode := decode_encodeText ⟨site.target, call.replacementName,
      call.expectedSha256, (new.snapshot site).sha256⟩ (validLeaf_of_names hnames).1
      (validLeaf_of_names hnames).2 hsibling.ne_target.symm hshaE hshaD
    refine (exchangePrepared_at rfl rfl ⟨hnames, ?_, ⟨hsize, hf ▸ hdecode⟩, hold, hnew, hexpected,
      rfl, holdSize, hnewSize⟩ hat).imp (fun _ _ h => h) (fun _ _ h => h.elim) fun _ h => h
    exact fun heq => hsame (hexpected.trans heq)
  · have := hbefore w hat.2
    cases fault with
    | journal code =>
      simp only [journalMutationError]
      split_ifs <;> exact this
    | _ => exact this
  · rcases h.2 with h | ⟨f, hf, h⟩
    · exact hbefore w h
    · rw [h]
      exact Exchange.writing hnames (fun heq => hsame (hexpected.trans heq)) hold hnew hexpected rfl
        holdSize hnewSize hf

/-- RUN: a replacement from a standing directory, made to its end or killed. -/
theorem replaceFileIfDigest_at {call : Replacement}
    (hnames : validateTransactionNames site site.target call.replacementName = .ok ())
    (hstanding : Standing site d) (hat : At crash d w) :
    (replaceFileIfDigest site call w).Ends (fun _ w => Stopped site call d w.leaves)
      (fun _ w => Stopped site call d w.leaves)
      (fun w => crash ∧ Stopped site call d w.leaves) := by
  have hsibling := sibling_of_valid hnames
  have hstart : ∀ w : World, w.leaves = d → Stopped site call d w.leaves :=
    fun w h => .recovering (.inl h)
  unfold replaceFileIfDigest validateReplaceInputs
  rw [bind_ends, rescue_ends, hnames]
  change (ofExcept (validateSha256 call.expectedSha256) w).Ends _ _ _
  cases hexpected : validateSha256 call.expectedSha256 with
  | error fault => cases fault <;> exact hstart w hat.2
  | ok _ =>
    change ((recoverTransaction site >>= _ : Call _) w).Ends _ _ _
    rw [bind_ends]
    refine (recoverTransaction_at hnames hstanding hat).imp (fun o w h => ?_)
      (fun _ _ h => h.elim) fun w h => ⟨h.1, .recovering h.2⟩
    obtain ⟨d₁, hat, hrecovered⟩ := h
    have hcleared : ∀ record : JournalRecord, Pending site d record → Cleared site record d d₁ →
        (replaceRecovered site call w).Ends (fun _ w => Stopped site call d w.leaves)
          (fun _ w => Stopped site call d w.leaves)
          (fun w => crash ∧ Stopped site call d w.leaves) := by
      intro record hpending hclear
      have hview : ∀ d', Stopped site call d₁ d' → Stopped site call d d' := fun d' h =>
        h.of_recovered hclear.idle (hclear.target (sibling_of_valid hpending.names)) fun hne => by
          rw [hclear] at hne ⊢
          split_ifs at hne ⊢ <;> simp_all
      exact (replaceRecovered_at hnames hclear.idle hat).imp (fun _ _ h => hview _ h)
        (fun _ _ h => hview _ h) fun _ h => ⟨h.1, hview _ h.2⟩
    cases hrecovered with
    | idle h => exact replaceRecovered_at hnames h hat
    | torn h => exact hstart w hat.2
    | committed record hpending _ hclear => exact hcleared record hpending hclear
    | rolledBack record hpending _ hclear => exact hcleared record hpending hclear

end Dpone.Confined
