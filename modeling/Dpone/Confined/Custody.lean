import Dpone.Confined.SettingAside

/-! Replacement and recovery keep what is owed.

    A leaf is removed under the exchange name only after a read found there the expected or the
    desired digest of a journal, and the journal's digests are named. What a journal file holds is
    the beginning of the text that this call wrote, so what is read of it names nothing else. -/

namespace Dpone.Confined
open Dpone.Schemes Dpone.Schemes.Crash

variable {site : Site} {P : World → Prop} {w : World}

/-- Nothing owed is lost. -/
def Safe (site : Site) (w : World) : Prop := Kept site w.leaves w.owed w.named

theorem safe_stable : Stable site (Safe site) := kept_stable site

theorem ofExcept_keeps {α : Type} (x : Except Fault α) : Keeps P (ofExcept x) := fun _ h => by
  cases x <;> exact h

/-! ### Names -/

/-- The exchange name of a transaction on the site. -/
structure Sibling (site : Site) (exchange : Str) : Prop where
  ne_target : exchange ≠ site.target
  ne_journal : exchange ≠ journalName site.target

theorem sibling_of_valid {exchange : Str}
    (h : validateTransactionNames site site.target exchange = .ok ()) : Sibling site exchange := by
  unfold validateTransactionNames at h
  obtain ⟨journal, hjournal, h⟩ := bind_ok.mp h
  obtain ⟨_, -, h⟩ := bind_ok.mp h
  obtain ⟨_, -, h⟩ := bind_ok.mp h
  obtain ⟨_, -, hname⟩ := bind_ok.mp hjournal
  obtain rfl := Except.ok.inj hname
  split_ifs at h with hnames
  · exact ⟨fun h => hnames (.inl h.symm), fun h => hnames (.inr (.inr h.symm))⟩

/-! ### Writing a journal -/

/-- The journal holds the text of the record up to what is still to be written. -/
def Written (site : Site) (record : JournalRecord) (rest : Str) (w : World) : Prop :=
  record.expectedSha256 ∈ w.named ∧ record.desiredSha256 ∈ w.named ∧
    ∃ f, w.leaves.leaf (journalName site.target) = some f ∧ f.content ++ rest = encodeText record

theorem written_stable (record : JournalRecord) (rest : Str) :
    Stable site (Written site record rest) :=
  (named_stable site _).and ((named_stable site _).and
    (leaf_stable site (journalName_ne _) fun leaf => ∃ f, leaf = some f ∧
      f.content ++ rest = encodeText record))

/-- INVARIANT: the journal file grows towards the text of its record. -/
theorem Kept.journal_put (h : Safe site w) {record : JournalRecord} (file : LeafFile) {rest : Str}
    (hexpected : record.expectedSha256 ∈ w.named) (hdesired : record.desiredSha256 ∈ w.named)
    (hcontent : file.content ++ rest = encodeText record)
    (hinode : ∀ n f, w.leaves.leaf n = some f → n ≠ journalName site.target →
      f.inode ≠ file.inode) :
    Safe site { w with leaves := w.leaves.put (journalName site.target) file } := by
  refine h.put hinode h.journalFree fun _ read hread => ?_
  obtain rfl := decode_beginning ⟨rest, hcontent⟩ hread
  exact ⟨hexpected, hdesired⟩

theorem createJournal_ends (record : JournalRecord)
    (h : Safe site w ∧ record.expectedSha256 ∈ w.named ∧ record.desiredSha256 ∈ w.named) :
    (createLeaf site (journalName site.target) w).Ends
      (fun _ w => Safe site w ∧ Written site record (encodeText record) w)
      (fun _ => Safe site) (Safe site) := by
  refine (syscall_ends (R := Safe site) (safe_stable.and ((named_stable site _).and (named_stable site _))) h
    (fun _ h => h.1) fun t w a d h heq => ?_).imp (fun _ _ h => h) (fun _ _ h => h) fun _ h => h.1
  obtain ⟨hsafe, hexpected, hdesired⟩ := h
  split_ifs at heq with hleaf
  cases heq
  have hput := Kept.journal_put hsafe ⟨w.leaves.freshInode t.inode, []⟩ hexpected
    hdesired (List.nil_append _) fun n f hf _ => Directory.freshInode_free t.inode hf
  exact ⟨⟨hput, hexpected, hdesired, _, by rw [Directory.leaf_put, if_pos rfl], rfl⟩, hput⟩

theorem writeLeaf_ends (record : JournalRecord) (payload : Str)
    (h : Safe site w ∧ Written site record payload w) :
    (writeLeaf site (journalName site.target) payload w).Ends
      (fun written w => Safe site w ∧ Written site record (payload.drop written) w)
      (fun _ => Safe site) (Safe site) := by
  refine (syscall_ends (R := Safe site) (safe_stable.and (written_stable record payload)) h
    (fun _ h => h.1) fun t w a d h heq => ?_).imp (fun _ _ h => h) (fun _ _ h => h) fun _ h => h.1
  obtain ⟨hsafe, hexpected, hdesired, f, hf, hcontent⟩ := h
  rw [hf] at heq
  obtain ⟨rfl, rfl⟩ := Prod.mk.inj (Except.ok.inj heq)
  have htake : payload.take t.written ++ payload.drop (min t.written payload.length) = payload := by
    rcases Nat.le_total t.written payload.length with hle | hle
    · rw [Nat.min_eq_left hle, List.take_append_drop]
    · rw [Nat.min_eq_right hle, List.take_of_length_le hle, List.drop_length, List.append_nil]
  have hrest : (f.content ++ payload.take t.written) ++
      payload.drop (min t.written payload.length) = encodeText record := by
    rw [List.append_assoc, htake, hcontent]
  have hput := Kept.journal_put hsafe
    { f with content := f.content ++ payload.take t.written } hexpected hdesired
    hrest fun n g hg hn hinode => hn (hsafe.distinct _ _ g f hg hf hinode)
  exact ⟨⟨hput, hexpected, hdesired, _, by rw [Directory.leaf_put, if_pos rfl], hrest⟩, hput⟩

/-- The journal of an open transaction is there, and what it names is noted. -/
structure Journaled (site : Site) (record : JournalRecord) (w : World) : Prop where
  safe : Safe site w
  present : w.leaves.leaf (journalName site.target) ≠ none
  expected : record.expectedSha256 ∈ w.named
  desired : record.desiredSha256 ∈ w.named

theorem journaled_stable (site : Site) (record : JournalRecord) : Stable site (Journaled site record) :=
  ⟨fun w file h => ⟨h.safe.install file,
      (leaf_stable site (journalName_ne site.target) (· ≠ none)).install w file h.present,
      h.expected, h.desired⟩,
    fun _ _ h => ⟨h.safe, h.present, h.expected, h.desired⟩⟩

theorem writeAll_ends (record : JournalRecord) : ∀ (fuel : ℕ) (payload : Str) {w : World},
    Safe site w ∧ Written site record payload w →
    (writeAll site (journalName site.target) fuel payload w).Ends
      (fun _ => Journaled site record) (fun _ => Safe site) (Safe site)
  | 0, payload, w, h => by
    obtain ⟨hsafe, hexpected, hdesired, f, hf, -⟩ := h
    exact ⟨hsafe, by rw [hf]; nofun, hexpected, hdesired⟩
  | fuel + 1, [], w, h => by
    obtain ⟨hsafe, hexpected, hdesired, f, hf, -⟩ := h
    exact ⟨hsafe, by rw [hf]; nofun, hexpected, hdesired⟩
  | fuel + 1, c :: payload, w, h => by
    unfold writeAll
    rw [bind_ends]
    refine (writeLeaf_ends record (c :: payload) h).imp (fun written w h => ?_) (fun _ _ h => h)
      fun _ h => h
    split_ifs
    · exact h.1
    · exact writeAll_ends record fuel _ h

/-- The journal file is created, written and synced. -/
theorem journalFile_ends {record : JournalRecord} (hsafe : Safe site w)
    (hexpected : record.expectedSha256 ∈ w.named) (hdesired : record.desiredSha256 ∈ w.named) :
    ((do
      createLeaf site (journalName site.target)
      writeAll site (journalName site.target) (encodeText record).length (encodeText record)
      let metadata ← statLeaf site (journalName site.target)
      if metadata.size ≠ (encodeText record).length then raise (.journal "journal_invalid")
      else
        fsync site
        statLeaf site (journalName site.target) : Call FileIdentity) w).Ends
      (fun _ => Journaled site record) (fun _ => Safe site) (Safe site) := by
  have hstable := journaled_stable site record
  rw [bind_ends]
  refine (createJournal_ends record ⟨hsafe, hexpected, hdesired⟩).imp (fun _ w h => ?_)
    (fun _ _ h => h) fun _ h => h
  rw [bind_ends]
  refine (writeAll_ends record _ _ h).imp (fun _ w h => ?_) (fun _ _ h => h) fun _ h => h
  rw [bind_ends]
  refine (statLeaf_ends hstable h _).imp (fun _ w h => ?_) (fun _ _ h => h.safe) fun _ h => h.safe
  split_ifs
  · exact h.1.safe
  · rw [bind_ends]
    refine (fsync_keeps hstable w h.1).imp (fun _ w h => ?_) (fun _ _ h => h.safe) fun _ h => h.safe
    exact (statLeaf_ends hstable h _).imp (fun _ _ h => h.1) (fun _ _ h => h.safe)
      fun _ h => h.safe

theorem encode_ends (record : JournalRecord) (h : P w) :
    (ofExcept (encode record) w).Ends (fun payload w => P w ∧ payload = encodeText record)
      (fun _ => P) P := by
  unfold encode
  split_ifs
  · exact h
  · exact ⟨h, rfl⟩

theorem createTransactionJournal_ends {record : JournalRecord}
    (htarget : record.targetName = site.target) (h : Safe site w) :
    (createTransactionJournal site record w).Ends
      (fun journal w => Journaled site record w ∧ journal.name = journalName site.target ∧
        journal.record = record)
      (fun _ => Safe site) (Safe site) := by
  unfold createTransactionJournal
  rw [htarget, bind_ends]
  refine (ofExcept_keeps _ w h).imp (fun _ w h => ?_) (fun _ _ h => h) fun _ h => h
  rw [bind_ends]
  refine (ofExcept_keeps _ w h).imp (fun _ w h => ?_) (fun _ _ h => h) fun _ h => h
  rw [bind_ends]
  refine (ofExcept_keeps _ w h).imp (fun _ w h => ?_) (fun _ _ h => h) fun _ h => h
  rw [bind_ends]
  refine (encode_ends record h).imp (fun payload w h => ?_) (fun _ _ h => h) fun _ h => h
  obtain ⟨h, rfl⟩ := h
  rw [bind_ends]
  have hnoted : Safe site
      { w with named := record.expectedSha256 :: record.desiredSha256 :: w.named } :=
    h.noted [record.expectedSha256, record.desiredSha256]
  change ((rescue _ _ >>= _ : Call _) _).Ends _ _ _
  rw [bind_ends, rescue_ends]
  refine (journalFile_ends hnoted (by simp) (by simp)).imp (fun _ w h => ?_) (fun fault w h => ?_)
    fun _ h => h
  · rw [bind_ends]
    exact (fsyncDirectory_keeps (journaled_stable site record) w h).imp (fun _ _ h => ⟨h, rfl, rfl⟩)
      (fun _ _ h => h.safe) fun _ h => h.safe
  · cases fault <;> exact h

/-! ### Endings of a transaction -/

theorem leafExists_keeps (hP : Stable site P) (name : Str) : Keeps P (leafExists site name) :=
  fun _ h => bind_keeps (found_ends ((statLeaf_ends hP h name).imp (fun _ _ h => h.1)
    (fun _ _ h => h) fun _ h => h) (fun _ h => h) fun _ h => h) fun _ => pure_keeps _

section Endings
variable {journal : JournalFile}

/-- The exchange artifact, then the journal: what each ending of a transaction removes. -/
theorem removeBoth_safe {artifact : FileSnapshot} {α : Type} (a : α)
    (hexchange : journal.record.exchangeName ≠ site.target)
    (hname : journal.name = journalName site.target) (hsafe : Safe site w)
    (hfree : Free site w.leaves w.owed w.named journal.record.exchangeName) :
    ((do
      removeSnapshot site journal.record.exchangeName artifact
      removeTransactionJournal site journal
      return a : Call α) w).Ends (fun _ => Safe site) (fun _ => Safe site) (Safe site) :=
  bind_keeps (removeSnapshot_kept hexchange artifact hsafe hfree) fun _ w h =>
    bind_keeps (removeTransactionJournal_keeps hname w h) fun _ => pure_keeps a

theorem finishCommitted_safe {displaced : FileSnapshot}
    (hexchange : journal.record.exchangeName ≠ site.target)
    (hname : journal.name = journalName site.target) (hsafe : Safe site w)
    (hfree : Free site w.leaves w.owed w.named journal.record.exchangeName) :
    (finishCommitted site journal displaced w).Ends (fun _ => Safe site) (fun _ => Safe site)
      (Safe site) :=
  rescue_keeps (removeBoth_safe _ hexchange hname hsafe hfree) fun _ w h =>
    bind_keeps (leafExists_keeps safe_stable _ w h) fun _ => pure_keeps _

theorem finishRecovery_safe {artifact : Option FileSnapshot} {status : RecoveryStatus}
    {committed : Bool} (hexchange : journal.record.exchangeName ≠ site.target)
    (hname : journal.name = journalName site.target) (hsafe : Safe site w)
    (hfree : artifact ≠ none → Free site w.leaves w.owed w.named journal.record.exchangeName) :
    (finishRecovery site journal artifact status committed w).Ends (fun _ => Safe site)
      (fun _ => Safe site) (Safe site) := by
  refine rescue_keeps ?_ fun _ w h =>
    bind_keeps (leafExists_keeps safe_stable _ w h) fun _ => pure_keeps _
  cases artifact with
  | none => exact bind_keeps (removeTransactionJournal_keeps hname w hsafe) fun _ => pure_keeps _
  | some artifact => exact removeBoth_safe _ hexchange hname hsafe (hfree nofun)

theorem raiseAfterSourceMismatch_safe {displaced prepared : FileSnapshot} {code : String}
    (hsibling : Sibling site journal.record.exchangeName)
    (hname : journal.name = journalName site.target) (h : Journaled site journal.record w) :
    (raiseAfterSourceMismatch site journal displaced prepared code w).Ends (fun _ => Safe site)
      (fun _ => Safe site) (Safe site) := by
  refine bind_keeps (rescue_keeps (exchangeBack_kept hsibling.ne_target hsibling.ne_journal h.safe
    h.present h.desired) fun _ => raise_keeps _) fun rollback w h => ?_
  exact bind_keeps (rescue_keeps (removeTransactionJournal_keeps hname w h)
    fun _ => raise_keeps _) fun _ => raise_keeps _

theorem recoverExchangeBack_safe {target exchangeSide : FileSnapshot}
    (hsibling : Sibling site journal.record.exchangeName)
    (hname : journal.name = journalName site.target) (h : Journaled site journal.record w) :
    (recoverExchangeBack site journal target exchangeSide w).Ends (fun _ => Safe site)
      (fun _ => Safe site) (Safe site) := by
  refine bind_keeps (rescue_keeps (bind_keeps (exchangeBack_kept hsibling.ne_target
    hsibling.ne_journal h.safe h.present h.desired) fun _ => pure_keeps _)
    fun _ => pure_keeps _) fun rolled w h => ?_
  cases rolled with
  | none => exact h
  | some rollback =>
    refine bind_keeps (rescue_keeps (bind_keeps (removeTransactionJournal_keeps hname w h)
      fun _ => pure_keeps _) fun _ => pure_keeps _) fun removed w h => ?_
    cases removed <;> exact h

end Endings

/-! ### Recovery -/

theorem loadTransactionJournal_ends (h : Safe site w) :
    (loadTransactionJournal site w).Ends
      (fun loaded w => Safe site w ∧ ∀ journal, loaded = some journal →
        Journaled site journal.record w ∧ journal.name = journalName site.target ∧
          journal.record.targetName = site.target)
      (fun _ => Safe site) (Safe site) := by
  unfold loadTransactionJournal
  cases hname : transactionJournalName site.target with
  | error e => exact h
  | ok name =>
    obtain ⟨_, -, hname⟩ := bind_ok.mp hname
    obtain rfl := Except.ok.inj hname
    change (if _ then _ else _ : Call _) w |>.Ends _ _ _
    split_ifs
    · exact h
    rw [bind_ends, rescue_ends, bind_ends]
    refine (readConfinedLeaf_ends safe_stable h _ _).imp (fun snapshot w h => ?_)
      (fun fault w h => ?_) fun _ h => h
    · obtain ⟨h, f, hf, rfl⟩ := h
      change ((ofExcept (decode f.content site.target) >>= _ : Call _) w).Ends _ _ _
      cases hdecode : decode f.content site.target with
      | error e => exact h
      | ok record =>
        refine ⟨h, fun journal hjournal => ?_⟩
        obtain rfl := Option.some.inj hjournal
        obtain ⟨hexpected, hdesired⟩ := h.journalNamed f record hf hdecode
        exact ⟨⟨h, by rw [hf]; nofun, hexpected, hdesired⟩, rfl, decode_target hdecode⟩
    · cases fault with
      | confinedFile code =>
        by_cases hcode : code = "file_not_found"
        · subst hcode
          exact ⟨h, nofun⟩
        · simp only [if_neg hcode]
          exact h
      | _ => exact h

theorem readOptional_ends (hP : Stable site P) (h : P w) (name : Str) :
    (readOptional site name w).Ends
      (fun side w => P w ∧ ∀ snapshot, side = some snapshot →
        ∃ f, w.leaves.leaf name = some f ∧ snapshot = f.snapshot site)
      (fun _ => P) P := by
  unfold readOptional
  rw [rescue_ends, bind_ends]
  refine (readConfinedLeaf_ends hP h _ _).imp (fun snapshot w h => ?_) (fun fault w h => ?_)
    fun _ h => h
  · refine ⟨h.1, fun _ hs => ?_⟩
    obtain rfl := Option.some.inj hs
    exact h.2
  · cases fault with
    | confinedFile code =>
      by_cases hcode : code = "file_not_found"
      · subst hcode
        exact ⟨h, nofun⟩
      · simp only [if_neg hcode]
        exact h
    | _ => exact h

section Recovery
variable {journal : JournalFile}

/-- Every row of the table removes, if anything, bytes that the journal names. -/
theorem recoverDecided_safe {target : FileSnapshot} {exchangeSide : Option FileSnapshot}
    (hsibling : Sibling site journal.record.exchangeName)
    (hname : journal.name = journalName site.target) (h : Journaled site journal.record w)
    (hside : ∀ snapshot, exchangeSide = some snapshot →
      ∃ f, w.leaves.leaf journal.record.exchangeName = some f ∧ snapshot = f.snapshot site) :
    (recoverDecided site journal target exchangeSide w).Ends (fun _ => Safe site)
      (fun _ => Safe site) (Safe site) := by
  have hfree : ∀ digest, exchangeSide.map (·.sha256) = some digest → digest ∈ w.named →
      Free site w.leaves w.owed w.named journal.record.exchangeName := by
    intro digest hdigest hnamed g hg _
    obtain ⟨snapshot, hsnapshot, rfl⟩ := Option.map_eq_some_iff.mp hdigest
    obtain ⟨f, hf, rfl⟩ := hside snapshot hsnapshot
    rw [hf] at hg
    obtain rfl := Option.some.inj hg
    exact hnamed
  unfold recoverDecided
  split_ifs with hcommitted hrolled hgone
  · exact finishRecovery_safe hsibling.ne_target hname h.safe
      fun _ => hfree _ hcommitted.2 h.expected
  · exact finishRecovery_safe hsibling.ne_target hname h.safe fun _ => hfree _ hrolled.2 h.desired
  · exact finishRecovery_safe hsibling.ne_target hname h.safe fun hne => absurd rfl hne
  · cases exchangeSide <;> exact h.safe
  · cases exchangeSide with
    | none => exact h.safe
    | some exchangeSide => exact recoverExchangeBack_safe hsibling hname h

/-- A handler that answers with nothing or raises. -/
theorem passed_ends {α : Type} {handler : Call (Option α)} (h : Safe site w)
    (hpassed : handler = pure none ∨ ∃ fault, handler = raise fault) :
    (handler w).Ends (fun answer w => Safe site w ∧ answer = none) (fun _ => Safe site)
      (Safe site) := by
  rcases hpassed with rfl | ⟨fault, rfl⟩
  · exact ⟨h, rfl⟩
  · exact h

/-- RUN: recovery keeps what is owed, for every schedule and wherever it stops. -/
theorem recoverTransaction_safe (h : Safe site w) :
    (recoverTransaction site w).Ends (fun _ => Safe site) (fun _ => Safe site) (Safe site) := by
  unfold recoverTransaction
  rw [bind_ends, rescue_ends, bind_ends]
  refine (ofExcept_keeps _ w h).imp (fun _ w h => ?_) (fun fault w h => ?_) fun _ h => h
  swap
  · cases fault <;> exact h
  rw [bind_ends]
  refine (loadTransactionJournal_ends h).imp (fun loaded w h => ?_) (fun fault w h => ?_)
    fun _ h => h
  swap
  · cases fault <;> exact h
  cases loaded with
  | none => exact h.1
  | some journal =>
    obtain ⟨h, hname, htarget⟩ := h.2 journal rfl
    have hstable := journaled_stable site journal.record
    change ((rescue _ _ >>= _ : Call _) w).Ends _ _ _
    rw [bind_ends, rescue_ends, bind_ends, htarget]
    cases hvalid : validateTransactionNames site site.target journal.record.exchangeName with
    | error e => cases e <;> exact h.safe
    | ok _ =>
      have hsibling := sibling_of_valid hvalid
      change ((readOptional site site.target >>= _ : Call _) w).Ends _ _ _
      rw [bind_ends]
      refine (readOptional_ends hstable h _).imp (fun target w hfirst => ?_)
        (fun fault w h => ?_) fun _ h => h.safe
      · rw [bind_ends]
        refine (readOptional_ends hstable hfirst.1 _).imp (fun side w h => ?_) (fun fault w h => ?_)
          fun _ h => h.safe
        · rw [pure_ends]
          cases target with
          | none => exact h.1.safe
          | some target => exact recoverDecided_safe hsibling hname h.1 h.2
        · refine (passed_ends h.safe ?_).imp (fun sides w h => ?_) (fun _ _ h => h) fun _ h => h
          · cases fault <;> first | exact .inl rfl | exact .inr ⟨_, rfl⟩
          · obtain ⟨h, rfl⟩ := h
            exact h
      · refine (passed_ends h.safe ?_).imp (fun sides w h => ?_) (fun _ _ h => h) fun _ h => h
        · cases fault <;> first | exact .inl rfl | exact .inr ⟨_, rfl⟩
        · obtain ⟨h, rfl⟩ := h
          exact h

end Recovery

/-! ### Replacement -/

theorem leafMatchesSnapshot_keeps (hP : Stable site P) (name : Str) (expected : FileSnapshot) :
    Keeps P (leafMatchesSnapshot site name expected) := by
  intro w h
  refine bind_keeps (rescue_keeps (bind_keeps ((readConfinedLeaf_ends hP h _ _).imp
    (fun _ _ h => h.1) (fun _ _ h => h) fun _ h => h) fun _ => pure_keeps _) fun fault => ?_)
    fun _ => pure_keeps _
  cases fault <;> intro w h <;> exact h

/-- After the exchange only the expected bytes are removed, or the names are exchanged back. -/
theorem exchangePrepared_safe {call : Replacement} {journal : JournalFile}
    {replacement : FileSnapshot} (hsibling : Sibling site call.replacementName)
    (hname : journal.name = journalName site.target)
    (hexchange : journal.record.exchangeName = call.replacementName)
    (hexpected : journal.record.expectedSha256 = call.expectedSha256)
    (h : Journaled site journal.record w) :
    (exchangePrepared site call journal replacement w).Ends (fun _ => Safe site)
      (fun _ => Safe site) (Safe site) := by
  have hstable := journaled_stable site journal.record
  unfold exchangePrepared
  rw [bind_ends, rescue_ends]
  refine (atomicExchange_ends (A := Journaled site journal.record) (R := Safe site) hstable h
    (fun _ h => h.safe) (fun _ h => h.safe) fun w h _ _ => ?_).imp (fun _ w h => ?_)
    (fun _ _ h => h) fun _ h => h.safe
  · refine ⟨h.safe.exchanged (journalName_ne _) hsibling.ne_journal.symm, ?_, h.expected, h.desired⟩
    rw [Directory.leaf_exchanged, Directory.swapped, if_neg (journalName_ne _),
      if_neg hsibling.ne_journal.symm]
    exact h.present
  rw [bind_ends]
  have hsynced : Keeps (Journaled site journal.record)
      (rescue (do fsync site; return true) fun _ => pure false) := fun w h =>
    rescue_keeps (bind_keeps (fsync_keeps hstable w h) fun _ => pure_keeps _) fun _ => pure_keeps _
  refine (hsynced w h).imp (fun synced w h => ?_) (fun _ _ h => h.safe) fun _ h => h.safe
  rw [bind_ends, rescue_ends]
  refine (readConfinedLeaf_ends hstable h _ _).imp (fun displaced w h => ?_) (fun fault w h => ?_)
    fun _ h => h.safe
  swap
  · cases fault <;> exact h.safe
  obtain ⟨h, f, hf, rfl⟩ := h
  by_cases hdigest : (f.snapshot site).sha256 = call.expectedSha256
  · have hfree : Free site w.leaves w.owed w.named call.replacementName := by
      intro g hg _
      rw [hf] at hg
      obtain rfl := Option.some.inj hg
      rw [show site.sha256 f.content = call.expectedSha256 from hdigest, ← hexpected]
      exact h.expected
    have hboth := hstable.and (free_stable hsibling.ne_target)
    rw [if_neg (fun hne => hne hdigest), bind_ends]
    refine (leafMatchesSnapshot_keeps hboth _ _ w ⟨h, hfree⟩).imp (fun found w h => ?_)
      (fun _ _ h => h.1.safe) fun _ h => h.1.safe
    cases found with
    | false => exact raiseAfterSourceMismatch_safe (hexchange ▸ hsibling) hname h.1
    | true =>
      by_cases hunsynced : synced = false
      · simp only [if_pos hunsynced]
        exact h.1.safe
      · simp only [if_neg hunsynced]
        exact finishCommitted_safe (hexchange ▸ hsibling.ne_target) hname h.1.safe
          (hexchange ▸ h.2)
  · rw [if_pos hdigest]
    exact raiseAfterSourceMismatch_safe (hexchange ▸ hsibling) hname h

theorem readForReplace_keeps (hP : Stable site P) (name : Str) :
    Keeps P (readForReplace site name) := by
  intro w h
  refine rescue_keeps ((readConfinedLeaf_ends hP h _ _).imp (fun _ _ h => h.1) (fun _ _ h => h)
    fun _ h => h) fun fault => ?_
  cases fault <;> intro w h <;> exact h

/-- RUN: a replacement keeps what is owed, for every schedule and wherever it stops. -/
theorem replaceFileIfDigest_safe (call : Replacement) (h : Safe site w) :
    (replaceFileIfDigest site call w).Ends (fun _ => Safe site) (fun _ => Safe site)
      (Safe site) := by
  unfold replaceFileIfDigest
  rw [bind_ends]
  unfold validateReplaceInputs
  rw [rescue_ends, bind_ends]
  cases hvalid : validateTransactionNames site site.target call.replacementName with
  | error fault => cases fault <;> exact h
  | ok _ =>
    have hsibling := sibling_of_valid hvalid
    change (ofExcept (validateSha256 call.expectedSha256) w).Ends _ _ _
    refine (ofExcept_keeps _ w h).imp (fun _ w h => ?_) (fun fault w h => ?_) fun _ h => h
    swap
    · cases fault <;> exact h
    refine bind_keeps (recoverTransaction_safe h) fun recovery w h => ?_
    split_ifs
    · exact h
    unfold replaceRecovered
    refine bind_keeps (readForReplace_keeps safe_stable _ w h) fun target w h => ?_
    refine bind_keeps (readForReplace_keeps safe_stable _ w h) fun replacement w h => ?_
    split_ifs
    · exact h
    · exact h
    rw [bind_ends, rescue_ends]
    refine (createTransactionJournal_ends rfl h).imp (fun journal w h => ?_) (fun fault w h => ?_)
      fun _ h => h
    · obtain ⟨h, hname, hrecord⟩ := h
      exact exchangePrepared_safe hsibling hname (by rw [hrecord]) (by rw [hrecord])
        (hrecord ▸ h)
    · cases fault with
      | journal code =>
        simp only [journalMutationError]
        split_ifs <;> exact h
      | _ => exact h

end Dpone.Confined
