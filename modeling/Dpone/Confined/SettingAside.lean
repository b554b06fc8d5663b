import Dpone.Confined.Preservation

/-! Setting an unknown file aside.

    The marker reserves a recovery name that was free, so it is apart from the three names of an
    open transaction; after the exchange of names the marker is under the exchange name and the
    unknown file under the recovery name. Only the marker is removed, on whichever side it is. -/

namespace Dpone.Confined
open Dpone.Schemes Dpone.Schemes.Crash

variable {site : Site} {P : World → Prop} {w : World}

/-- The three names of an open transaction are taken. -/
structure Open (site : Site) (exchange : Str) (d : Directory) : Prop where
  target : d.leaf site.target ≠ none
  exchange : d.leaf exchange ≠ none
  journal : d.leaf (journalName site.target) ≠ none

/-- The name is a recovery leaf of this call: apart from the three, and free. -/
structure Reserved (site : Site) (exchange name : Str) (w : World) : Prop where
  ne_target : name ≠ site.target
  ne_exchange : name ≠ exchange
  ne_journal : name ≠ journalName site.target
  free : Free site w.leaves w.owed w.named name

section Aside
variable {exchange : Str}

theorem open_stable (site : Site) {exchange : Str} (hexchange : exchange ≠ site.target) :
    Stable site fun w => Open site exchange w.leaves := by
  have hjournal := leaf_stable site (journalName_ne site.target) (· ≠ none)
  have hleaf := leaf_stable site hexchange (· ≠ none)
  exact ⟨fun w file h => ⟨target_stable.install w file h.target, hleaf.install w file h.exchange,
    hjournal.install w file h.journal⟩, fun _ _ h => h⟩

theorem reserved_stable (site : Site) (exchange name : Str) : Stable site (Reserved site exchange name) :=
  ⟨fun w file h => ⟨h.ne_target, h.ne_exchange, h.ne_journal,
      (free_stable h.ne_target).install w file h.free⟩,
    fun _ _ h => ⟨h.ne_target, h.ne_exchange, h.ne_journal, h.free⟩⟩

/-- A marker takes a free name, so it is none of the three. -/
theorem createLeaf_reserved (hexchange : exchange ≠ site.target) (name : Str)
    (h : Kept site w.leaves w.owed w.named ∧ Open site exchange w.leaves) :
    (createLeaf site name w).Ends
      (fun _ w => (Kept site w.leaves w.owed w.named ∧ Open site exchange w.leaves) ∧
        Reserved site exchange name w)
      (fun _ w => Kept site w.leaves w.owed w.named ∧ Open site exchange w.leaves)
      fun w => Kept site w.leaves w.owed w.named ∧ Open site exchange w.leaves := by
  refine syscall_ends ((kept_stable site).and (open_stable site hexchange)) h (fun _ h => h)
    fun t w a d h heq => ?_
  obtain ⟨hkept, hopen⟩ := h
  split_ifs at heq with hleaf
  cases heq
  have hnone : w.leaves.leaf name = none := by simpa using hleaf
  have htarget : name ≠ site.target := fun h => hopen.target (h ▸ hnone)
  have hside : name ≠ exchange := fun h => hopen.exchange (h ▸ hnone)
  have hjournal : name ≠ journalName site.target := fun h => hopen.journal (h ▸ hnone)
  have hinode : ∀ n f, w.leaves.leaf n = some f → n ≠ name →
      f.inode ≠ (⟨w.leaves.freshInode t.inode, []⟩ : LeafFile).inode :=
    fun n f hf _ => Directory.freshInode_free t.inode hf
  have hfree : Free site w.leaves w.owed w.named name := fun f hf => by simp [hnone] at hf
  have hkept' := hkept.put hinode hfree (fun h => absurd h hjournal)
  have hopen' : Open site exchange
      (w.leaves.put name ⟨w.leaves.freshInode t.inode, []⟩) := by
    constructor <;> rw [Directory.leaf_put, if_neg]
    · exact hopen.target
    · exact htarget.symm
    · exact hopen.exchange
    · exact hside.symm
    · exact hopen.journal
    · exact hjournal.symm
  exact ⟨⟨⟨hkept', hopen'⟩, htarget, hside, hjournal, hkept.free_put hinode hfree⟩, hkept', hopen'⟩

/-- The marker under its name, which is how its identity was read. -/
def Marked (site : Site) (exchange name : Str) (marker : FileIdentity) (w : World) : Prop :=
  Reserved site exchange name w ∧ ∃ f, w.leaves.leaf name = some f ∧ f.identity = marker

theorem marked_stable (site : Site) (exchange name : Str) (marker : FileIdentity) :
    Stable site (Marked site exchange name marker) :=
  ⟨fun w file h => ⟨(reserved_stable site exchange name).install w file h.1,
      (leaf_stable site h.1.ne_target fun leaf => ∃ f, leaf = some f ∧ f.identity = marker).install
        w file h.2⟩,
    fun w turns h => ⟨(reserved_stable site exchange name).turns w turns h.1, h.2⟩⟩

theorem createMarker_ends (hexchange : exchange ≠ site.target) : ∀ (attempts : ℕ) {w : World},
    Kept site w.leaves w.owed w.named ∧ Open site exchange w.leaves →
    (createMarker site attempts w).Ends
      (fun p w => (Kept site w.leaves w.owed w.named ∧ Open site exchange w.leaves) ∧
        Marked site exchange p.1 p.2 w)
      (fun _ w => Kept site w.leaves w.owed w.named)
      fun w => Kept site w.leaves w.owed w.named
  | 0, _, h => h.1
  | attempts + 1, w, h => by
    have hopen := (kept_stable site).and (open_stable site hexchange)
    have hreserved := fun name => hopen.and (reserved_stable site exchange name)
    have hmarked := fun name marker => hopen.and
      (marked_stable site exchange name marker)
    unfold createMarker
    rw [bind_ends]
    change ((rescue _ _ >>= _ : Call _) w).Ends _ _ _
    rw [bind_ends, rescue_ends, bind_ends]
    refine (createLeaf_reserved hexchange _ h).imp (fun _ w h => ?_) (fun e w h => ?_)
      fun _ h => h.1
    · change ((fsync site >>= _ : Call _) w).Ends _ _ _
      rw [bind_ends]
      refine (fsync_keeps (hreserved _) w h).imp (fun _ w h => ?_) (fun _ _ h => h.1.1)
        fun _ h => h.1.1
      rw [bind_ends]
      refine (statLeaf_ends (hreserved _) h _).imp (fun identity w h => ?_) (fun _ _ h => h.1.1)
        fun _ h => h.1.1
      obtain ⟨⟨h, hreserved⟩, f, hf, rfl⟩ := h
      rw [bind_ends]
      refine (fsync_keeps (hmarked _ _) w ⟨h, hreserved, f, hf, rfl⟩).imp (fun _ _ h => h)
        (fun _ _ h => h.1.1) fun _ h => h.1.1
    · cases e with
      | fileExists => exact createMarker_ends hexchange attempts h
      | _ => exact h.1

/-- The marker under the exchange name, after the exchange with its recovery leaf. -/
structure Exchanged (site : Site) (exchange name : Str) (marker : FileIdentity) (w : World) :
    Prop where
  ne_target : name ≠ site.target
  ne_exchange : name ≠ exchange
  free : Free site w.leaves w.owed w.named exchange
  marked : ∃ f, w.leaves.leaf exchange = some f ∧ f.identity = marker

theorem exchanged_stable (site : Site) {exchange : Str} (hexchange : exchange ≠ site.target) (name : Str)
    (marker : FileIdentity) : Stable site (Exchanged site exchange name marker) :=
  ⟨fun w file h => ⟨h.ne_target, h.ne_exchange, (free_stable hexchange).install w file h.free,
      (leaf_stable site hexchange fun leaf => ∃ f, leaf = some f ∧ f.identity = marker).install
        w file h.marked⟩,
    fun _ _ h => ⟨h.ne_target, h.ne_exchange, h.free, h.marked⟩⟩

/-- A leaf with the marker's identity is the marker: it is free on either side. -/
theorem free_of_marker {name : Str} {marker : FileIdentity} {g : LeafFile}
    (hkept : Kept site w.leaves w.owed w.named)
    (h : Marked site exchange name marker w ∨ Exchanged site exchange name marker w)
    (hg : w.leaves.leaf name = some g) (hmarker : g.identity = marker) :
    Free site w.leaves w.owed w.named name := by
  rcases h with h | h
  · exact h.1.free
  · obtain ⟨f, hf, hfm⟩ := h.marked
    have hinode : g.inode = f.inode := congrArg FileIdentity.inode (hmarker.trans hfm.symm)
    exact absurd (hkept.distinct _ _ g f hg hf hinode) h.ne_exchange

theorem removeMarkerBestEffort_kept (hexchange : exchange ≠ site.target) {name : Str}
    {marker : FileIdentity} (hname : name ≠ site.target)
    (hkept : Kept site w.leaves w.owed w.named)
    (h : Marked site exchange name marker w ∨ Exchanged site exchange name marker w) :
    (removeMarkerBestEffort site name marker w).Ends
      (fun _ w => Kept site w.leaves w.owed w.named)
      (fun _ w => Kept site w.leaves w.owed w.named)
      fun w => Kept site w.leaves w.owed w.named := by
  have hside := (kept_stable site).and ((marked_stable site exchange name
    marker).or (exchanged_stable site hexchange name marker))
  unfold removeMarkerBestEffort
  rw [rescue_ends, bind_ends]
  refine (statLeaf_ends hside ⟨hkept, h⟩ name).imp (fun current w h => ?_) (fun _ _ h => h.1)
    fun _ h => h.1
  obtain ⟨⟨hkept, h⟩, g, hg, rfl⟩ := h
  split_ifs with hmarker
  · have hfree := free_of_marker hkept h hg hmarker
    rw [bind_ends]
    exact (unlink_ends ((kept_stable site).and (free_stable hname)) ⟨hkept, hfree⟩ (fun _ h => h.1)
      fun w h => h.1.remove h.2).imp
      (fun _ w h => (fsync_keeps (kept_stable site) w h).imp (fun _ _ h => h) (fun _ _ h => h) fun _ h => h)
      (fun _ _ h => h) fun _ h => h.1
  · exact hkept

theorem exchange_reserved {name : Str} {marker : FileIdentity} {w : World}
    (hexchange : exchange ≠ journalName site.target)
    (hkept : Kept site w.leaves w.owed w.named) (h : Marked site exchange name marker w) :
    Kept site (w.leaves.exchanged exchange name) w.owed w.named ∧
      Exchanged site exchange name marker
        { w with leaves := w.leaves.exchanged exchange name } := by
  obtain ⟨hreserved, f, hf, hmarker⟩ := h
  have hleaf : (w.leaves.exchanged exchange name).leaf exchange = w.leaves.leaf name := by
    rw [Directory.leaf_exchanged, Directory.swapped, if_pos rfl]
  refine ⟨hkept.exchanged hexchange.symm hreserved.ne_journal.symm, hreserved.ne_target,
    hreserved.ne_exchange, fun g hg howed => ?_, f, hleaf.trans hf, hmarker⟩
  exact hreserved.free g (hleaf ▸ hg) howed

/-- `_preserve_unknown` keeps what is owed, wherever it stops. -/
theorem preserveUnknown_kept (hexchange : exchange ≠ site.target)
    (hjournal : exchange ≠ journalName site.target) (hkept : Kept site w.leaves w.owed w.named)
    (hopen : Open site exchange w.leaves) :
    (preserveUnknown site exchange w).Ends
      (fun _ w => Kept site w.leaves w.owed w.named)
      (fun _ w => Kept site w.leaves w.owed w.named)
      fun w => Kept site w.leaves w.owed w.named := by
  unfold preserveUnknown
  rw [bind_ends]
  refine (createMarker_ends hexchange 16 ⟨hkept, hopen⟩).imp (fun p w h => ?_)
    (fun _ _ h => h) fun _ h => h
  obtain ⟨name, marker⟩ := p
  obtain ⟨⟨hkept, -⟩, hmarked⟩ := h
  have hname : name ≠ site.target := hmarked.1.ne_target
  have hbefore := (kept_stable site).and (marked_stable site exchange name marker)
  have hafter := (kept_stable site).and (exchanged_stable site hexchange name marker)
  dsimp only
  rw [bind_ends, rescue_ends, bind_ends]
  refine (atomicExchange_ends (A := fun w => Kept site w.leaves w.owed w.named ∧
      Exchanged site exchange name marker w) (R := fun w => Kept site w.leaves w.owed w.named ∧
      (Marked site exchange name marker w ∨ Exchanged site exchange name marker w))
    hbefore ⟨hkept, hmarked⟩ (fun _ h => ⟨h.1, .inl h.2⟩) (fun _ h => ⟨h.1, .inr h.2⟩)
    fun w h _ _ => exchange_reserved hjournal h.1 h.2).imp (fun _ w h => ?_) (fun fault w h => ?_)
    fun _ h => h.1
  · refine (fsync_keeps hafter w h).imp (fun _ w h => ?_) (fun fault w h => ?_) fun _ h => h.1
    · -- the marker is under the exchange name
      rw [rescue_ends, bind_ends]
      refine (readConfinedLeaf_ends hafter h exchange 0).imp (fun snapshot w h => ?_)
        (fun _ _ h => h.1) fun _ h => h.1
      split_ifs
      · exact h.1.1
      · rw [bind_ends]
        exact (removeSnapshot_kept hexchange snapshot h.1.1 h.1.2.free).imp (fun _ _ h => h)
          (fun _ _ h => h) fun _ h => h
    · rw [bind_ends]
      exact (removeMarkerBestEffort_kept hexchange hname h.1 (.inr h.2)).imp (fun _ _ h => h)
        (fun _ _ h => h) fun _ h => h
  · rw [bind_ends]
    exact (removeMarkerBestEffort_kept hexchange hname h.1 h.2).imp (fun _ _ h => h)
      (fun _ _ h => h) fun _ h => h

/-- `exchange_back` keeps what is owed: it removes only bytes with the desired digest. -/
theorem exchangeBack_kept (hexchange : exchange ≠ site.target)
    (hjournal : exchange ≠ journalName site.target) {displaced : FileSnapshot} {desired : Str}
    {identity : FileIdentity} (hkept : Kept site w.leaves w.owed w.named)
    (hpresent : w.leaves.leaf (journalName site.target) ≠ none) (hdesired : desired ∈ w.named) :
    (exchangeBack site exchange displaced desired identity w).Ends
      (fun _ w => Kept site w.leaves w.owed w.named)
      (fun _ w => Kept site w.leaves w.owed w.named)
      fun w => Kept site w.leaves w.owed w.named := by
  have hbefore := (kept_stable site).and ((leaf_stable site (journalName_ne site.target)
    (· ≠ none)).and (named_stable site desired))
  have hopen := (kept_stable site).and ((open_stable site hexchange).and (named_stable site desired))
  unfold exchangeBack
  rw [bind_ends]
  refine (atomicExchange_ends (A := fun w => Kept site w.leaves w.owed w.named ∧
      Open site exchange w.leaves ∧ desired ∈ w.named)
    (R := fun w => Kept site w.leaves w.owed w.named) hbefore ⟨hkept, hpresent, hdesired⟩
    (fun _ h => h.1) (fun _ h => h.1) fun w h ht he => ?_).imp (fun _ w h => ?_)
    (fun _ _ h => h) fun _ h => h.1
  · refine ⟨h.1.exchanged (journalName_ne _) hjournal.symm, ⟨?_, ?_, ?_⟩, h.2.2⟩ <;>
      rw [Directory.leaf_exchanged, Directory.swapped]
    · rwa [if_pos rfl]
    · rwa [if_neg hexchange, if_pos rfl]
    · rw [if_neg (journalName_ne _), if_neg hjournal.symm]
      exact h.2.1
  rw [bind_ends]
  refine (fsync_keeps hopen w h).imp (fun _ w h => ?_) (fun _ _ h => h.1) fun _ h => h.1
  rw [bind_ends]
  refine (readConfinedLeaf_ends hopen h _ _).imp (fun restored w h => ?_) (fun _ _ h => h.1)
    fun _ h => h.1
  split_ifs
  swap
  · exact h.1.1
  rw [bind_ends, rescue_ends, bind_ends]
  refine (readConfinedLeaf_ends hopen h.1 _ _).imp (fun candidate w h => ?_) (fun fault w h => ?_)
    fun _ h => h.1
  · obtain ⟨⟨hkept, hopen, hdesired⟩, f, hf, rfl⟩ := h
    change (if _ then _ else _ : Call _) w |>.Ends _ _ _
    split_ifs with howned
    · rw [bind_ends]
      refine (removeSnapshot_kept hexchange _ hkept fun g hg _ => ?_).imp (fun _ _ h => h)
        (fun _ _ h => h) fun _ h => h
      rw [hf] at hg
      obtain rfl := Option.some.inj hg
      rw [show site.sha256 f.content = desired from howned.1]
      exact hdesired
    · exact preserveUnknown_kept hexchange hjournal hkept hopen
  · cases fault with
    | confinedFile _ => exact preserveUnknown_kept hexchange hjournal h.1 h.2.1
    | _ => exact h.1

end Aside

end Dpone.Confined
