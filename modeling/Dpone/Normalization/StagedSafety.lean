import Mathlib.Data.List.Count
import Mathlib.Data.List.Nodup
import Dpone.Normalization.StagedMutation

/-! Staged mutation is fail-closed.

    The trace of a package has a fixed shape: stagings, validations, then pairs of entered and
    returned finalizations, or else aborts. A failure leaves the members that are pending, and the
    two locals `target_invoked` and `pending` say which of them was invoked. Everything that is
    claimed of the events and of the retained details is read off the shapes a package can end in. -/

namespace Dpone.Normalization
open Dpone.Schemes Program

/-! ### What fail-closed means -/

/-- The label of a retained member says what its own finalize did. -/
def Labelled (trace : List MutationEvent) (member : Member) (retained : RetainedMember) : Prop :=
  retained.target = qualifiedTarget member.loadConfig ∧
    match retained.targetOutcome with
    | .committed => .finalized member.id ∈ trace
    | .commitUnknown => .finalizing member.id ∈ trace ∧ .finalized member.id ∉ trace
    | .notInvoked => .finalizing member.id ∉ trace

/-- What holds of a package when its run is over. -/
structure FailClosed (w : MutationWorld) : Prop where
  validatedFirst : ∀ id older, (.finalizing id :: older) <:+ w.trace →
    ∀ id', .staged id' ∈ w.trace → .validated id' ∈ older
  finalizedOnce : ∀ id, w.trace.count (.finalizing id) ≤ 1
  abortedOnce : (∀ id, .finalizing id ∉ w.trace) →
    ∀ id, .staged id ∈ w.trace → w.trace.count (.aborted id) = 1
  noLateAbort : ∀ id older, (.aborted id :: older) <:+ w.trace → ∀ id', .finalizing id' ∉ older
  labelled : ∀ details, w.retained = some details →
    List.Forall₂ (Labelled w.trace) w.entries details.retainedMembers

/-! ### Shapes of the trace -/

/-- One event for each member, the last member newest. -/
def marked (mark : ℕ → MutationEvent) (members : List Member) : List MutationEvent :=
  (members.map fun member => mark member.id).reverse

/-- Members whose finalize was entered and returned. -/
def finalizedMarks (members : List Member) : List MutationEvent :=
  (members.flatMap fun member => [.finalizing member.id, .finalized member.id]).reverse

theorem mem_marked {mark : ℕ → MutationEvent} {members : List Member} {event : MutationEvent} :
    event ∈ marked mark members ↔ ∃ member ∈ members, mark member.id = event := by
  simp [marked]

theorem mem_finalizedMarks {members : List Member} {event : MutationEvent} :
    event ∈ finalizedMarks members ↔
      ∃ member ∈ members, event = .finalizing member.id ∨ event = .finalized member.id := by
  simp [finalizedMarks]

theorem marked_concat (mark : ℕ → MutationEvent) (members : List Member) (member : Member) :
    marked mark (members ++ [member]) = mark member.id :: marked mark members := by
  simp [marked]

theorem finalizedMarks_concat (members : List Member) (member : Member) :
    finalizedMarks (members ++ [member]) =
      .finalized member.id :: .finalizing member.id :: finalizedMarks members := by
  simp [finalizedMarks]

theorem count_marked {mark : ℕ → MutationEvent} (hmark : Function.Injective mark)
    {members : List Member} (hdistinct : (members.map (·.id)).Nodup) {id : ℕ}
    (hid : ∃ member ∈ members, member.id = id) : (marked mark members).count (mark id) = 1 := by
  have hmap : (members.map fun member => mark member.id) = (members.map (·.id)).map mark := by
    simp [Function.comp_def]
  rw [marked, List.count_reverse, hmap]
  refine List.count_eq_one_of_mem (hdistinct.map hmark) ?_
  obtain ⟨member, hmem, rfl⟩ := hid
  exact List.mem_map_of_mem (List.mem_map_of_mem hmem)

theorem count_finalizedMarks_le {members : List Member} (hdistinct : (members.map (·.id)).Nodup)
    (id : ℕ) : (finalizedMarks members).count (.finalizing id) ≤ 1 := by
  have hcount : (finalizedMarks members).count (.finalizing id) = (members.map (·.id)).count id := by
    rw [finalizedMarks, List.count_reverse]
    clear hdistinct
    induction members with
    | nil => rfl
    | cons member members ih =>
      rw [List.flatMap_cons, List.count_append, ih, List.map_cons, List.count_cons]
      by_cases hid : member.id = id
      · simp [hid, Nat.add_comm]
      · simp [hid]
  rw [hcount]
  exact List.nodup_iff_count_le_one.mp hdistinct id

/-- Where an event of the front part happened, the rest was over. -/
theorem rest_suffix {α : Type} {x : α} {older rest : List α} (hx : x ∉ rest) :
    ∀ {front : List α}, x :: older <:+ front ++ rest → rest <:+ older
  | [], h => absurd (h.subset List.mem_cons_self) hx
  | _ :: front, h => by
      rcases List.suffix_cons_iff.mp h with heq | h
      · rw [(List.cons.inj heq).2]
        exact List.suffix_append front rest
      · exact rest_suffix hx h

/-! ### Phases -/

/-- The condition: the row counts are valid, and no abort is interrupted. -/
structure Orderly (sink : PackageSink) : Prop where
  rows : ∀ n payload, sink.stagePayload n = .ok payload →
    validatedStagedRows payload.stagedRows ≠ none
  aborts : ∀ n, sink.abortStagedLoad n ≠ .error .interrupt

/-- Nothing is retained. -/
structure Clean (members : List Member) (w : MutationWorld) : Prop where
  distinct : (members.map (·.id)).Nodup
  unretained : w.retentionRequired = false
  retained : w.retained = none

/-- INVARIANT of staging: every handle that was returned is an entry. -/
structure Staging (w : MutationWorld) : Prop where
  clean : Clean w.entries w
  issued : ∀ member ∈ w.entries, member.id < w.calls
  finalized : w.finalizedTables = []
  trace : w.trace = marked .staged w.entries

/-- No target was invoked. -/
structure PreTarget (members done : List Member) (w : MutationWorld) : Prop where
  clean : Clean members w
  pending : w.pending = members
  uninvoked : w.targetInvoked = false
  finalized : w.finalizedTables = []
  subset : done ⊆ members
  trace : w.trace = marked .validated done ++ marked .staged members

/-- INVARIANT of the validations. -/
structure Validating (members done : List Member) (w : MutationWorld) : Prop
    extends PreTarget members done w where
  empty : w.entries = []

/-- What precedes the first finalize. -/
def prepared (members : List Member) : List MutationEvent :=
  marked .validated members ++ marked .staged members

/-- INVARIANT of the finalize loop. -/
structure Finalizing (done rest : List Member) (w : MutationWorld) : Prop where
  clean : Clean (done ++ rest) w
  empty : w.entries = []
  pending : w.pending = rest
  uninvoked : w.targetInvoked = false
  finalized : w.finalizedTables = [] ↔ done = []
  trace : w.trace = finalizedMarks done ++ prepared (done ++ rest)

/-- A failure in or after the finalize of a member. -/
structure Interrupted (done : List Member) (member : Member) (rest : List Member)
    (w : MutationWorld) : Prop where
  clean : ((done ++ member :: rest).map (·.id)).Nodup
  pending : w.pending = member :: rest
  reached : w.targetInvoked = true ∨ w.finalizedTables ≠ []
  trace : w.trace = (if w.targetInvoked then .finalizing member.id :: finalizedMarks done
    else finalizedMarks (done ++ [member])) ++ prepared (done ++ member :: rest)

/-- How the loop of `finalize_all` fails. -/
def Failed (w : MutationWorld) : Prop :=
  (∃ members done, PreTarget members done w) ∨
    ∃ done member rest, Interrupted done member rest w

/-- How a package ends. -/
inductive Ended (w : MutationWorld) : Prop where
  | complete (members : List Member) (clean : Clean members w) (entries : w.entries = [])
      (trace : w.trace = finalizedMarks members ++ prepared members)
  | aborted (members done : List Member) (clean : Clean members w) (entries : w.entries = [])
      (subset : done ⊆ members)
      (trace : w.trace = marked .aborted members ++
        (marked .validated done ++ marked .staged members))
  | retained (done : List Member) (member : Member) (rest : List Member)
      (failed : Interrupted done member rest w) (entries : w.entries = w.pending)
      (required : w.retentionRequired = true)
      (details : w.retained = some
        (nestedPackageRetentionDetails w.pending w.finalizedTables w.targetInvoked))

variable {sink : PackageSink} {w : MutationWorld}

theorem sinkCall_spec {α : Type} {P E : MutationWorld → Prop} {replies : ℕ → Except Raised α}
    {Q : α → MutationWorld → Prop}
    (hQ : ∀ a w, replies w.calls = .ok a → P w → Q a { w with calls := w.calls + 1 })
    (hE : ∀ w, P w → E { w with calls := w.calls + 1 }) : Triple P (sinkCall replies) Q E :=
  Triple.answered hQ fun _ w _ hw => hE w hw

theorem Clean.frame {members : List Member} {w' : MutationWorld} (h : Clean members w)
    (hrequired : w'.retentionRequired = w.retentionRequired) (hretained : w'.retained = w.retained) :
    Clean members w' :=
  ⟨h.distinct, hrequired.trans h.unretained, hretained.trans h.retained⟩

theorem Staging.append (h : Staging w) (loadConfig : LoadConfig) (payload : StagedPayload) :
    let member : Member := ⟨loadConfig, { payload with identity := w.calls }⟩
    Staging { w with
      entries := w.entries ++ [member]
      calls := w.calls + 1
      trace := .staged w.calls :: w.trace } := by
  have hnew : w.calls ∉ w.entries.map (·.id) := fun hmem => by
    obtain ⟨m, hm, heq⟩ := List.mem_map.mp hmem
    exact Nat.ne_of_lt (h.issued m hm) heq
  refine ⟨⟨?_, h.clean.unretained, h.clean.retained⟩, fun m hm => ?_, h.finalized, ?_⟩
  · rw [List.map_append]
    exact List.nodup_append_comm.mp (List.nodup_cons.mpr ⟨hnew, h.clean.distinct⟩)
  · rcases List.mem_append.mp hm with hm | hm
    · exact Nat.lt_succ_of_lt (h.issued m hm)
    · rw [List.mem_singleton.mp hm]
      exact Nat.lt_succ_self _
  · dsimp only
    rw [marked_concat, ← h.trace]
    rfl

/-- STEP: a returned handle becomes an entry. -/
theorem stage_spec (horderly : Orderly sink) (loadConfig : LoadConfig) :
    Triple Staging (stage sink loadConfig) (fun _ => Staging) Staging := by
  refine Triple.bind (Q := fun id w => Staging w ∧ id = w.calls) (Triple.read fun _ h => ⟨h, rfl⟩)
    fun id => ?_
  refine Triple.bind (Q := fun payload w => validatedStagedRows payload.stagedRows ≠ none ∧
      ∃ u, Staging u ∧ id = u.calls ∧ w = { u with calls := u.calls + 1 })
    (sinkCall_spec (fun payload w hreply hw => ⟨horderly.rows _ _ hreply, w, hw.1, hw.2, rfl⟩)
      fun w hw => ?_) fun payload => ?_
  · exact ⟨hw.1.clean.frame rfl rfl, fun m hm => Nat.lt_succ_of_lt (hw.1.issued m hm),
      hw.1.finalized, hw.1.trace⟩
  refine Triple.of_fact fun hvalid => ?_
  cases hrows : validatedStagedRows payload.stagedRows with
  | none => exact absurd hrows hvalid
  | some rows =>
    rintro w ⟨u, hu, rfl, rfl⟩
    exact hu.append loadConfig payload

/-! ### Aborting -/

theorem abortOne_spec (horderly : Orderly sink) (member : Member) {trace : List MutationEvent}
    {P : MutationWorld → Prop}
    (hP : ∀ w calls trace, P w → P { w with calls := calls, trace := trace }) :
    Triple (fun w => P w ∧ w.trace = trace) (abortOne sink member)
      (fun _ w => P w ∧ w.trace = .aborted member.id :: trace) (fun _ => False) := by
  refine Triple.bind (Q := fun _ w => P w ∧ w.trace = .aborted member.id :: trace)
    (Triple.modify fun w hw => ⟨hP w w.calls _ hw.1, congrArg _ hw.2⟩) fun _ => ?_
  refine Triple.bind (Q := fun reply w => reply ≠ .error .interrupt ∧ P w ∧
      w.trace = .aborted member.id :: trace) (Triple.answered (fun reply w hreply hw => ?_)
        fun e w hreply _ => nomatch hreply) fun reply => Triple.of_fact fun hreply => ?_
  · exact ⟨Except.ok.inj hreply ▸ horderly.aborts _, hP w _ w.trace hw.1, hw.2⟩
  rcases reply with (_ | _) | _
  · exact Triple.pure fun _ h => h
  · exact absurd rfl hreply
  · exact Triple.pure fun _ h => h

/-- RUN: every member is aborted once, whichever aborts fail. -/
theorem abortMembers_spec (horderly : Orderly sink) {P : MutationWorld → Prop}
    (hP : ∀ w calls trace, P w → P { w with calls := calls, trace := trace }) :
    ∀ (members : List Member) (trace : List MutationEvent),
      Triple (fun w => P w ∧ w.trace = trace) (abortMembers sink members)
        (fun _ w => P w ∧ w.trace = marked .aborted members ++ trace) (fun _ => False)
  | [], _ => Triple.pure fun _ h => h
  | member :: rest, trace => by
      refine Triple.bind (abortOne_spec horderly member hP) fun failed => ?_
      refine Triple.bind (abortMembers_spec horderly hP rest _) fun failedLater => ?_
      refine Triple.pure fun w hw => ⟨hw.1, hw.2.trans ?_⟩
      simp [marked]

/-- RUN: the entries of an unretained package are aborted, each once. -/
theorem abortAll_spec (horderly : Orderly sink) {members done : List Member}
    (hsubset : done ⊆ members) :
    Triple (fun w => Clean members w ∧ w.entries = members ∧
        w.trace = marked .validated done ++ marked .staged members)
      (abortAll sink) (fun _ => Ended) Ended := by
  rintro w ⟨hclean, hentries, htrace⟩
  have hopen : ¬ w.retentionRequired := by simp [hclean.unretained]
  unfold abortAll
  rw [if_neg hopen]
  refine Triple.bind (Q := fun entries w => (Clean members w ∧ entries = members) ∧
      w.trace = marked .validated done ++ marked .staged members)
    (Triple.read fun w hw => hw) (fun entries => ?_) w ⟨⟨hclean, hentries⟩, htrace⟩
  refine Triple.bind ((abortMembers_spec horderly (fun w calls trace hw =>
    ⟨hw.1.frame rfl rfl, hw.2⟩) entries _).weaken (fun _ h => h) (fun _ _ h => h)
      fun _ h => h.elim) fun failed => ?_
  have hended : ∀ w, (Clean members w ∧ entries = members) ∧
      w.trace = marked .aborted entries ++ (marked .validated done ++ marked .staged members) →
      Ended { w with entries := [] } := by
    rintro w ⟨⟨hclean, rfl⟩, htrace⟩
    exact .aborted entries done (hclean.frame rfl rfl) rfl hsubset htrace
  refine Triple.bind (Q := fun _ => Ended) (Triple.modify hended) fun _ => ?_
  exact Triple.raiseWhen (fun _ h _ => h) fun _ h _ => h

/-! ### Validating -/

theorem Validating.calls {members done : List Member} (h : Validating members done w) :
    Validating members done { w with calls := w.calls + 1 } :=
  ⟨⟨h.clean.frame rfl rfl, h.pending, h.uninvoked, h.finalized, h.subset, h.trace⟩, h.empty⟩

theorem Validating.failed {members done : List Member} (h : Validating members done w) :
    Failed w :=
  .inl ⟨members, done, h.toPreTarget⟩

/-- The receipt of a validated member. -/
def receiptOf (sink : PackageSink) (member : Member) : ValidationReceipt where
  handle := member.handle
  validated := sink.validateGiven
  loadConfig := member.loadConfig
  validatedInputs := if sink.validateGiven then some (member.loadConfig, member.handle) else none

theorem frozenConfig_receiptOf (member : Member) :
    frozenConfig (receiptOf sink member) member = some member.loadConfig := by
  unfold frozenConfig receiptOf
  cases sink.validateGiven <;> simp

theorem validateMember_spec {members done : List Member} {member : Member}
    (hmember : member ∈ members) :
    Triple (Validating members done) (validateMember sink member)
      (fun receipt w => receipt = receiptOf sink member ∧ Validating members (done ++ [member]) w)
      Failed := by
  refine Triple.bind (Q := fun _ => Validating members done) ?_ fun _ => ?_
  · refine Triple.ite (fun _ => ?_) fun _ => Triple.pure fun _ h => h
    exact sinkCall_spec (fun _ _ _ h => h.calls) fun _ h => h.calls.failed
  refine Triple.bind (Q := fun _ => Validating members (done ++ [member]))
    (Triple.modify fun w h => ?_) fun _ => Triple.pure fun _ h => ⟨rfl, h⟩
  refine ⟨⟨h.clean.frame rfl rfl, h.pending, h.uninvoked, h.finalized, fun m hm => ?_, ?_⟩, h.empty⟩
  · rcases List.mem_append.mp hm with hm | hm
    · exact h.subset hm
    · exact List.mem_singleton.mp hm ▸ hmember
  · rw [marked_concat, List.cons_append, ← h.trace]

/-- RUN: every member is validated, and has a receipt of its own. -/
theorem validateMembers_spec {members : List Member} : ∀ (todo done : List Member),
    done ++ todo = members → Triple (Validating members done) (validateMembers sink todo)
      (fun receipts w => receipts = todo.map (receiptOf sink) ∧ Validating members members w) Failed
  | [], done, hsplit => by
      rw [List.append_nil] at hsplit
      exact Triple.pure fun _ h => ⟨rfl, hsplit ▸ h⟩
  | member :: rest, done, hsplit => by
      have hmember : member ∈ members := by simp [← hsplit]
      refine Triple.bind (validateMember_spec hmember) fun receipt =>
        Triple.of_fact fun hreceipt => ?_
      refine Triple.bind (validateMembers_spec rest (done ++ [member]) (by simp [← hsplit]))
        fun receipts => Triple.of_fact fun hreceipts => Triple.pure fun w h => ⟨?_, h⟩
      rw [hreceipt, hreceipts, List.map_cons]

/-! ### Finalizing -/

theorem Clean.shift {done rest : List Member} {member : Member}
    (h : Clean (done ++ member :: rest) w) : Clean ((done ++ [member]) ++ rest) w := by
  rwa [List.append_assoc, List.singleton_append]

/-- A member whose finalize was entered, or also returned. -/
structure Invoked (returned : Bool) (done : List Member) (member : Member) (rest : List Member)
    (w : MutationWorld) : Prop where
  clean : Clean (done ++ member :: rest) w
  empty : w.entries = []
  pending : w.pending = member :: rest
  invoked : w.targetInvoked = !returned
  trace : w.trace = (if returned then finalizedMarks (done ++ [member])
    else .finalizing member.id :: finalizedMarks done) ++ prepared (done ++ member :: rest)

theorem Invoked.calls {returned : Bool} {done rest : List Member} {member : Member}
    (h : Invoked returned done member rest w) :
    Invoked returned done member rest { w with calls := w.calls + 1 } :=
  ⟨h.clean.frame rfl rfl, h.empty, h.pending, h.invoked, h.trace⟩

theorem Invoked.failed {returned : Bool} {done rest : List Member} {member : Member}
    (h : Invoked returned done member rest w) (hreached : returned → w.finalizedTables ≠ []) :
    Failed w := by
  refine .inr ⟨done, member, rest, h.clean.distinct, h.pending, ?_, ?_⟩
  · cases returned
    · exact .inl h.invoked
    · exact .inr (hreached rfl)
  · rw [h.trace, h.invoked]
    cases returned <;> rfl

theorem finalizeMember_spec {done rest : List Member} {member : Member} :
    Triple (Finalizing done (member :: rest)) (finalizeMember sink member)
      (fun _ => Invoked true done member rest) Failed := by
  refine Triple.bind (Q := fun _ => Invoked false done member rest) (Triple.modify fun w h => ?_)
    fun _ => ?_
  · refine ⟨h.clean.frame rfl rfl, h.empty, h.pending, rfl, ?_⟩
    dsimp only
    rw [h.trace]
    rfl
  refine Triple.bind (sinkCall_spec (fun _ _ _ h => h.calls) fun _ h => ?_) fun result => ?_
  · exact h.calls.failed nofun
  refine Triple.bind (Q := fun _ => Invoked true done member rest) (Triple.modify fun w h => ?_)
    fun _ => Triple.pure fun _ h => h
  refine ⟨h.clean.frame rfl rfl, h.empty, h.pending, rfl, ?_⟩
  dsimp only
  rw [if_pos rfl, finalizedMarks_concat, h.trace]
  rfl

theorem cleanupMember_spec {P : MutationWorld → Prop} (hfailed : ∀ w, P w → Failed w)
    (hcalls : ∀ w, P w → P { w with calls := w.calls + 1 }) :
    Triple P (cleanupMember sink) (fun _ => P) Failed := by
  refine Triple.ite (fun _ => ?_) fun _ => Triple.pure fun _ h => h
  exact sinkCall_spec (fun _ w _ h => hcalls w h) fun w h => hfailed _ (hcalls w h)

/-- RUN: the loop finalizes all members, or fails at one of them. -/
theorem finalizeLoop_spec : ∀ (rest done : List Member),
    Triple (Finalizing done rest) (finalizeLoop sink (rest.map (receiptOf sink)) rest)
      (fun _ => Finalizing (done ++ rest) []) Failed
  | [], done => Triple.pure fun _ h => by rwa [List.append_nil]
  | member :: rest, done => by
      rw [List.map_cons, finalizeLoop, frozenConfig_receiptOf]
      refine Triple.bind finalizeMember_spec fun result => ?_
      refine Triple.bind (Q := fun _ w => Invoked true done member rest w ∧ w.finalizedTables ≠ [])
        (Triple.modify fun w h => ?_) fun _ => ?_
      · exact ⟨⟨h.clean.frame rfl rfl, h.empty, h.pending, h.invoked, h.trace⟩, by simp⟩
      refine Triple.bind (cleanupMember_spec (fun w h => h.1.failed fun _ => h.2) fun w h =>
        ⟨h.1.calls, h.2⟩) fun _ => ?_
      refine Triple.bind (Q := fun _ => Finalizing (done ++ [member]) rest)
        (Triple.modify fun w h => ?_) fun _ => ?_
      · refine ⟨?_, h.1.empty, rfl, h.1.invoked, by simpa using h.2, ?_⟩
        · rw [List.append_assoc, List.singleton_append]
          exact h.1.clean.frame rfl rfl
        · rw [List.append_assoc, List.singleton_append]
          exact h.1.trace
      · refine Triple.bind (finalizeLoop_spec rest (done ++ [member])) fun results => ?_
        rw [List.append_assoc, List.singleton_append]
        exact Triple.pure fun _ h => h

/-! ### Failures -/

theorem recordFailure_spec {P : MutationWorld → Prop}
    (hP : ∀ w calls recorded, P w → P { w with calls := calls, failureRecorded := recorded }) :
    Triple P (recordFailure sink) (fun _ => P) P := by
  intro w hw
  unfold recordFailure
  by_cases hskip : ¬ sink.recorderGiven ∨ w.failureRecorded
  · rw [if_pos hskip]
    exact hw
  rw [if_neg hskip]
  refine Triple.bind (Q := fun _ => P) (Triple.modify fun w h => hP w w.calls true h)
    (fun _ => ?_) w hw
  have hcalled : ∀ w, P w → P { w with calls := w.calls + 1 } := fun w h =>
    hP w _ w.failureRecorded h
  refine Triple.exceptDo (sinkCall_spec (fun _ w _ h => hcalled w h) hcalled) fun e => ?_
  cases e with
  | exception => exact Triple.pure fun _ h => h
  | interrupt => exact Triple.raise fun _ h => h

theorem retainPackage_spec {done rest : List Member} {member : Member} :
    Triple (fun w => Interrupted done member rest w ∧ w.entries = w.pending)
      (retainPackage sink) (fun _ => Ended) Ended := by
  let Kept (w : MutationWorld) : Prop := Interrupted done member rest w ∧ w.entries = w.pending ∧
    w.retentionRequired = true ∧ w.retained = some
      (nestedPackageRetentionDetails w.pending w.finalizedTables w.targetInvoked)
  have hended : ∀ w, Kept w → Ended w := fun w ⟨h, hentries, hrequired, hdetails⟩ =>
    .retained done member rest h hentries hrequired hdetails
  refine Triple.bind (Q := fun _ => Kept) (Triple.modify fun w h => ?_) fun _ => ?_
  · exact ⟨⟨h.1.clean, h.1.pending, h.1.reached, h.1.trace⟩, h.2, rfl, rfl⟩
  refine Triple.bind ((recordFailure_spec (P := Kept) fun w calls recorded h => ?_).weaken
    (fun _ h => h) (fun _ _ h => h) hended) fun _ => Triple.raise hended
  exact ⟨⟨h.1.clean, h.1.pending, h.1.reached, h.1.trace⟩, h.2⟩

theorem abortPackage_spec (horderly : Orderly sink) {members done : List Member} (e : Raised) :
    Triple (fun w => PreTarget members done w ∧ w.entries = members) (abortPackage sink e)
      (fun _ => Ended) Ended := by
  refine Triple.of_forall fun u hu => ?_
  refine Triple.bind (Q := fun _ => Ended) ?_ fun _ => Triple.raise fun _ h => h
  refine Triple.exceptDo ((abortAll_spec horderly hu.1.subset).weaken (fun w hw => ?_)
    (fun _ _ h => h) fun _ h => h) fun abortError => ?_
  · exact hw ▸ ⟨hu.1.clean, hu.2, hu.1.trace⟩
  · cases abortError with
    | exception => exact Triple.raise fun _ h => h
    | interrupt => exact Triple.raise fun _ h => h

theorem afterFailure_spec (horderly : Orderly sink) (e : Raised) :
    Triple Failed (afterFailure sink e) (fun _ => Ended) Ended := by
  refine Triple.bind (Q := fun _ w => Failed w ∧ w.entries = w.pending)
    (Triple.modify fun w h => ⟨?_, rfl⟩) fun _ => ?_
  · rcases h with ⟨members, done, h⟩ | ⟨done, member, rest, h⟩
    · exact .inl ⟨members, done, h.clean.frame rfl rfl, h.pending, h.uninvoked, h.finalized,
        h.subset, h.trace⟩
    · exact .inr ⟨done, member, rest, h.clean, h.pending, h.reached, h.trace⟩
  refine Triple.bind (Q := fun reached w => (Failed w ∧ w.entries = w.pending) ∧
      reached = (w.targetInvoked || !w.finalizedTables.isEmpty)) (Triple.read fun w h => ⟨h, rfl⟩)
    fun reached => ?_
  refine Triple.ite (fun hreached => ?_) fun hreached => ?_
  · rintro w ⟨⟨hfailed, hentries⟩, heq⟩
    rcases hfailed with ⟨members, done, h⟩ | ⟨done, member, rest, h⟩
    · simp [heq, h.uninvoked, h.finalized] at hreached
    · exact retainPackage_spec w ⟨h, hentries⟩
  · rintro w ⟨⟨hfailed, hentries⟩, heq⟩
    rcases hfailed with ⟨members, done, h⟩ | ⟨done, member, rest, h⟩
    · exact abortPackage_spec horderly e w ⟨h, hentries.trans h.pending⟩
    · rcases h.reached with hinvoked | hfinalized
      · simp [heq, hinvoked] at hreached
      · simp [heq, hfinalized] at hreached

theorem validateMembers_unstopped : ∀ members, Unstopped (validateMembers sink members)
  | [] => .pure
  | member :: rest => by
      have hmember : Unstopped (validateMember sink member) :=
        .bind (.ite .answered .pure) fun _ => .bind .modify fun _ => .pure
      exact .bind hmember fun _ => .bind (validateMembers_unstopped rest) fun _ => .pure

theorem finalizeLoop_unstopped : ∀ receipts members, Unstopped (finalizeLoop sink receipts members)
  | [], [] => .pure
  | _ :: _, [] => .pure
  | [], _ :: _ => .raise
  | receipt :: receipts, member :: rest => by
      have hmember : Unstopped (finalizeMember sink member) :=
        .bind .modify fun _ => .bind .answered fun _ => .bind .modify fun _ => .pure
      rw [finalizeLoop]
      cases frozenConfig receipt member with
      | none => exact .raise
      | some config =>
        refine .bind hmember fun _ => .bind .modify fun _ => ?_
        refine .bind (.ite .answered .pure) fun _ => .bind .modify fun _ => ?_
        exact .bind (finalizeLoop_unstopped receipts rest) fun _ => .pure

theorem validateThenFinalize_spec {members : List Member} :
    Triple (Validating members []) (validateThenFinalize sink)
      (fun _ => Finalizing members []) Failed := by
  refine Triple.bind (Q := fun pending w => pending = members ∧ Validating members [] w)
    (Triple.read fun w h => ⟨h.pending, h⟩) fun pending => Triple.of_fact fun hpending => ?_
  subst hpending
  refine Triple.bind (validateMembers_spec pending [] rfl) fun receipts =>
    Triple.of_fact fun hreceipts => ?_
  rw [hreceipts]
  refine (finalizeLoop_spec pending []).weaken (fun w h => ?_) (fun _ _ h => h) fun _ h => h
  exact ⟨h.clean, h.empty, h.pending, h.uninvoked, by simp [h.finalized], h.trace⟩

/-- RUN: however `finalize_all` ends, the package has one of the final shapes. -/
theorem finalizeAll_spec (horderly : Orderly sink) :
    Triple Staging (finalizeAll sink) (fun _ => Ended) Ended := by
  refine Triple.of_forall fun u hu => ?_
  refine Triple.bind (Q := fun _ => Validating u.entries []) (Triple.modify fun w hw => ?_)
    fun _ => ?_
  · subst hw
    exact ⟨⟨hu.clean.frame rfl rfl, rfl, rfl, hu.finalized, List.nil_subset _, hu.trace⟩, rfl⟩
  have hlive : Unstopped (validateThenFinalize sink) := by
    refine .bind (fun _ h => nomatch h) fun pending => ?_
    exact .bind (validateMembers_unstopped pending) fun _ => finalizeLoop_unstopped _ pending
  refine Triple.exceptUnstopped (validateThenFinalize_spec.weaken (fun _ h => h) (fun _ w h => ?_)
    fun _ h => h) hlive (afterFailure_spec horderly)
  have hclean : Clean u.entries w := by simpa using h.clean
  exact .complete u.entries hclean h.empty (by simpa using h.trace)

theorem abortEntries_nil (hentries : w.entries = []) :
    abortEntries sink w = (.returned (), w) := by
  rcases w with ⟨entries⟩
  subst hentries
  rfl

/-- A finished package is not touched by `abort_all`. -/
theorem abortAll_ended (h : Ended w) : (abortAll sink w).2 = w := by
  unfold abortAll
  rcases h with ⟨members, clean, entries, _⟩ | ⟨members, _, clean, entries, _⟩ |
    ⟨_, _, _, _, _, required⟩
  · rw [if_neg (by simp [clean.unretained]), abortEntries_nil entries]
  · rw [if_neg (by simp [clean.unretained]), abortEntries_nil entries]
  · rw [if_pos required]

/-! ### Fail-closed -/

theorem prepared_staged {members : List Member} {id : ℕ} :
    .staged id ∈ prepared members ↔ ∃ member ∈ members, member.id = id := by
  simp [prepared, mem_marked]

theorem prepared_validated {members : List Member} {id : ℕ} :
    .validated id ∈ prepared members ↔ ∃ member ∈ members, member.id = id := by
  simp [prepared, mem_marked]

/-- A trace in which targets were invoked: nothing else follows the validations. -/
theorem invoked_trace (members : List Member) {front : List MutationEvent}
    (hfront : ∀ event ∈ front, ∃ id, event = .finalizing id ∨ event = .finalized id) :
    (∀ id older, (.finalizing id :: older) <:+ front ++ prepared members →
      ∀ id', .staged id' ∈ front ++ prepared members → .validated id' ∈ older) ∧
    (∀ id, (front ++ prepared members).count (.finalizing id) = front.count (.finalizing id)) ∧
    ∀ id, .aborted id ∉ front ++ prepared members := by
  have hprepared : ∀ id, .finalizing id ∉ prepared members := by simp [prepared, mem_marked]
  refine ⟨fun id older hsuffix id' hstaged => ?_, fun id => ?_, fun id hmem => ?_⟩
  · have hmember : .staged id' ∈ prepared members := by
      rcases List.mem_append.mp hstaged with hmem | hmem
      · obtain ⟨_, h | h⟩ := hfront _ hmem <;> cases h
      · exact hmem
    exact (rest_suffix (hprepared id) hsuffix).subset
      (prepared_validated.mpr (prepared_staged.mp hmember))
  · rw [List.count_append, List.count_eq_zero.mpr (hprepared id), Nat.add_zero]
  · rcases List.mem_append.mp hmem with hmem | hmem
    · obtain ⟨_, h | h⟩ := hfront _ hmem <;> cases h
    · simp [prepared, mem_marked] at hmem

theorem finalizedMarks_front (members : List Member) :
    ∀ event ∈ finalizedMarks members, ∃ id, event = .finalizing id ∨ event = .finalized id :=
  fun _ hevent => by
    obtain ⟨member, _, h⟩ := mem_finalizedMarks.mp hevent
    exact ⟨member.id, h⟩

/-- Members after the first are labelled as not invoked. -/
theorem retained_rest {trace : List MutationEvent} : ∀ {members : List Member},
    (∀ member ∈ members, .finalizing member.id ∉ trace) →
      List.Forall₂ (Labelled trace) members (retainedMembers .notInvoked members)
  | [], _ => .nil
  | _ :: _, h => .cons ⟨rfl, h _ List.mem_cons_self⟩ (retained_rest fun m hm => h m (.tail _ hm))

theorem Ended.complete_failClosed {members : List Member} (clean : Clean members w)
    (htrace : w.trace = finalizedMarks members ++ prepared members) : FailClosed w := by
  obtain ⟨hfirst, hcount, habort⟩ := invoked_trace members (finalizedMarks_front members)
  rw [← htrace] at hfirst hcount habort
  refine ⟨hfirst, fun id => ?_, fun hnone id hstaged => ?_, fun id older hsuffix => ?_,
    fun details hdetails => ?_⟩
  · rw [hcount]
    exact count_finalizedMarks_le clean.distinct id
  · have hmember : ∃ member ∈ members, member.id = id := by
      rw [htrace] at hstaged
      rcases List.mem_append.mp hstaged with hmem | hmem
      · obtain ⟨_, _, h | h⟩ := mem_finalizedMarks.mp hmem <;> cases h
      · exact prepared_staged.mp hmem
    obtain ⟨member, hmem, rfl⟩ := hmember
    refine absurd ?_ (hnone member.id)
    rw [htrace]
    exact List.mem_append_left _ (mem_finalizedMarks.mpr ⟨member, hmem, .inl rfl⟩)
  · exact absurd (hsuffix.subset List.mem_cons_self) (habort id)
  · rw [clean.retained] at hdetails
    cases hdetails

theorem Ended.aborted_failClosed {members done : List Member} (clean : Clean members w)
    (htrace : w.trace = marked .aborted members ++
      (marked .validated done ++ marked .staged members)) : FailClosed w := by
  have hnone : ∀ id, .finalizing id ∉ w.trace := by simp [htrace, mem_marked]
  refine ⟨fun id older hsuffix => ?_, fun id => ?_, fun _ id hstaged => ?_,
    fun id older hsuffix id' hmem => ?_, fun details hdetails => ?_⟩
  · exact absurd (hsuffix.subset List.mem_cons_self) (hnone id)
  · rw [List.count_eq_zero.mpr (hnone id)]
    exact Nat.zero_le 1
  · have hmember : ∃ member ∈ members, member.id = id := by
      simpa [htrace, mem_marked] using hstaged
    have hother : .aborted id ∉ marked .validated done ++ marked .staged members := by
      simp [mem_marked]
    rw [htrace, List.count_append, List.count_eq_zero.mpr hother, Nat.add_zero]
    exact count_marked (fun _ _ h => MutationEvent.aborted.inj h) clean.distinct hmember
  · exact hnone id' (hsuffix.subset (.tail _ hmem))
  · rw [clean.retained] at hdetails
    cases hdetails

/-- The finalizations up to a failure: each at most once, those of later members not at all. -/
theorem Interrupted.front {done rest : List Member} {member : Member}
    (h : Interrupted done member rest w) :
    ∃ front, w.trace = front ++ prepared (done ++ member :: rest) ∧
      (∀ event ∈ front, ∃ id, event = .finalizing id ∨ event = .finalized id) ∧
      (∀ id, front.count (.finalizing id) ≤ 1) ∧ .finalizing member.id ∈ front ∧
      (.finalized member.id ∈ front ↔ w.targetInvoked = false) ∧
      ∀ later ∈ rest, .finalizing later.id ∉ front := by
  have hnodup := h.clean
  rw [List.map_append, List.map_cons, List.nodup_append, List.nodup_cons] at hnodup
  obtain ⟨_, ⟨hmember, _⟩, hdisjoint⟩ := hnodup
  have hdone : ∀ m ∈ done, m.id ≠ member.id := fun m hm =>
    hdisjoint _ (List.mem_map_of_mem hm) _ List.mem_cons_self
  have hdistinct : ((done ++ [member]).map (·.id)).Nodup := by
    have hall := h.clean
    rw [List.append_cons, List.map_append] at hall
    exact hall.of_append_left
  have hcount := count_finalizedMarks_le hdistinct
  have hlater : ∀ later ∈ rest, .finalizing later.id ∉ finalizedMarks (done ++ [member]) := by
    intro later hmem hfinalizing
    obtain ⟨m, hm, heq | heq⟩ := mem_finalizedMarks.mp hfinalizing
    · obtain heq : later.id = m.id := MutationEvent.finalizing.inj heq
      rcases List.mem_append.mp hm with hm | hm
      · exact hdisjoint _ (List.mem_map_of_mem hm) _ (.tail _ (List.mem_map_of_mem hmem)) heq.symm
      · rw [List.mem_singleton.mp hm] at heq
        exact hmember (heq ▸ List.mem_map_of_mem hmem)
    · cases heq
  rw [finalizedMarks_concat] at hcount hlater
  refine ⟨_, h.trace, ?_⟩
  cases hinvoked : w.targetInvoked with
  | true =>
    rw [if_pos rfl]
    refine ⟨fun event hevent => ?_, fun id => ?_, List.mem_cons_self, ?_, fun later hmem hf =>
      hlater later hmem (.tail _ hf)⟩
    · rcases List.mem_cons.mp hevent with rfl | hevent
      · exact ⟨member.id, .inl rfl⟩
      · exact finalizedMarks_front done event hevent
    · exact Nat.le_trans List.count_le_count_cons (hcount id)
    · refine ⟨fun hmem => ?_, fun h => nomatch h⟩
      rcases List.mem_cons.mp hmem with heq | hmem
      · cases heq
      · obtain ⟨m, hm, heq | heq⟩ := mem_finalizedMarks.mp hmem
        · cases heq
        · exact absurd (MutationEvent.finalized.inj heq).symm (hdone m hm)
  | false =>
    rw [if_neg (by simp), finalizedMarks_concat]
    refine ⟨fun event hevent => ?_, hcount, .tail _ List.mem_cons_self, ?_, hlater⟩
    · exact finalizedMarks_front _ event (finalizedMarks_concat done member ▸ hevent)
    · simp

theorem Ended.retained_failClosed {done rest : List Member} {member : Member}
    (h : Interrupted done member rest w) (hentries : w.entries = w.pending)
    (hdetails : w.retained = some
      (nestedPackageRetentionDetails w.pending w.finalizedTables w.targetInvoked)) :
    FailClosed w := by
  obtain ⟨front, htrace, hfront, hone, hentered, hreturned, hlater⟩ := h.front
  obtain ⟨hfirst, hcount, habort⟩ := invoked_trace (done ++ member :: rest) hfront
  rw [← htrace] at hfirst hcount habort
  have hin : ∀ event ∈ front, event ∈ w.trace := fun event hevent =>
    htrace ▸ List.mem_append_left _ hevent
  refine ⟨hfirst, fun id => ?_, fun hnone => ?_, fun id older hsuffix => ?_, ?_⟩
  · rw [hcount]
    exact hone id
  · exact absurd (hin _ hentered) (hnone member.id)
  · exact absurd (hsuffix.subset List.mem_cons_self) (habort id)
  intro details heq
  obtain rfl := Option.some_inj.mp (hdetails.symm.trans heq)
  rw [hentries, h.pending]
  refine .cons ⟨rfl, ?_⟩ (retained_rest fun later hrest hfinalizing => ?_)
  · cases hinvoked : w.targetInvoked with
    | true =>
      refine ⟨hin _ hentered, fun hmem => ?_⟩
      rw [htrace] at hmem
      rcases List.mem_append.mp hmem with hmem | hmem
      · rw [hreturned, hinvoked] at hmem
        cases hmem
      · simp [prepared, mem_marked] at hmem
    | false => exact hin _ (hreturned.mpr hinvoked)
  · rw [htrace] at hfinalizing
    rcases List.mem_append.mp hfinalizing with hmem | hmem
    · exact hlater later hrest hmem
    · simp [prepared, mem_marked] at hmem

theorem Ended.failClosed (h : Ended w) : FailClosed w := by
  rcases h with ⟨members, clean, _, trace⟩ | ⟨members, done, clean, _, _, trace⟩ |
    ⟨done, member, rest, failed, entries, _, details⟩
  · exact complete_failClosed clean trace
  · exact aborted_failClosed clean trace
  · exact retained_failClosed failed entries details

/-! ### Runs -/

theorem staging_initial : Staging {} :=
  ⟨⟨List.nodup_nil, rfl, rfl⟩, fun _ hm => absurd hm List.not_mem_nil, rfl, rfl⟩

/-- CORRECT: with valid row counts and no interrupted abort, staged mutation is fail-closed. -/
theorem staged_mutation_fail_closed (sink : PackageSink) (horderly : Orderly sink)
    (loadConfigs : List LoadConfig) (finalize : Bool) :
    FailClosed (packageRun sink loadConfigs finalize) := by
  unfold packageRun
  have hstaging := Triple.runs (stage_spec horderly) loadConfigs {} staging_initial
  set w := loadConfigs.foldl (fun w config => (stage sink config w).2) {}
  refine Ended.failClosed ?_
  cases finalize with
  | false =>
    have h := abortAll_spec horderly (List.nil_subset w.entries) w
      ⟨hstaging.clean, rfl, hstaging.trace⟩
    rcases hresult : abortAll sink w with ⟨_ | _ | _, w'⟩ <;>
      · rw [hresult] at h
        simpa [hresult] using h
  | true =>
    have h := finalizeAll_spec horderly w hstaging
    have hended : Ended (finalizeAll sink w).2 := by
      rcases hresult : finalizeAll sink w with ⟨_ | _ | _, w'⟩ <;>
        · rw [hresult] at h
          exact h
    simp only [if_true]
    rw [abortAll_ended hended]
    exact hended

/-- A sink that answers every call, with handles of a given row count. -/
def answeringSink (rows : ℤ) : PackageSink where
  stagePayload _ := .ok ⟨.int rows, none, []⟩
  validateGiven := true
  validateStagedLoad _ := .ok ()
  finalizeStagedLoad _ := .ok 0
  cleanupGiven := true
  cleanupStagedLoad _ := .ok ()
  abortStagedLoad _ := .ok ()
  recorderGiven := false
  failureRecorder _ := .ok ()

def ordersConfig : LoadConfig := ⟨0, "dbo", "orders"⟩

def orderLinesConfig : LoadConfig := ⟨1, "dbo", "orders__lines"⟩

theorem staged_mutation_fail_closed_of_two :
    (packageRun (answeringSink 3) [orderLinesConfig, ordersConfig] true).finalizedTables =
        ["orders__lines", "orders"] ∧
      FailClosed (packageRun (answeringSink 3) [orderLinesConfig, ordersConfig] true) :=
  ⟨rfl, staged_mutation_fail_closed (answeringSink 3)
    ⟨fun _ _ h => Except.ok.inj h ▸ by decide, fun _ h => nomatch h⟩ _ true⟩

/-- A handle whose row count is refused is never aborted: it is no entry yet. -/
theorem refused_handle_not_aborted :
    ¬ FailClosed (packageRun (answeringSink (-1)) [ordersConfig] false) := by
  intro h
  have htrace : (packageRun (answeringSink (-1)) [ordersConfig] false).trace = [.staged 0] := rfl
  have hcount := h.abortedOnce (by simp [htrace]) 0 (by simp [htrace])
  rw [htrace] at hcount
  cases hcount

end Dpone.Normalization
