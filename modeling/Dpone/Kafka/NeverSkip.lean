import Dpone.Kafka.Source
import Dpone.Schemes.Delivery

/-! What a run of the reader emits against the offsets it saves. The offsets of a limited run are
    those of the last rows it emitted, and the broker gives the messages of a partition in order, so
    nothing below them is missing (`limited_run`). A streamed run saves the ends of its window
    before it has read anything: nothing is missing exactly when the broker gives the whole window
    before the empty polls run out (`run_skips_none_iff`). -/

namespace Dpone.Kafka
open Dpone.Schemes
variable {V : Type} {d : Decoding V} {o : KafkaSourceOptions} {endOffsets : Offsets}

/-- The messages among the answers. -/
def messages (polls : List Poll) : List Message := polls.filterMap id

@[simp] theorem messages_nil : messages [] = [] := rfl

@[simp] theorem messages_none (polls : List Poll) : messages (none :: polls) = messages polls := rfl

@[simp] theorem messages_some (m : Message) (polls : List Poll) :
    messages (some m :: polls) = m :: messages polls := rfl

@[simp] theorem messages_append (polls more : List Poll) :
    messages (polls ++ more) = messages polls ++ messages more := List.filterMap_append

/-- The messages before the end of their partition. -/
def within (endOffsets : Offsets) (polls : List Poll) : List Message :=
  (messages polls).filter fun m => ¬ past endOffsets m

/-- The row made of a message. -/
def RowOf (m : Message) (r : Parsed V) : Prop :=
  r.partition = m.partition ∧ r.nextOffset = m.offset + 1

/-- The offset a loop notes for a message. -/
def note (offsets : Offsets) (m : Message) : Offsets := Dict.set m.partition (m.offset + 1) offsets

theorem messageToRow_ok {m : Message} {r : Option (Parsed V)}
    (h : messageToRow d o endOffsets m = .ok r) :
    (past endOffsets m ∧ r = none) ∨ ¬ past endOffsets m ∧ ∃ row, r = some row ∧ RowOf m row := by
  rw [messageToRow] at h
  split at h
  · cases h
  · by_cases hpast : past endOffsets m
    · rw [if_pos hpast] at h
      cases h
      exact .inl ⟨hpast, rfl⟩
    · rw [if_neg hpast] at h
      cases hrow : valueToRow d o m with
      | error failure => rw [hrow] at h; cases h
      | ok row =>
        rw [hrow] at h
        cases h
        exact .inr ⟨hpast, _, rfl, rfl, rfl⟩

/-- The empty polls counted so far: within the schema sample all of them, after it those since the
    last row. The first argument is the number of rows before the polls. -/
def idle (o : KafkaSourceOptions) (endOffsets : Offsets) : ℤ → ℤ → List Poll → ℤ
  | _, emptyPolls, [] => emptyPolls
  | rows, emptyPolls, none :: polls => idle o endOffsets rows (emptyPolls + 1) polls
  | rows, emptyPolls, some m :: polls =>
    if past endOffsets m then idle o endOffsets rows emptyPolls polls
    else idle o endOffsets (rows + 1) (if rows < o.schemaSampleSize then emptyPolls else 0) polls

/-- The broker gives a message while the reader still waits for one. -/
def AnsweredFrom (o : KafkaSourceOptions) (endOffsets : Offsets) (rows emptyPolls : ℤ)
    (polls : List Poll) (m : Message) : Prop :=
  ∃ before after, polls = before ++ some m :: after ∧
    ∀ made, made <+: before → idle o endOffsets rows emptyPolls made < o.maxEmptyPolls

def Answered (o : KafkaSourceOptions) (endOffsets : Offsets) (polls : List Poll) (m : Message) :
    Prop := AnsweredFrom o endOffsets 0 0 polls m

section Answers
variable {rows emptyPolls : ℤ} {polls : List Poll} {m : Message}

theorem answered_patient (h : AnsweredFrom o endOffsets rows emptyPolls polls m) :
    emptyPolls < o.maxEmptyPolls := by
  obtain ⟨before, after, -, hidle⟩ := h
  exact hidle [] List.nil_prefix

@[simp] theorem answered_nil : ¬ AnsweredFrom o endOffsets rows emptyPolls [] m := by
  rintro ⟨before, after, h, -⟩
  cases before <;> cases h

/-- STEP: one answer, and the wait for the others. -/
theorem answered_cons {poll : Poll} {rows' emptyPolls' : ℤ}
    (hidle : ∀ made, idle o endOffsets rows emptyPolls (poll :: made) =
      idle o endOffsets rows' emptyPolls' made) :
    AnsweredFrom o endOffsets rows emptyPolls (poll :: polls) m ↔
      emptyPolls < o.maxEmptyPolls ∧
        (poll = some m ∨ AnsweredFrom o endOffsets rows' emptyPolls' polls m) := by
  constructor
  · intro h
    refine ⟨answered_patient h, ?_⟩
    obtain ⟨before, after, hpolls, hbefore⟩ := h
    cases before with
    | nil =>
      obtain ⟨rfl, -⟩ := List.cons.inj hpolls
      exact .inl rfl
    | cons first before =>
      obtain ⟨rfl, rfl⟩ := List.cons.inj hpolls
      refine .inr ⟨before, after, rfl, fun made hmade => ?_⟩
      rw [← hidle]
      exact hbefore _ (List.cons_prefix_cons.mpr ⟨rfl, hmade⟩)
  · rintro ⟨hpatient, rfl | ⟨before, after, rfl, hbefore⟩⟩
    · refine ⟨[], polls, rfl, fun made hmade => ?_⟩
      rw [List.prefix_nil.mp hmade]
      exact hpatient
    · refine ⟨poll :: before, after, rfl, fun made hmade => ?_⟩
      cases made with
      | nil => exact hpatient
      | cons first made =>
        obtain ⟨rfl, hshort⟩ := List.cons_prefix_cons.mp hmade
        rw [hidle]
        exact hbefore made hshort

end Answers

/-- The number of rows at which the count of a loop and `idle` agree: a loop that starts the count
    again has the schema sample behind it, and one that does not stops with the sample. -/
structure CountsAlike (o : KafkaSourceOptions) (limit : Option ℤ) (resets : Bool) (before : ℤ) :
    Prop where
  sampled : resets = true → o.schemaSampleSize ≤ before
  sampling : resets = false → limit = some o.schemaSampleSize ∧ before = 0

/-- What a loop made of the answers it took. -/
structure Listened (d : Decoding V) (o : KafkaSourceOptions) (endOffsets : Offsets)
    (limit : Option ℤ) (resets : Bool) (polls : List Poll) (rows : List (Parsed V))
    (offsets : Offsets) (emptyPolls : ℤ) (result : Consumed V) (made : List Poll) : Prop where
  split : polls = made ++ result.rest
  emitted : ∃ more, result.rows = rows ++ more ∧ List.Forall₂ RowOf (within endOffsets made) more
  noted : result.offsets = (within endOffsets made).foldl note offsets
  stops : (∃ n ∈ limit, n ≤ result.rows.length) ∨ o.maxEmptyPolls ≤ result.emptyPolls
  answered : ∀ before, CountsAlike o limit resets before → ∀ m,
    (AnsweredFrom o endOffsets (before + rows.length) emptyPolls polls m ↔ m ∈ messages made ∨
      AnsweredFrom o endOffsets (before + result.rows.length) result.emptyPolls result.rest m)

namespace Listened
variable {limit : Option ℤ} {resets : Bool} {polls made : List Poll} {rows : List (Parsed V)}
  {offsets : Offsets} {emptyPolls : ℤ} {result : Consumed V}

theorem stop (h : ¬ ((∀ n ∈ limit, (rows.length : ℤ) < n) ∧ emptyPolls < o.maxEmptyPolls)) :
    Listened d o endOffsets limit resets polls rows offsets emptyPolls
      ⟨rows, offsets, emptyPolls, polls⟩ [] where
  split := rfl
  emitted := ⟨[], (List.append_nil rows).symm, .nil⟩
  noted := rfl
  stops := by
    by_contra hnot
    rw [not_or, not_exists] at hnot
    exact h ⟨fun n hn => lt_of_not_ge fun hle => hnot.1 n ⟨hn, hle⟩, lt_of_not_ge hnot.2⟩
  answered before _ m := by simp

theorem empty (hpatient : emptyPolls < o.maxEmptyPolls)
    (h : Listened d o endOffsets limit resets polls rows offsets (emptyPolls + 1) result made) :
    Listened d o endOffsets limit resets (none :: polls) rows offsets emptyPolls result
      (none :: made) where
  split := congrArg (none :: ·) h.split
  emitted := h.emitted
  noted := h.noted
  stops := h.stops
  answered before hcount m := by
    rw [answered_cons fun _ => rfl, h.answered before hcount m]
    simp [hpatient]

theorem skipped {msg : Message} (hpatient : emptyPolls < o.maxEmptyPolls)
    (hpast : past endOffsets msg)
    (h : Listened d o endOffsets limit resets polls rows offsets emptyPolls result made) :
    Listened d o endOffsets limit resets (some msg :: polls) rows offsets emptyPolls result
      (some msg :: made) := by
  have hwithin : within endOffsets (some msg :: made) = within endOffsets made := by
    simp [within, hpast]
  exact
    { split := congrArg (some msg :: ·) h.split
      emitted := hwithin ▸ h.emitted
      noted := hwithin ▸ h.noted
      stops := h.stops
      answered := fun before hcount m => by
        rw [answered_cons fun _ => by rw [idle, if_pos hpast], h.answered before hcount m]
        simp [hpatient, or_assoc, eq_comm] }

theorem row {msg : Message} {r : Parsed V} (hrows : ∀ n ∈ limit, (rows.length : ℤ) < n)
    (hpatient : emptyPolls < o.maxEmptyPolls) (hpast : ¬ past endOffsets msg) (hof : RowOf msg r)
    (h : Listened d o endOffsets limit resets polls (rows ++ [r])
      (Dict.set r.partition r.nextOffset offsets) (if resets then 0 else emptyPolls) result made) :
    Listened d o endOffsets limit resets (some msg :: polls) rows offsets emptyPolls result
      (some msg :: made) := by
  have hwithin : within endOffsets (some msg :: made) = msg :: within endOffsets made := by
    simp [within, hpast]
  obtain ⟨more, hmore, hall⟩ := h.emitted
  exact
    { split := congrArg (some msg :: ·) h.split
      emitted := ⟨r :: more, by rw [hmore, List.append_assoc]; rfl, hwithin ▸ .cons hof hall⟩
      noted := by rw [hwithin, h.noted, hof.1, hof.2]; rfl
      stops := h.stops
      answered := fun before hcount m => by
        have hanswered := h.answered before hcount m
        have hlength : before + ((rows ++ [r]).length : ℤ) = before + rows.length + 1 := by
          simp [Int.add_assoc]
        have hempty : (if resets then 0 else emptyPolls) =
            if before + rows.length < o.schemaSampleSize then emptyPolls else 0 := by
          cases resets with
          | true =>
            have hsampled := hcount.sampled rfl
            rw [if_pos rfl, if_neg (by omega)]
          | false =>
            obtain ⟨rfl, rfl⟩ := hcount.sampling rfl
            have hbelow := hrows _ rfl
            rw [if_neg (by simp), if_pos (by omega)]
        rw [hlength, hempty] at hanswered
        rw [answered_cons fun _ => by rw [idle, if_neg hpast], hanswered]
        simp [hpatient, or_assoc, eq_comm] }

end Listened

/-- CALL RULE: every loop ends, if it ends, with the rows and the offsets of what it took. -/
theorem consume_listened {limit : Option ℤ} {resets : Bool} : ∀ {polls : List Poll}
    {rows : List (Parsed V)} {offsets : Offsets} {emptyPolls : ℤ} {result : Consumed V},
    consume d o endOffsets limit resets polls rows offsets emptyPolls = .ok result →
    ∃ made, Listened d o endOffsets limit resets polls rows offsets emptyPolls result made := by
  intro polls
  induction polls with
  | nil =>
    intro rows offsets emptyPolls result h
    rw [consume.eq_def] at h
    by_cases hgoes : (∀ n ∈ limit, (rows.length : ℤ) < n) ∧ emptyPolls < o.maxEmptyPolls
    · rw [if_pos hgoes] at h
      cases h
    · rw [if_neg hgoes] at h
      cases h
      exact ⟨[], .stop hgoes⟩
  | cons poll polls ih =>
    intro rows offsets emptyPolls result h
    rw [consume.eq_def] at h
    by_cases hgoes : (∀ n ∈ limit, (rows.length : ℤ) < n) ∧ emptyPolls < o.maxEmptyPolls
    · rw [if_pos hgoes] at h
      obtain ⟨hrows, hpatient⟩ := hgoes
      cases poll with
      | none =>
        obtain ⟨made, hmade⟩ := ih h
        exact ⟨_, hmade.empty hpatient⟩
      | some msg =>
        simp only at h
        cases hrow : messageToRow d o endOffsets msg with
        | error failure => rw [hrow] at h; cases h
        | ok r =>
          rw [hrow] at h
          obtain ⟨hpast, rfl⟩ | ⟨hpast, row, rfl, hof⟩ := messageToRow_ok hrow
          · obtain ⟨made, hmade⟩ := ih h
            exact ⟨_, hmade.skipped hpatient hpast⟩
          · obtain ⟨made, hmade⟩ := ih h
            exact ⟨_, hmade.row hrows hpatient hpast hof⟩
    · rw [if_neg hgoes] at h
      cases h
      exact ⟨[], .stop hgoes⟩

/-- What a run claims: from the start of each partition to its saved offset every message of the
    topic was emitted. -/
def NoneSkipped (logs : ℤ → List Message) (startOffsets saved : Offsets) (rows : List (Parsed V)) :
    Prop :=
  ∀ p s e, startOffsets.lookup p = some s → saved.lookup p = some e →
    ∀ m ∈ logs p, s ≤ m.offset → m.offset < e → ∃ r ∈ rows, RowOf m r

/-- The broker, as it is documented: the messages of a partition have rising offsets, and a consumer
    gets those of an assigned partition in order, from its start or, where that is out of range,
    from before it. -/
structure Broker (logs : ℤ → List Message) (startOffsets : Offsets) (polls : List Poll) : Prop where
  ordered : ∀ p, (logs p).Pairwise (·.offset < ·.offset)
  placed : ∀ p, ∀ m ∈ logs p, m.partition = p
  delivers : ∀ p s, startOffsets.lookup p = some s → ∃ first ≤ s,
    Delivered Message.partition p ((logs p).filter (first ≤ ·.offset)) (messages polls)

section Emitted
variable {ms : List Message} {rows : List (Parsed V)}

theorem row_of_mem (h : List.Forall₂ RowOf ms rows) {m : Message} (hm : m ∈ ms) :
    ∃ r ∈ rows, RowOf m r := by
  induction h with
  | nil => cases hm
  | cons hr _ ih =>
    rcases List.mem_cons.mp hm with rfl | hm
    · exact ⟨_, List.mem_cons_self .., hr⟩
    · obtain ⟨r, hr, hof⟩ := ih hm
      exact ⟨r, List.mem_cons_of_mem _ hr, hof⟩

theorem mem_of_row (h : List.Forall₂ RowOf ms rows) {r : Parsed V} (hr : r ∈ rows) :
    ∃ m ∈ ms, RowOf m r := by
  induction h with
  | nil => cases hr
  | cons hm _ ih =>
    rcases List.mem_cons.mp hr with rfl | hr
    · exact ⟨_, List.mem_cons_self .., hm⟩
    · obtain ⟨m, hm, hof⟩ := ih hr
      exact ⟨m, List.mem_cons_of_mem _ hm, hof⟩

/-- An offset after the notes is the one from before them or follows a message. -/
theorem lookup_noted {p e : ℤ} : ∀ (ms : List Message) {offsets : Offsets},
    (ms.foldl note offsets).lookup p = some e →
    offsets.lookup p = some e ∨ ∃ m ∈ ms, m.partition = p ∧ m.offset + 1 = e
  | [], _, h => .inl h
  | m :: ms, offsets, h => by
    rcases lookup_noted ms h with h | ⟨x, hx, hxp, hxe⟩
    · rw [note, Dict.lookup_set] at h
      split at h
      · rename_i hp
        exact .inr ⟨m, List.mem_cons_self .., hp.symm, Option.some.inj h⟩
      · exact .inl h
    · exact .inr ⟨x, List.mem_cons_of_mem m hx, hxp, hxe⟩

end Emitted

section Runs
variable {logs : ℤ → List Message} {starts : Offsets} {made rest : List Poll} {m x : Message}
  {p s : ℤ}

/-- EARLIER: the broker gave every message of the window that comes before one it gave. -/
theorem Broker.earlier (h : Broker logs starts (made ++ rest)) (hs : starts.lookup p = some s)
    (hm : m ∈ messages made) (hp : m.partition = p) (hx : x ∈ logs p) (hsx : s ≤ x.offset)
    (hle : x.offset ≤ m.offset) : x ∈ messages made := by
  obtain ⟨first, hfirst, hdelivered⟩ := h.delivers p s hs
  rw [messages_append] at hdelivered
  have hcut := hdelivered.cut (List.prefix_append ..)
  have hordered := (h.ordered p).filter (first ≤ ·.offset)
  exact hcut.earlier hordered hm hp
    (List.mem_filter.mpr ⟨hx, by simpa using hfirst.trans hsx⟩) hle

theorem Broker.unique (h : Broker logs starts (made ++ rest)) (hs : starts.lookup p = some s)
    (hm : m ∈ messages made) (hp : m.partition = p) (hx : x ∈ logs p)
    (heq : m.offset = x.offset) : m = x := by
  obtain ⟨first, -, hdelivered⟩ := h.delivers p s hs
  rw [messages_append] at hdelivered
  have hcut := hdelivered.cut (List.prefix_append ..)
  exact eq_of_position (h.ordered p) (List.mem_filter.mp (hcut.mem_log hm hp)).1 hx heq

theorem not_past_of_le (hpast : ¬ past endOffsets m) (hp : x.partition = m.partition)
    (hle : x.offset ≤ m.offset) : ¬ past endOffsets x := by
  rw [past, not_le] at hpast ⊢
  rw [hp]
  cases hend : endOffsets.lookup m.partition with
  | none => simp
  | some e =>
    rw [hend] at hpast
    exact lt_of_le_of_lt hle hpast

/-- LIMITED RUN: no message below a noted offset is missing. -/
theorem limited_run {polls : List Poll} {rows : List (Parsed V)} {saved : Offsets}
    (hbroker : Broker logs starts polls)
    (h : consumeToList d o starts endOffsets polls = .ok (rows, saved)) :
    NoneSkipped logs starts saved rows := by
  obtain ⟨consumed, hconsumed, hresult⟩ := bind_ok.mp h
  cases hresult
  obtain ⟨made, hmade⟩ := consume_listened hconsumed
  obtain ⟨more, hrows, hall⟩ := hmade.emitted
  have hsplit := hmade.split
  subst hsplit
  intro p s e hs he x hx hsx hxe
  rw [hmade.noted] at he
  rw [hrows, List.nil_append]
  rcases lookup_noted _ he with he | ⟨m, hm, hmp, rfl⟩
  · rw [hs] at he
    cases he
    omega
  · obtain ⟨hm, hpast⟩ := List.mem_filter.mp hm
    have hxm : x.offset ≤ m.offset := by omega
    have hmem := hbroker.earlier hs hm hmp hx hsx hxm
    have hxpast := not_past_of_le (by simpa using hpast)
      ((hbroker.placed p x hx).trans hmp.symm) hxm
    exact row_of_mem hall (List.mem_filter.mpr ⟨hmem, by simpa using hxpast⟩)

/-- The stream after a preview that read its sample or waited in vain. -/
theorem stream_listened {preview remaining : Consumed V}
    (hpreview : (∃ n ∈ some o.schemaSampleSize, n ≤ (preview.rows.length : ℤ)) ∨
      o.maxEmptyPolls ≤ preview.emptyPolls)
    (h : consume d o endOffsets none true preview.rest [] [] preview.emptyPolls = .ok remaining) :
    ∃ made, Listened d o endOffsets none true preview.rest [] [] preview.emptyPolls remaining made ∧
      ∀ m, AnsweredFrom o endOffsets preview.rows.length preview.emptyPolls preview.rest m ↔
        m ∈ messages made := by
  rcases hpreview with ⟨n, hn, hsampled⟩ | hvain
  · cases hn
    obtain ⟨made, hmade⟩ := consume_listened h
    refine ⟨made, hmade, fun m => ?_⟩
    have hanswered := hmade.answered preview.rows.length ⟨fun _ => hsampled, nofun⟩ m
    have hnone : ¬ AnsweredFrom o endOffsets (preview.rows.length + remaining.rows.length)
        remaining.emptyPolls remaining.rest m := by
      intro hlater
      rcases hmade.stops with ⟨n, hn, -⟩ | hstop
      · cases hn
      · exact absurd (answered_patient hlater) (not_lt.mpr hstop)
    simpa [hnone] using hanswered
  · have hstop : ¬ ((∀ n ∈ (none : Option ℤ), (([] : List (Parsed V)).length : ℤ) < n) ∧
        preview.emptyPolls < o.maxEmptyPolls) := fun hgoes => absurd hgoes.2 (not_lt.mpr hvain)
    rw [consume.eq_def, if_neg hstop] at h
    cases h
    refine ⟨[], .stop hstop, fun m => ⟨fun hlater => ?_, nofun⟩⟩
    exact absurd (answered_patient hlater) (not_lt.mpr hvain)

/-- STREAMED RUN: a preview and the stream after it take what the broker gives in time. -/
theorem streamed_rows {polls : List Poll} {preview : Consumed V} {rows : List (Parsed V)}
    (hpreview : consumePreview d o endOffsets polls = .ok preview)
    (hrows : streamRemaining d o endOffsets preview = .ok rows) :
    ∃ made rest, polls = made ++ rest ∧ List.Forall₂ RowOf (within endOffsets made) rows ∧
      ∀ m, Answered o endOffsets polls m ↔ m ∈ messages made := by
  obtain ⟨first, hfirst⟩ := consume_listened hpreview
  obtain ⟨remaining, hremaining, hresult⟩ := bind_ok.mp hrows
  cases hresult
  obtain ⟨second, hsecond, hstream⟩ := stream_listened hfirst.stops hremaining
  obtain ⟨more, hmore, hall⟩ := hfirst.emitted
  obtain ⟨more', hmore', hall'⟩ := hsecond.emitted
  rw [List.nil_append] at hmore hmore'
  refine ⟨first ++ second, remaining.rest, ?_, ?_, fun m => ?_⟩
  · rw [hfirst.split, hsecond.split, List.append_assoc]
  · rw [hmore, hmore', within, messages_append, List.filter_append]
    exact List.rel_append hall hall'
  · have hanswered := hfirst.answered 0 ⟨nofun, fun _ => ⟨rfl, rfl⟩⟩ m
    simp only [List.length_nil, Int.natCast_zero, add_zero, zero_add] at hanswered
    rw [Answered, hanswered, hstream, messages_append, List.mem_append]

/-- In a streamed run a message of the window is emitted exactly when it was given in time. -/
theorem streamed_run {polls : List Poll} {preview : Consumed V} {rows : List (Parsed V)}
    (hbroker : Broker logs starts polls)
    (hpreview : consumePreview d o endOffsets polls = .ok preview)
    (hrows : streamRemaining d o endOffsets preview = .ok rows) {e : ℤ}
    (hs : starts.lookup p = some s) (he : endOffsets.lookup p = some e) (hx : x ∈ logs p)
    (hxe : x.offset < e) : (∃ r ∈ rows, RowOf x r) ↔ Answered o endOffsets polls x := by
  obtain ⟨made, rest, rfl, hall, hanswered⟩ := streamed_rows hpreview hrows
  rw [hanswered]
  have hp := hbroker.placed p x hx
  constructor
  · rintro ⟨r, hr, hof⟩
    obtain ⟨m, hm, hmof⟩ := mem_of_row hall hr
    have hmade := (List.mem_filter.mp hm).1
    have hmp : m.partition = p := by rw [← hmof.1, hof.1, hp]
    have hoffset : m.offset = x.offset := by
      have heq := hmof.2.symm.trans hof.2
      omega
    rw [← hbroker.unique hs hmade hmp hx hoffset]
    exact hmade
  · intro hmade
    have hpast : ¬ past endOffsets x := by
      rw [past, hp, he]
      simpa using hxe
    exact row_of_mem hall (List.mem_filter.mpr ⟨hmade, by simpa using hpast⟩)

end Runs

theorem saveState_offsets (state : KafkaOffsetState) :
    (saveState o state).offsets = state.partitionOffsets := by
  rw [saveState]
  split <;> rfl

/-- RUN: a run that saved its state read up to its limit and saved what it noted, or it streamed
    and saved the ends of its window. -/
theorem run_cases {connector : Connector} {storage : Option KafkaOffsetState}
    {topic : String} {polls : List Poll} {rows : List (Parsed V)} {saved : Saved}
    {window : KafkaBatchWindow}
    (hrun : run d connector storage topic o polls = .ok (rows, saved))
    (hwindow : plan connector (if o.offsetStorage = "dpone" then storage else none) topic o =
      .ok window) :
    (o.readMode = .maxRecords ∧ consumeToList d o window.startOffsets window.endOffsets polls =
        .ok (rows, saved.offsets)) ∨
      o.readMode ≠ .maxRecords ∧ saved.offsets = window.endOffsets ∧ ∃ preview,
        consumePreview d o window.endOffsets polls = .ok preview ∧
          streamRemaining d o window.endOffsets preview = .ok rows := by
  obtain ⟨result, hextract, hrun⟩ := bind_ok.mp hrun
  obtain ⟨emitted, hemitted, hrun⟩ := bind_ok.mp hrun
  cases hrun
  rw [saveState_offsets]
  obtain ⟨planned, hplanned, hextract⟩ := bind_ok.mp hextract
  rw [hwindow] at hplanned
  cases hplanned
  have hstreamed : (do
        let preview ← consumePreview d o window.endOffsets polls
        let schema ← previewSchema d preview.rows
        return (⟨.streaming window.endOffsets preview, schema, window.toState⟩ :
          ExtractResult V)) = .ok result →
      result.state.partitionOffsets = window.endOffsets ∧ ∃ preview,
        consumePreview d o window.endOffsets polls = .ok preview ∧
          streamRemaining d o window.endOffsets preview = .ok rows := by
    intro h
    obtain ⟨preview, hpreview, h⟩ := bind_ok.mp h
    obtain ⟨schema, -, h⟩ := bind_ok.mp h
    cases h
    exact ⟨rfl, preview, hpreview, hemitted⟩
  cases hmode : o.readMode with
  | maxRecords =>
    rw [hmode] at hextract
    obtain ⟨⟨listed, offsets⟩, hlisted, hextract⟩ := bind_ok.mp hextract
    obtain ⟨schema, -, hextract⟩ := bind_ok.mp hextract
    cases hextract
    cases hemitted
    exact .inl ⟨rfl, hlisted⟩
  | offsets =>
    rw [hmode] at hextract
    exact .inr ⟨nofun, hstreamed hextract⟩
  | timeWindow =>
    rw [hmode] at hextract
    exact .inr ⟨nofun, hstreamed hextract⟩

/-- NEVER SKIPPED: a run that saved its state has emitted every message from its start to the saved
    offset exactly when it reads up to a number of records, or the broker gives every message of
    the window before the empty polls run out. -/
theorem run_skips_none_iff {connector : Connector} {storage : Option KafkaOffsetState}
    {topic : String} {polls : List Poll} {rows : List (Parsed V)} {saved : Saved}
    {window : KafkaBatchWindow} {logs : ℤ → List Message}
    (hrun : run d connector storage topic o polls = .ok (rows, saved))
    (hwindow : plan connector (if o.offsetStorage = "dpone" then storage else none) topic o =
      .ok window)
    (hbroker : Broker logs window.startOffsets polls) :
    NoneSkipped logs window.startOffsets saved.offsets rows ↔
      o.readMode = .maxRecords ∨
        ∀ p s e, window.startOffsets.lookup p = some s → window.endOffsets.lookup p = some e →
          ∀ m ∈ logs p, s ≤ m.offset → m.offset < e → Answered o window.endOffsets polls m := by
  rcases run_cases hrun hwindow with ⟨hmode, hlisted⟩ | ⟨hmode, hsaved, preview, hpreview, hrows⟩
  · exact iff_of_true (limited_run hbroker hlisted) (.inl hmode)
  · rw [hsaved, or_iff_right hmode, NoneSkipped]
    constructor
    · intro h p s e hs he m hm hsm hme
      exact (streamed_run hbroker hpreview hrows hs he hm hme).mp (h p s e hs he m hm hsm hme)
    · intro h p s e hs he m hm hsm hme
      exact (streamed_run hbroker hpreview hrows hs he hm hme).mpr (h p s e hs he m hm hsm hme)

/-- A topic with one partition and two messages, and values that are plain texts. -/
def textDecoding : Decoding String where
  null := "null"
  text := id
  asDict _ := .ok []
  deserialize _ := .ok (some [("id", "1")])
  inferSchema _ := .ok [("id", "text")]
  registrySchema := []

def twoMessages : Connector where
  topicPartitions := [0]
  watermarks _ := (0, 2)
  watermarksAgain _ := (0, 2)
  startsForTimes := id
  endsForTimes := id

def twoMessagesLog (p : ℤ) : List Message :=
  if p = 0 then [{ partition := 0, offset := 0 }, { partition := 0, offset := 1 }] else []

def twoMessagesWindow : KafkaBatchWindow :=
  ⟨"orders", "dpone.orders.batch", [(0, 0)], [(0, 2)], .offsets⟩

theorem twoMessages_broker {polls : List Poll}
    (h : (messages polls).filter (Message.partition · = 0) <+: twoMessagesLog 0) :
    Broker twoMessagesLog twoMessagesWindow.startOffsets polls where
  ordered p := by
    by_cases hp : p = 0 <;> simp [twoMessagesLog, hp]
  placed p m hm := by
    by_cases hp : p = 0
    · simp only [twoMessagesLog, hp, if_true, List.mem_cons, List.not_mem_nil, or_false] at hm
      rcases hm with rfl | rfl <;> exact hp.symm
    · simp [twoMessagesLog, hp] at hm
  delivers p s hs := by
    obtain ⟨rfl, rfl⟩ : p = 0 ∧ s = 0 := by
      rw [twoMessagesWindow, Dict.lookup_cons_if] at hs
      split at hs
      · rename_i hp
        exact ⟨hp, (Option.some.inj hs).symm⟩
      · cases hs
    exact ⟨0, le_rfl, h⟩

/-- Both messages given in time, with one empty poll between them. -/
def inTime : List Poll :=
  [some { partition := 0, offset := 0 }, none, some { partition := 0, offset := 1 }, none, none]

theorem answered_in_time : ∀ m ∈ twoMessagesLog 0, Answered {} twoMessagesWindow.endOffsets inTime m
    := by
  have hprefix : ∀ before : List Poll, (∀ made ∈ before.inits,
      idle {} twoMessagesWindow.endOffsets 0 0 made < 3) →
      ∀ made, made <+: before → idle {} twoMessagesWindow.endOffsets 0 0 made < 3 :=
    fun before h made hmade => h made ((List.mem_inits ..).mpr hmade)
  intro m hm
  simp only [twoMessagesLog, if_true, List.mem_cons, List.not_mem_nil, or_false] at hm
  rcases hm with rfl | rfl
  · exact ⟨[], _, rfl, hprefix _ (by decide)⟩
  · exact ⟨inTime.take 2, _, rfl, hprefix _ (by decide)⟩

theorem run_skips_none_iff_in_time : ∃ saved, ∃ rows : List (Parsed String), rows.length = 2 ∧
    run textDecoding twoMessages none "orders" {} inTime = .ok (rows, saved) ∧
    NoneSkipped twoMessagesLog twoMessagesWindow.startOffsets saved.offsets rows := by
  have hrun : run textDecoding twoMessages none "orders" {} inTime =
      .ok ([⟨[("id", "1")], 0, 1⟩, ⟨[("id", "1")], 0, 2⟩],
        .stored ⟨"orders", "dpone.orders.batch", [(0, 2)], [(0, 2)], .offsets⟩) := rfl
  refine ⟨_, _, rfl, hrun, (run_skips_none_iff hrun rfl (twoMessages_broker ⟨[], rfl⟩)).mpr
    (.inr fun p s e hs _ m hm _ _ => ?_)⟩
  by_cases hp : p = 0
  · exact answered_in_time m (hp ▸ hm)
  · simp [twoMessagesLog, hp] at hm

/-- Three empty polls at the start, as a slow first fetch gives them: nothing is emitted, and the
    saved offset lies past both messages. -/
theorem empty_polls_skip : ∃ saved, run textDecoding twoMessages none "orders" {}
      [none, none, none, some { partition := 0, offset := 0 },
        some { partition := 0, offset := 1 }] = .ok ([], saved) ∧
    Broker twoMessagesLog twoMessagesWindow.startOffsets
      [none, none, none, some { partition := 0, offset := 0 },
        some { partition := 0, offset := 1 }] ∧
    ¬ NoneSkipped twoMessagesLog twoMessagesWindow.startOffsets saved.offsets
      ([] : List (Parsed String)) := by
  refine ⟨_, rfl, twoMessages_broker ⟨[], rfl⟩, fun h => ?_⟩
  obtain ⟨r, hr, -⟩ := h 0 0 2 rfl rfl _ (List.mem_cons_self ..) le_rfl (by decide)
  cases hr

end Dpone.Kafka
