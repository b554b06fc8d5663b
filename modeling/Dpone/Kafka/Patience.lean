import Dpone.Kafka.NeverSkip

/-! When a loop of the reader ends. A broker answers every poll, without end, and a loop has ended
    when it needs no more than the first of these answers. Once every partition has reached its end,
    the messages that go on arriving neither give a row nor count as empty polls, so a loop ends
    exactly when the broker leaves enough polls empty, or answers one with an error. -/

namespace Dpone.Kafka
open Dpone.Schemes
variable {V : Type} {d : Decoding V} {o : KafkaSourceOptions} {endOffsets : Offsets}

/-- The first answers of a broker. -/
def firstPolls (answers : ℕ → Poll) (n : ℕ) : List Poll := (List.range n).map answers

/-- From a poll on every partition has reached its end: what still arrives lies past it. -/
def EndsReached (endOffsets : Offsets) (answers : ℕ → Poll) (k : ℕ) : Prop :=
  ∀ n, k ≤ n → ∀ m, answers n = some m → past endOffsets m

/-- The loops of the reader, with what they have when they begin. -/
inductive BatchLoop where
  | preview
  | remaining (emptyPolls : ℤ)
  | limited (startOffsets : Offsets)

namespace BatchLoop

def limit (o : KafkaSourceOptions) : BatchLoop → Option ℤ
  | preview => some o.schemaSampleSize
  | remaining _ => none
  | limited _ => some o.recordLimit

def resets : BatchLoop → Bool
  | preview => false
  | remaining _ | limited _ => true

def startOffsets : BatchLoop → Offsets
  | limited startOffsets => startOffsets
  | preview | remaining _ => []

def emptyPolls : BatchLoop → ℤ
  | remaining emptyPolls => emptyPolls
  | preview | limited _ => 0

/-- The loop on some answers. -/
def consume (d : Decoding V) (o : KafkaSourceOptions) (endOffsets : Offsets) (loop : BatchLoop)
    (polls : List Poll) : Except Stop (Consumed V) :=
  Kafka.consume d o endOffsets (loop.limit o) loop.resets polls [] loop.startOffsets
    loop.emptyPolls

theorem consumePreview_eq (polls : List Poll) :
    consumePreview d o endOffsets polls = preview.consume d o endOffsets polls := rfl

theorem streamRemaining_eq (before : Consumed V) :
    streamRemaining d o endOffsets before = (do
      let after ← (remaining before.emptyPolls).consume d o endOffsets before.rest
      return before.rows ++ after.rows) := rfl

theorem consumeToList_eq (startOffsets : Offsets) (polls : List Poll) :
    consumeToList d o startOffsets endOffsets polls = (do
      let consumed ← (limited startOffsets).consume d o endOffsets polls
      return (consumed.rows, consumed.offsets)) := rfl

/-- The loop is still polling after the first answers. -/
def Waits (d : Decoding V) (o : KafkaSourceOptions) (endOffsets : Offsets) (loop : BatchLoop)
    (answers : ℕ → Poll) (n : ℕ) : Prop :=
  loop.consume d o endOffsets (firstPolls answers n) = .error .waiting

/-- The loop ends, whatever the answers after those that it needs. -/
def Ends (d : Decoding V) (o : KafkaSourceOptions) (endOffsets : Offsets) (loop : BatchLoop)
    (answers : ℕ → Poll) : Prop :=
  ∃ n, ¬ loop.Waits d o endOffsets answers n

end BatchLoop

/-- The empty polls that a loop counts: all of them, or those since the last row. -/
def emptyCount (endOffsets : Offsets) (resets : Bool) : ℤ → List Poll → ℤ
  | count, [] => count
  | count, none :: polls => emptyCount endOffsets resets (count + 1) polls
  | count, some m :: polls =>
    emptyCount endOffsets resets (if resets ∧ ¬ past endOffsets m then 0 else count) polls

/-- An answer that is an error. -/
def isError : Poll → Bool
  | some m => m.error.isSome
  | none => false

section Loop
variable {limit : Option ℤ} {resets : Bool}

theorem emptyCount_append : ∀ (polls more : List Poll) (count : ℤ),
    emptyCount endOffsets resets count (polls ++ more) =
      emptyCount endOffsets resets (emptyCount endOffsets resets count polls) more
  | [], _, _ => rfl
  | none :: polls, more, count => emptyCount_append polls more (count + 1)
  | some _ :: polls, more, _ => emptyCount_append polls more _

/-- RUN: a loop that waits for more answers goes on from the state it has got to. -/
theorem waiting_append : ∀ {polls : List Poll} {rows : List (Parsed V)} {offsets : Offsets}
    {emptyPolls : ℤ},
    consume d o endOffsets limit resets polls rows offsets emptyPolls = .error .waiting →
    ∃ rows' offsets', (∀ n ∈ limit, (rows'.length : ℤ) < n) ∧
      emptyCount endOffsets resets emptyPolls polls < o.maxEmptyPolls ∧
      ∀ more, consume d o endOffsets limit resets (polls ++ more) rows offsets emptyPolls =
        consume d o endOffsets limit resets more rows' offsets'
          (emptyCount endOffsets resets emptyPolls polls)
  | [], rows, offsets, emptyPolls, h => by
    rw [consume] at h
    split at h
    · rename_i hgoes
      exact ⟨rows, offsets, hgoes.1, hgoes.2, fun _ => rfl⟩
    · cases h
  | none :: polls, rows, offsets, emptyPolls, h => by
    rw [consume] at h
    split at h
    · rename_i hgoes
      obtain ⟨rows', offsets', hlimit, hcount, hmore⟩ := waiting_append h
      refine ⟨rows', offsets', hlimit, hcount, fun more => ?_⟩
      rw [List.cons_append, consume, if_pos hgoes]
      exact hmore more
    · cases h
  | some m :: polls, rows, offsets, emptyPolls, h => by
    rw [consume] at h
    split at h
    · rename_i hgoes
      cases hrow : messageToRow d o endOffsets m with
      | error failure => simp only [hrow] at h; cases h
      | ok r =>
        rcases messageToRow_ok hrow with ⟨hpast, rfl⟩ | ⟨hpast, row, rfl, -⟩
        · simp only [hrow] at h
          obtain ⟨rows', offsets', hlimit, hcount, hmore⟩ := waiting_append h
          have hsame : emptyCount endOffsets resets emptyPolls (some m :: polls) =
              emptyCount endOffsets resets emptyPolls polls := by
            rw [emptyCount, if_neg fun hboth => hboth.2 hpast]
          refine ⟨rows', offsets', hlimit, hsame ▸ hcount, fun more => ?_⟩
          rw [hsame, List.cons_append, consume, if_pos hgoes]
          simp only [hrow]
          exact hmore more
        · simp only [hrow] at h
          obtain ⟨rows', offsets', hlimit, hcount, hmore⟩ := waiting_append h
          have hsame : emptyCount endOffsets resets emptyPolls (some m :: polls) =
              emptyCount endOffsets resets (if resets then 0 else emptyPolls) polls := by
            rw [emptyCount]
            cases resets with
            | true => rw [if_pos ⟨rfl, hpast⟩, if_pos rfl]
            | false => rw [if_neg (by simp), if_neg (by simp)]
          refine ⟨rows', offsets', hlimit, hsame ▸ hcount, fun more => ?_⟩
          rw [hsame, List.cons_append, consume, if_pos hgoes]
          simp only [hrow]
          exact hmore more
    · cases h

/-- A loop that more answers leave waiting was waiting before. -/
theorem waiting_of_append : ∀ {polls more : List Poll} {rows : List (Parsed V)} {offsets : Offsets}
    {emptyPolls : ℤ},
    consume d o endOffsets limit resets (polls ++ more) rows offsets emptyPolls = .error .waiting →
    consume d o endOffsets limit resets polls rows offsets emptyPolls = .error .waiting
  | [], more, rows, offsets, emptyPolls, h => by
    by_cases hgoes : (∀ n ∈ limit, (rows.length : ℤ) < n) ∧ emptyPolls < o.maxEmptyPolls
    · rw [consume, if_pos hgoes]
    · rw [List.nil_append, consume.eq_def, if_neg hgoes] at h
      cases h
  | none :: polls, more, rows, offsets, emptyPolls, h => by
    rw [List.cons_append, consume] at h
    rw [consume]
    split at h
    · rename_i hgoes
      rw [if_pos hgoes]
      exact waiting_of_append h
    · cases h
  | some m :: polls, more, rows, offsets, emptyPolls, h => by
    rw [List.cons_append, consume] at h
    rw [consume]
    split at h
    · rename_i hgoes
      rw [if_pos hgoes]
      cases hrow : messageToRow d o endOffsets m with
      | error failure => simp only [hrow] at h; cases h
      | ok r =>
        cases r with
        | none =>
          simp only [hrow] at h ⊢
          exact waiting_of_append h
        | some row =>
          simp only [hrow] at h ⊢
          exact waiting_of_append h
    · cases h

/-- Past the ends the empty polls are counted, and nothing starts the count again. -/
theorem emptyCount_past : ∀ {polls : List Poll} (count : ℤ),
    (∀ m, some m ∈ polls → past endOffsets m) →
    emptyCount endOffsets resets count polls = count + polls.count none
  | [], count, _ => by simp [emptyCount]
  | none :: polls, count, hpast => by
    have hrest := emptyCount_past (count + 1) fun m hm => hpast m (List.mem_cons_of_mem _ hm)
    rw [emptyCount, hrest, List.count_cons_self]
    push_cast
    omega
  | some m :: polls, count, hpast => by
    have hm : past endOffsets m := hpast m (List.mem_cons_self ..)
    have hrest := emptyCount_past count fun m hm => hpast m (List.mem_cons_of_mem _ hm)
    rw [emptyCount, if_neg fun hboth => hboth.2 hm, hrest,
      List.count_cons_of_ne (Option.some_ne_none m)]

/-- RUN: past the ends nothing but the empty polls and the errors counts. -/
theorem waiting_past {rows : List (Parsed V)} {offsets : Offsets}
    (hlimit : ∀ n ∈ limit, (rows.length : ℤ) < n) : ∀ {polls : List Poll} {emptyPolls : ℤ},
    (∀ m, some m ∈ polls → past endOffsets m) →
    (consume d o endOffsets limit resets polls rows offsets emptyPolls = .error .waiting ↔
      (∀ poll ∈ polls, ¬ isError poll) ∧ emptyPolls + polls.count none < o.maxEmptyPolls) := by
  intro polls
  induction polls with
  | nil =>
    intro emptyPolls _
    rw [consume, List.count_nil, Nat.cast_zero, add_zero]
    by_cases hcount : emptyPolls < o.maxEmptyPolls
    · rw [if_pos ⟨hlimit, hcount⟩]
      exact ⟨fun _ => ⟨List.forall_mem_nil _, hcount⟩, fun _ => rfl⟩
    · rw [if_neg fun h => hcount h.2]
      exact ⟨fun h => (by cases h), fun h => absurd h.2 hcount⟩
  | cons poll polls ih =>
    intro emptyPolls hpast
    have hrest := @ih (emptyPolls + 1) fun m hm => hpast m (List.mem_cons_of_mem _ hm)
    have hsame := @ih emptyPolls fun m hm => hpast m (List.mem_cons_of_mem _ hm)
    cases poll with
    | none =>
      rw [consume, List.forall_mem_cons, List.count_cons_self, Nat.cast_succ]
      by_cases hcount : emptyPolls < o.maxEmptyPolls
      · have hgood : ¬ isError none := Bool.false_ne_true
        rw [if_pos ⟨hlimit, hcount⟩, hrest, and_iff_right hgood, add_assoc, add_comm (1 : ℤ)]
      · rw [if_neg fun h => hcount h.2]
        exact ⟨fun h => (by cases h), fun h => absurd h.2 (by omega)⟩
    | some m =>
      have hm : past endOffsets m := hpast m (List.mem_cons_self ..)
      rw [consume, List.forall_mem_cons, List.count_cons_of_ne (Option.some_ne_none m)]
      by_cases hcount : emptyPolls < o.maxEmptyPolls
      · rw [if_pos ⟨hlimit, hcount⟩]
        cases herror : m.error with
        | some error =>
          have hrow : messageToRow d o endOffsets m =
              .error (.runtimeError s!"Kafka consumer error: {error}") := by
            rw [messageToRow, herror]
          have hbad : isError (some m) := by rw [isError, herror]; rfl
          simp only [hrow]
          exact ⟨fun h => (by cases h), fun h => absurd hbad h.1.1⟩
        | none =>
          have hrow : messageToRow d o endOffsets m = .ok none := by
            rw [messageToRow, herror]
            exact if_pos hm
          have hgood : ¬ isError (some m) := by
            rw [isError, herror]
            exact Bool.false_ne_true
          simp only [hrow]
          rw [hsame, and_iff_right hgood]
      · rw [if_neg fun h => hcount h.2]
        exact ⟨fun h => (by cases h), fun h => absurd h.2 (by omega)⟩

end Loop

theorem firstPolls_add (answers : ℕ → Poll) (k n : ℕ) :
    firstPolls answers (k + n) =
      firstPolls answers k ++ (List.range n).map fun i => answers (k + i) := by
  rw [firstPolls, List.range_add, List.map_append, List.map_map]
  rfl

/-- TOTAL: once every partition has reached its end, a loop that has not ended by then ends exactly
    when an answer is an error or enough of the answers are empty. -/
theorem loop_ends_iff {loop : BatchLoop} {answers : ℕ → Poll} {k : ℕ}
    (hends : EndsReached endOffsets answers k) (hwaits : loop.Waits d o endOffsets answers k) :
    loop.Ends d o endOffsets answers ↔ (∃ n, k ≤ n ∧ isError (answers n)) ∨
      ∃ n, k ≤ n ∧ o.maxEmptyPolls ≤
        emptyCount endOffsets loop.resets loop.emptyPolls (firstPolls answers n) := by
  obtain ⟨rows, offsets, hlimit, -, hmore⟩ := waiting_append hwaits
  have hlater : ∀ n, ∀ m, some m ∈ (List.range n).map (fun i => answers (k + i)) →
      past endOffsets m := by
    intro n m hm
    obtain ⟨i, -, hi⟩ := List.mem_map.mp hm
    exact hends (k + i) (Nat.le_add_right k i) m hi
  have hwaiting : ∀ n, loop.Waits d o endOffsets answers (k + n) ↔
      (∀ i < n, ¬ isError (answers (k + i))) ∧
        emptyCount endOffsets loop.resets loop.emptyPolls (firstPolls answers (k + n)) <
          o.maxEmptyPolls := by
    intro n
    rw [BatchLoop.Waits, BatchLoop.consume, firstPolls_add, hmore, waiting_past hlimit (hlater n),
      emptyCount_append, emptyCount_past _ (hlater n)]
    refine and_congr_left fun _ => ?_
    simp only [List.mem_map, List.mem_range]
    exact ⟨fun h i hi => h _ ⟨i, hi, rfl⟩, fun h _ ⟨i, hi, hpoll⟩ => hpoll ▸ h i hi⟩
  constructor
  · rintro ⟨n, hn⟩
    rcases Nat.le_total k n with hle | hle
    · obtain ⟨j, rfl⟩ := Nat.exists_eq_add_of_le hle
      rw [hwaiting, not_and_or] at hn
      rcases hn with herror | hcount
      · simp only [not_forall, not_not, exists_prop] at herror
        obtain ⟨i, -, hi⟩ := herror
        exact .inl ⟨k + i, Nat.le_add_right k i, hi⟩
      · exact .inr ⟨k + j, hle, not_lt.mp hcount⟩
    · obtain ⟨j, rfl⟩ := Nat.exists_eq_add_of_le hle
      rw [BatchLoop.Waits, BatchLoop.consume, firstPolls_add] at hwaits
      exact absurd (waiting_of_append hwaits) hn
  · rintro (⟨n, hle, herror⟩ | ⟨n, hle, hcount⟩)
    · obtain ⟨j, rfl⟩ := Nat.exists_eq_add_of_le hle
      refine ⟨k + (j + 1), fun h => ?_⟩
      exact ((hwaiting (j + 1)).mp h).1 j (Nat.lt_succ_self j) herror
    · obtain ⟨j, rfl⟩ := Nat.exists_eq_add_of_le hle
      exact ⟨k + j, fun h => absurd ((hwaiting j).mp h).2 (not_lt.mpr hcount)⟩

/-- A topic that nothing is written to. -/
def quietTopic : ℕ → Poll := fun _ => none

theorem quiet_topic_ends : BatchLoop.preview.Ends textDecoding {} [(0, 0)] quietTopic :=
  have hends : EndsReached [(0, 0)] quietTopic 0 := fun _ _ _ h => nomatch h
  have hwaits : BatchLoop.preview.Waits textDecoding {} [(0, 0)] quietTopic 0 := by rfl
  (loop_ends_iff hends hwaits).mpr (.inr ⟨3, Nat.zero_le 3, by decide⟩)

/-- A topic that is written to faster than it is read. -/
def busyTopic : ℕ → Poll := fun n => some { partition := 0, offset := n }

/-- Its one partition has reached its end at once, and none of the three loops ends. -/
theorem busy_topic_never_ends : EndsReached [(0, 0)] busyTopic 0 ∧
    ∀ loop ∈ [BatchLoop.preview, .remaining 0, .limited []],
      ¬ loop.Ends textDecoding {} [(0, 0)] busyTopic := by
  have hpast : EndsReached [(0, 0)] busyTopic 0 := by
    rintro n - _ ⟨⟩
    exact Int.natCast_nonneg n
  have hlater : ∀ n, ∀ m, some m ∈ firstPolls busyTopic n → past [(0, 0)] m := by
    intro n m hm
    obtain ⟨i, -, hi⟩ := List.mem_map.mp hm
    exact hpast i (Nat.zero_le i) m hi
  have hnone : ∀ n, (firstPolls busyTopic n).count none = 0 := by
    intro n
    refine List.count_eq_zero.mpr fun h => ?_
    obtain ⟨i, -, hi⟩ := List.mem_map.mp h
    cases hi
  have hgood : ∀ n, ∀ poll ∈ firstPolls busyTopic n, ¬ isError poll := by
    intro n poll hpoll
    obtain ⟨i, -, rfl⟩ := List.mem_map.mp hpoll
    exact Bool.false_ne_true
  have hnever : ∀ loop : BatchLoop, (∀ n ∈ loop.limit {}, (0 : ℤ) < n) → loop.emptyPolls = 0 →
      ¬ loop.Ends textDecoding {} [(0, 0)] busyTopic := by
    intro loop hlimit hstart
    rintro ⟨n, hn⟩
    refine hn ((waiting_past hlimit (hlater n)).mpr ⟨hgood n, ?_⟩)
    rw [hnone, hstart]
    decide
  refine ⟨hpast, ?_⟩
  rw [List.forall_mem_cons, List.forall_mem_cons, List.forall_mem_singleton]
  refine ⟨hnever _ ?_ rfl, hnever _ nofun rfl, hnever _ ?_ rfl⟩
  · rintro _ ⟨⟩
    decide
  · rintro _ ⟨⟩
    decide

end Dpone.Kafka
