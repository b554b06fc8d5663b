import Dpone.Schemes.Run
import Dpone.Cdc.Runtime

/-! The PostgreSQL logical reader, polling a replication slot through its SQL functions.

    The slot holds the committed transactions that no read has returned yet. A get function returns
    the messages of whole transactions and moves the slot past them as it returns; the reader does
    not look at its start offset. The two message parsers are parameters. -/

namespace Dpone.Cdc
open Dpone.Schemes Dpone.Schemes.Program

/-- A row of a slot read. -/
structure SlotMessage (P : Type) where
  lsn : Str
  xid : Option Str
  data : Option P
  deriving DecidableEq

/-- The database and the reader's parser: whether the publication exists, the transactions pending
    in the slot, and all that the slot has produced. -/
structure SlotState (P σ : Type) where
  publication : Bool
  slot : Option (List (List (SlotMessage P)))
  produced : List (SlotMessage P)
  parser : σ

/-- `PgOutputMessageParser`, which remembers the relations announced to it, and
    `TestDecodingMessageParser`. -/
structure MessageParsers (P σ V : Type) where
  fresh : σ
  pgoutput : σ → Str → Option Str → P → Except PyError (Option (CDCChange V)) × σ
  testDecoding : Str → Option Str → Option P → Except PyError (Option (CDCChange V))

structure PostgresLogicalCDCReaderConfig where
  plugin : Str := "pgoutput".toList
  dropExistingSlot : Bool := false
  createSlotIfMissing : Bool := true
  createPublicationIfMissing : Bool := true

def PostgresLogicalCDCReaderConfig.isPgoutput (c : PostgresLogicalCDCReaderConfig) : Bool :=
  c.plugin = "pgoutput".toList

def PostgresLogicalCDCReaderConfig.isTestDecoding (c : PostgresLogicalCDCReaderConfig) : Bool :=
  c.plugin = "test_decoding".toList

/-- How the reader's calls end, whether one that failed took effect, and the transactions that
    commit before the slot is read. -/
structure SlotCalls (P : Type) where
  dropSlot : Answer PyError Unit
  droppedOnFailure : Bool
  selectPublication : Answer PyError Unit
  createPublication : Answer PyError Unit
  publishedOnFailure : Bool
  selectSlot : Answer PyError Unit
  createSlot : Answer PyError Unit
  createdOnFailure : Bool
  committed : List (List (SlotMessage P))
  getChanges : Answer PyError Unit

variable {P σ V : Type}

/-- A transaction commits at the source; a slot that does not exist produces nothing. -/
def SlotState.commit (s : SlotState P σ) (transaction : List (SlotMessage P)) : SlotState P σ :=
  match s.slot with
  | some pending =>
    { s with slot := some (pending ++ [transaction]), produced := s.produced ++ transaction }
  | none => s

/-- The messages no read has returned. -/
def SlotState.pending (s : SlotState P σ) : List (SlotMessage P) := (s.slot.getD []).flatten

/-- `upto_nchanges`: zero is no limit, and the limit is looked at after each transaction. The
    transactions returned, and those left. -/
def takeTransactions (limit : ℤ) (count : ℕ) :
    List (List (SlotMessage P)) → List (List (SlotMessage P)) × List (List (SlotMessage P))
  | [] => ([], [])
  | t :: ts =>
    if limit ≠ 0 ∧ limit ≤ ↑(count + t.length) then ([t], ts)
    else
      let r := takeTransactions limit (count + t.length) ts
      (t :: r.1, r.2)

theorem takeTransactions_append (limit : ℤ) : ∀ (count : ℕ) (ts : List (List (SlotMessage P))),
    (takeTransactions limit count ts).1 ++ (takeTransactions limit count ts).2 = ts
  | _, [] => rfl
  | count, t :: ts => by
      unfold takeTransactions
      split
      · rfl
      · exact congrArg (t :: ·) (takeTransactions_append limit _ ts)

/-- A read that finds something returns something. -/
theorem takeTransactions_progress (limit : ℤ) (count : ℕ) (t : List (SlotMessage P))
    (ts : List (List (SlotMessage P))) :
    ∃ rest, (takeTransactions limit count (t :: ts)).1 = t :: rest := by
  unfold takeTransactions
  split
  · exact ⟨[], rfl⟩
  · exact ⟨_, rfl⟩

/-- What the next reads return, so many of them. -/
def laterReads (limit : ℤ) : ℕ → List (List (SlotMessage P)) → List (SlotMessage P)
  | 0, _ => []
  | k + 1, ts =>
    (takeTransactions limit 0 ts).1.flatten ++ laterReads limit k (takeTransactions limit 0 ts).2

/-- Whatever limit the later reads are given, one of them returns the message. -/
def SlotState.StillReturned (s : SlotState P σ) (m : SlotMessage P) : Prop :=
  ∀ limit, ∃ k, m ∈ laterReads limit k (s.slot.getD [])

theorem mem_takeTransactions {limit : ℤ} {count : ℕ} {ts : List (List (SlotMessage P))}
    {m : SlotMessage P} : m ∈ ts.flatten ↔
      m ∈ (takeTransactions limit count ts).1.flatten ∨
        m ∈ (takeTransactions limit count ts).2.flatten := by
  rw [← List.mem_append, ← List.flatten_append, takeTransactions_append]

theorem mem_laterReads {limit : ℤ} {m : SlotMessage P} :
    ∀ (k : ℕ) {ts : List (List (SlotMessage P))}, ts.length ≤ k → m ∈ ts.flatten →
      m ∈ laterReads limit k ts
  | _, [], _, h => by simp at h
  | k + 1, t :: ts, hk, h => by
      obtain ⟨rest, hrest⟩ := takeTransactions_progress limit 0 t ts
      have hleft : (takeTransactions limit 0 (t :: ts)).2.length ≤ k := by
        have := congrArg List.length (takeTransactions_append limit 0 (t :: ts))
        rw [hrest, List.length_append, List.length_cons, List.length_cons] at this
        rw [List.length_cons] at hk
        omega
      rcases mem_takeTransactions.mp h with h | h
      · exact List.mem_append_left _ h
      · exact List.mem_append_right _ (mem_laterReads k hleft h)

theorem mem_of_mem_laterReads {limit : ℤ} {m : SlotMessage P} :
    ∀ (k : ℕ) {ts : List (List (SlotMessage P))}, m ∈ laterReads limit k ts → m ∈ ts.flatten
  | 0, _, h => by cases h
  | k + 1, _, h => mem_takeTransactions.mpr <|
      (List.mem_append.mp h).imp_right fun h => mem_of_mem_laterReads k h

/-- What is pending is what the later reads return. -/
theorem stillReturned_iff {s : SlotState P σ} {m : SlotMessage P} :
    s.StillReturned m ↔ m ∈ s.pending := by
  constructor
  · intro h
    obtain ⟨k, hk⟩ := h 0
    exact mem_of_mem_laterReads k hk
  · exact fun h limit => ⟨_, mem_laterReads _ le_rfl h⟩

section Reader
variable (parsers : MessageParsers P σ V) (config : PostgresLogicalCDCReaderConfig)
  (calls : SlotCalls P)

abbrev SlotProgram (P σ α : Type) := Program (SlotState P σ) PyError α

/-- `drop_slot(missing_ok=True)`. -/
def dropSlot : SlotProgram P σ Unit :=
  let drop (s : SlotState P σ) := { s with slot := none }
  ask calls.dropSlot drop (if calls.droppedOnFailure then drop else id)

/-- `_create_publication_if_missing`. -/
def createPublicationIfMissing : SlotProgram P σ Unit := do
  ask calls.selectPublication id id
  let found ← fun s => (.returned s.publication, s)
  if found then return ()
  else
    let create (s : SlotState P σ) := { s with publication := true }
    ask calls.createPublication create (if calls.publishedOnFailure then create else id)

/-- The slot select and create of `setup`. -/
def createSlotIfMissing : SlotProgram P σ Unit := do
  ask calls.selectSlot id id
  let found ← fun s => (.returned s.slot.isSome, s)
  if found then return ()
  else
    let create (s : SlotState P σ) := { s with slot := some (s.slot.getD []) }
    ask calls.createSlot create (if calls.createdOnFailure then create else id)

/-- `setup`. -/
def setupSlot : SlotProgram P σ Unit := do
  (if config.dropExistingSlot then dropSlot calls else pure ())
  (if config.isPgoutput ∧ config.createPublicationIfMissing then createPublicationIfMissing calls
    else pure ())
  (if config.createSlotIfMissing then createSlotIfMissing calls else pure ())

/-- `pg_logical_slot_get_binary_changes` and `pg_logical_slot_get_changes`: consumed on return. -/
def getChanges (maxChanges : ℤ) : SlotProgram P σ (List (SlotMessage P)) := fun s₀ =>
  let s := calls.committed.foldl SlotState.commit s₀
  match s.slot, calls.getChanges with
  | some pending, .returns _ =>
    (.returned (takeTransactions maxChanges 0 pending).1.flatten,
      { s with slot := some (takeTransactions maxChanges 0 pending).2 })
  | none, .returns _ => (.raised .databaseError, s)
  | _, .raises e => (.raised e, s)
  | _, .stops => (.stopped, s)

/-- The query of `read_batch`, which only two plugins have. -/
def readRows (maxChanges : ℤ) : SlotProgram P σ (List (SlotMessage P)) :=
  if config.isPgoutput ∨ config.isTestDecoding then getChanges calls maxChanges
  else raise (.valueError ("Unsupported PostgreSQL logical decoding plugin: '" ++
    String.ofList config.plugin ++ "'. Supported built-ins: 'pgoutput', 'test_decoding'. " ++
    "Use a dedicated plugin adapter for decoderbufs/logical_buffers-style payloads."))

/-- What the parser of the plugin makes of one row, in the parser's state. -/
def parseRow (p : σ) (row : SlotMessage P) : Except PyError (Option (CDCChange V)) × σ :=
  if config.isPgoutput then
    match row.data with
    | none => (.ok none, p)
    | some payload => parsers.pgoutput p row.lsn row.xid payload
  else (parsers.testDecoding row.lsn row.xid row.data, p)

/-- The loop over the rows of a read. -/
def decodeRows : List (SlotMessage P) → List (CDCChange V) → Option Str →
    SlotProgram P σ (CDCBatch V)
  | [], changes, highWatermark =>
    pure { changes := changes, nextOffset := highWatermark, highWatermark := highWatermark }
  | row :: rows, changes, _ => fun s =>
    match parseRow parsers config s.parser row with
    | (.ok change, p) =>
      decodeRows rows (changes ++ change.toList) (some row.lsn) { s with parser := p }
    | (.error e, p) => (.raised e, { s with parser := p })

/-- `read_batch`; the start offset is deleted. -/
def readSlotBatch (_start : Option Str) (maxChanges : ℤ) : SlotProgram P σ (CDCBatch V) := do
  let rows ← readRows config calls maxChanges
  decodeRows parsers config rows [] none

def logicalReader : CDCReader (SlotState P σ) V where
  setup := setupSlot config calls
  readBatch := readSlotBatch parsers config calls

end Reader

/-! ### Histories of a slot and its ticks -/

/-- One call of `run_once`: what it is given, and how its calls end. -/
structure SlotTick (P V : Type) where
  config : PostgresLogicalCDCReaderConfig
  calls : SlotCalls P
  env : TickEnv V
  stream : CdcRuntimeStream
  policy : CdcRuntimePolicy
  outputDir : Str

inductive SlotEvent (P V : Type) where
  /-- A transaction commits at the source. -/
  | commit (transaction : List (SlotMessage P))
  /-- The process is started again, with a new reader. -/
  | restart
  | tick (t : SlotTick P V)

abbrev SlotWorld (P σ V : Type) := CdcWorld (SlotState P σ) V

section History
variable (identity : IdentityPayload V → Str) (parsers : MessageParsers P σ V)

/-- `run_once` with the logical reader. -/
def SlotTick.run (t : SlotTick P V) : Tick (SlotState P σ) V (CdcRuntimeRunReport V) :=
  runOnce identity (logicalReader parsers t.config t.calls) t.env t.stream t.policy t.outputDir

/-- One step of a history. -/
def SlotEvent.step : SlotWorld P σ V → SlotEvent P V → SlotWorld P σ V → Prop
  | w, .commit transaction, w' => w' = { w with source := w.source.commit transaction }
  | w, .restart, w' => w' = { w with source := { w.source with parser := parsers.fresh } }
  | w, .tick t, w' => w' = (t.run identity parsers w).2

/-- Before anything: no slot, nothing stored, applied or quarantined. -/
def SlotWorld.start : SlotWorld P σ V where
  source := { publication := false, slot := none, produced := [], parser := parsers.fresh }
  offset := none
  landed := []
  quarantine := fun _ => none

end History

end Dpone.Cdc
