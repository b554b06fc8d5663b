import Mathlib.Data.Int.Notation
import Dpone.Schemes.Dict
import Dpone.Schemes.Records
import Dpone.Schemes.Utf

/-! The batch window of `runtime/kafka/offsets.py`, under the options of `runtime/kafka/config.py`.
    What the broker answers while the window is planned is an argument: a call that is made twice
    may be answered differently, since the topic goes on growing. -/

namespace Dpone.Kafka
open Dpone.Schemes

inductive KafkaReadMode where
  | offsets
  | timeWindow
  | maxRecords
  deriving DecidableEq

inductive KafkaEnvelopeMode where
  | flat
  | dpone
  | auto
  deriving DecidableEq

/-- The fields of `KafkaSourceOptions` that a run reads, with their defaults. -/
structure KafkaSourceOptions where
  groupId : Option String := none
  readMode : KafkaReadMode := .offsets
  offsetStorage : String := "dpone"
  startFrom : String := "stored"
  envelope : KafkaEnvelopeMode := .auto
  batchSize : ℤ := 50000
  maxRecords : Option ℤ := none
  maxEmptyPolls : ℤ := 3
  timeWindowStartMs : Option ℤ := none
  timeWindowEndMs : Option ℤ := none
  schemaSampleSize : ℤ := 100

def KafkaSourceOptions.resolvedGroupId (o : KafkaSourceOptions) (topic : String) : String :=
  match o.groupId with
  | some groupId => if groupId = "" then s!"dpone.{topic}.batch" else groupId
  | none => s!"dpone.{topic}.batch"

/-- `options.max_records or options.batch_size`. -/
def KafkaSourceOptions.recordLimit (o : KafkaSourceOptions) : ℤ :=
  match o.maxRecords with
  | some n => if n = 0 then o.batchSize else n
  | none => o.batchSize

/-- An offset for each partition. -/
abbrev Offsets := List (ℤ × ℤ)

structure KafkaOffsetState where
  topic : String
  groupId : String
  partitionOffsets : Offsets
  highWatermarks : Offsets
  readMode : KafkaReadMode

structure KafkaBatchWindow where
  topic : String
  groupId : String
  startOffsets : Offsets
  endOffsets : Offsets
  readMode : KafkaReadMode

def KafkaBatchWindow.toState (w : KafkaBatchWindow) : KafkaOffsetState where
  topic := w.topic
  groupId := w.groupId
  partitionOffsets := w.endOffsets
  highWatermarks := w.endOffsets
  readMode := w.readMode

/-- `InMemoryKafkaOffsetStateStorage`: one state, found under its own topic and group. -/
def loadState (storage : Option KafkaOffsetState) (topic groupId : String) :
    Option KafkaOffsetState :=
  storage.filter fun state => state.topic = topic ∧ state.groupId = groupId

/-- What the broker answers: the low and the high watermark of a partition, asked for the ends and
    again for the starts, and the offsets for the two instants of a time window. -/
structure Connector where
  topicPartitions : List ℤ
  watermarks : ℤ → ℤ × ℤ
  watermarksAgain : ℤ → ℤ × ℤ
  startsForTimes : Offsets → Offsets
  endsForTimes : Offsets → Offsets

inductive Failure where
  | valueError (text : String)
  | runtimeError (text : String)
  | codec (text : String)
  deriving DecidableEq

/-- `_start_offsets`. -/
def startOffsets (connector : Connector) (storage : Option KafkaOffsetState)
    (topic groupId : String) (o : KafkaSourceOptions) : Offsets :=
  let stored := if o.offsetStorage = "dpone" then loadState storage topic groupId else none
  Dict.ofKeys (fun partition =>
    match stored.bind fun state => state.partitionOffsets.lookup partition with
    | some offset => offset
    | none =>
      if o.startFrom = "latest" then (connector.watermarksAgain partition).2
      else (connector.watermarksAgain partition).1) connector.topicPartitions

def plan (connector : Connector) (storage : Option KafkaOffsetState) (topic : String)
    (o : KafkaSourceOptions) : Except Failure KafkaBatchWindow :=
  let groupId := o.resolvedGroupId topic
  let partitions := connector.topicPartitions
  match o.readMode with
  | .timeWindow =>
    match o.timeWindowStartMs, o.timeWindowEndMs with
    | some startMs, some endMs => .ok
      { topic := topic, groupId := groupId
        startOffsets := connector.startsForTimes (Dict.ofKeys (fun _ => startMs) partitions)
        endOffsets := connector.endsForTimes (Dict.ofKeys (fun _ => endMs) partitions)
        readMode := .timeWindow }
    | _, _ => .error (.valueError
        "Kafka time_window mode requires time_window_start_ms and time_window_end_ms")
  | readMode => .ok
    { topic := topic, groupId := groupId
      startOffsets := startOffsets connector storage topic groupId o
      endOffsets := Dict.ofKeys (fun partition => (connector.watermarks partition).2) partitions
      readMode := readMode }

/-- RESUME: a stored offset is where the next run starts, unless the mode looks its window up. -/
theorem start_of_stored {connector : Connector} {state : KafkaOffsetState} {topic : String}
    {o : KafkaSourceOptions} {partition offset : ℤ} (hstorage : o.offsetStorage = "dpone")
    (htopic : state.topic = topic) (hgroup : state.groupId = o.resolvedGroupId topic)
    (hstored : state.partitionOffsets.lookup partition = some offset)
    (hpartition : partition ∈ connector.topicPartitions) :
    (startOffsets connector (some state) topic (o.resolvedGroupId topic) o).lookup partition =
      some offset := by
  have hload : loadState (some state) topic (o.resolvedGroupId topic) = some state := by
    simp [loadState, htopic, hgroup]
  simp [startOffsets, hstorage, hload, hstored, hpartition]

/-! ### The batch reader

    The bounded batch reader of `runtime/sources/kafka.py`. The replies of the broker are a list of
    polls, as many as a run may make; a loop that has used them all is still waiting. The codec, the
    schema inference and the decoded values are parameters. -/

/-- A message object of the consumer: an error, or an offset of a partition with key and value. -/
structure Message where
  error : Option String := none
  partition : ℤ
  offset : ℤ
  key : Option Bytes := none
  value : Option Bytes := none
  deriving DecidableEq

/-- The answer to one poll; an empty poll answers nothing. -/
abbrev Poll := Option Message

abbrev Row (V : Type) := List (String × V)

/-- The parts outside the reader: decoded values, the message codec, and the two schemas. -/
structure Decoding (V : Type) where
  null : V
  text : String → V
  /-- `dict(value or {})` -/
  asDict : V → Except Failure (Row V)
  deserialize : Option Bytes → Except Failure (Option (Row V))
  inferSchema : List (Row V) → Except Failure (List (String × String))
  registrySchema : List (String × String)

/-- Why a run did not end with a result. -/
inductive Stop where
  | waiting
  | raised (failure : Failure)
  deriving DecidableEq

/-- A row, with the partition and the next offset that its message had. -/
structure Parsed (V : Type) where
  row : Row V
  partition : ℤ
  nextOffset : ℤ

section Reader
variable {V : Type} (d : Decoding V)

def hexDigit (n : ℕ) : Char := if n < 10 then Char.ofNat (48 + n) else Char.ofNat (87 + n)

/-- `_decode_key`. -/
def decodeKey : Option Bytes → V
  | none => d.null
  | some key =>
    match decodeUtf8 key with
    | some chars => d.text (String.ofList chars)
    | none => d.text (String.ofList
        (key.flatMap fun b => [hexDigit (b.toNat / 16), hexDigit (b.toNat % 16)]))

/-- `_unwrap_envelope`. -/
def unwrapEnvelope (o : KafkaSourceOptions) (value : Row V) : Except Failure (Row V) :=
  match o.envelope, value.lookup "data", value.lookup "op" with
  | .flat, _, _ => .ok value
  | _, some data, some op => do
    let row ← d.asDict data
    return Dict.set "__dpone__op" op row
  | _, _, _ => .ok value

/-- The value of a message as a row: a tombstone becomes a row that says so. -/
def valueToRow (o : KafkaSourceOptions) (msg : Message) : Except Failure (Row V) := do
  match ← d.deserialize msg.value with
  | none => .ok [("__dpone__op", d.text "delete"), ("__dpone__kafka_key", decodeKey d msg.key)]
  | some value => unwrapEnvelope d o value

/-- Whether a message lies at or past the end of its partition; a partition without an end has
    none. -/
def past (endOffsets : Offsets) (msg : Message) : Prop :=
  (endOffsets.lookup msg.partition).getD (msg.offset + 1) ≤ msg.offset

instance (endOffsets : Offsets) (msg : Message) : Decidable (past endOffsets msg) :=
  inferInstanceAs (Decidable (_ ≤ _))

/-- `_message_to_row`. -/
def messageToRow (o : KafkaSourceOptions) (endOffsets : Offsets) (msg : Message) :
    Except Failure (Option (Parsed V)) :=
  match msg.error with
  | some error => .error (.runtimeError s!"Kafka consumer error: {error}")
  | none =>
    if past endOffsets msg then .ok none
    else (valueToRow d o msg).map fun row =>
      some { row := row, partition := msg.partition, nextOffset := msg.offset + 1 }

/-- What a consumption loop has when it stops. -/
structure Consumed (V : Type) where
  rows : List (Parsed V)
  offsets : Offsets
  emptyPolls : ℤ
  /-- The polls that were not made. -/
  rest : List Poll

/-- The loop of the three readers: until there are as many rows as the limit says, or as many empty
    polls as the options allow. A row may start the count of the empty polls again. -/
def consume (o : KafkaSourceOptions) (endOffsets : Offsets) (limit : Option ℤ) (resets : Bool)
    (polls : List Poll) (rows : List (Parsed V)) (offsets : Offsets) (emptyPolls : ℤ) :
    Except Stop (Consumed V) :=
  if (∀ n ∈ limit, (rows.length : ℤ) < n) ∧ emptyPolls < o.maxEmptyPolls then
    match polls with
    | [] => .error .waiting
    | none :: polls => consume o endOffsets limit resets polls rows offsets (emptyPolls + 1)
    | some msg :: polls =>
      match messageToRow d o endOffsets msg with
      | .error failure => .error (.raised failure)
      | .ok none => consume o endOffsets limit resets polls rows offsets emptyPolls
      | .ok (some parsed) =>
        consume o endOffsets limit resets polls (rows ++ [parsed])
          (Dict.set parsed.partition parsed.nextOffset offsets) (if resets then 0 else emptyPolls)
  else .ok ⟨rows, offsets, emptyPolls, polls⟩

/-- `_consume_preview`: its rows do not start the count again. -/
def consumePreview (o : KafkaSourceOptions) (endOffsets : Offsets) (polls : List Poll) :
    Except Stop (Consumed V) :=
  consume d o endOffsets (some o.schemaSampleSize) false polls [] [] 0

/-- `_stream_remaining`: the rows of the preview, and then all that the loop reads without a limit.
    The offsets are not looked at. -/
def streamRemaining (o : KafkaSourceOptions) (endOffsets : Offsets) (preview : Consumed V) :
    Except Stop (List (Parsed V)) := do
  let remaining ← consume d o endOffsets none true preview.rest [] [] preview.emptyPolls
  return preview.rows ++ remaining.rows

/-- `_consume_to_list`. -/
def consumeToList (o : KafkaSourceOptions) (startOffsets endOffsets : Offsets)
    (polls : List Poll) : Except Stop (List (Parsed V) × Offsets) := do
  let consumed ← consume d o endOffsets (some o.recordLimit) true polls [] startOffsets 0
  return (consumed.rows, consumed.offsets)

inductive Artifact (V : Type) where
  | inMemory (rows : List (Parsed V))
  | streaming (endOffsets : Offsets) (preview : Consumed V)

structure ExtractResult (V : Type) where
  artifact : Artifact V
  schema : List (String × String)
  state : KafkaOffsetState

/-- A call outside the loops. -/
def called {α : Type} (r : Except Failure α) : Except Stop α := r.mapError .raised

/-- The schema of the previewed rows, or the registered one where there are none. -/
def previewSchema : List (Parsed V) → Except Stop (List (String × String))
  | [] => .ok d.registrySchema
  | rows => called (d.inferSchema (rows.map Parsed.row))

def extract (connector : Connector) (storage : Option KafkaOffsetState) (topic : String)
    (o : KafkaSourceOptions) (polls : List Poll) : Except Stop (ExtractResult V) := do
  let window ← called (plan connector (if o.offsetStorage = "dpone" then storage else none) topic o)
  match o.readMode with
  | .maxRecords =>
    let (rows, endOffsets) ← consumeToList d o window.startOffsets window.endOffsets polls
    let schema ← called (d.inferSchema (rows.map Parsed.row))
    return ⟨.inMemory rows, schema, { window.toState with
      partitionOffsets := endOffsets, readMode := o.readMode }⟩
  | _ =>
    let preview ← consumePreview d o window.endOffsets polls
    let schema ← previewSchema d preview.rows
    return ⟨.streaming window.endOffsets preview, schema, window.toState⟩

/-- The rows a sink takes from an artifact, to its end. -/
def Artifact.emitted (o : KafkaSourceOptions) : Artifact V → Except Stop (List (Parsed V))
  | .inMemory rows => .ok rows
  | .streaming endOffsets preview => streamRemaining d o endOffsets preview

/-- `save_state`: the offsets are committed to Kafka, or the state goes to the storage. -/
inductive Saved where
  | committed (offsets : Offsets)
  | stored (state : KafkaOffsetState)

def saveState (o : KafkaSourceOptions) (state : KafkaOffsetState) : Saved :=
  if o.offsetStorage = "kafka" then .committed state.partitionOffsets else .stored state

def Saved.offsets : Saved → Offsets
  | .committed offsets => offsets
  | .stored state => state.partitionOffsets

/-- A run of a load: the extract, all its rows taken by the sink, and then the state saved. -/
def run (connector : Connector) (storage : Option KafkaOffsetState) (topic : String)
    (o : KafkaSourceOptions) (polls : List Poll) : Except Stop (List (Parsed V) × Saved) := do
  let result ← extract d connector storage topic o polls
  let rows ← result.artifact.emitted d o
  return (rows, saveState o result.state)

end Reader

end Dpone.Kafka
