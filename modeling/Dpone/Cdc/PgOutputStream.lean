import Dpone.Schemes.Delimited
import Dpone.Cdc.PgOutput

/-! Streams of pgoutput messages, and how they are read.

    A stream is the messages a walsender may send: every row message follows a relation message for
    its identifier, with one datum for each column of the relation last sent. Reading one is then
    converting the texts of the rows of the parser's table, in order (`parseStream_eq`). -/

namespace Dpone.Cdc
open Dpone.Schemes

/-! ### Messages as sent -/

/-- One column of a tuple. -/
inductive TupleDatum where
  | null
  | unchanged
  | text (t : Str)
  deriving DecidableEq

/-- Which old tuple a row message has: its key columns, or all of them. -/
inductive OldKind where
  | key | full
  deriving DecidableEq, Repr

inductive PgMessage where
  | relation (r : PgOutputRelation)
  | insert (relationId : ℕ) (new : List TupleDatum)
  | update (relationId : ℕ) (old : Option (OldKind × List TupleDatum)) (new : List TupleDatum)
  | delete (relationId : ℕ) (kind : OldKind) (old : List TupleDatum)

def charByte (c : Char) : Bytes := [UInt8.ofNat c.toNat]

def cstring (s : Str) : Bytes := encodeUtf8 s ++ [0]

def TupleDatum.encode : TupleDatum → Bytes
  | .null => charByte 'n'
  | .unchanged => charByte 'u'
  | .text t => charByte 't' ++ (toBE 4 (encodeUtf8 t).length ++ encodeUtf8 t)

def encodeTuple (tuple : List TupleDatum) : Bytes :=
  toBE 2 tuple.length ++ tuple.flatMap TupleDatum.encode

def PgOutputColumn.encode (c : PgOutputColumn) : Bytes :=
  [UInt8.ofNat c.flags] ++ (cstring c.name ++ (toBE 4 c.typeOid ++ toBESigned 4 c.typeModifier))

def PgOutputRelation.encode (r : PgOutputRelation) : Bytes :=
  toBE 4 r.relationId ++ (cstring r.relationNamespace ++ (cstring r.name ++
    (charByte r.replicaIdentity ++ (toBE 2 r.columns.length ++
      r.columns.flatMap PgOutputColumn.encode))))

def OldKind.letter : OldKind → Char
  | key => 'K'
  | full => 'O'

def PgMessage.encode : PgMessage → Bytes
  | .relation r => charByte 'R' ++ r.encode
  | .insert relationId new =>
    charByte 'I' ++ (toBE 4 relationId ++ (charByte 'N' ++ encodeTuple new))
  | .update relationId none new =>
    charByte 'U' ++ (toBE 4 relationId ++ (charByte 'N' ++ encodeTuple new))
  | .update relationId (some (kind, old)) new =>
    charByte 'U' ++ (toBE 4 relationId ++ (charByte kind.letter ++ (encodeTuple old ++
      (charByte 'N' ++ encodeTuple new))))
  | .delete relationId kind old =>
    charByte 'D' ++ (toBE 4 relationId ++ (charByte kind.letter ++ encodeTuple old))

/-! ### Well-formed streams -/

/-- A text as a column of the type prints its values. -/
def WellTyped (typeOid : ℕ) (t : Str) : Prop :=
  if typeOid ∈ boolOids then t = ['t'] ∨ t = ['f']
  else if typeOid ∈ intOids then ∃ n : ℤ, t = intText n
  else if typeOid ∈ floatOids then ∃ n : NumberText, n.WellFormed ∧ t = n.text
  else if typeOid ∈ numericOids then ∃ n : NumberText, n.WellFormed ∧ n.Plain ∧ t = n.text
  else True

/-- A datum of a column. -/
def FitsColumn (column : PgOutputColumn) : TupleDatum → Prop
  | .text t => (encodeUtf8 t).length < 2 ^ 32 ∧ WellTyped column.typeOid t
  | _ => True

def FitsRelation (r : PgOutputRelation) (tuple : List TupleDatum) : Prop :=
  List.Forall₂ FitsColumn r.columns tuple

structure PgOutputColumn.Sendable (c : PgOutputColumn) : Prop where
  flags : c.flags < 256
  name : Char.ofNat 0 ∉ c.name
  typeOid : c.typeOid < 2 ^ 32
  typeModifier : -2 ^ 31 ≤ c.typeModifier ∧ c.typeModifier < 2 ^ 31

structure PgOutputRelation.Sendable (r : PgOutputRelation) : Prop where
  relationId : r.relationId < 2 ^ 32
  relationNamespace : Char.ofNat 0 ∉ r.relationNamespace
  name : Char.ofNat 0 ∉ r.name
  replicaIdentity : r.replicaIdentity.toNat < 256
  count : r.columns.length < 2 ^ 16
  columns : ∀ c ∈ r.columns, c.Sendable
  distinct : (r.columns.map (·.name)).Nodup

/-- The relations a decoder knows. -/
abbrev Known := ℕ → Option PgOutputRelation

/-- What a message adds to them. -/
def remember (known : Known) : PgMessage → Known
  | .relation r => Function.update known r.relationId (some r)
  | _ => known

/-- A message that may be sent when these relations have been. -/
def PgMessage.Sendable (known : Known) : PgMessage → Prop
  | .relation r => r.Sendable
  | .insert relationId new =>
    relationId < 2 ^ 32 ∧ ∃ r, known relationId = some r ∧ FitsRelation r new
  | .update relationId old new =>
    relationId < 2 ^ 32 ∧ ∃ r, known relationId = some r ∧ FitsRelation r new ∧
      ∀ o ∈ old, FitsRelation r o.2
  | .delete relationId _ old =>
    relationId < 2 ^ 32 ∧ ∃ r, known relationId = some r ∧ FitsRelation r old

/-- A message with its position and transaction. -/
structure SentMessage where
  lsn : Str
  xid : Option Str
  message : PgMessage

/-- Relations known to a decoder are as they were sent. -/
def KnownSendable (known : Known) : Prop := ∀ id r, known id = some r → r.Sendable

def WellFormedStream : Known → List SentMessage → Prop
  | _, [] => True
  | known, m :: ms => m.message.Sendable known ∧ WellFormedStream (remember known m.message) ms

/-! ### Rows -/

/-- A row change as the source sent it. -/
structure RowChange where
  operation : CDCOperation
  relation : PgOutputRelation
  lsn : Str
  xid : Option Str
  new : List TupleDatum
  old : Option (List TupleDatum)

def SentMessage.row (known : Known) (m : SentMessage) : Option RowChange :=
  match m.message with
  | .relation _ => none
  | .insert id new => (known id).map fun r => ⟨.insert, r, m.lsn, m.xid, new, none⟩
  | .update id old new => (known id).map fun r => ⟨.update, r, m.lsn, m.xid, new, old.map Prod.snd⟩
  | .delete id _ old => (known id).map fun r => ⟨.delete, r, m.lsn, m.xid, old, none⟩

def rowChanges : Known → List SentMessage → List RowChange
  | _, [] => []
  | known, m :: ms => (m.row known).toList ++ rowChanges (remember known m.message) ms

/-- The payloads of a stream. -/
def payloads (stream : List SentMessage) : List (Str × Option Str × Bytes) :=
  stream.map fun m => (m.lsn, m.xid, m.message.encode)

/-- The rows of the parser's own table. -/
def ownRows (p : PgOutputMessageParser) (stream : List SentMessage) : List RowChange :=
  (rowChanges p.relations stream).filter fun row => p.Own row.relation

/-! ### Reading what was sent -/

theorem readUint8_reads {n : ℕ} (h : n < 256) : ReadsTo readUint8 [UInt8.ofNat n] (.ok n) := by
  intro rest
  show Except.ok ((UInt8.ofNat n).toNat, rest) = _
  rw [byte_toNat h]
  rfl

theorem readChar_reads {c : Char} (h : c.toNat < 256) : ReadsTo readChar (charByte c) (.ok c) := by
  have hread := (readUint8_reads h).map Char.ofNat
  rwa [Except.map, Char.ofNat_toNat] at hread

theorem readBytes_reads {n : ℕ} {bs : Bytes} (h : bs.length = n) :
    ReadsTo (readBytes n) bs (.ok bs) := by
  intro rest
  subst h
  show Except.ok ((bs ++ rest).take bs.length, (bs ++ rest).drop bs.length) = _
  rw [List.take_left, List.drop_left]
  rfl

theorem readUint16_reads {n : ℕ} (h : n < 2 ^ 16) : ReadsTo readUint16 (toBE 2 n) (.ok n) := by
  have hread := (readBytes_reads (toBE_length 2 n)).map ofBE
  rwa [Except.map, ofBE_toBE (by omega)] at hread

theorem readUint32_reads {n : ℕ} (h : n < 2 ^ 32) : ReadsTo readUint32 (toBE 4 n) (.ok n) := by
  have hread := (readBytes_reads (toBE_length 4 n)).map ofBE
  rwa [Except.map, ofBE_toBE (by omega)] at hread

theorem readInt32_reads {v : ℤ} (hlo : -2 ^ 31 ≤ v) (hhi : v < 2 ^ 31) :
    ReadsTo readInt32 (toBESigned 4 v) (.ok v) := by
  have hread := (readBytes_reads (toBESigned_length 4 v)).map ofBESigned
  rwa [Except.map, ofBESigned_toBESigned (by omega) (by omega)] at hread

theorem decodeText_encode (s : Str) : decodeText (encodeUtf8 s) = .ok s := by
  rw [decodeText, decodeUtf8_encodeUtf8]

theorem readCstring_reads {s : Str} (h : Char.ofNat 0 ∉ s) :
    ReadsTo readCstring (cstring s) (.ok s) := by
  have hzero : ∀ b ∈ encodeUtf8 s, (decide (b ≠ 0)) = true := by
    intro b hb
    refine decide_eq_true fun heq => h (mem_of_mem_encodeUtf8 (by decide) ?_)
    rw [heq] at hb
    exact hb
  have hcut : ReadsTo cutZero (cstring s) (.ok (encodeUtf8 s)) := by
    intro rest
    obtain ⟨htake, hdrop⟩ := taken_run (t := (0 : UInt8) :: rest) hzero (by simp)
    show cutZero (encodeUtf8 s ++ [0] ++ rest) = _
    rw [List.append_assoc, cutZero]
    simp only [List.singleton_append, hdrop, htake]
    rfl
  exact hcut.andThen (by rw [← decodeText_encode s]; exact ReadsTo.lift _)

theorem parseColumn_reads {c : PgOutputColumn} (h : c.Sendable) :
    ReadsTo parseColumn c.encode (.ok c) :=
  (readUint8_reads h.flags).bind <| (readCstring_reads h.name).bind <|
    (readUint32_reads h.typeOid).bind
      ((readInt32_reads h.typeModifier.1 h.typeModifier.2).map _)

/-- LOSSLESS: a relation message is read back. -/
theorem parseRelation_reads {r : PgOutputRelation} (h : r.Sendable) :
    ReadsTo parseRelation r.encode (.ok r) :=
  (readUint32_reads h.relationId).bind <| (readCstring_reads h.relationNamespace).bind <|
    (readCstring_reads h.name).bind <| (readChar_reads h.replicaIdentity).bind <|
      (readUint16_reads h.count).bind
        ((ReadsTo.many fun c hc => parseColumn_reads (h.columns c hc)).map _)

section Values
variable (u : Unicode)

/-- What the decoder makes of a datum. -/
def datumValue (column : PgOutputColumn) : TupleDatum → Except PyError (Option PgValue)
  | .text t => (convertValue u t column.typeOid).map some
  | _ => .ok none

/-- What it makes of the columns of a tuple. -/
def tupleValues (pairs : List (PgOutputColumn × TupleDatum)) : Except PyError (RowData PgValue) :=
  pairs.mapM fun p => (datumValue u p.1 p.2).map fun v => (p.1.name, v)

/-- What it makes of a row. -/
def rowValue (row : RowChange) : Except PyError (CDCChange PgValue) := do
  let before ← match row.old with
    | none => pure none
    | some old => some <$> tupleValues u (row.relation.columns.zip old)
  let data ← tupleValues u (row.relation.columns.zip row.new)
  return pgChange row.operation row.relation row.lsn row.xid data before

end Values

variable {u : Unicode}

theorem readValue_reads {column : PgOutputColumn} {d : TupleDatum} (h : FitsColumn column d) :
    ReadsTo (readValue u column) d.encode (datumValue u column d) := by
  cases d with
  | null => exact (readChar_reads (by decide)).andThen (ReadsTo.pure none)
  | unchanged => exact (readChar_reads (by decide)).andThen (ReadsTo.pure none)
  | text t =>
    refine (readChar_reads (by decide)).bind <| (readUint32_reads h.1).bind <|
      (readBytes_reads rfl).andThen <| ReadsTo.andThen (a := t) ?_ ((ReadsTo.lift _).map some)
    rw [← decodeText_encode t]
    exact ReadsTo.lift _

theorem tupleValues_cons (c : PgOutputColumn) (d : TupleDatum)
    (pairs : List (PgOutputColumn × TupleDatum)) :
    tupleValues u ((c, d) :: pairs) = do
      let v ← datumValue u c d
      let rest ← tupleValues u pairs
      return (c.name, v) :: rest := by
  rw [tupleValues, List.mapM_cons]
  cases datumValue u c d <;> rfl

theorem setItem_new {V : Type} {name : Str} (v : Option V) : ∀ {values : RowData V},
    name ∉ values.map Prod.fst → setItem values name v = values ++ [(name, v)]
  | [], _ => rfl
  | (key, old) :: values, h => by
    obtain ⟨hkey, hrest⟩ : name ≠ key ∧ name ∉ values.map Prod.fst := by simpa using h
    rw [setItem, if_neg (Ne.symm hkey), setItem_new v hrest]
    rfl

/-- The loop over a tuple adds its columns behind those it has. -/
theorem readValues_reads : ∀ {columns : List PgOutputColumn} {tuple : List TupleDatum}
    {values : RowData PgValue}, List.Forall₂ FitsColumn columns tuple →
    (columns.map (·.name)).Nodup → (∀ c ∈ columns, c.name ∉ values.map Prod.fst) →
    ReadsTo (readValues u tuple.length columns values) (tuple.flatMap TupleDatum.encode)
      ((tupleValues u (columns.zip tuple)).map (values ++ ·))
  | [], [], values, _, _, _ => by
    show ReadsTo (Pure.pure values) [] (.ok (values ++ []))
    rw [List.append_nil]
    exact ReadsTo.pure values
  | c :: columns, d :: tuple, values, hfits, hdistinct, hnew => by
    obtain ⟨hd, hfits⟩ := List.forall₂_cons.mp hfits
    obtain ⟨hc, hdistinct⟩ := List.nodup_cons.mp hdistinct
    have hread := readValue_reads (u := u) hd
    rw [List.zip_cons_cons, tupleValues_cons]
    cases hv : datumValue u c d with
    | error e =>
      rw [hv] at hread
      exact hread.bind_error _
    | ok v =>
      rw [hv] at hread
      have htail : ReadsTo (readValues u tuple.length columns (setItem values c.name v))
          (tuple.flatMap TupleDatum.encode)
          ((tupleValues u (columns.zip tuple)).map ((values ++ [(c.name, v)]) ++ ·)) := by
        rw [setItem_new v (hnew c (List.mem_cons_self ..))]
        refine readValues_reads hfits hdistinct fun c' hc' => ?_
        have hne : c'.name ≠ c.name := fun h => hc (List.mem_map.mpr ⟨c', hc', h⟩)
        simpa [hne] using hnew c' (List.mem_cons_of_mem c hc')
      have hjoin : ((do
            let v ← Except.ok v
            let rest ← tupleValues u (columns.zip tuple)
            return (c.name, v) :: rest).map (values ++ ·) : Except PyError (RowData PgValue)) =
          (tupleValues u (columns.zip tuple)).map ((values ++ [(c.name, v)]) ++ ·) := by
        rw [ok_bind]
        cases tupleValues u (columns.zip tuple) with
        | error e => rfl
        | ok rest => exact congrArg Except.ok (List.append_assoc values [(c.name, v)] rest).symm
      rw [hjoin]
      exact hread.bind htail

theorem readTuple_reads {r : PgOutputRelation} (hr : r.Sendable) {tuple : List TupleDatum}
    (h : FitsRelation r tuple) :
    ReadsTo (readTuple u r) (encodeTuple tuple) (tupleValues u (r.columns.zip tuple)) := by
  have hlength : tuple.length < 2 ^ 16 := h.length_eq ▸ hr.count
  refine (readUint16_reads hlength).bind ?_
  have hread : ReadsTo (readValues u tuple.length r.columns []) _
      ((tupleValues u (r.columns.zip tuple)).map ([] ++ ·)) :=
    readValues_reads h hr.distinct (by simp)
  have hid : (tupleValues u (r.columns.zip tuple)).map ([] ++ ·) =
      tupleValues u (r.columns.zip tuple) := by
    cases tupleValues u (r.columns.zip tuple) <;> rfl
  rwa [hid] at hread

section Messages
variable {p : PgOutputMessageParser} {lsn : Str} {xid : Option Str} {relationId : ℕ}
  {r : PgOutputRelation}

theorem relationFor_own (hknown : p.relations relationId = some r) (hown : p.Own r) :
    relationFor p relationId = some r := by
  simp [relationFor, hknown, hown]

theorem relationFor_other (hknown : p.relations relationId = some r) (hown : ¬ p.Own r) :
    relationFor p relationId = none := by
  simp [relationFor, hknown, hown]

/-- The tag of a message selects its parser. -/
theorem parse_tagged {tag : Char} {x : ByteReader (Option (CDCChange PgValue))} {body : Bytes}
    {answer : Except PyError (Option (CDCChange PgValue))}
    (htag : tag = 'I' ∧ x = parseInsert u p lsn xid ∨ tag = 'U' ∧ x = parseUpdate u p lsn xid ∨
      tag = 'D' ∧ x = parseDelete u p lsn xid) (hx : Answers x body answer) :
    parse u p lsn xid (charByte tag ++ body) = answer.map fun change => (p, change) := by
  rcases htag with ⟨rfl, rfl⟩ | ⟨rfl, rfl⟩ | ⟨rfl, rfl⟩
  · exact (readChar_reads (by decide)).bindAnswers (hx.map _)
  · exact (readChar_reads (by decide)).bindAnswers (hx.map _)
  · exact (readChar_reads (by decide)).bindAnswers (hx.map _)

theorem parse_relation (hr : r.Sendable) :
    parse u p lsn xid (PgMessage.relation r).encode =
      .ok ({ p with relations := remember p.relations (.relation r) }, none) :=
  (readChar_reads (by decide)).bindAnswers ((parseRelation_reads hr).map _).answers

theorem parseNewTuple_reads {new : List TupleDatum} (hr : r.Sendable) (hfits : FitsRelation r new)
    (before : Option (RowData PgValue)) :
    ReadsTo (parseNewTuple u lsn xid r before 'N') (encodeTuple new)
      ((tupleValues u (r.columns.zip new)).map fun data =>
        some (pgChange .update r lsn xid data before)) :=
  (readTuple_reads hr hfits).map _

theorem parseUpdate_reads {new : List TupleDatum} (hr : r.Sendable) (hlt : relationId < 2 ^ 32)
    (hfor : relationFor p relationId = some r) (hfits : FitsRelation r new) :
    ReadsTo (parseUpdate u p lsn xid) (toBE 4 relationId ++ (charByte 'N' ++ encodeTuple new))
      ((tupleValues u (r.columns.zip new)).map fun data =>
        some (pgChange .update r lsn xid data none)) := by
  refine (readUint32_reads hlt).bind ?_
  simp only [hfor]
  exact (readChar_reads (by decide)).bind (parseNewTuple_reads hr hfits none)

theorem parseUpdate_reads_old {old new : List TupleDatum} (hr : r.Sendable)
    (hlt : relationId < 2 ^ 32) (hfor : relationFor p relationId = some r) (kind : OldKind)
    (hold : FitsRelation r old) (hfits : FitsRelation r new) :
    ReadsTo (parseUpdate u p lsn xid)
      (toBE 4 relationId ++ (charByte kind.letter ++ (encodeTuple old ++
        (charByte 'N' ++ encodeTuple new))))
      (do
        let before ← tupleValues u (r.columns.zip old)
        let data ← tupleValues u (r.columns.zip new)
        return some (pgChange .update r lsn xid data (some before))) := by
  have hread := readTuple_reads (u := u) hr hold
  refine (readUint32_reads hlt).bind ?_
  simp only [hfor]
  refine (readChar_reads (by cases kind <;> decide)).bind ?_
  rw [if_pos (by cases kind <;> decide)]
  cases hvalues : tupleValues u (r.columns.zip old) with
  | error e =>
    rw [hvalues] at hread
    exact hread.bind_error _
  | ok before =>
    rw [hvalues] at hread
    refine hread.bind ((readChar_reads (by decide)).bind ?_)
    have hnew : ReadsTo (parseNewTuple u lsn xid r (some before) 'N') (encodeTuple new) _ :=
      parseNewTuple_reads hr hfits (some before)
    rw [ok_bind]
    cases htuple : tupleValues u (r.columns.zip new) <;> rw [htuple] at hnew <;> exact hnew

/-- CORRECT: a row of the parser's table is decoded by its relation. -/
theorem parse_own {m : SentMessage} {row : RowChange} (hid : KnownSendable p.relations)
    (hsendable : m.message.Sendable p.relations) (hrow : m.row p.relations = some row)
    (hown : p.Own row.relation) :
    parse u p m.lsn m.xid m.message.encode = (rowValue u row).map fun c => (p, some c) := by
  obtain ⟨lsn, xid, message⟩ := m
  cases message with
  | relation r => cases hrow
  | insert id new =>
    obtain ⟨hlt, r, hknown, hfits⟩ := hsendable
    obtain rfl : _ = row := by simpa [SentMessage.row, hknown] using hrow
    have hread : ReadsTo (parseInsert u p lsn xid) (toBE 4 id ++ (charByte 'N' ++ encodeTuple new))
        ((tupleValues u (r.columns.zip new)).map fun data =>
          some (pgChange .insert r lsn xid data none)) := by
      refine (readUint32_reads hlt).bind ((readChar_reads (by decide)).bind ?_)
      simp only [ne_eq, not_true_eq_false, if_false, relationFor_own hknown hown]
      exact (readTuple_reads (hid id r hknown) hfits).map _
    rw [PgMessage.encode, parse_tagged (.inl ⟨rfl, rfl⟩) hread.answers, rowValue]
    cases tupleValues u (r.columns.zip new) <;> rfl
  | update id old new =>
    obtain ⟨hlt, r, hknown, hfits, hold⟩ := hsendable
    obtain rfl : _ = row := by simpa [SentMessage.row, hknown] using hrow
    have hr := hid id r hknown
    have hfor := relationFor_own hknown hown
    cases old with
    | none =>
      rw [PgMessage.encode, parse_tagged (.inr (.inl ⟨rfl, rfl⟩))
        (parseUpdate_reads hr hlt hfor hfits).answers, rowValue]
      cases tupleValues u (r.columns.zip new) <;> rfl
    | some o =>
      obtain ⟨kind, oldTuple⟩ := o
      rw [PgMessage.encode, parse_tagged (.inr (.inl ⟨rfl, rfl⟩))
        (parseUpdate_reads_old hr hlt hfor kind (hold _ rfl) hfits).answers, rowValue]
      simp only [Option.map_some]
      cases tupleValues u (r.columns.zip oldTuple) with
      | error e => rfl
      | ok before => cases tupleValues u (r.columns.zip new) <;> rfl
  | delete id kind old =>
    obtain ⟨hlt, r, hknown, hfits⟩ := hsendable
    obtain rfl : _ = row := by simpa [SentMessage.row, hknown] using hrow
    have hread : ReadsTo (parseDelete u p lsn xid)
        (toBE 4 id ++ (charByte kind.letter ++ encodeTuple old))
        ((tupleValues u (r.columns.zip old)).map fun data =>
          some (pgChange .delete r lsn xid data none)) := by
      refine (readUint32_reads hlt).bind ((readChar_reads (by cases kind <;> decide)).bind ?_)
      rw [if_neg (by cases kind <;> decide)]
      simp only [relationFor_own hknown hown]
      exact (readTuple_reads (hid id r hknown) hfits).map _
    rw [PgMessage.encode, parse_tagged (.inr (.inr ⟨rfl, rfl⟩)) hread.answers, rowValue]
    cases tupleValues u (r.columns.zip old) <;> rfl

/-- Rows of other tables are passed over. -/
theorem parse_other {m : SentMessage} {row : RowChange}
    (hsendable : m.message.Sendable p.relations) (hrow : m.row p.relations = some row)
    (hown : ¬ p.Own row.relation) :
    parse u p m.lsn m.xid m.message.encode = .ok (p, none) := by
  obtain ⟨lsn, xid, message⟩ := m
  cases message with
  | relation r => cases hrow
  | insert id new =>
    obtain ⟨hlt, r, hknown, -⟩ := hsendable
    obtain rfl : _ = row := by simpa [SentMessage.row, hknown] using hrow
    have hread : Answers (parseInsert u p lsn xid) (toBE 4 id ++ (charByte 'N' ++ encodeTuple new))
        (.ok none) := by
      refine (readUint32_reads hlt).bindAnswers ((readChar_reads (by decide)).bindAnswers ?_)
      simp only [ne_eq, not_true_eq_false, if_false, relationFor_other hknown hown]
      exact Answers.pure none _
    exact parse_tagged (.inl ⟨rfl, rfl⟩) hread
  | update id old new =>
    obtain ⟨hlt, r, hknown, -⟩ := hsendable
    obtain rfl : _ = row := by simpa [SentMessage.row, hknown] using hrow
    have hread : ∀ body, Answers (parseUpdate u p lsn xid) (toBE 4 id ++ body) (.ok none) := by
      intro body
      refine (readUint32_reads hlt).bindAnswers ?_
      simp only [relationFor_other hknown hown]
      exact Answers.pure none _
    rcases old with _ | ⟨kind, oldTuple⟩
    · exact parse_tagged (.inr (.inl ⟨rfl, rfl⟩)) (hread _)
    · exact parse_tagged (.inr (.inl ⟨rfl, rfl⟩)) (hread _)
  | delete id kind old =>
    obtain ⟨hlt, r, hknown, -⟩ := hsendable
    obtain rfl : _ = row := by simpa [SentMessage.row, hknown] using hrow
    have hread : Answers (parseDelete u p lsn xid)
        (toBE 4 id ++ (charByte kind.letter ++ encodeTuple old)) (.ok none) := by
      refine (readUint32_reads hlt).bindAnswers
        ((readChar_reads (by cases kind <;> decide)).bindAnswers ?_)
      rw [if_neg (by cases kind <;> decide)]
      simp only [relationFor_other hknown hown]
      exact Answers.pure none _
    exact parse_tagged (.inr (.inr ⟨rfl, rfl⟩)) hread

end Messages

/-- Every row message that may be sent is a row of a relation. -/
theorem row_of_sendable {known : Known} {m : SentMessage} (h : m.message.Sendable known) :
    (∃ r, m.message = .relation r) ∨
      (∃ row, m.row known = some row) ∧ remember known m.message = known := by
  obtain ⟨lsn, xid, message⟩ := m
  cases message with
  | relation r => exact .inl ⟨r, rfl⟩
  | insert id new =>
    obtain ⟨-, r, hknown, -⟩ := h
    exact .inr ⟨Option.isSome_iff_exists.mp (by simp [SentMessage.row, hknown]), rfl⟩
  | update id old new =>
    obtain ⟨-, r, hknown, -⟩ := h
    exact .inr ⟨Option.isSome_iff_exists.mp (by simp [SentMessage.row, hknown]), rfl⟩
  | delete id kind old =>
    obtain ⟨-, r, hknown, -⟩ := h
    exact .inr ⟨Option.isSome_iff_exists.mp (by simp [SentMessage.row, hknown]), rfl⟩

theorem knownSendable_remember {known : Known} {r : PgOutputRelation} (h : KnownSendable known)
    (hr : r.Sendable) : KnownSendable (remember known (.relation r)) := by
  intro id r' hr'
  by_cases hid : id = r.relationId
  · subst hid
    rw [remember, Function.update_self] at hr'
    cases hr'
    exact hr
  · rw [remember, Function.update_of_ne hid] at hr'
    exact h id r' hr'

/-- RUN: decoding a stream is converting the rows of the parser's table, in order. -/
theorem parseStream_eq : ∀ {p : PgOutputMessageParser} {stream : List SentMessage},
    KnownSendable p.relations → WellFormedStream p.relations stream →
    parseStream u p (payloads stream) = (ownRows p stream).mapM (rowValue u)
  | p, [], _, _ => rfl
  | p, m :: ms, hknown, ⟨hm, hms⟩ => by
    rcases row_of_sendable hm with ⟨r, hr⟩ | ⟨⟨row, hrow⟩, hsame⟩
    · obtain ⟨lsn, xid, message⟩ := m
      dsimp only at hr
      subst hr
      have ih := parseStream_eq (p := { p with relations := remember p.relations (.relation r) })
        (knownSendable_remember hknown hm) hms
      rw [payloads, List.map_cons, parseStream, parse_relation hm, ok_bind]
      change (do return [] ++ (← parseStream u _ (payloads ms))) = _
      rw [ih]
      exact bind_pure _
    · rw [hsame] at hms
      have ih := parseStream_eq hknown hms
      have hrows : rowChanges p.relations (m :: ms) = row :: rowChanges p.relations ms := by
        rw [rowChanges, hrow, hsame]
        rfl
      rw [payloads, List.map_cons, parseStream]
      by_cases hown : p.Own row.relation
      · rw [parse_own hknown hm hrow hown, ownRows, hrows,
          List.filter_cons_of_pos (by simpa using hown), List.mapM_cons]
        change _ = (do
          let c ← rowValue u row
          let cs ← (ownRows p ms).mapM (rowValue u)
          return c :: cs)
        rw [← ih]
        cases rowValue u row <;> rfl
      · rw [parse_other hm hrow hown, ownRows, hrows, List.filter_cons_of_neg (by simpa using hown),
          ok_bind]
        change (do return [] ++ (← parseStream u p (payloads ms))) =
          (ownRows p ms).mapM (rowValue u)
        rw [ih]
        exact bind_pure _

end Dpone.Cdc
