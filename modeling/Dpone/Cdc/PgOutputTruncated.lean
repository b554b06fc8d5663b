import Dpone.Schemes.Truncated
import Dpone.Cdc.PgOutputFaithful

/-! Row messages of pgoutput that arrive truncated.

    `read_uint8` indexes the payload and raises at its end; the other integers and the texts are
    slices, which are short or empty there, and `int.from_bytes(b"")` is 0. A truncated message is
    therefore noticed only by a later `read_char`. After the tag of the last tuple there is none:
    a message cut right behind it has zero columns, and is returned as a change without data. -/

namespace Dpone.Cdc
open Dpone.Schemes

/-! ### The readers at the end of the payload -/

theorem readChar_raises : Raises readChar [] := ⟨_, rfl⟩

theorem readBytes_staysAtEnd (n : ℕ) : StaysAtEnd (readBytes n) := by
  intro a rest h
  cases h
  exact List.drop_nil

theorem readBytes_runsOut {n : ℕ} {bs : Bytes} (h : bs.length ≤ n) : RunsOut (readBytes n) bs := by
  intro cut hcut a rest hrun
  have hlt := hcut.length_lt
  cases hrun
  exact List.drop_of_length_le (by omega)

theorem readUint16_runsOut (n : ℕ) : RunsOut readUint16 (toBE 2 n) :=
  (readBytes_runsOut (toBE_length 2 n).le).map ofBE

theorem readUint32_runsOut (n : ℕ) : RunsOut readUint32 (toBE 4 n) :=
  (readBytes_runsOut (toBE_length 4 n).le).map ofBE

/-- A single byte is cut to nothing. -/
theorem truncated_charByte {cut : Bytes} {c : Char} (h : Truncated cut (charByte c)) :
    cut = [] := by
  have hlt := h.length_lt
  rw [charByte, List.length_singleton] at hlt
  exact List.length_eq_zero_iff.mp (by omega)

/-- A tag is never missed. -/
theorem rejects_tag {β : Type} {c : Char} (f : Char → ByteReader β) :
    RejectsTruncations (readChar >>= f) (charByte c) := by
  intro cut hcut
  rw [truncated_charByte hcut]
  exact readChar_raises.bind f

theorem rejects_tagged {β : Type} {c : Char} (hc : c.toNat < 256) {f : Char → ByteReader β}
    {second : Bytes} :
    RejectsTruncations (readChar >>= f) (charByte c ++ second) ↔
      RejectsTruncations (f c) second := by
  rw [(readChar_reads hc).rejects_bind]
  exact and_iff_right (rejects_tag f)

theorem runsOut_tagged {β : Type} {c : Char} (hc : c.toNat < 256) {f : Char → ByteReader β}
    {second : Bytes} (hf : RunsOut (f c) second) :
    RunsOut (readChar >>= f) (charByte c ++ second) := by
  intro cut hcut b rest h
  rcases truncated_append.mp hcut with hcut | ⟨cut', hcut', rfl⟩
  · obtain ⟨e, he⟩ := rejects_tag f cut hcut
    rw [he] at h
    cases h
  · rw [StateT.run_bind, readChar_reads hc] at h
    exact hf cut' hcut' b rest h

section Tuples
variable {u : Unicode}

theorem readValue_raises (column : PgOutputColumn) : Raises (readValue u column) [] :=
  readChar_raises.bind _

theorem readValue_runsOut {column : PgOutputColumn} {d : TupleDatum} (h : FitsColumn column d) :
    RunsOut (readValue u column) d.encode := by
  cases d with
  | null =>
    change RunsOut (readChar >>= _) (charByte 'n' ++ [])
    exact runsOut_tagged (by decide) (RunsOut.nil _)
  | unchanged =>
    change RunsOut (readChar >>= _) (charByte 'u' ++ [])
    exact runsOut_tagged (by decide) (RunsOut.nil _)
  | text t =>
    have htext : ∀ raw, StaysAtEnd (do
        let text ← decodeText raw
        return some (← convertValue u text column.typeOid) : ByteReader (Option PgValue)) :=
      fun raw => (StaysAtEnd.lift _).bind fun text =>
        (StaysAtEnd.lift _).bind fun v => StaysAtEnd.pure _
    refine runsOut_tagged (by decide) ?_
    refine RunsOut.bind (readUint32_reads h.1) (readUint32_runsOut _) ?_
      fun n => (readBytes_staysAtEnd n).bind htext
    exact (readBytes_runsOut le_rfl).andThen htext

theorem readValues_staysAtEnd : ∀ (n : ℕ) (columns : List PgOutputColumn)
    (values : RowData PgValue), StaysAtEnd (readValues u n columns values)
  | 0, _, values => StaysAtEnd.pure values
  | _ + 1, [], _ => Raises.staysAtEnd ⟨_, rfl⟩
  | _ + 1, column :: _, _ => ((readValue_raises column).bind _).staysAtEnd

/-- On a truncated tuple the loop raises or reads to the end. -/
theorem readValues_runsOut : ∀ {columns : List PgOutputColumn} {tuple : List TupleDatum}
    (values : RowData PgValue), List.Forall₂ FitsColumn columns tuple →
    RunsOut (readValues u tuple.length columns values) (tuple.flatMap TupleDatum.encode)
  | [], [], _, _ => RunsOut.nil _
  | column :: columns, d :: tuple, values, hfits => by
    obtain ⟨hd, hfits⟩ := List.forall₂_cons.mp hfits
    have hread := readValue_reads (u := u) hd
    have hend := fun v => readValues_staysAtEnd (u := u) tuple.length columns
      (setItem values column.name v)
    cases hv : datumValue u column d with
    | error e =>
      rw [hv] at hread
      exact (readValue_runsOut hd).bind_error hread hend _
    | ok v =>
      rw [hv] at hread
      exact (readValue_runsOut hd).bind hread (readValues_runsOut _ hfits) hend

theorem readTuple_runsOut {r : PgOutputRelation} (hr : r.Sendable) {tuple : List TupleDatum}
    (h : FitsRelation r tuple) : RunsOut (readTuple u r) (encodeTuple tuple) := by
  have hlength : tuple.length < 2 ^ 16 := h.length_eq ▸ hr.count
  exact (readUint16_runsOut _).bind (readUint16_reads hlength) (readValues_runsOut [] h)
    fun n => readValues_staysAtEnd n r.columns []

theorem encodeTuple_ne_nil (tuple : List TupleDatum) : encodeTuple tuple ≠ [] := by
  intro h
  have hlength := congrArg List.length h
  simp [encodeTuple] at hlength

end Tuples

/-! ### The conversion of a tuple -/

/-- An infinite `numeric`, which `int` and `float` do not take. -/
def Infinite (column : PgOutputColumn) : TupleDatum → Prop
  | .text t => column.typeOid ∈ numericOids ∧ ∃ negative, t = (NumberText.infinity negative).text
  | _ => False

section Conversion
variable {u : Unicode}

theorem convertDecimal_fails_iff {x : PyNumber} :
    (∃ e, convertDecimal x = .error e) ↔ ∃ negative, x = .infinite negative := by
  constructor
  · rintro ⟨e, he⟩
    cases x with
    | infinite negative => exact ⟨negative, rfl⟩
    | nan => cases he
    | finite negative coefficient exponent =>
      rw [convertDecimal_of_value rfl] at he
      cases he
  · rintro ⟨negative, rfl⟩
    exact ⟨_, rfl⟩

theorem convertValue_numeric {typeOid : ℕ} (h : typeOid ∈ numericOids) {n : NumberText}
    (hn : n.WellFormed) : convertValue u n.text typeOid = convertDecimal n.number := by
  have hother : typeOid ∉ boolOids ∧ typeOid ∉ intOids ∧ typeOid ∉ floatOids := by
    refine ⟨fun h' => ?_, fun h' => ?_, fun h' => ?_⟩ <;> exact not_numeric (by simp [h']) h
  simp only [convertValue, hother, h, pyDecimal_text hn, if_false, if_true]

theorem number_infinite_iff {n : NumberText} {negative : Bool} :
    n.number = .infinite negative ↔ n = .infinity negative := by
  cases n <;> simp [NumberText.number]

/-- Of the data a column may hold, an infinite `numeric` alone is not converted. -/
theorem datumValue_fails_iff {column : PgOutputColumn} {d : TupleDatum} (h : FitsColumn column d) :
    (∃ e, datumValue u column d = .error e) ↔ Infinite column d := by
  cases d with
  | null => exact ⟨(by rintro ⟨e, ⟨⟩⟩), False.elim⟩
  | unchanged => exact ⟨(by rintro ⟨e, ⟨⟩⟩), False.elim⟩
  | text t =>
    by_cases hnumeric : column.typeOid ∈ numericOids
    · have htyped := h.2
      rw [WellTyped, if_neg, if_neg, if_neg, if_pos hnumeric] at htyped
      · obtain ⟨n, hn, -, rfl⟩ := htyped
        have hvalue : datumValue u column (.text n.text) = (convertDecimal n.number).map some := by
          rw [datumValue, convertValue_numeric hnumeric hn]
        rw [hvalue, Infinite, and_iff_right hnumeric]
        constructor
        · rintro ⟨e, he⟩
          have hfails : ∃ e, convertDecimal n.number = .error e := by
            cases hconvert : convertDecimal n.number with
            | error e => exact ⟨e, rfl⟩
            | ok v => rw [hconvert] at he; cases he
          obtain ⟨negative, hnegative⟩ := convertDecimal_fails_iff.mp hfails
          exact ⟨negative, by rw [number_infinite_iff.mp hnegative]⟩
        · rintro ⟨negative, htext⟩
          have hnumber : n.number = (NumberText.infinity negative).number :=
            number_of_text hn trivial htext
          rw [hnumber]
          exact ⟨_, rfl⟩
      all_goals exact fun h' => not_numeric (by simp [h']) hnumeric
    · obtain ⟨v, hv, -⟩ := (text_carried_iff (u := u) h.2).mpr (fun h => absurd h hnumeric)
      constructor
      · rintro ⟨e, he⟩
        rw [datumValue, hv] at he
        cases he
      · exact fun hinf => absurd hinf.1 hnumeric

/-- A tuple is converted unless it holds an infinite `numeric`. -/
theorem tupleValues_fails_iff : ∀ {columns : List PgOutputColumn} {tuple : List TupleDatum},
    List.Forall₂ FitsColumn columns tuple →
    ((∃ e, tupleValues u (columns.zip tuple) = .error e) ↔
      ∃ pair ∈ columns.zip tuple, Infinite pair.1 pair.2)
  | [], [], _ => by
    constructor
    · rintro ⟨e, ⟨⟩⟩
    · rintro ⟨pair, ⟨⟩, -⟩
  | column :: columns, d :: tuple, hfits => by
    obtain ⟨hd, hfits⟩ := List.forall₂_cons.mp hfits
    rw [List.zip_cons_cons, tupleValues_cons, List.exists_mem_cons_iff,
      ← datumValue_fails_iff (u := u) hd, ← tupleValues_fails_iff hfits]
    cases datumValue u column d with
    | error e => exact ⟨fun _ => .inl ⟨e, rfl⟩, fun _ => ⟨e, rfl⟩⟩
    | ok v =>
      rw [ok_bind]
      cases tupleValues u (columns.zip tuple) with
      | error e => exact ⟨fun _ => .inr ⟨e, rfl⟩, fun _ => ⟨e, rfl⟩⟩
      | ok rest =>
        constructor
        · rintro ⟨e, ⟨⟩⟩
        · rintro (⟨e, ⟨⟩⟩ | ⟨e, ⟨⟩⟩)

end Conversion

/-! ### The table of three columns -/

/-- The parser after the relation was sent under an identifier. -/
def knowingParser (relationId : ℕ) : PgOutputMessageParser :=
  { ordersParser with
    relations := Function.update ordersParser.relations relationId
      (some { ordersRelation with relationId := relationId }) }

theorem knowingParser_known {relationId : ℕ} (hlt : relationId < 2 ^ 32) :
    KnownSendable (knowingParser relationId).relations := by
  intro id r h
  simp only [knowingParser, Function.update_apply] at h
  split_ifs at h
  · rw [← Option.some.inj h]
    exact { ordersRelation_sendable with relationId := hlt }
  · cases h

/-- An insert of row 1. -/
def orderInsert : PgMessage := .insert 42 [.text ['1'], .null, .null]

/-- What is left of it when it is cut behind the tag of its tuple. -/
def orderInsertCut : Bytes := charByte 'I' ++ (toBE 4 42 ++ charByte 'N')

theorem orderInsert_sendable : orderInsert.Sendable (knowingParser 42).relations := by
  refine ⟨by decide, ordersRelation, rfl, ?_⟩
  exact .cons ⟨by decide, ⟨1, by decide⟩⟩ (.cons trivial (.cons trivial .nil))

/-- An update of relation 0 whose old amount is infinite. -/
def infiniteUpdate : PgMessage :=
  .update 0 (some (.full, [.text ['1'], .null, .text (NumberText.infinity false).text]))
    [.text ['1'], .null, .null]

theorem infiniteUpdate_sendable : infiniteUpdate.Sendable (knowingParser 0).relations := by
  refine ⟨by decide, { ordersRelation with relationId := 0 }, rfl, ?_, ?_⟩
  · exact .cons ⟨by decide, ⟨1, by decide⟩⟩ (.cons trivial (.cons trivial .nil))
  · rintro o ⟨⟩
    refine .cons ⟨by decide, ⟨1, by decide⟩⟩ (.cons trivial (.cons ⟨by decide, ?_⟩ .nil))
    exact ⟨.infinity false, trivial, trivial, rfl⟩

/-! ### Truncated messages -/

/-- An update whose old tuple is not converted, and whose identifier, however short it is cut, is
    that of a relation of the parser's table. -/
def PgMessage.FailsEarly (p : PgOutputMessageParser) : PgMessage → Prop
  | .update relationId (some (_, old)) _ =>
    (∀ k < 4, (relationFor p (ofBE ((toBE 4 relationId).take k))).isSome) ∧
      ∃ r, relationFor p relationId = some r ∧ ∃ pair ∈ r.columns.zip old, Infinite pair.1 pair.2
  | _ => False

section Messages
variable {u : Unicode} {p : PgOutputMessageParser} {lsn : Str} {xid : Option Str} {relationId : ℕ}
  {r : PgOutputRelation}

theorem parse_fails_iff {bytes : Bytes} :
    (∃ e, parse u p lsn xid bytes = .error e) ↔ Raises (parseMessage u p lsn xid) bytes := by
  unfold Raises parse
  cases (parseMessage u p lsn xid).run bytes with
  | error e => exact ⟨fun _ => ⟨e, rfl⟩, fun _ => ⟨e, rfl⟩⟩
  | ok read =>
    constructor
    · rintro ⟨e, ⟨⟩⟩
    · rintro ⟨e, ⟨⟩⟩

/-- The tag is read, and the rest is for the parser of that message. -/
theorem rejects_message {tag : Char} {x : ByteReader (Option (CDCChange PgValue))} {body : Bytes}
    (htag : tag = 'I' ∧ x = parseInsert u p lsn xid ∨ tag = 'U' ∧ x = parseUpdate u p lsn xid ∨
      tag = 'D' ∧ x = parseDelete u p lsn xid) :
    RejectsTruncations (parseMessage u p lsn xid) (charByte tag ++ body) ↔
      RejectsTruncations x body := by
  have hmap : ∀ {y : ByteReader (Option (CDCChange PgValue))},
      RejectsTruncations (y >>= fun change => Pure.pure (p, change)) body ↔
        RejectsTruncations y body :=
    forall₂_congr fun cut _ => raises_map _
  rcases htag with ⟨rfl, rfl⟩ | ⟨rfl, rfl⟩ | ⟨rfl, rfl⟩
  · exact (rejects_tagged (by decide)).trans hmap
  · exact (rejects_tagged (by decide)).trans hmap
  · exact (rejects_tagged (by decide)).trans hmap

/-- An identifier cut short is a smaller number. -/
theorem truncated_id {cut : Bytes} :
    Truncated cut (toBE 4 relationId) ↔ ∃ k < 4, cut = (toBE 4 relationId).take k := by
  constructor
  · intro hcut
    have hlt := hcut.length_lt
    rw [toBE_length] at hlt
    obtain ⟨lost, -, heq⟩ := hcut
    exact ⟨cut.length, hlt, by rw [← heq, List.take_left]⟩
  · rintro ⟨k, hk, rfl⟩
    refine ⟨(toBE 4 relationId).drop k, fun h => ?_, List.take_append_drop k _⟩
    have hlength := congrArg List.length h
    rw [List.length_drop, toBE_length, List.length_nil] at hlength
    omega

theorem readUint32_short {cut : Bytes} (h : cut.length ≤ 4) :
    readUint32.run cut = .ok (ofBE cut, []) := by
  show Except.ok (ofBE (cut.take 4), cut.drop 4) = _
  rw [List.take_of_length_le h, List.drop_of_length_le h]

/-- Nothing after the tag of an insert guards its tuple. -/
theorem insert_accepts_cut (hlt : relationId < 2 ^ 32) (new : List TupleDatum) :
    ¬ RejectsTruncations (parseInsert u p lsn xid)
      (toBE 4 relationId ++ (charByte 'N' ++ encodeTuple new)) := by
  intro h
  have hbody := (rejects_tagged (by decide)).mp ((readUint32_reads hlt).rejects_bind.mp h).2
  rw [if_neg (by decide)] at hbody
  cases hfor : relationFor p relationId with
  | none =>
    simp only [hfor] at hbody
    exact not_rejects (encodeTuple_ne_nil new) rfl hbody
  | some r =>
    simp only [hfor] at hbody
    exact not_rejects (encodeTuple_ne_nil new) rfl hbody

theorem delete_accepts_cut (hlt : relationId < 2 ^ 32) (kind : OldKind) (old : List TupleDatum) :
    ¬ RejectsTruncations (parseDelete u p lsn xid)
      (toBE 4 relationId ++ (charByte kind.letter ++ encodeTuple old)) := by
  intro h
  have hbody := (rejects_tagged (by cases kind <;> decide)).mp
    ((readUint32_reads hlt).rejects_bind.mp h).2
  rw [if_neg (by cases kind <;> decide)] at hbody
  cases hfor : relationFor p relationId with
  | none =>
    simp only [hfor] at hbody
    exact not_rejects (encodeTuple_ne_nil old) rfl hbody
  | some r =>
    simp only [hfor] at hbody
    exact not_rejects (encodeTuple_ne_nil old) rfl hbody

theorem newTuple_accepts_cut (before : Option (RowData PgValue)) (new : List TupleDatum) :
    ¬ RejectsTruncations (parseNewTuple u lsn xid r before 'N') (encodeTuple new) :=
  not_rejects (encodeTuple_ne_nil new) rfl

/-- The identifier is guarded when the tag behind it is read, however short it is. -/
theorem rejects_id :
    RejectsTruncations (parseUpdate u p lsn xid) (toBE 4 relationId) ↔
      ∀ k < 4, (relationFor p (ofBE ((toBE 4 relationId).take k))).isSome := by
  have hcut : ∀ k < 4, (Raises (parseUpdate u p lsn xid) ((toBE 4 relationId).take k) ↔
      (relationFor p (ofBE ((toBE 4 relationId).take k))).isSome) := by
    intro k hk
    have hread : readUint32.run ((toBE 4 relationId).take k) =
        .ok (ofBE ((toBE 4 relationId).take k), []) :=
      readUint32_short (by rw [List.length_take, toBE_length]; omega)
    refine (raises_bind_of_run hread).trans ?_
    cases relationFor p (ofBE ((toBE 4 relationId).take k)) with
    | none => exact iff_of_false (not_raises_pure none []) (by simp)
    | some r => exact iff_of_true (readChar_raises.bind _) rfl
  constructor
  · exact fun h k hk => (hcut k hk).mp (h _ (truncated_id.mpr ⟨k, hk, rfl⟩))
  · intro h cut htruncated
    obtain ⟨k, hk, rfl⟩ := truncated_id.mp htruncated
    exact (hcut k hk).mpr (h k hk)

/-- An update is guarded when its old tuple raises, whole or cut. -/
theorem rejects_update_iff (hlt : relationId < 2 ^ 32) (hr : r.Sendable)
    (hfor : relationFor p relationId = some r) (kind : OldKind) {old : List TupleDatum}
    (hold : FitsRelation r old) (new : List TupleDatum) :
    RejectsTruncations (parseUpdate u p lsn xid)
        (toBE 4 relationId ++ (charByte kind.letter ++ (encodeTuple old ++
          (charByte 'N' ++ encodeTuple new)))) ↔
      (∀ k < 4, (relationFor p (ofBE ((toBE 4 relationId).take k))).isSome) ∧
        ∃ pair ∈ r.columns.zip old, Infinite pair.1 pair.2 := by
  have hread := readTuple_reads (u := u) hr hold
  rw [← tupleValues_fails_iff (u := u) hold]
  refine (readUint32_reads hlt).rejects_bind.trans (and_congr rejects_id ?_)
  simp only [hfor]
  refine (rejects_tagged (by cases kind <;> decide)).trans ?_
  rw [if_pos (by cases kind <;> decide)]
  cases hvalues : tupleValues u (r.columns.zip old) with
  | error e =>
    rw [hvalues] at hread
    refine iff_of_true ?_ ⟨e, rfl⟩
    exact (readTuple_runsOut hr hold).rejects_bind hread (fun _ => readChar_raises.bind _) _
  | ok before =>
    rw [hvalues] at hread
    refine iff_of_false (fun h => ?_) (by rintro ⟨e, ⟨⟩⟩)
    exact newTuple_accepts_cut (some before) new
      ((rejects_tagged (by decide)).mp (hread.rejects_bind.mp h).2)

/-- CORRECT: of the row messages that a walsender may send, every truncation raises exactly for the
    updates that fail early: those that would raise whole as well. -/
theorem truncations_raise_iff {m : PgMessage} (hknown : KnownSendable p.relations)
    (hrow : ∀ r, m ≠ .relation r) (hsendable : m.Sendable p.relations) :
    (∀ cut, Truncated cut m.encode → ∃ e, parse u p lsn xid cut = .error e) ↔ m.FailsEarly p := by
  simp only [parse_fails_iff]
  change RejectsTruncations _ _ ↔ _
  cases m with
  | relation r => exact absurd rfl (hrow r)
  | insert id new =>
    refine (rejects_message (.inl ⟨rfl, rfl⟩)).trans (iff_of_false ?_ False.elim)
    exact insert_accepts_cut hsendable.1 new
  | delete id kind old =>
    refine (rejects_message (.inr (.inr ⟨rfl, rfl⟩))).trans (iff_of_false ?_ False.elim)
    exact delete_accepts_cut hsendable.1 kind old
  | update id old new =>
    obtain ⟨hlt, r, hid, hnew, hold⟩ := hsendable
    have hr := hknown id r hid
    have hother : relationFor p id = none → ∀ tail, tail ≠ [] →
        ¬ RejectsTruncations (parseUpdate u p lsn xid) (toBE 4 id ++ tail) := by
      intro hfor tail hne h
      have hbody := ((readUint32_reads hlt).rejects_bind.mp h).2
      simp only [hfor] at hbody
      exact not_rejects hne rfl hbody
    have hown : ∀ r', relationFor p id = some r' → r' = r := by
      intro r' hfor
      obtain ⟨hmem, -⟩ := Option.filter_eq_some_iff.mp hfor
      exact Option.some.inj (hmem.symm.trans hid)
    cases old with
    | none =>
      refine (rejects_message (.inr (.inl ⟨rfl, rfl⟩))).trans (iff_of_false ?_ False.elim)
      cases hfor : relationFor p id with
      | none => exact hother hfor _ (by simp [charByte])
      | some r' =>
        intro h
        have hbody := ((readUint32_reads hlt).rejects_bind.mp h).2
        simp only [hfor] at hbody
        have htuple := (rejects_tagged (by decide)).mp hbody
        rw [if_neg (by decide)] at htuple
        exact newTuple_accepts_cut none new htuple
    | some old =>
      obtain ⟨kind, old⟩ := old
      refine (rejects_message (.inr (.inl ⟨rfl, rfl⟩))).trans ?_
      cases hfor : relationFor p id with
      | none =>
        refine iff_of_false (hother hfor _ (by simp [charByte])) ?_
        rintro ⟨-, r', hfor', -⟩
        rw [hfor] at hfor'
        cases hfor'
      | some r' =>
        obtain rfl := hown r' hfor
        refine (rejects_update_iff hlt hr hfor kind (hold _ rfl) new).trans
          (and_congr_right fun _ => ?_)
        simp [hfor]

end Messages

theorem truncations_raise_iff_of_infinite : infiniteUpdate.FailsEarly (knowingParser 0) ∧
    ∀ cut, Truncated cut infiniteUpdate.encode →
      ∃ e, parse Unicode.ascii (knowingParser 0) ['1'] none cut = .error e := by
  have hearly : infiniteUpdate.FailsEarly (knowingParser 0) := by
    refine ⟨fun k hk => ?_, { ordersRelation with relationId := 0 }, rfl, ?_⟩
    · interval_cases k <;> rfl
    · refine ⟨(⟨"amount".toList, 1700, -1, 0⟩, .text (NumberText.infinity false).text), ?_,
        by decide, false, rfl⟩
      simp [ordersRelation]
  exact ⟨hearly, (truncations_raise_iff (knowingParser_known (by decide)) (fun r h => by cases h)
    infiniteUpdate_sendable).mpr hearly⟩

/-- An insert cut behind the tag of its tuple is returned as an insert of nothing. -/
theorem cut_insert_returned :
    KnownSendable (knowingParser 42).relations ∧
      orderInsert.Sendable (knowingParser 42).relations ∧
      Truncated orderInsertCut orderInsert.encode ∧
      (parse Unicode.ascii (knowingParser 42) ['1'] none orderInsertCut).map Prod.snd =
        .ok (some (pgChange .insert ordersRelation ['1'] none [] none)) ∧
      ¬ ∃ e, parse Unicode.ascii (knowingParser 42) ['1'] none orderInsertCut = .error e := by
  refine ⟨knowingParser_known (by decide), orderInsert_sendable,
    ⟨encodeTuple [.text ['1'], .null, .null], encodeTuple_ne_nil _, rfl⟩, rfl, ?_⟩
  rintro ⟨e, ⟨⟩⟩

end Dpone.Cdc
