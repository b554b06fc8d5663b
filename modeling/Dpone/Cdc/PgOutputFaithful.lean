import Dpone.Cdc.PgOutputStream

/-! What it takes to decode a stream of pgoutput messages faithfully.

    A decoded change carries a row when each of its columns carries the datum: NULL is `None`, an
    unchanged TOAST value is not, and a text is the value it denotes. The decoder gives `None` for
    both kinds of absent value and turns a `numeric` into an integer or a float, so a stream is
    decoded faithfully exactly when its rows are `Exact`. -/

namespace Dpone.Cdc
open Dpone.Schemes

/-- A value is the number that a text says. -/
def SaysNumber (x : PyNumber) : PgValue → Prop
  | .int n => x.value = some (n : ℚ)
  | .float f =>
    match x.value with
    | some v => floatValue f = some v
    | none => f = x.toFloat
  | _ => False

/-- A value is what a text of the type denotes. -/
def Denotes (typeOid : ℕ) (t : Str) (v : PgValue) : Prop :=
  if typeOid ∈ boolOids then v = .bool (t = ['t'])
  else if typeOid ∈ intOids then ∃ n : ℤ, t = intText n ∧ v = .int n
  else if typeOid ∈ floatOids then
    ∃ n : NumberText, n.WellFormed ∧ t = n.text ∧ v = .float n.number.toFloat
  else if typeOid ∈ numericOids then
    ∃ n : NumberText, n.WellFormed ∧ t = n.text ∧ SaysNumber n.number v
  else v = .text t

/-- The entry of a decoded row carries a datum: NULL is `None`, an unchanged value is not. -/
def CarriesDatum (column : PgOutputColumn) (entry : Option (Option PgValue)) : TupleDatum → Prop
  | .null => entry = some none
  | .unchanged => entry ≠ some none
  | .text t => ∃ v, entry = some (some v) ∧ Denotes column.typeOid t v

/-- A decoded row carries a tuple: each column its datum, and there are no other columns. -/
def CarriesTuple (columns : List PgOutputColumn) (data : RowData PgValue)
    (tuple : List TupleDatum) : Prop :=
  (∀ p ∈ columns.zip tuple, CarriesDatum p.1 (data.lookup p.1.name) p.2) ∧
    ∀ entry ∈ data, entry.1 ∈ columns.map (·.name)

/-- A decoded change carries a row change. -/
structure Carries (c : CDCChange PgValue) (row : RowChange) : Prop where
  operation : c.operation = row.operation
  schema : c.sourceSchema = row.relation.relationNamespace
  table : c.sourceTable = row.relation.name
  position : c.position = row.lsn
  transaction : c.transactionId = row.xid
  data : CarriesTuple row.relation.columns c.data row.new
  before : match c.before, row.old with
    | none, none => True
    | some before, some old => CarriesTuple row.relation.columns before old
    | _, _ => False

/-- The decoder is given a stream and returns its own table's rows, in order. -/
def Faithful (u : Unicode) (p : PgOutputMessageParser) (stream : List SentMessage) : Prop :=
  ∃ changes, parseStream u p (payloads stream) = .ok changes ∧
    List.Forall₂ Carries changes (ownRows p stream)

/-- A number that a Python integer or float is. -/
def ExactNumber (x : PyNumber) : Prop :=
  match x with
  | .infinite _ => False
  | .nan => True
  | .finite .. => ∀ v, x.value = some v → (∃ n : ℤ, v = n) ∨ DoubleExact v

/-- A datum that survives: not an unchanged TOAST value, and if `numeric`, an exact number. -/
def Exact (column : PgOutputColumn) : TupleDatum → Prop
  | .null => True
  | .unchanged => False
  | .text t => column.typeOid ∈ numericOids →
      ∀ n : NumberText, n.WellFormed → t = n.text → ExactNumber n.number

def RowChange.Exact (row : RowChange) : Prop :=
  ∀ tuple ∈ row.new :: row.old.toList, ∀ p ∈ row.relation.columns.zip tuple, Cdc.Exact p.1 p.2

variable {u : Unicode}

/-! ### One datum -/

/-- A finite decimal is converted to the integer it is, or to the nearest float. -/
theorem convertDecimal_of_value {x : PyNumber} {v : ℚ} (hx : x.value = some v) :
    convertDecimal x = .ok ((x.toInt.map PgValue.int).getD (.float x.toFloat)) := by
  cases x with
  | infinite negative => cases hx
  | nan => cases hx
  | finite negative coefficient exponent =>
    rw [convertDecimal]
    · cases (PyNumber.finite negative coefficient exponent).toInt <;> rfl
    · nofun

/-- A decimal is converted to itself exactly when an integer or a float is that number. -/
theorem convertDecimal_iff {x : PyNumber} :
    (∃ v, convertDecimal x = .ok v ∧ SaysNumber x v) ↔ ExactNumber x := by
  cases x with
  | infinite negative => simp [convertDecimal, ExactNumber]
  | nan => exact ⟨fun _ => trivial, fun _ => ⟨_, rfl, rfl⟩⟩
  | finite negative coefficient exponent =>
    set x := PyNumber.finite negative coefficient exponent with hx
    obtain ⟨w, hw⟩ : ∃ w, x.value = some w := ⟨_, rfl⟩
    have hexact : ExactNumber x ↔ (∃ n : ℤ, w = n) ∨ DoubleExact w := by
      rw [hx, ExactNumber, ← hx, hw]
      simp
    rw [hexact, convertDecimal_of_value hw]
    cases hint : x.toInt with
    | some n =>
      have hn : w = n := (toInt_eq_some hw).mp hint
      exact ⟨fun _ => .inl ⟨n, hn⟩, fun _ => ⟨.int n, rfl, by rw [SaysNumber, hw, hn]⟩⟩
    | none =>
      have hnone : ¬ ∃ n : ℤ, w = n := by
        rintro ⟨n, hn⟩
        rw [(toInt_eq_some hw).mpr hn] at hint
        cases hint
      rw [or_iff_right hnone, ← toFloat_exact_iff hw]
      constructor
      · rintro ⟨v, hv, hsays⟩
        cases hv
        rwa [Option.map_none, Option.getD_none, SaysNumber, hw] at hsays
      · intro hfloat
        exact ⟨.float x.toFloat, rfl, by rwa [SaysNumber, hw]⟩

/-- A text prints one number. -/
theorem number_of_text {n n' : NumberText} (h : n.WellFormed) (h' : n'.WellFormed)
    (htext : n.text = n'.text) : n.number = n'.number := by
  have hread := readNumber_text (u := Unicode.ascii) h
  rw [htext, readNumber_text h'] at hread
  exact (Option.some.inj hread).symm

theorem not_numeric {typeOid : ℕ} (h : typeOid ∈ boolOids ++ (intOids ++ floatOids)) :
    typeOid ∉ numericOids := by
  revert h
  simp only [boolOids, intOids, floatOids, numericOids]
  simp only [List.cons_append, List.nil_append, List.mem_cons, List.not_mem_nil, or_false]
  omega

/-- A text of a column is converted to what it denotes exactly when it survives. -/
theorem text_carried_iff {column : PgOutputColumn} {t : Str} (h : WellTyped column.typeOid t) :
    (∃ v, convertValue u t column.typeOid = .ok v ∧ Denotes column.typeOid t v) ↔
      Exact column (.text t) := by
  unfold WellTyped at h
  unfold convertValue Denotes Exact
  by_cases hnumeric : column.typeOid ∈ numericOids
  · have hother : column.typeOid ∉ boolOids ∧ column.typeOid ∉ intOids ∧
        column.typeOid ∉ floatOids := by
      refine ⟨fun h => ?_, fun h => ?_, fun h => ?_⟩ <;>
        exact not_numeric (by simp [h]) hnumeric
    simp only [hother.1, hother.2.1, hother.2.2, hnumeric, if_false, if_true, true_implies] at h ⊢
    obtain ⟨n, hn, -, rfl⟩ := h
    have hiff := convertDecimal_iff (x := n.number)
    simp only [pyDecimal_text hn]
    constructor
    · rintro ⟨v, hv, n', hn', htext, hsays⟩ n'' hn'' htext''
      rw [← number_of_text hn hn'' htext'', ← hiff]
      exact ⟨v, hv, by rwa [number_of_text hn hn' htext]⟩
    · intro hexact
      obtain ⟨v, hv, hsays⟩ := hiff.mpr (hexact n hn rfl)
      exact ⟨v, hv, n, hn, rfl, hsays⟩
  · -- every text of another type is converted to what it denotes
    simp only [hnumeric, false_implies, iff_true, if_false] at h ⊢
    by_cases hbool : column.typeOid ∈ boolOids
    · simp only [hbool, if_true] at h ⊢
      refine ⟨_, rfl, ?_⟩
      rcases h with rfl | rfl <;> rfl
    by_cases hint : column.typeOid ∈ intOids
    · simp only [hbool, hint, if_true, if_false] at h ⊢
      obtain ⟨n, rfl⟩ := h
      exact ⟨.int n, by rw [pyInt_intText], n, rfl, rfl⟩
    by_cases hfloat : column.typeOid ∈ floatOids
    · simp only [hbool, hint, hfloat, if_true, if_false] at h ⊢
      obtain ⟨n, hn, rfl⟩ := h
      exact ⟨_, by rw [pyFloat_text hn], n, hn, rfl, rfl⟩
    · simp only [hbool, hint, hfloat, if_false]
      exact ⟨_, rfl, rfl⟩

/-- A datum is carried exactly when it survives. -/
theorem datum_carried_iff {column : PgOutputColumn} {d : TupleDatum} (h : FitsColumn column d) :
    (∃ v, datumValue u column d = .ok v ∧ CarriesDatum column (some v) d) ↔ Exact column d := by
  cases d with
  | null => exact ⟨fun _ => trivial, fun _ => ⟨none, rfl, rfl⟩⟩
  | unchanged =>
    refine ⟨?_, False.elim⟩
    rintro ⟨v, hv, hcarried⟩
    cases hv
    exact hcarried rfl
  | text t =>
    rw [← text_carried_iff h.2]
    constructor
    · rintro ⟨v, hv, w, hw, hdenotes⟩
      cases hw
      refine ⟨w, ?_, hdenotes⟩
      change (convertValue u t column.typeOid).map some = .ok (some w) at hv
      cases hconvert : convertValue u t column.typeOid with
      | error e => rw [hconvert] at hv; cases hv
      | ok w' => rw [hconvert] at hv; cases hv; rfl
    · rintro ⟨w, hw, hdenotes⟩
      exact ⟨some w, by rw [datumValue, hw]; rfl, w, rfl, hdenotes⟩

/-! ### Tuples and rows -/

/-- The entries of a decoded tuple are those of its columns. -/
theorem tupleValues_lookup {pairs : List (PgOutputColumn × TupleDatum)} {data : RowData PgValue}
    (h : tupleValues u pairs = .ok data) (hdistinct : (pairs.map (·.1.name)).Nodup) :
    (∀ p ∈ pairs, ∃ v, datumValue u p.1 p.2 = .ok v ∧ data.lookup p.1.name = some v) ∧
      ∀ entry ∈ data, entry.1 ∈ pairs.map (·.1.name) :=
  lookup_of_mapM h hdistinct

theorem zip_names {r : PgOutputRelation} {tuple : List TupleDatum} (h : FitsRelation r tuple) :
    (r.columns.zip tuple).map (·.1.name) = r.columns.map (·.name) := by
  have hfst : (r.columns.zip tuple).map Prod.fst = r.columns :=
    List.map_fst_zip h.length_eq.le
  rw [← hfst, List.map_map, hfst]
  rfl

/-- A tuple is carried exactly when each of its data survives. -/
theorem tuple_carried_iff {r : PgOutputRelation} {tuple : List TupleDatum} (hr : r.Sendable)
    (h : FitsRelation r tuple) :
    (∃ data, tupleValues u (r.columns.zip tuple) = .ok data ∧ CarriesTuple r.columns data tuple) ↔
      ∀ p ∈ r.columns.zip tuple, Exact p.1 p.2 := by
  have hdistinct : ((r.columns.zip tuple).map (·.1.name)).Nodup := zip_names h ▸ hr.distinct
  have hfits : ∀ p ∈ r.columns.zip tuple, FitsColumn p.1 p.2 :=
    fun _ hp => List.forall₂_zip h hp
  constructor
  · rintro ⟨data, hdata, hcarries, -⟩ p hp
    obtain ⟨v, hv, hfound⟩ := (tupleValues_lookup hdata hdistinct).1 p hp
    refine (datum_carried_iff (hfits p hp)).mp ⟨v, hv, ?_⟩
    rw [← hfound]
    exact hcarries p hp
  · intro hexact
    have hvalues : ∀ p ∈ r.columns.zip tuple, ∃ v, datumValue u p.1 p.2 = .ok v ∧
        CarriesDatum p.1 (some v) p.2 := fun p hp =>
      (datum_carried_iff (hfits p hp)).mpr (hexact p hp)
    obtain ⟨data, hdata⟩ : ∃ data, tupleValues u (r.columns.zip tuple) = .ok data :=
      exists_mapM_ok fun p hp => by
        obtain ⟨v, hv, -⟩ := hvalues p hp
        exact ⟨(p.1.name, v), by rw [hv]; rfl⟩
    obtain ⟨hlookup, honly⟩ := tupleValues_lookup hdata hdistinct
    refine ⟨data, hdata, fun p hp => ?_, fun entry hentry => ?_⟩
    · obtain ⟨v, hv, hcarried⟩ := hvalues p hp
      obtain ⟨w, hw, hfound⟩ := hlookup p hp
      rw [hfound, ← Except.ok.inj (hv.symm.trans hw)]
      exact hcarried
    · rw [← zip_names h]
      exact honly entry hentry

/-- A row that may have been sent. -/
structure RowChange.Sent (row : RowChange) : Prop where
  relation : row.relation.Sendable
  new : FitsRelation row.relation row.new
  old : ∀ tuple ∈ row.old, FitsRelation row.relation tuple

/-- CORRECT: a row is carried exactly when all its data survive. -/
theorem row_carried_iff {row : RowChange} (h : row.Sent) :
    (∃ c, rowValue u row = .ok c ∧ Carries c row) ↔ row.Exact := by
  have hnew := tuple_carried_iff (u := u) h.relation h.new
  obtain ⟨operation, relation, lsn, xid, new, old⟩ := row
  cases old with
  | none =>
    have hexact : RowChange.Exact ⟨operation, relation, lsn, xid, new, none⟩ ↔
        ∀ p ∈ relation.columns.zip new, Exact p.1 p.2 := by
      simp [RowChange.Exact]
    rw [hexact, ← hnew]
    constructor
    · rintro ⟨c, hc, hcarries⟩
      obtain ⟨before, hbefore, hc⟩ := bind_ok.mp hc
      obtain ⟨data, hdata, hc⟩ := bind_ok.mp hc
      cases hc
      exact ⟨data, hdata, hcarries.data⟩
    · rintro ⟨data, hdata, hcarries⟩
      exact ⟨pgChange operation relation lsn xid data none, by simp [rowValue, hdata],
        rfl, rfl, rfl, rfl, rfl, hcarries, trivial⟩
  | some old =>
    have hold := tuple_carried_iff (u := u) h.relation (h.old old rfl)
    have hexact : RowChange.Exact ⟨operation, relation, lsn, xid, new, some old⟩ ↔
        (∀ p ∈ relation.columns.zip new, Exact p.1 p.2) ∧
          ∀ p ∈ relation.columns.zip old, Exact p.1 p.2 := by
      simp [RowChange.Exact]
    rw [hexact, ← hnew, ← hold]
    constructor
    · rintro ⟨c, hc, hcarries⟩
      obtain ⟨before, hbefore, hc⟩ := bind_ok.mp hc
      obtain ⟨data, hdata, hc⟩ := bind_ok.mp hc
      cases hc
      have hcarriesOld := hcarries.before
      cases hvalues : tupleValues u (relation.columns.zip old) with
      | error e => rw [hvalues] at hbefore; cases hbefore
      | ok values =>
        rw [hvalues] at hbefore
        cases hbefore
        exact ⟨⟨data, hdata, hcarries.data⟩, values, rfl, hcarriesOld⟩
    · rintro ⟨⟨data, hdata, hcarries⟩, before, hbefore, hcarriesOld⟩
      exact ⟨pgChange operation relation lsn xid data (some before), by
        simp [rowValue, hdata, hbefore], rfl, rfl, rfl, rfl, rfl, hcarries, hcarriesOld⟩

theorem row_sent {known : Known} {m : SentMessage} {row : RowChange} (hknown : KnownSendable known)
    (hm : m.message.Sendable known) (hrow : m.row known = some row) : row.Sent := by
  obtain ⟨lsn, xid, message⟩ := m
  cases message with
  | relation r => cases hrow
  | insert id new =>
    obtain ⟨-, r, hr, hfits⟩ := hm
    obtain rfl : _ = row := by simpa [SentMessage.row, hr] using hrow
    exact ⟨hknown id r hr, hfits, fun _ h => by cases h⟩
  | update id old new =>
    obtain ⟨-, r, hr, hfits, hold⟩ := hm
    obtain rfl : _ = row := by simpa [SentMessage.row, hr] using hrow
    refine ⟨hknown id r hr, hfits, fun tuple htuple => ?_⟩
    obtain ⟨o, ho, rfl⟩ := Option.mem_map.mp htuple
    exact hold o ho
  | delete id kind old =>
    obtain ⟨-, r, hr, hfits⟩ := hm
    obtain rfl : _ = row := by simpa [SentMessage.row, hr] using hrow
    exact ⟨hknown id r hr, hfits, fun _ h => by cases h⟩

/-- Rows of a well-formed stream may have been sent. -/
theorem rowChanges_sent : ∀ {known : Known} {stream : List SentMessage}, KnownSendable known →
    WellFormedStream known stream → ∀ row ∈ rowChanges known stream, row.Sent
  | _, [], _, _ => nofun
  | known, m :: ms, hknown, ⟨hm, hms⟩ => by
    intro row hrow
    rcases List.mem_append.mp hrow with hrow | hrow
    · exact row_sent hknown hm (Option.mem_toList.mp hrow)
    · refine rowChanges_sent ?_ hms row hrow
      rcases row_of_sendable hm with ⟨r, hr⟩ | ⟨-, hsame⟩
      · rw [hr] at hm ⊢
        exact knownSendable_remember hknown hm
      · rwa [hsame]

/-- CORRECT: a well-formed stream is decoded faithfully exactly when, in the rows of the decoder's
    table, no column is an unchanged TOAST value and each `numeric` is no infinity and, unless NaN,
    an integer or a double. -/
theorem pgoutput_faithful_iff (u : Unicode) {p : PgOutputMessageParser} {stream : List SentMessage}
    (hknown : KnownSendable p.relations) (h : WellFormedStream p.relations stream) :
    Faithful u p stream ↔ ∀ row ∈ ownRows p stream, row.Exact := by
  have hsent : ∀ row ∈ ownRows p stream, row.Sent := fun row hrow =>
    rowChanges_sent hknown h row (List.mem_filter.mp hrow).1
  unfold Faithful
  rw [parseStream_eq hknown h, mapM_ok_iff]
  exact forall₂_congr fun row hrow => row_carried_iff (hsent row hrow)

/-! ### A table of three columns -/

/-- `orders (id integer, note text, amount numeric)`. -/
def ordersRelation : PgOutputRelation where
  relationId := 42
  relationNamespace := "public".toList
  name := "orders".toList
  replicaIdentity := 'd'
  columns := [⟨"id".toList, 23, -1, 1⟩, ⟨"note".toList, 25, -1, 0⟩, ⟨"amount".toList, 1700, -1, 0⟩]

def ordersParser : PgOutputMessageParser where
  sourceSchema := "public".toList
  sourceTable := "orders".toList

/-- The relation, and an update of row 1. -/
def ordersMessages (note amount : TupleDatum) : List SentMessage :=
  [⟨['1'], none, .relation ordersRelation⟩,
    ⟨['2'], none, .update 42 none [.text ['1'], note, amount]⟩]

def printed (whole fraction : List (Fin 10)) : NumberText := .finite false whole fraction none

theorem printed_wellFormed {whole : List (Fin 10)} (fraction : List (Fin 10))
    (h : whole ≠ []) : (printed whole fraction).WellFormed := ⟨h, nofun⟩

theorem ordersRelation_sendable : ordersRelation.Sendable where
  relationId := by decide
  relationNamespace := by decide
  name := by decide
  replicaIdentity := by decide
  count := by decide
  columns := by
    intro c hc
    rcases List.mem_cons.mp hc with rfl | hc
    · exact ⟨by decide, by decide, by decide, by decide⟩
    rcases List.mem_cons.mp hc with rfl | hc
    · exact ⟨by decide, by decide, by decide, by decide⟩
    · rw [List.mem_singleton.mp hc]
      exact ⟨by decide, by decide, by decide, by decide⟩
  distinct := by decide

theorem ordersMessages_wellFormed {note : TupleDatum} {whole fraction : List (Fin 10)}
    (hnote : note = .unchanged ∨ note = .null) (hwhole : whole ≠ [])
    (hlength : (encodeUtf8 (printed whole fraction).text).length < 2 ^ 32) :
    WellFormedStream ordersParser.relations
      (ordersMessages note (.text (printed whole fraction).text)) := by
  refine ⟨ordersRelation_sendable, ⟨by decide, ordersRelation, rfl, ?_, nofun⟩, trivial⟩
  refine .cons ⟨by decide, ⟨1, by decide⟩⟩ (.cons ?_ (.cons ⟨hlength, ?_⟩ .nil))
  · rcases hnote with rfl | rfl <;> trivial
  · exact ⟨printed whole fraction, ⟨hwhole, nofun⟩, rfl, rfl⟩

theorem ordersParser_known : KnownSendable ordersParser.relations := fun _ _ h => by cases h

def ordersRow (note amount : TupleDatum) : RowChange :=
  ⟨.update, ordersRelation, ['2'], none, [.text ['1'], note, amount], none⟩

theorem ordersMessages_rows (note amount : TupleDatum) :
    ownRows ordersParser (ordersMessages note amount) = [ordersRow note amount] := rfl

theorem pgoutput_faithful_iff_on_three :
    Faithful Unicode.ascii ordersParser (ordersMessages .null (.text (printed [3] []).text)) := by
  refine (pgoutput_faithful_iff Unicode.ascii ordersParser_known
    (ordersMessages_wellFormed (.inr rfl) (by decide) (by decide))).mpr ?_
  rw [ordersMessages_rows]
  intro row hrow tuple htuple
  rw [List.mem_singleton.mp hrow] at htuple ⊢
  obtain rfl := List.mem_singleton.mp htuple
  have hthree : ∀ n : NumberText, n.WellFormed → (printed [3] []).text = n.text →
      ExactNumber n.number := by
    intro n hn htext
    rw [← number_of_text (printed_wellFormed [] (by decide)) hn htext]
    intro v hv
    refine .inl ⟨3, ?_⟩
    cases hv
    show ((3 * 10 ^ 0 : ℕ) : ℚ) / ((10 ^ 0 : ℕ) : ℚ) = ((3 : ℤ) : ℚ)
    norm_num
  simp [ordersRow, ordersRelation, Exact, numericOids]
  exact hthree

/-- A tenth is no double. -/
theorem tenth_not_exact : ¬ ExactNumber (printed [0] [1]).number := by
  intro hexact
  obtain ⟨v, hv⟩ : ∃ v, (printed [0] [1]).number.value = some v := ⟨_, rfl⟩
  have htenth : v = 1 / 10 := by
    cases hv
    show ((1 * 10 ^ 0 : ℕ) : ℚ) / ((10 ^ 1 : ℕ) : ℚ) = 1 / 10
    norm_num
  rcases hexact v hv with ⟨n, hn⟩ | ⟨k, t, -, -, hk⟩
  · have hten : (n : ℚ) * 10 = 1 := by rw [← hn, htenth]; norm_num
    have hten' : n * 10 = 1 := by exact_mod_cast hten
    omega
  · -- five would divide a power of two
    have hunits : ((unitsPerOne : ℤ) : ℚ) = ((5 * (2 * k * 2 ^ t) : ℤ) : ℚ) := by
      rw [htenth] at hk
      push_cast
      linarith
    have hdvd : (5 : ℤ) ∣ (unitsPerOne : ℤ) := ⟨_, by exact_mod_cast hunits⟩
    have hcoprime : Nat.Coprime 5 unitsPerOne := coprime_unitsPerOne (by decide)
    exact absurd (hcoprime.eq_one_of_dvd (Int.natCast_dvd_natCast.mp hdvd)) (by decide)

/-- An unchanged TOAST column is decoded as NULL, and a tenth as the nearest double. -/
theorem unchanged_and_tenth_not_carried :
    (WellFormedStream ordersParser.relations
        (ordersMessages .unchanged (.text (printed [3] []).text)) ∧
      ¬ Faithful Unicode.ascii ordersParser
        (ordersMessages .unchanged (.text (printed [3] []).text))) ∧
    WellFormedStream ordersParser.relations (ordersMessages .null (.text (printed [0] [1]).text)) ∧
      ¬ Faithful Unicode.ascii ordersParser
        (ordersMessages .null (.text (printed [0] [1]).text)) := by
  have hlost : ∀ note amount,
      WellFormedStream ordersParser.relations (ordersMessages note amount) →
      ¬ (ordersRow note amount).Exact →
        ¬ Faithful Unicode.ascii ordersParser (ordersMessages note amount) := by
    intro note amount hstream hnot hfaithful
    unfold Faithful at hfaithful
    rw [parseStream_eq ordersParser_known hstream, mapM_ok_iff, ordersMessages_rows] at hfaithful
    have hsent : (ordersRow note amount).Sent :=
      rowChanges_sent ordersParser_known hstream _ (List.mem_singleton_self _)
    exact hnot ((row_carried_iff hsent).mp (hfaithful _ (List.mem_singleton_self _)))
  have hfirst : WellFormedStream ordersParser.relations
      (ordersMessages .unchanged (.text (printed [3] []).text)) :=
    ordersMessages_wellFormed (.inl rfl) (by decide) (by decide)
  have hsecond : WellFormedStream ordersParser.relations
      (ordersMessages .null (.text (printed [0] [1]).text)) :=
    ordersMessages_wellFormed (.inr rfl) (by decide) (by decide)
  refine ⟨⟨hfirst, hlost _ _ hfirst fun hexact => ?_⟩, hsecond, hlost _ _ hsecond fun hexact => ?_⟩
  · exact hexact _ (List.mem_cons_self ..) (⟨"note".toList, 25, -1, 0⟩, .unchanged)
      (by simp [ordersRow, ordersRelation])
  · exact tenth_not_exact (hexact _ (List.mem_cons_self ..)
      (⟨"amount".toList, 1700, -1, 0⟩, .text (printed [0] [1]).text)
      (by simp [ordersRow, ordersRelation]) (by decide) _ (printed_wellFormed [1] (by decide)) rfl)

end Dpone.Cdc
