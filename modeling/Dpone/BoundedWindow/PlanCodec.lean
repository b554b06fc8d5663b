import Dpone.Schemes.Ranges
import Dpone.BoundedWindow.WindowPlan

/-! Stored window plans.

    A record is accepted when it is what the plan that it spells would be written as, its identity
    included. The identity leaves out the number of workers: a record that was altered in another
    field has a different identity, and one that was altered in that field is accepted as it is. -/

namespace Dpone.BoundedWindow
open Dpone.Schemes

variable {u : Unicode} {digest : Str → Str} {iso : TimestampReader}

/-! ### Fields -/

theorem lookup_document : ∀ {record : List (Str × Encoded)}, (record.map Prod.fst).Nodup →
    ∀ field ∈ record, (document record).lookup field.1 = some field.2.json
  | [], _, field, h => absurd h List.not_mem_nil
  | first :: record, hnodup, field, h => by
    rw [List.map_cons, List.nodup_cons] at hnodup
    rw [document, List.map_cons, List.lookup_cons]
    rcases List.mem_cons.mp h with rfl | h
    · simp
    · have hne : field.1 ≠ first.1 := fun heq => hnodup.1 (heq ▸ List.mem_map_of_mem h)
      rw [beq_false_of_ne hne]
      exact lookup_document hnodup.2 field h

theorem encodeWindowPlan_fields (p : WindowPlan u) :
    (encodeWindowPlan digest p).map Prod.fst = planFields := rfl

theorem planFields_nodup : planFields.Nodup := by decide

/-- A value of the record of a plan. -/
theorem get_document {p : WindowPlan u} {name : Str} {value : Encoded}
    (h : (name, value) ∈ encodeWindowPlan digest p) :
    Json.get name (document (encodeWindowPlan digest p)) = value.json := by
  have hnodup : ((encodeWindowPlan digest p).map Prod.fst).Nodup := planFields_nodup
  rw [Json.get, lookup_document hnodup _ h]
  rfl

theorem hasExactly_document (p : WindowPlan u) :
    Json.hasExactly planFields (document (encodeWindowPlan digest p)) = true := by
  have hnames : (document (encodeWindowPlan digest p)).map Prod.fst = planFields := by
    rw [document, List.map_map]
    exact encodeWindowPlan_fields p
  have hall : ∀ name ∈ planFields, planFields.contains name = true :=
    fun name hname => List.contains_iff_mem.mpr hname
  rw [Json.hasExactly, hnames, Bool.and_eq_true, List.all_eq_true, List.all_eq_true]
  refine ⟨fun field hfield => hall _ ?_, hall⟩
  rw [← hnames]
  exact List.mem_map_of_mem hfield

/-! ### Equality of values -/

theorem equals_json (value : Encoded) : value.equals value.json = true := by
  cases value with
  | text s => simp [Encoded.equals, Encoded.json]
  | number n => simp [Encoded.equals, Encoded.json]
  | texts ss =>
    simp only [Encoded.equals, Encoded.json, List.length_map, decide_true, Bool.true_and,
      List.all_eq_true]
    intro pair hpair
    obtain ⟨i, hi⟩ := List.mem_iff_getElem?.mp hpair
    obtain ⟨hs, ht⟩ := List.getElem?_zip_eq_some.mp hi
    rw [List.getElem?_map, hs, Option.map_some] at ht
    rw [← Option.some.inj ht]
    simp

theorem equals_text {s : Str} {j : Json} (h : (Encoded.text s).equals j = true) : j = .str s := by
  cases j with
  | str t => exact congrArg Json.str (of_decide_eq_true h).symm
  | _ => cases h

theorem equals_texts {ss : List Str} {j : Json} (h : (Encoded.texts ss).equals j = true) :
    j = .arr (ss.map .str) := by
  cases j with
  | arr items =>
    simp only [Encoded.equals, Bool.and_eq_true, decide_eq_true_eq] at h
    obtain ⟨hlength, hall⟩ := h
    refine congrArg Json.arr ?_
    induction ss generalizing items with
    | nil => exact List.length_eq_zero_iff.mp hlength.symm
    | cons s ss ih =>
      cases items with
      | nil => cases hlength
      | cons item items =>
        simp only [List.zip_cons_cons, List.all_cons, Bool.and_eq_true] at hall
        rw [List.map_cons, ih items (Nat.succ.inj hlength) hall.2]
        cases item with
        | str t => rw [of_decide_eq_true hall.1]
        | _ => cases hall.1
  | _ => cases h

/-! ### Round trip -/

theorem readPlan_document (p : WindowPlan u) :
    readPlan iso u (document (encodeWindowPlan digest p))
      ((p.boundaries.map DateTime.timestamp).map .str) = .ok p := by
  have hutc := p.valid.utc
  simp only [List.forall_mem_cons] at hutc
  obtain ⟨hstart, hstop, hboundaries⟩ := hutc
  set doc := document (encodeWindowPlan digest p) with hdoc
  have hroute : Json.get "route_id".toList doc = .str p.routeId := rfl
  have htarget : Json.get "target_id".toList doc = .str p.targetId := rfl
  have hfrom : Json.get "start".toList doc = .str p.start.timestamp := rfl
  have hto : Json.get "end".toList doc = .str p.stop.timestamp := rfl
  have hschema : Json.get "schema_fingerprint".toList doc = .str p.schemaFingerprint := rfl
  have hversion : Json.get "source_version".toList doc = .str p.sourceVersion := rfl
  have hparameters : Json.get "parameters_fingerprint".toList doc =
      .str p.parametersFingerprint := rfl
  have hworkers : Json.get "workers".toList doc = .int p.workers := rfl
  have hcolumn : Json.get "window_column".toList doc = .str p.windowColumn := rfl
  have hread : ∀ t : DateTime, t.offset = some 0 → fromIso iso (.str t.timestamp) = .ok t := by
    intro t ht
    show raising (iso.datetime t.timestamp) = _
    rw [iso.datetime_timestamp t ht]
    rfl
  have hreads : ((p.boundaries.map DateTime.timestamp).map Json.str).mapM (fromIso iso) =
      .ok p.boundaries := by
    have hsame : ∀ t ∈ p.boundaries,
        (fromIso iso ∘ Json.str ∘ DateTime.timestamp) t = .ok (id t) :=
      fun t ht => hread t (hboundaries t ht)
    rw [List.map_map, List.mapM_map, mapM_map hsame, List.map_id]
  simp only [readPlan, hroute, htarget, hfrom, hto, hschema, hversion, hparameters, hworkers,
    hcolumn, hread _ hstart, hread _ hstop, hreads, ok_bind]
  exact WindowPlan.make_of_valid p.valid

theorem sameRecord_document (p : WindowPlan u) : sameRecord (encodeWindowPlan digest p)
    (document (encodeWindowPlan digest p)) = true := by
  rw [sameRecord, List.all_eq_true]
  intro field hfield
  rw [get_document hfield]
  exact equals_json field.2

/-- LOSSLESS: a plan is read back from its record. -/
theorem decode_encode (p : WindowPlan u) :
    decodeWindowPlan digest iso u (.obj (document (encodeWindowPlan digest p))) = .ok p := by
  have hboundaries : Json.get "boundaries".toList (document (encodeWindowPlan digest p)) =
      .arr ((p.boundaries.map DateTime.timestamp).map .str) := rfl
  rw [decodeWindowPlan, if_neg (by simp [hasExactly_document])]
  simp only [hboundaries, readPlan_document, asRegistryError, ok_bind, sameRecord_document,
    not_true_eq_false, if_false]
  rfl

/-! ### Accepted records -/

/-- Two objects with the same values under the same names. -/
def SameObject (d d' : List (Str × Json)) : Prop := ∀ name, d.lookup name = d'.lookup name

theorem decode_ok {value : Json} {p : WindowPlan u}
    (h : decodeWindowPlan digest iso u value = .ok p) :
    ∃ fields items, value = .obj fields ∧ Json.hasExactly planFields fields = true ∧
      Json.get "boundaries".toList fields = .arr items ∧ readPlan iso u fields items = .ok p ∧
      sameRecord (encodeWindowPlan digest p) fields = true := by
  cases value with
  | obj fields =>
    by_cases hexact : Json.hasExactly planFields fields
    · rw [decodeWindowPlan, if_neg (by simp [hexact])] at h
      cases hboundaries : Json.get "boundaries".toList fields with
      | arr items =>
        simp only [hboundaries] at h
        obtain ⟨p', hp', h⟩ := bind_ok.mp h
        by_cases hsame : sameRecord (encodeWindowPlan digest p') fields
        · rw [if_neg (by simp [hsame])] at h
          cases h
          refine ⟨fields, items, rfl, hexact, hboundaries, ?_, hsame⟩
          unfold asRegistryError at hp'
          split at hp' <;> first | cases hp' | exact hp'
        · rw [if_pos hsame] at h
          cases h
      | _ =>
        simp only [hboundaries] at h
        cases h
    · rw [decodeWindowPlan, if_pos hexact] at h
      cases h
  | _ => cases h

theorem workerCount_ok {j : Json} {n : ℕ} (h : workerCount j = .ok n) : j = .int n := by
  cases j with
  | int m =>
    simp only [workerCount] at h
    split_ifs at h with hrange
    obtain rfl := Except.ok.inj h
    rw [Int.toNat_of_nonneg (by omega)]
  | _ => cases h

/-- A plan is built only of an integer number of workers. -/
theorem WindowPlan.make_workers {a : PlanArguments} {p : WindowPlan u}
    (h : WindowPlan.make u iso a = .ok p) : a.workers = .int p.workers := by
  obtain ⟨_, -, h⟩ := bind_ok.mp h
  obtain ⟨_, -, h⟩ := bind_ok.mp h
  obtain ⟨_, -, h⟩ := bind_ok.mp h
  obtain ⟨_, -, h⟩ := bind_ok.mp h
  obtain ⟨_, -, h⟩ := bind_ok.mp h
  obtain ⟨_, -, h⟩ := bind_ok.mp h
  obtain ⟨_, -, h⟩ := bind_ok.mp h
  obtain ⟨_, -, h⟩ := bind_ok.mp h
  obtain ⟨_, -, h⟩ := bind_ok.mp h
  obtain ⟨_, -, h⟩ := bind_ok.mp h
  split at h
  · cases h
  · obtain ⟨n, hn, h⟩ := bind_ok.mp h
    split at h
    · cases h
      exact workerCount_ok hn
    · cases h

theorem readPlan_workers {fields : List (Str × Json)} {items : List Json} {p : WindowPlan u}
    (h : readPlan iso u fields items = .ok p) :
    Json.get "workers".toList fields = .int p.workers := by
  obtain ⟨_, -, h⟩ := bind_ok.mp h
  obtain ⟨_, -, h⟩ := bind_ok.mp h
  obtain ⟨_, -, h⟩ := bind_ok.mp h
  exact WindowPlan.make_workers h

/-- Each field of an accepted record is what the plan writes there. -/
theorem decoded_field {fields : List (Str × Json)} {p : WindowPlan u}
    (hworkers : Json.get "workers".toList fields = .int p.workers)
    (hsame : sameRecord (encodeWindowPlan digest p) fields = true) :
    ∀ field ∈ encodeWindowPlan digest p, Json.get field.1 fields = field.2.json := by
  intro field hfield
  have hequals := List.all_eq_true.mp hsame field hfield
  obtain ⟨name, value⟩ := field
  cases value with
  | text s => exact equals_text hequals
  | texts ss => exact equals_texts hequals
  | number n =>
    have hname : name = "workers".toList ∧ n = p.workers := by
      simpa [encodeWindowPlan] using hfield
    rw [hname.1, hname.2]
    exact hworkers

theorem lookup_of_get {fields : List (Str × Json)} {name : Str}
    (h : name ∈ fields.map Prod.fst) : fields.lookup name = some (Json.get name fields) := by
  have hsome : (fields.lookup name).isSome = true := by
    rw [Option.isSome_iff_ne_none]
    intro hnone
    obtain ⟨field, hfield, rfl⟩ := List.mem_map.mp h
    simpa using List.lookup_eq_none_iff.mp hnone field hfield
  rw [Json.get]
  cases hlookup : fields.lookup name with
  | none => rw [hlookup] at hsome; cases hsome
  | some v => rfl

/-- CORRECT: an accepted record is the record of its plan. -/
theorem decode_reencodes {value : Json} {p : WindowPlan u}
    (h : decodeWindowPlan digest iso u value = .ok p) :
    ∃ fields, value = .obj fields ∧ SameObject (document (encodeWindowPlan digest p)) fields := by
  obtain ⟨fields, items, rfl, hexact, -, hread, hsame⟩ := decode_ok h
  refine ⟨fields, rfl, fun name => ?_⟩
  have hfield := decoded_field (readPlan_workers hread) hsame
  have hnodup : ((encodeWindowPlan digest p).map Prod.fst).Nodup := planFields_nodup
  rw [Json.hasExactly, Bool.and_eq_true, List.all_eq_true, List.all_eq_true] at hexact
  by_cases hname : name ∈ planFields
  · obtain ⟨field, hmem, rfl⟩ : ∃ field ∈ encodeWindowPlan digest p, field.1 = name :=
      List.mem_map.mp (encodeWindowPlan_fields p ▸ hname)
    rw [lookup_document hnodup field hmem, ← hfield field hmem, lookup_of_get]
    exact List.contains_iff_mem.mp (hexact.2 _ hname)
  · have hnone : ∀ d : List (Str × Json), (∀ field ∈ d, field.1 ∈ planFields) →
        d.lookup name = none := by
      intro d hd
      refine List.lookup_eq_none_iff.mpr fun field hmem => ?_
      simpa using fun heq : name = field.1 => hname (heq ▸ hd field hmem)
    rw [hnone fields fun field hmem => List.contains_iff_mem.mp (hexact.1 field hmem), hnone]
    intro field hmem
    obtain ⟨field', hmem', rfl⟩ := List.mem_map.mp hmem
    have hfields : (encodeWindowPlan digest p).map Prod.fst = planFields :=
      encodeWindowPlan_fields p
    rw [← hfields]
    exact List.mem_map_of_mem hmem'

/-! ### Identities -/

theorem identityValue_selfDelimiting : SelfDelimiting IdentityValue.dumps := by
  have htexts : SelfDelimiting fun ss : List Str =>
      JsonAscii.dumpArray (ss.map JsonAscii.quoted) :=
    JsonAscii.dumpArray_selfDelimiting JsonAscii.quoted_selfDelimiting
      fun s => ⟨by simp [JsonAscii.quoted], by simp [JsonAscii.quoted]⟩
  have hbracket : ∀ ss : List Str,
      ∃ t, JsonAscii.dumpArray (ss.map JsonAscii.quoted) = '[' :: t := by
    intro ss
    cases ss with
    | nil => exact ⟨_, rfl⟩
    | cons s ss => exact ⟨_, rfl⟩
  intro a b x y h
  cases a with
  | text s =>
    cases b with
    | text t =>
      obtain ⟨rfl, rfl⟩ := JsonAscii.quoted_selfDelimiting s t x y h
      exact ⟨rfl, rfl⟩
    | texts tt =>
      obtain ⟨t, ht⟩ := hbracket tt
      simp [IdentityValue.dumps, JsonAscii.quoted, ht] at h
  | texts ss =>
    cases b with
    | text t =>
      obtain ⟨t', ht⟩ := hbracket ss
      simp [IdentityValue.dumps, JsonAscii.quoted, ht] at h
    | texts tt =>
      obtain ⟨rfl, rfl⟩ := htexts ss tt x y h
      exact ⟨rfl, rfl⟩

theorem timestamps_inj (iso : TimestampReader) : ∀ {ts ts' : List DateTime},
    (∀ t ∈ ts, t.offset = some 0) → (∀ t ∈ ts', t.offset = some 0) →
      ts.map DateTime.timestamp = ts'.map DateTime.timestamp → ts = ts'
  | [], [], _, _, _ => rfl
  | t :: ts, t' :: ts', h, h', heq => by
    obtain ⟨hfirst, hrest⟩ := List.cons.inj heq
    obtain ⟨ht, hts⟩ := List.forall_mem_cons.mp h
    obtain ⟨ht', hts'⟩ := List.forall_mem_cons.mp h'
    rw [iso.timestamp_inj ht ht' hfirst, timestamps_inj iso hts hts' hrest]

/-- A plan but for the number of workers. -/
structure SamePlan (p p' : WindowPlan u) : Prop where
  routeId : p.routeId = p'.routeId
  targetId : p.targetId = p'.targetId
  windowColumn : p.windowColumn = p'.windowColumn
  start : p.start = p'.start
  stop : p.stop = p'.stop
  boundaries : p.boundaries = p'.boundaries
  schemaFingerprint : p.schemaFingerprint = p'.schemaFingerprint
  sourceVersion : p.sourceVersion = p'.sourceVersion
  parametersFingerprint : p.parametersFingerprint = p'.parametersFingerprint

/-- CORRECT: the text of an identity tells plans apart by everything but their workers. -/
theorem identity_inj (iso : TimestampReader) {p p' : WindowPlan u} (h : p.identity = p'.identity) :
    SamePlan p p' := by
  obtain ⟨hlist, -⟩ := JsonAscii.dumpTail_selfDelimiting identityValue_selfDelimiting
    p.identityValues p'.identityValues [] []
    (by simpa only [WindowPlan.identity, JsonAscii.dumpArray, List.cons_append, List.nil_append,
      List.append_nil, List.cons.injEq, true_and] using h)
  simp only [WindowPlan.identityValues, List.cons.injEq, IdentityValue.text.injEq,
    IdentityValue.texts.injEq, and_true] at hlist
  obtain ⟨hroute, htarget, hcolumn, hstart, hstop, hboundaries, hschema, hversion, hparameters⟩ :=
    hlist
  have hutc := p.valid.utc
  have hutc' := p'.valid.utc
  simp only [List.forall_mem_cons] at hutc hutc'
  exact ⟨hroute, htarget, hcolumn, iso.timestamp_inj hutc.1 hutc'.1 hstart,
    iso.timestamp_inj hutc.2.1 hutc'.2.1 hstop, timestamps_inj iso hutc.2.2 hutc'.2.2 hboundaries,
    hschema, hversion, hparameters⟩

/-- Two texts of one digest. -/
def Collision (digest : Str → Str) : Prop := ∃ s s', s ≠ s' ∧ digest s = digest s'

theorem samePlan_of_runId (iso : TimestampReader) {p p' : WindowPlan u}
    (h : p.runId digest = p'.runId digest) : SamePlan p p' ∨ Collision digest := by
  by_cases hidentity : p.identity = p'.identity
  · exact .inl (identity_inj iso hidentity)
  · exact .inr ⟨p.identity, p'.identity, hidentity, h⟩

theorem lookup_append_other {name key : Str} (hne : name ≠ key) (v v' : Json)
    (after : List (Str × Json)) : ∀ before : List (Str × Json),
      (before ++ (key, v) :: after).lookup name = (before ++ (key, v') :: after).lookup name
  | [] => by simp [List.lookup_cons, beq_false_of_ne hne]
  | field :: before => by
    rw [List.cons_append, List.cons_append, List.lookup_cons, List.lookup_cons,
      lookup_append_other hne v v' after before]

/-- Plans that differ in their workers are written alike but for them. -/
theorem SamePlan.document {p p' : WindowPlan u} (h : SamePlan p p')
    (hrun : p.runId digest = p'.runId digest) {name : Str} (hname : name ≠ "workers".toList) :
    (BoundedWindow.document (encodeWindowPlan digest p)).lookup name =
      (BoundedWindow.document (encodeWindowPlan digest p')).lookup name := by
  obtain ⟨hroute, htarget, hcolumn, hstart, hstop, hboundaries, hschema, hversion, hparameters⟩ := h
  have hsplit : ∀ p : WindowPlan u, BoundedWindow.document (encodeWindowPlan digest p) =
      BoundedWindow.document ((encodeWindowPlan digest p).take 8) ++
        ("workers".toList, .int p.workers) ::
          BoundedWindow.document ((encodeWindowPlan digest p).drop 9) := fun p => rfl
  rw [hsplit p, hsplit p', lookup_append_other hname _ (.int p'.workers)]
  simp only [encodeWindowPlan, hroute, htarget, hcolumn, hstart, hstop, hboundaries, hschema,
    hversion, hparameters, hrun, List.take, List.drop]

/-! ### Chunks -/

/-- Half-open chunks that hold every instant of the window once, in order. -/
structure TilesInOrder (p : WindowPlan u) (chunks : List PlanChunk) : Prop where
  first : chunks.head?.map PlanChunk.start = some p.start
  last : chunks.getLast?.map PlanChunk.stop = some p.stop
  adjacent : ∀ (i : ℕ) (c d : PlanChunk), chunks[i]? = some c → chunks[i + 1]? = some d →
    c.stop = d.start
  nonempty : ∀ c ∈ chunks, c.start.instant < c.stop.instant
  once : ∀ us, p.start.instant ≤ us → us < p.stop.instant →
    chunks.countP (fun c => c.start.instant ≤ us ∧ us < c.stop.instant) = 1
  none : ∀ us, ¬ (p.start.instant ≤ us ∧ us < p.stop.instant) →
    chunks.countP (fun c => c.start.instant ≤ us ∧ us < c.stop.instant) = 0

/-- The chunks between boundaries, under any names. -/
def chunksBetween (name : DateTime → DateTime → Str) (boundaries : List DateTime) :
    List PlanChunk :=
  (boundaries.zip boundaries.tail).map fun pair => ⟨name pair.1 pair.2, pair.1, pair.2⟩

theorem chunksBetween_cons (name : DateTime → DateTime → Str) (a b : DateTime)
    (rest : List DateTime) : chunksBetween name (a :: b :: rest) =
      ⟨name a b, a, b⟩ :: chunksBetween name (b :: rest) := rfl

/-- Boundaries in order cut the instants between the outer ones. -/
theorem tiles_chunksBetween (name : DateTime → DateTime → Str) :
    ∀ {a : DateTime} {rest : List DateTime}, rest ≠ [] → anyOutOfOrder (a :: rest) = false →
      Tiles (fun (c : PlanChunk) (us : ℤ) => us < c.start.instant)
        (fun c us => us < c.stop.instant) (fun us => us < a.instant)
        (fun us => us < ((a :: rest).getLast (List.cons_ne_nil a rest)).instant)
        (chunksBetween name (a :: rest))
  | _, [], hne, _ => absurd rfl hne
  | a, [b], _, horder => by
    have hlt : a.instant < b.instant := by simpa [anyOutOfOrder] using horder
    exact .one (fun _ => Iff.rfl) (fun _ => Iff.rfl) fun us hus => lt_trans hus hlt
  | a, b :: c :: rest, _, horder => by
    have hsplit : a.instant < b.instant ∧ anyOutOfOrder (b :: c :: rest) = false := by
      simpa [anyOutOfOrder] using horder
    rw [chunksBetween_cons, List.getLast_cons (List.cons_ne_nil b (c :: rest))]
    exact .cons (fun _ => Iff.rfl) (fun _ => Iff.rfl) (fun us hus => lt_trans hus hsplit.1)
      (tiles_chunksBetween name (List.cons_ne_nil c rest) hsplit.2)

theorem chunksBetween_last (name : DateTime → DateTime → Str) :
    ∀ {a : DateTime} {rest : List DateTime}, rest ≠ [] →
      (chunksBetween name (a :: rest)).getLast?.map PlanChunk.stop = (a :: rest).getLast?
  | _, [], hne => absurd rfl hne
  | a, [b], _ => rfl
  | a, b :: c :: rest, _ => by
    rw [chunksBetween_cons, chunksBetween_cons, List.getLast?_cons_cons, List.getLast?_cons_cons,
      ← chunksBetween_cons]
    exact chunksBetween_last name (List.cons_ne_nil c rest)

/-- A chunk lies between two neighbouring boundaries. -/
theorem chunksBetween_get {name : DateTime → DateTime → Str} {boundaries : List DateTime} {i : ℕ}
    {c : PlanChunk} (h : (chunksBetween name boundaries)[i]? = some c) :
    boundaries[i]? = some c.start ∧ boundaries[i + 1]? = some c.stop := by
  rw [chunksBetween, List.getElem?_map] at h
  obtain ⟨⟨a, b⟩, hpair, rfl⟩ := Option.map_eq_some_iff.mp h
  rwa [List.getElem?_zip_eq_some, List.getElem?_tail] at hpair

/-- CORRECT: the chunks of a plan tile its window. -/
theorem plan_tiles (digest : Str → Str) (p : WindowPlan u) :
    TilesInOrder p (p.chunks digest) := by
  have hv := p.valid
  have hboundaries : ∀ t ∈ p.boundaries, t.offset = some 0 := fun t ht =>
    hv.utc t (List.mem_cons_of_mem _ (List.mem_cons_of_mem _ ht))
  have hfirst := DateTime.some_of_instant (hv.utc p.start (by simp))
    (fun t ht => hboundaries t (List.mem_of_mem_head? ht)) hv.first
  have hlast := DateTime.some_of_instant (hv.utc p.stop (by simp))
    (fun t ht => hboundaries t (List.mem_of_mem_getLast? ht)) hv.last
  obtain ⟨rest, hsplit⟩ : ∃ rest, p.boundaries = p.start :: rest := List.head?_eq_some_iff.mp hfirst
  have hne : rest ≠ [] := by
    rintro rfl
    have hcount := hv.count
    rw [hsplit] at hcount
    exact absurd hcount (by simp)
  set name : DateTime → DateTime → Str := fun a b => digest (JsonAscii.dumpArray
    ([p.runId digest, a.timestamp, b.timestamp].map JsonAscii.quoted)) with hname
  have hchunks : p.chunks digest = chunksBetween name p.boundaries := rfl
  have htiles := tiles_chunksBetween name hne (hsplit ▸ hv.increasing)
  have hend : ((p.start :: rest).getLast (List.cons_ne_nil p.start rest)) = p.stop := by
    rw [hsplit, List.getLast?_eq_getLast_of_ne_nil (List.cons_ne_nil p.start rest)] at hlast
    exact Option.some.inj hlast
  rw [hend, ← hsplit, ← hchunks] at htiles
  have hcount := fun us => htiles.count us
    (fun c => decide (c.start.instant ≤ us ∧ us < c.stop.instant))
    fun c _ => by rw [decide_eq_true_eq, not_lt]
  simp only [not_lt] at hcount
  rw [hchunks] at hcount ⊢
  refine ⟨?_, ?_, ?_, ?_, fun us hlo hhi => (hcount us).1 ⟨hlo, hhi⟩,
    fun us hout => (hcount us).2 hout⟩
  · obtain ⟨b, rest, rfl⟩ := List.exists_cons_of_ne_nil hne
    rw [hsplit]
    rfl
  · rw [hsplit, chunksBetween_last name hne, ← hsplit, hlast]
  · intro i c d hc hd
    exact Option.some.inj ((chunksBetween_get hc).2.symm.trans (chunksBetween_get hd).1)
  · intro c hc
    obtain ⟨i, hi⟩ := List.mem_iff_getElem?.mp hc
    obtain ⟨hstart, hstop⟩ := chunksBetween_get hi
    exact inOrder_iff.mp hv.increasing i _ _ hstart hstop

/-! ### The codec -/

/-- Midnight of a day in September 2026. -/
def september (day : ℕ) (h : 1 ≤ day ∧ day ≤ 30) : DateTime :=
  ⟨⟨2026, 9, day, ⟨⟨by decide, by decide⟩, ⟨by decide, by decide⟩, h⟩⟩, 0, some 0, dayMicros_pos,
    utc_offset_lt⟩

/-- One day in one chunk. -/
def dayPlan (workers : ℕ) (h : 1 ≤ workers ∧ workers ≤ 64) : WindowPlan Unicode.ascii where
  routeId := ['r']
  targetId := ['t']
  start := september 8 (by decide)
  stop := september 9 (by decide)
  boundaries := [september 8 (by decide), september 9 (by decide)]
  schemaFingerprint := ['s']
  sourceVersion := ['v']
  parametersFingerprint := ['p']
  workers := workers
  windowColumn := ['c']
  valid := ⟨by decide, by decide, by decide, by decide, by decide, by decide, by decide,
    by decide, h⟩

end Dpone.BoundedWindow
