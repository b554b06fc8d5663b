import Mathlib.Data.List.Perm.Basic
import Dpone.Schemes.Numeral
import Dpone.Cdc.Capture
import Dpone.Cdc.Materialization

/-! Whether the serving table is the source table.

    For one key hash the selected row is a maximum of the ranks, and any maximum can be selected, so
    the serving table is right exactly when every row that disagrees with the final contents is
    outranked by one that agrees. An update that moves a row to another key leaves the old key's
    rows unopposed, and rows of one instant and position are ranked by their hashes. -/

namespace Dpone.Cdc
open Dpone.Schemes

variable {V : Type} (digests : Digests V) (stream : CdcRuntimeStream)

/-- What an event row says about its key. -/
def CdcEventRow.payload (r : CdcEventRow) : Option Str :=
  if r.deleted = 0 then some r.payloadJson else none

theorem latestRow_mem {table : List CdcEventRow} {hash : Str} {r : CdcEventRow}
    (h : latestRow table hash = some r) : r ∈ table ∧ r.uniqueKeyHash = hash := by
  have hmem := List.argmax_mem (f := CdcEventRow.rank) (l := table.filter (·.uniqueKeyHash = hash)) h
  simpa using List.mem_filter.mp hmem

/-- The selected row is a maximum of its key. -/
theorem le_rank_latestRow {table : List CdcEventRow} {hash : Str} {r r' : CdcEventRow}
    (h : latestRow table hash = some r) (hr' : r' ∈ table) (hhash : r'.uniqueKeyHash = hash) :
    r'.rank ≤ r.rank :=
  List.le_of_mem_argmax (List.mem_filter.mpr ⟨hr', by simpa using hhash⟩) h

theorem latestRow_isSome {table : List CdcEventRow} {r : CdcEventRow} (h : r ∈ table) :
    ∃ latest, latestRow table r.uniqueKeyHash = some latest := by
  rw [← Option.ne_none_iff_exists']
  intro hnone
  have hempty := List.argmax_eq_none.mp hnone
  have hmem : r ∈ table.filter (·.uniqueKeyHash = r.uniqueKeyHash) :=
    List.mem_filter.mpr ⟨h, by simp⟩
  rw [hempty] at hmem
  cases hmem

/-- A maximum that comes first in the table is selected. -/
theorem latestRow_first {table : List CdcEventRow} {r : CdcEventRow}
    (hmax : ∀ r' ∈ table, r'.uniqueKeyHash = r.uniqueKeyHash → r'.rank ≤ r.rank) :
    latestRow (r :: table) r.uniqueKeyHash = some r := by
  rw [latestRow, List.filter_cons_of_pos (by simp), List.argmax_cons]
  cases h : (table.filter (·.uniqueKeyHash = r.uniqueKeyHash)).argmax CdcEventRow.rank with
  | none => rfl
  | some c =>
    obtain ⟨hc, hhash⟩ := latestRow_mem h
    exact if_neg (hmax c hc hhash).not_gt

theorem payload_cdcEventRow (c : Captured V) :
    (cdcEventRow digests stream c.toChange c.now).payload =
      if c.change.operation = .delete then none else some (digests.rowJson c.change.data) := by
  by_cases hdelete : c.change.operation = .delete <;>
    simp [CdcEventRow.payload, cdcEventRow, CDCChange.isDelete, Captured.toChange, hdelete]

theorem mem_eventRows {history : List (Captured V)} {r : CdcEventRow} :
    r ∈ eventRows digests stream history ↔
      ∃ c ∈ history, r = cdcEventRow digests stream c.toChange c.now := by
  simp [eventRows, eq_comm]

/-- The event row of a change. -/
def Captured.row (c : Captured V) : CdcEventRow := cdcEventRow digests stream c.toChange c.now

theorem servingPayload_eq {table : List CdcEventRow} {hash : Str} {r : CdcEventRow}
    (h : latestRow table hash = some r) : servingPayload table hash = r.payload := by
  rw [servingPayload, h]; rfl

theorem keyHash_congr {a b : RowData V}
    (h : uniqueKeyPayload a stream.uniqueKey = uniqueKeyPayload b stream.uniqueKey) :
    keyHash digests stream a = keyHash digests stream b := by
  rw [keyHash, keyHash, h]

/-- What is selected for a key comes from a change of that key. -/
theorem latestRow_change {history : List (Captured V)} {table : List CdcEventRow}
    (hperm : table.Perm (eventRows digests stream history)) {hash : Str} {m : CdcEventRow}
    (hm : latestRow table hash = some m) :
    ∃ c ∈ history, m = c.row digests stream ∧ keyHash digests stream c.change.data = hash := by
  obtain ⟨hmem, hhash⟩ := latestRow_mem hm
  obtain ⟨c, hc, rfl⟩ := (mem_eventRows digests stream).mp (hperm.mem_iff.mp hmem)
  exact ⟨c, hc, rfl, hhash⟩

theorem row_mem {history : List (Captured V)} {table : List CdcEventRow}
    (hperm : table.Perm (eventRows digests stream history)) {c : Captured V} (hc : c ∈ history) :
    c.row digests stream ∈ table :=
  hperm.mem_iff.mpr ((mem_eventRows digests stream).mpr ⟨c, hc, rfl⟩)

variable [DecidableEq V]

/-- The serving table, in whatever order the log table yields its rows, holds exactly the final
    contents of the source table. -/
def Reconstructs (history : List (Captured V)) : Prop :=
  ∀ table, table.Perm (eventRows digests stream history) →
    (∀ data, servingPayload table (keyHash digests stream data) =
      (finalContents stream.uniqueKey history (uniqueKeyPayload data stream.uniqueKey)).map
        digests.rowJson) ∧
    ∀ hash, servingPayload table hash ≠ none → ∃ data, hash = keyHash digests stream data

/-- A change is kept if what it says about its key is what the history finally leaves there. -/
def Kept (history : List (Captured V)) (c : Captured V) : Prop :=
  (c.row digests stream).payload = (finalContents stream.uniqueKey history
    (uniqueKeyPayload c.change.data stream.uniqueKey)).map digests.rowJson

/-- Every change that is not kept is outranked, in the order of the event rows, by a change of its
    key that is. -/
def OverriddenOutranked (history : List (Captured V)) : Prop :=
  ∀ c ∈ history, ¬ Kept digests stream history c → ∃ c' ∈ history,
    uniqueKeyPayload c'.change.data stream.uniqueKey =
      uniqueKeyPayload c.change.data stream.uniqueKey ∧
    Kept digests stream history c' ∧ (c.row digests stream).rank < (c'.row digests stream).rank

/-- No two key payloads share a hash. -/
def KeysToldApart : Prop :=
  ∀ a b : RowData V, keyHash digests stream a = keyHash digests stream b →
    uniqueKeyPayload a stream.uniqueKey = uniqueKeyPayload b stream.uniqueKey

theorem finalContents_snoc (uniqueKey : List Str) (history : List (Captured V)) (c : Captured V) :
    finalContents uniqueKey (history ++ [c]) =
      c.change.apply uniqueKey (finalContents uniqueKey history) := by
  simp [finalContents, List.foldl_append]

/-- A row that is there was put there by a change that carries it. -/
theorem finalContents_some {uniqueKey : List Str} {key : RowData V} {row : RowData V} :
    ∀ {history : List (Captured V)}, finalContents uniqueKey history key = some row →
      ∃ c ∈ history, uniqueKeyPayload c.change.data uniqueKey = key ∧ c.change.data = row ∧
        c.change.operation ≠ .delete := by
  intro history
  induction history using List.reverseRecOn with
  | nil => intro h; cases h
  | append_singleton history c ih =>
    intro h
    rw [finalContents_snoc] at h
    have hearlier : finalContents uniqueKey history key = some row →
        ∃ c' ∈ history ++ [c], uniqueKeyPayload c'.change.data uniqueKey = key ∧
          c'.change.data = row ∧ c'.change.operation ≠ .delete := fun hold => by
      obtain ⟨c', hc', hspec⟩ := ih hold
      exact ⟨c', by simp [hc'], hspec⟩
    cases hchange : c.change with
    | insert new =>
      rw [hchange, SourceChange.apply, Function.update_apply] at h
      split_ifs at h with hkey
      · refine ⟨c, by simp, ?_⟩
        rw [hchange]
        exact ⟨hkey.symm, Option.some.inj h, by simp [SourceChange.operation]⟩
      · exact hearlier h
    | update before after =>
      rw [hchange, SourceChange.apply, Function.update_apply, Function.update_apply] at h
      split_ifs at h with hkey
      · refine ⟨c, by simp, ?_⟩
        rw [hchange]
        exact ⟨hkey.symm, Option.some.inj h, by simp [SourceChange.operation]⟩
      · exact hearlier h
    | delete old =>
      rw [hchange, SourceChange.apply, Function.update_apply] at h
      split_ifs at h with hkey
      exact hearlier h

/-- CORRECT: the serving table is the source table exactly when every change that is not kept is
    outranked by a change of its key that is. -/
theorem reconstructs_iff_overridden_outranked (hkeys : KeysToldApart digests stream)
    (history : List (Captured V)) :
    Reconstructs digests stream history ↔ OverriddenOutranked digests stream history := by
  constructor
  · intro hrec c hc hoverridden
    have hrow := row_mem digests stream (List.Perm.refl _) hc
    obtain ⟨m, hm⟩ := latestRow_isSome hrow
    obtain ⟨c', hc', rfl, hhash⟩ := latestRow_change digests stream (List.Perm.refl _) hm
    have hkept : Kept digests stream history c' := by
      rw [Kept, ← servingPayload_eq (hhash.symm ▸ hm)]
      exact (hrec _ (List.Perm.refl _)).1 c'.change.data
    have hle := le_rank_latestRow hm hrow rfl
    refine ⟨c', hc', hkeys _ _ hhash, hkept, lt_of_le_of_ne hle fun heq => ?_⟩
    -- an overridden change of the highest rank can come first, and is selected then
    have hfirst : latestRow (c.row digests stream ::
        (eventRows digests stream history).erase (c.row digests stream))
          (c.row digests stream).uniqueKeyHash = some (c.row digests stream) :=
      latestRow_first fun r' hr' hhash' => by
        rw [heq]
        exact le_rank_latestRow hm (List.mem_of_mem_erase hr') hhash'
    have hserving := (hrec _ (List.perm_cons_erase hrow).symm).1 c.change.data
    exact hoverridden ((servingPayload_eq hfirst).symm.trans hserving)
  · intro hcond table hperm
    refine ⟨fun data => ?_, fun hash hserving => ?_⟩
    · cases hm : latestRow table (keyHash digests stream data) with
      | some m =>
        obtain ⟨c, hc, rfl, hhash⟩ := latestRow_change digests stream hperm hm
        rw [servingPayload_eq hm, ← hkeys _ _ hhash]
        by_contra hoverridden
        obtain ⟨c', hc', hkey, _, hlt⟩ := hcond c hc hoverridden
        have hle := le_rank_latestRow hm (row_mem digests stream hperm hc')
          ((keyHash_congr digests stream hkey).trans hhash)
        exact hle.not_gt hlt
      | none =>
        rw [servingPayload, hm, Option.bind_none]
        cases hfinal : finalContents stream.uniqueKey history
            (uniqueKeyPayload data stream.uniqueKey) with
        | none => rfl
        | some row =>
          obtain ⟨c, hc, hkey, _⟩ := finalContents_some hfinal
          obtain ⟨latest, hlatest⟩ := latestRow_isSome (row_mem digests stream hperm hc)
          have hhash : (c.row digests stream).uniqueKeyHash = keyHash digests stream data :=
            keyHash_congr digests stream hkey
          rw [hhash, hm] at hlatest
          cases hlatest
    · cases hm : latestRow table hash with
      | none => rw [servingPayload, hm] at hserving; exact absurd rfl hserving
      | some m =>
        obtain ⟨c, _, _, hhash⟩ := latestRow_change digests stream hperm hm
        exact ⟨c.change.data, hhash.symm⟩

/-! A row moved to another key. -/

/-- Texts that tell numbers and NULL apart, hashed to themselves. -/
def plainDigests : Digests ℕ where
  rowJson data := data.flatMap fun (_, value) => value.elim "null".toList decimalText
  eventJson payload := payload.position
  sha256 := id

def ordersStream : CdcRuntimeStream := ⟨"s".toList, "r".toList, "p".toList, ["id".toList]⟩

def orderCaptured (change : SourceChange ℕ) (lsn : ℕ) (now : ℤ) : Captured ℕ :=
  { change := change, position := lsnText lsn, now := now
    sourceSchema := "dbo".toList, sourceTable := "orders".toList }

/-- Order 1 is inserted and then becomes order 2, in two transactions. -/
def rekeyedOrder : List (Captured ℕ) :=
  [orderCaptured (.insert [("id".toList, some 1)]) 1 0,
    orderCaptured (.update [("id".toList, some 1)] [("id".toList, some 2)]) 2 1000000]

theorem plainDigests_keysToldApart : KeysToldApart plainDigests ordersStream := by
  intro a b h
  have hnull : decimalValue "null".toList = none := by decide
  have hvalue : ∀ x y : Option ℕ, x.elim "null".toList decimalText =
      y.elim "null".toList decimalText → x = y := by
    rintro (_ | m) (_ | n) hxy
    · rfl
    · have hread := congrArg decimalValue hxy
      rw [Option.elim, Option.elim, hnull, decimalValue_decimalText] at hread
      cases hread
    · have hread := congrArg decimalValue hxy
      rw [Option.elim, Option.elim, hnull, decimalValue_decimalText] at hread
      cases hread
    · have hread := congrArg decimalValue hxy
      rwa [Option.elim, Option.elim, decimalValue_decimalText, decimalValue_decimalText] at hread
  have h' : ((a.lookup "id".toList).join.elim "null".toList decimalText : Str) =
      (b.lookup "id".toList).join.elim "null".toList decimalText := by
    simpa [keyHash, plainDigests, ordersStream, uniqueKeyPayload] using h
  change [("id".toList, (a.lookup "id".toList).join)] = [("id".toList, (b.lookup "id".toList).join)]
  rw [hvalue _ _ h']

/-- The old key's insert is not outranked by anything, so the serving table keeps order 1, which the
    source no longer has. -/
theorem rekeyed_order_is_kept : KeysToldApart plainDigests ordersStream ∧
    ¬ Reconstructs plainDigests ordersStream rekeyedOrder := by
  refine ⟨plainDigests_keysToldApart, fun hrec => ?_⟩
  have hserving := (hrec _ (List.Perm.refl _)).1 [("id".toList, some 1)]
  exact absurd hserving (by decide)

theorem inserted_order_is_served : Reconstructs plainDigests ordersStream
    [orderCaptured (.insert [("id".toList, some 1)]) 1 0] := by
  refine (reconstructs_iff_overridden_outranked plainDigests ordersStream
    plainDigests_keysToldApart _).mpr fun c hc hoverridden => ?_
  rw [List.mem_singleton.mp hc] at hoverridden
  exact absurd rfl hoverridden

/-! Histories in order. -/

/-- What a change says about its key. -/
def SourceChange.image (c : SourceChange V) : Option (RowData V) :=
  if c.operation = .delete then none else some c.data

omit [DecidableEq V] in
theorem payload_row (c : Captured V) :
    (c.row digests stream).payload = c.change.image.map digests.rowJson := by
  rw [Captured.row, payload_cdcEventRow, SourceChange.image]
  split_ifs <;> rfl

/-- An update moves no row to another key. -/
def SourceChange.Stays (uniqueKey : List Str) : SourceChange V → Prop
  | update before after => uniqueKeyPayload before uniqueKey = uniqueKeyPayload after uniqueKey
  | _ => True

theorem apply_of_stays {uniqueKey : List Str} {c : SourceChange V} (h : c.Stays uniqueKey)
    (table : Contents V) : c.apply uniqueKey table =
      Function.update table (uniqueKeyPayload c.data uniqueKey) c.image := by
  cases c with
  | insert row => rfl
  | update before after =>
    have hkey : uniqueKeyPayload before uniqueKey = uniqueKeyPayload after uniqueKey := h
    rw [SourceChange.apply, hkey, Function.update_idem]
    rfl
  | delete row => rfl

/-- RUN: in a history whose updates stay on their keys and whose ranks increase on each key, the last
    change of a key is kept and outranks the others. -/
theorem overridden_outranked_of_increasing : ∀ {history : List (Captured V)},
    (∀ c ∈ history, c.change.Stays stream.uniqueKey) →
    history.Pairwise (fun c c' => uniqueKeyPayload c.change.data stream.uniqueKey =
      uniqueKeyPayload c'.change.data stream.uniqueKey →
        (c.row digests stream).rank < (c'.row digests stream).rank) →
    OverriddenOutranked digests stream history := by
  intro history
  induction history using List.reverseRecOn with
  | nil => intro _ _ c hc; cases hc
  | append_singleton history c ih =>
    intro hstays hranks c₀ hc₀ hoverridden
    obtain ⟨hbefore, -, hlast⟩ := List.pairwise_append.mp hranks
    have happly := apply_of_stays (hstays c (by simp)) (finalContents stream.uniqueKey history)
    have hkept : Kept digests stream (history ++ [c]) c := by
      rw [Kept, finalContents_snoc, happly, Function.update_self, payload_row]
    have hother : ∀ c', uniqueKeyPayload c'.change.data stream.uniqueKey ≠
        uniqueKeyPayload c.change.data stream.uniqueKey →
        (Kept digests stream (history ++ [c]) c' ↔ Kept digests stream history c') := by
      intro c' hne
      rw [Kept, Kept, finalContents_snoc, happly, Function.update_of_ne hne]
    rcases List.mem_append.mp hc₀ with hold | hnew
    · by_cases hkey : uniqueKeyPayload c₀.change.data stream.uniqueKey =
          uniqueKeyPayload c.change.data stream.uniqueKey
      · exact ⟨c, by simp, hkey.symm, hkept, hlast c₀ hold c (by simp) hkey⟩
      · obtain ⟨c', hc', hkey', hkept', hlt⟩ := ih (fun c hc => hstays c (by simp [hc])) hbefore
          c₀ hold (fun h => hoverridden ((hother c₀ hkey).mpr h))
        exact ⟨c', by simp [hc'], hkey', (hother c' (hkey' ▸ hkey)).mpr hkept', hlt⟩
    · rw [List.mem_singleton.mp hnew] at hoverridden
      exact absurd hkept hoverridden

omit [DecidableEq V] in
/-- SQL Server positions rank as their LSNs do, within one millisecond of ingest time. -/
theorem lsnText_rank_lt {c c' : Captured V} {lsn lsn' : ℕ} (hc : c.position = lsnText lsn)
    (hc' : c'.position = lsnText lsn') (hlt : lsn < lsn') (hfit : lsn' < 16 ^ 20)
    (hnow : c.now ≤ c'.now) : (c.row digests stream).rank < (c'.row digests stream).rank := by
  have hms : c.now / 1000 ≤ c'.now / 1000 := Int.ediv_le_ediv (by decide) hnow
  have htext : lsnText lsn < lsnText lsn' :=
    List.append_left_lt (numeral_lt (by decide) (by decide) 20 hlt hfit)
  have hlength : (lsnText lsn).length = (lsnText lsn').length := by simp [lsnText]
  simp only [CdcEventRow.rank, Captured.row, cdcEventRow, Captured.toChange, hc, hc',
    Prod.Lex.toLex_lt_toLex, hlength, lt_irrefl, false_or, true_and]
  rcases hms.lt_or_eq with h | h
  · exact .inl h
  · exact .inr ⟨h, .inl htext⟩

/-- CORRECT for SQL Server histories whose updates stay on their keys, ingested in commit order, with
    at most one change of a key in a transaction. -/
theorem lsn_history_reconstructs (hkeys : KeysToldApart digests stream)
    {history : List (Captured V)} (lsn : Captured V → ℕ)
    (hlsn : ∀ c ∈ history, c.position = lsnText (lsn c) ∧ lsn c < 16 ^ 20)
    (hstays : ∀ c ∈ history, c.change.Stays stream.uniqueKey)
    (horder : history.Pairwise fun c c' => c.now ≤ c'.now ∧
      (uniqueKeyPayload c.change.data stream.uniqueKey =
        uniqueKeyPayload c'.change.data stream.uniqueKey → lsn c < lsn c')) :
    Reconstructs digests stream history := by
  refine (reconstructs_iff_overridden_outranked digests stream hkeys history).mpr
    (overridden_outranked_of_increasing digests stream hstays ?_)
  refine horder.imp_of_mem fun hc hc' ⟨hnow, hlt⟩ hkey => ?_
  exact lsnText_rank_lt digests stream (hlsn _ hc).1 (hlsn _ hc').1 (hlt hkey) (hlsn _ hc').2 hnow

end Dpone.Cdc
