import Dpone.Cdc.Capture

/-! What bounded CDC reads lose.

    The reader asks for exactly the rows past its token (`pendingRows_spec`), so what it skips can
    only be rows a batch left out at or before the LSN it saved. Those are the rows of the last
    transaction beyond the cap. A skipped row stays behind the token in every later state. -/

namespace Dpone.Cdc
open Dpone.Schemes

variable {V : Type} (cfg : MSSQLTableCDCReaderConfig)

/-- INVARIANT of every run. -/
structure Inv (low : ℕ) (s : CaptureState V) : Prop where
  columns_ne : s.source.columns ≠ []
  low_pos : 0 < low
  min_eq : s.source.minLsn = some low
  rows_bound : ∀ r ∈ s.source.rows, low ≤ r.startLsn ∧ ∃ high ∈ s.source.maxLsn, r.startLsn ≤ high
  max_bound : ∀ high ∈ s.source.maxLsn, high < 16 ^ 20
  nodup : s.source.rows.Nodup
  token_eq : s.token = none ∨ ∃ t, s.token = some (lsnText t) ∧ low ≤ t ∧
    ∃ high ∈ s.source.maxLsn, t ≤ high
  returned_behind : ∀ r ∈ s.returned, Behind s.token r

theorem lsnText_injective {m n : ℕ} (hm : m < 16 ^ 20) (hn : n < 16 ^ 20)
    (h : lsnText m = lsnText n) : m = n := by
  have := convertLsn_lsnText hm
  rw [h, convertLsn_lsnText hn] at this
  exact (Option.some.inj this).symm

theorem behind_iff {t : ℕ} (ht : t < 16 ^ 20) (r : CaptureRow V) :
    Behind (some (lsnText t)) r ↔ r.startLsn ≤ t := by
  constructor
  · rintro ⟨t', h, ht', hr⟩
    rwa [lsnText_injective ht ht' (Option.some.inj h)]
  · exact fun hr => ⟨t, rfl, ht, hr⟩

theorem not_behind_none (r : CaptureRow V) : ¬ Behind none r := by
  rintro ⟨t, h, -⟩; cases h

variable {low : ℕ} {s : CaptureState V}

/-- The reader asks for exactly the rows past its token. -/
theorem fromLsn_spec (h : Inv low s) : ∃ start, fromLsn s.source s.token = .ok (some start) ∧
    ∀ r ∈ s.source.rows, start ≤ r.startLsn ↔ ¬ Behind s.token r := by
  rcases h.token_eq with ht | ⟨t, ht, hlow, high, hhigh, hle⟩
  · refine ⟨low, by rw [ht, fromLsn, h.min_eq], fun r hr => ?_⟩
    rw [ht]
    exact iff_of_true (h.rows_bound r hr).1 (not_behind_none r)
  · have hlt : t < 16 ^ 20 := hle.trans_lt (h.max_bound high hhigh)
    have hne : lsnText t ≠ lsnText 0 := fun heq => by
      have := lsnText_injective hlt (by norm_num) heq
      have := h.low_pos; omega
    refine ⟨t + 1, ?_, fun r _ => ?_⟩
    · simp only [ht, fromLsn, if_neg hne, convertLsn_lsnText hlt, h.min_eq, Option.map_some]
      rw [if_neg (by omega)]
    · rw [ht, behind_iff hlt]; omega

instance : IsTrans (CaptureRow V) rowLe where
  trans a b c hab hbc := by unfold rowLe at *; omega

instance : Std.Total (rowLe (V := V)) where
  total a b := by unfold rowLe; omega

/-- The query sees each row past the token once, in order. -/
theorem pendingRows_spec (h : Inv low s) {rows : List (CaptureRow V)}
    (hp : pendingRows s.source s.token = .ok rows) :
    rows.Nodup ∧ rows.Pairwise rowLe ∧ ∀ r, r ∈ rows ↔ r ∈ s.source.rows ∧ ¬ Behind s.token r := by
  obtain ⟨start, hstart, hpast⟩ := fromLsn_spec h
  unfold pendingRows at hp
  rw [hstart] at hp
  cases hmax : s.source.maxLsn with
  | none =>
    simp only [hmax] at hp
    cases hp
    refine ⟨List.nodup_nil, List.Pairwise.nil, fun r => ⟨fun hr => (nomatch hr), fun ⟨hr, _⟩ => ?_⟩⟩
    obtain ⟨high, hhigh, -⟩ := (h.rows_bound r hr).2
    rw [hmax] at hhigh; cases hhigh
  | some high =>
    simp only [hmax] at hp
    change allChanges s.source start high = .ok rows at hp
    unfold allChanges at hp
    split at hp
    · cases hp
    · cases hp
      refine ⟨(List.perm_insertionSort ..).nodup_iff.mpr (h.nodup.filter _),
        List.pairwise_insertionSort .., fun r => ?_⟩
      rw [List.mem_insertionSort, List.mem_filter, decide_eq_true_eq]
      constructor
      · rintro ⟨hr, hlow, -⟩
        exact ⟨hr, (hpast r hr).mp hlow⟩
      · rintro ⟨hr, hnb⟩
        obtain ⟨high', hhigh', hle⟩ := (h.rows_bound r hr).2
        rw [hmax, Option.mem_some_iff] at hhigh'
        exact ⟨hr, (hpast r hr).mpr hnb, hhigh' ▸ hle⟩

/-- The watermark loop keeps the text of the last row, or the token when there is none. -/
theorem watermark_eq (token : Option Str) : ∀ rows : List (CaptureRow V),
    rows.foldl (fun _ r => some (lsnText r.startLsn)) token =
      (rows.getLast?.map fun r => lsnText r.startLsn).or token
  | [] => rfl
  | [_] => rfl
  | _ :: r :: rows => by
      rw [List.foldl_cons, watermark_eq _ (r :: rows)]
      simp [List.getLast?_cons]

/-- The last row of a sorted list has the greatest LSN. -/
theorem le_last {rows : List (CaptureRow V)} (h : rows.Pairwise rowLe) {last r : CaptureRow V}
    (hl : last ∈ rows.getLast?) (hr : r ∈ rows) : r.startLsn ≤ last.startLsn := by
  obtain ⟨init, rfl⟩ := List.getLast?_eq_some_iff.mp hl
  rcases List.mem_append.mp hr with hr | hr
  · have := (List.pairwise_append.mp h).2.2 r hr last (by simp)
    unfold rowLe at this; omega
  · rw [List.mem_singleton.mp hr]

/-- What a read that returns does to the token and the returned rows. -/
theorem readBatch_spec (h : Inv low s) {maxChanges : ℕ} {batch : CDCBatch V}
    (hb : readBatch cfg s.source s.token maxChanges = .ok batch) :
    ∃ rows, pendingRows s.source s.token = .ok rows ∧
      batch.nextOffset =
        ((rows.take maxChanges).getLast?.map fun r => lsnText r.startLsn).or s.token ∧
      returnedRows cfg s.source s.token maxChanges =
        (rows.take maxChanges).filter fun r => (reportedAs cfg r).isSome := by
  unfold readBatch at hb
  rw [if_neg h.columns_ne] at hb
  cases hp : pendingRows s.source s.token with
  | error e => rw [hp] at hb; cases hb
  | ok rows =>
    rw [hp] at hb
    cases hb
    exact ⟨rows, rfl, watermark_eq .., by rw [returnedRows, hp]⟩

/-- The token after a read: the last row of the batch, or where it was. -/
theorem behind_next (h : Inv low s) {rows : List (CaptureRow V)} {n : ℕ}
    (hp : pendingRows s.source s.token = .ok rows) (r : CaptureRow V) :
    Behind (((rows.take n).getLast?.map fun r => lsnText r.startLsn).or s.token) r ↔
      Behind s.token r ∨ ∃ last ∈ (rows.take n).getLast?, r.startLsn ≤ last.startLsn := by
  obtain ⟨-, -, hmem⟩ := pendingRows_spec h hp
  cases hl : (rows.take n).getLast? with
  | none => simp
  | some last =>
    have hlast : last ∈ rows := List.mem_of_mem_take (List.mem_of_getLast? hl)
    obtain ⟨hsrc, hnb⟩ := (hmem last).mp hlast
    obtain ⟨high, hhigh, hle⟩ := (h.rows_bound last hsrc).2
    have hlt := h.max_bound high hhigh
    simp only [Option.map_some, Option.some_or, behind_iff (show last.startLsn < 16 ^ 20 by omega),
      Option.mem_some_iff, exists_eq_left']
    refine ⟨Or.inr, ?_⟩
    rintro (⟨t, ht, htl, hr⟩ | hr)
    · rw [ht, behind_iff htl] at hnb; omega
    · exact hr

/-- STEP: the invariant. -/
theorem inv_step {l : CaptureStep V} {s' : CaptureState V} (h : Inv low s)
    (hs : CaptureStep.step cfg s l s') : Inv low s' := by
  cases l with
  | readFailed => rw [show s' = s from hs]; exact h
  | capture lsn new =>
    obtain ⟨hnew, ⟨low', hlow', hle⟩, hlsn, hrows, hnodup, rfl⟩ := hs
    rw [h.min_eq, Option.mem_some_iff] at hlow'
    subst hlow'
    refine { h with
      rows_bound := fun r hr => ?_
      max_bound := fun high hh => ?_
      nodup := ?_
      token_eq := ?_ }
    · rcases List.mem_append.mp hr with hr | hr
      · obtain ⟨hl, high, hhigh, hle'⟩ := h.rows_bound r hr
        exact ⟨hl, lsn, rfl, hle'.trans (hnew high hhigh).le⟩
      · rw [hrows r hr]; exact ⟨hle, lsn, rfl, le_rfl⟩
    · rw [← Option.mem_some_iff.mp hh]; exact hlsn
    · refine List.nodup_append.mpr ⟨h.nodup, hnodup, fun a ha b hb hab => ?_⟩
      subst hab
      obtain ⟨-, high, hhigh, hle'⟩ := h.rows_bound a ha
      have := hnew high hhigh
      rw [hrows a hb] at hle'; omega
    · rcases h.token_eq with ht | ⟨t, ht, hlow, high, hhigh, hle'⟩
      · exact .inl ht
      · exact .inr ⟨t, ht, hlow, lsn, rfl, hle'.trans (hnew high hhigh).le⟩
  | read n =>
    obtain ⟨-, batch, hb, rfl⟩ := hs
    obtain ⟨rows, hp, htoken, hret⟩ := readBatch_spec cfg h hb
    obtain ⟨-, hsorted, hmem⟩ := pendingRows_spec h hp
    refine { h with token_eq := ?_, returned_behind := fun r hr => ?_ }
    · rw [show ({ s with token := batch.nextOffset, returned := _ } : CaptureState V).token =
        batch.nextOffset from rfl, htoken]
      cases hl : (rows.take n).getLast? with
      | none => simpa using h.token_eq
      | some last =>
        obtain ⟨hsrc, -⟩ := (hmem last).mp (List.mem_of_mem_take (List.mem_of_getLast? hl))
        obtain ⟨hlo, high, hhigh, hle⟩ := h.rows_bound last hsrc
        exact .inr ⟨last.startLsn, rfl, hlo, high, hhigh, hle⟩
    · change r ∈ s.returned ++ _ at hr
      change Behind batch.nextOffset r
      rw [htoken, behind_next h hp]
      rw [hret] at hr
      rcases List.mem_append.mp hr with hr | hr
      · exact .inl (h.returned_behind r hr)
      · have hr := (List.mem_filter.mp hr).1
        have hne : rows.take n ≠ [] := List.ne_nil_of_mem hr
        refine .inr ⟨_, List.getLast?_eq_some_getLast hne, ?_⟩
        exact le_last (hsorted.sublist (List.take_sublist ..)) (List.getLast?_eq_some_getLast hne) hr

/-- STEP: a read keeps the run lossless exactly when its cap cuts no transaction. -/
theorem lossless_step {l : CaptureStep V} {s' : CaptureState V} (h : Inv low s)
    (hI : Lossless cfg s) (hs : CaptureStep.step cfg s l s') :
    Lossless cfg s' ↔ WholeTransactions cfg s l := by
  cases l with
  | readFailed => rw [show s' = s from hs]; exact iff_of_true hI trivial
  | capture lsn new =>
    obtain ⟨hnew, -, hlsn, hrows, -, rfl⟩ := hs
    refine iff_of_true (fun r hr hrep hb => ?_) trivial
    rcases List.mem_append.mp hr with hr | hr
    · exact hI r hr hrep hb
    · -- a new transaction is past every token there can be
      obtain ⟨t, ht, htl, hle⟩ := hb
      rcases h.token_eq with ht' | ⟨t', ht', -, high, hhigh, hle'⟩
      · rw [show s.token = some (lsnText t) from ht] at ht'; cases ht'
      · have hlt' : t' < 16 ^ 20 := hle'.trans_lt (h.max_bound high hhigh)
        rw [show s.token = some (lsnText t) from ht] at ht'
        have heq := lsnText_injective htl hlt' (Option.some.inj ht')
        have := hnew high hhigh
        rw [hrows r hr] at hle; omega
  | read n =>
    obtain ⟨-, batch, hb, rfl⟩ := hs
    obtain ⟨rows, hp, htoken, hret⟩ := readBatch_spec cfg h hb
    obtain ⟨hnodup, hsorted, hmem⟩ := pendingRows_spec h hp
    have hsplit : (rows.take n ++ rows.drop n).Pairwise rowLe := by rwa [List.take_append_drop]
    have hdisj : (rows.take n ++ rows.drop n).Nodup := by rwa [List.take_append_drop]
    have hstate : Lossless cfg { s with
          token := batch.nextOffset, returned := s.returned ++ returnedRows cfg s.source s.token n } ↔
        ∀ r ∈ s.source.rows, (reportedAs cfg r).isSome → (Behind s.token r ∨
          ∃ last ∈ (rows.take n).getLast?, r.startLsn ≤ last.startLsn) →
          r ∈ s.returned ∨ r ∈ rows.take n := by
      simp only [Lossless, htoken, behind_next h hp, hret, List.mem_append, List.mem_filter]
      exact forall₃_congr fun r _ hrep => imp_congr_right fun _ => by simp [hrep]
    rw [hstate]
    constructor
    · intro hall rows' hp' last hlast r hr hrep heq
      rw [hp] at hp'
      cases hp'
      obtain ⟨hsrc, hnb⟩ := (hmem r).mp (List.mem_of_mem_drop hr)
      rcases hall r hsrc hrep (.inr ⟨last, hlast, heq.le⟩) with hret | htake
      · exact hnb (h.returned_behind r hret)
      · exact (List.nodup_append.mp hdisj).2.2 r htake r hr rfl
    · intro hwhole r hr hrep hb
      by_cases hbehind : Behind s.token r
      · exact .inl (hI r hr hrep hbehind)
      · obtain ⟨last, hlast, hle⟩ := hb.resolve_left hbehind
        have hrow : r ∈ rows.take n ++ rows.drop n := by
          rw [List.take_append_drop]; exact (hmem r).mpr ⟨hr, hbehind⟩
        rcases List.mem_append.mp hrow with htake | hdrop
        · exact .inr htake
        · have hge : last.startLsn ≤ r.startLsn := by
            have := (List.pairwise_append.mp hsplit).2.2 last (List.mem_of_getLast? hlast) r hdrop
            unfold rowLe at this; omega
          exact absurd (le_antisymm hle hge) (hwhole rows hp last hlast r hdrop hrep)

/-! ### Exhaustion -/

/-- The LSN a token spells, zero before the first read. -/
def tokenLsn (token : Option Str) : ℕ := (token.bind convertLsn).getD 0

theorem behind_iff_tokenLsn (h : Inv low s) {r : CaptureRow V} (hr : r ∈ s.source.rows) :
    Behind s.token r ↔ r.startLsn ≤ tokenLsn s.token := by
  rcases h.token_eq with ht | ⟨t, ht, -, high, hhigh, hle⟩
  · have := (h.rows_bound r hr).1
    have := h.low_pos
    rw [ht]
    exact iff_of_false (not_behind_none r) (by simp [tokenLsn]; omega)
  · have hlt : t < 16 ^ 20 := hle.trans_lt (h.max_bound high hhigh)
    rw [ht, behind_iff hlt, tokenLsn, Option.bind_some, convertLsn_lsnText hlt]; rfl

/-- While a captured row is past the token, a read returns and moves the token forward. -/
theorem read_progress (h : Inv low s) {r : CaptureRow V} (hr : r ∈ s.source.rows)
    (hb : ¬ Behind s.token r) {n : ℕ} (hn : 0 < n) :
    ∃ s', CaptureStep.step cfg s (.read n) s' ∧ s'.source = s.source ∧
      tokenLsn s.token < tokenLsn s'.token := by
  obtain ⟨start, hstart, hpast⟩ := fromLsn_spec h
  obtain ⟨high, hhigh, hle⟩ := (h.rows_bound r hr).2
  have hrange : ¬ high < start := by have := (hpast r hr).mpr hb; omega
  obtain ⟨rows, hp⟩ : ∃ rows, pendingRows s.source s.token = .ok rows := by
    unfold pendingRows
    rw [hstart, Option.mem_def.mp hhigh]
    exact ⟨_, if_neg hrange⟩
  obtain ⟨-, -, hmem⟩ := pendingRows_spec h hp
  have hrow : r ∈ rows := (hmem r).mpr ⟨hr, hb⟩
  have hne : rows.take n ≠ [] := by
    cases rows with
    | nil => cases hrow
    | cons a l => cases n <;> simp at hn ⊢
  set last := (rows.take n).getLast hne with hlast
  have hl : (rows.take n).getLast? = some last := List.getLast?_eq_some_getLast hne
  obtain ⟨hsrc, hnb⟩ := (hmem last).mp (List.mem_of_mem_take (List.mem_of_getLast? hl))
  obtain ⟨high', hhigh', hle'⟩ := (h.rows_bound last hsrc).2
  have hlt : last.startLsn < 16 ^ 20 := hle'.trans_lt (h.max_bound high' hhigh')
  have hbatch : ∃ batch, readBatch cfg s.source s.token n = .ok batch := by
    unfold readBatch
    rw [if_neg h.columns_ne, hp]
    exact ⟨_, rfl⟩
  obtain ⟨batch, hbatch⟩ := hbatch
  refine ⟨_, ⟨hn, batch, hbatch, rfl⟩, rfl, ?_⟩
  obtain ⟨rows', hp', htoken, -⟩ := readBatch_spec cfg h hbatch
  rw [hp] at hp'
  cases hp'
  have hnext : tokenLsn batch.nextOffset = last.startLsn := by
    rw [htoken, hl, Option.map_some, Option.some_or, tokenLsn, Option.bind_some,
      convertLsn_lsnText hlt]; rfl
  change tokenLsn s.token < tokenLsn batch.nextOffset
  rw [hnext]
  exact not_le.mp ((behind_iff_tokenLsn h hsrc).not.mp hnb)

/-- PROGRESS: reading again and again gets past every captured row. -/
theorem reads_exhaust {n : ℕ} (hn : 0 < n) : ∀ (k : ℕ) {s : CaptureState V}, Inv low s →
    (∀ high ∈ s.source.maxLsn, high ≤ tokenLsn s.token + k) →
    ∃ τ s', Run (CaptureStep.step cfg) s τ s' ∧ (∀ p ∈ τ, p.2 = .read n) ∧
      s'.source = s.source ∧ ∀ r ∈ s.source.rows, Behind s'.token r
  | k, s, h, hk => by
      by_cases hall : ∀ r ∈ s.source.rows, Behind s.token r
      · exact ⟨[], s, .nil, by simp, rfl, hall⟩
      · push Not at hall
        obtain ⟨r, hr, hb⟩ := hall
        obtain ⟨s₁, hstep, hsource, hlt⟩ := read_progress cfg h hr hb hn
        obtain ⟨high, hhigh, hle⟩ := (h.rows_bound r hr).2
        have hpos := not_le.mp ((behind_iff_tokenLsn h hr).not.mp hb)
        have hbound := hk high hhigh
        match k with
        | 0 => omega
        | k + 1 =>
          obtain ⟨τ, s', hrun, hreads, hsrc, hdone⟩ := reads_exhaust hn k (inv_step cfg h hstep)
            fun high hh => by have := hk high (hsource ▸ hh); omega
          refine ⟨(s, .read n) :: τ, s', hrun.cons hstep, ?_, hsrc.trans hsource, ?_⟩
          · intro p hp
            rcases List.mem_cons.mp hp with rfl | hp
            · rfl
            · exact hreads p hp
          · rw [← hsource]; exact hdone

theorem inv_start (i : CaptureStart V) : Inv i.low i.state :=
  { columns_ne := i.columns_ne, low_pos := i.low_pos, min_eq := rfl
    rows_bound := nofun, max_bound := nofun
    nodup := List.nodup_nil, token_eq := .inl rfl, returned_behind := nofun }

/-- CORRECT (exactly when): in a run of captures and reads no reportable row is ever skipped if and
    only if no read's cap falls inside a transaction with reportable rows still to come; and from
    every state reached, reads of any positive size get past everything captured. -/
theorem lossless_iff_whole_transactions (i : CaptureStart V) {τ : List (CaptureState V × CaptureStep V)}
    {s : CaptureState V} (h : Run (CaptureStep.step cfg) i.state τ s) :
    (((∀ p ∈ τ, Lossless cfg p.1) ∧ Lossless cfg s) ↔ ∀ p ∈ τ, WholeTransactions cfg p.1 p.2) ∧
    ∀ n, 0 < n → ∃ τ' s', Run (CaptureStep.step cfg) s τ' s' ∧ (∀ p ∈ τ', p.2 = .read n) ∧
      s'.source = s.source ∧ ∀ r ∈ s.source.rows, Behind s'.token r := by
  have hinv : Inv i.low s := h.invariant (inv_start i) fun hi hs => inv_step cfg hi hs
  refine ⟨h.always_iff (inv_start i) nofun (fun hi hs => inv_step cfg hi hs)
    fun hi hl hs => lossless_step cfg hi hl hs, fun n hn => ?_⟩
  cases hmax : s.source.maxLsn with
  | none => exact reads_exhaust cfg hn 0 hinv fun high hh => by rw [hmax] at hh; cases hh
  | some high =>
    refine reads_exhaust cfg hn high hinv fun high' hh => ?_
    rw [hmax, Option.mem_some_iff] at hh; omega

/-! ### A transaction cut by the cap -/

/-- Two inserts of one transaction. -/
def insertOne : CaptureRow ℕ :=
  { startLsn := 5, seqval := 1, operation := 2, values := [(['k'], some 1)] }

def insertTwo : CaptureRow ℕ :=
  { startLsn := 5, seqval := 2, operation := 2, values := [(['k'], some 2)] }

def oneColumn : CaptureStart ℕ :=
  { columns := [['k']], columns_ne := by decide, low := 1, low_pos := by decide }

def plainConfig : MSSQLTableCDCReaderConfig :=
  { sourceSchema := "dbo".toList, sourceTable := "t".toList, includeUpdateBefore := false }

def captured : CaptureState ℕ :=
  { oneColumn.state with source := { oneColumn.state.source with
      maxLsn := some 5, rows := [insertOne, insertTwo] } }

/-- After a read capped at one row: the token is at the transaction, one insert was returned. -/
def cutState : CaptureState ℕ :=
  { captured with token := some (lsnText 5), returned := [insertOne] }

theorem cut_run : Run (CaptureStep.step plainConfig) oneColumn.state
    [(oneColumn.state, .capture 5 [insertOne, insertTwo]), (captured, .read 1)] cutState := by
  refine .snoc (τ := [_]) (.snoc (τ := []) .nil ?_) ?_
  · exact ⟨by decide, ⟨1, rfl, by decide⟩, by norm_num, by decide, by decide, rfl⟩
  · exact ⟨by decide, ⟨_, _, _⟩, rfl, rfl⟩

/-- The history is exhausted, no captured row being past the token, and an insert was never
    returned. -/
theorem capped_read_skips_insert : ∃ τ s,
    Run (CaptureStep.step plainConfig) oneColumn.state τ s ∧
      (∀ r ∈ s.source.rows, Behind s.token r) ∧
      ∃ r ∈ s.source.rows, (reportedAs plainConfig r).isSome ∧ r ∉ s.returned := by
  refine ⟨_, cutState, cut_run, fun r hr => ⟨5, rfl, by norm_num, ?_⟩, insertTwo, ?_⟩
  · have : ∀ r ∈ cutState.source.rows, r.startLsn ≤ 5 := by decide
    exact this r hr
  · decide

theorem lossless_iff_on_cut_run :
    ((∀ p ∈ [(oneColumn.state, CaptureStep.capture 5 [insertOne, insertTwo]), (captured, .read 1)],
        Lossless plainConfig p.1) ∧ Lossless plainConfig cutState) ↔
      ∀ p ∈ [(oneColumn.state, CaptureStep.capture 5 [insertOne, insertTwo]), (captured, .read 1)],
        WholeTransactions plainConfig p.1 p.2 :=
  (lossless_iff_whole_transactions plainConfig oneColumn cut_run).1

end Dpone.Cdc
