import Dpone.Schemes.NumberText
import Dpone.Schemes.Records

/-! The retention-gap policy: whether a committed CDC offset is still inside of the retained log.

    Tokens are compared as integers. The policy reads those of SQL Server, hexadecimal LSNs and
    decimal versions; it reads those of PostgreSQL, `XXX/XXX`, with `int` as well, which raises. -/

namespace Dpone.Cdc.Retention
open Dpone.Schemes

/-! ### Integers in base sixteen -/

section Hex
variable (u : Unicode)

/-- The value of a digit for `int(text, 16)`. -/
def hexDigit (c : Char) : Option ℕ := (digitOf c).orElse fun _ => u.digit c

/-- Digits with single underscores between them, `after` telling whether a digit came last. -/
def hexDigits : Bool → ℕ → Str → Option ℕ
  | after, n, [] => if after then some n else none
  | after, n, c :: cs =>
    if c = '_' then if after then hexDigits false n cs else none
    else (hexDigit u c).bind fun d => hexDigits true (16 * n + d) cs

/-- What follows a prefix `0x`, and an underscore behind it. -/
def afterMarker : Str → Str
  | '0' :: c :: rest =>
    if c = 'x' ∨ c = 'X' then
      match rest with
      | '_' :: rest => rest
      | rest => rest
    else '0' :: c :: rest
  | s => s

/-- `int(text, 16)`. -/
def pyIntHex (s : Str) : Option ℤ :=
  match strip u s with
  | '-' :: t => (hexDigits u false 0 (afterMarker t)).map fun n : ℕ => -(n : ℤ)
  | '+' :: t => (hexDigits u false 0 (afterMarker t)).map fun n : ℕ => (n : ℤ)
  | t => (hexDigits u false 0 (afterMarker t)).map fun n : ℕ => (n : ℤ)

end Hex

/-! ### The policy -/

inductive CDCBackend where
  | postgresLogical | mssqlCdc | mssqlChangeTracking
  deriving DecidableEq, Repr

def CDCBackend.value : CDCBackend → Str
  | postgresLogical => "postgres_logical".toList
  | mssqlCdc => "mssql_cdc".toList
  | mssqlChangeTracking => "mssql_change_tracking".toList

structure CDCOffset where
  backend : CDCBackend
  token : Str
  snapshotComplete : Bool

/-- Source-side retained CDC interval for one stream backend. -/
structure CdcRetentionBounds where
  backend : CDCBackend
  minAvailableOffset : Str
  highWatermark : Str
  currentOffset : Str
  retentionSeconds : Option ℤ

inductive RetentionLevel where
  | healthy | atRisk | gapDetected
  deriving DecidableEq, Repr

inductive MetricValue where
  | none
  | int (n : ℤ)
  | text (s : Str)

structure CdcRetentionDecision where
  level : RetentionLevel
  passed : Bool
  blockers : List String
  warnings : List String
  metrics : List (String × MetricValue)
  nextActions : List String

/-- Default fail-closed retention gap policy. -/
structure CdcRetentionPolicy where
  atRiskMargin : ℤ

/-- The constructor. -/
def CdcRetentionPolicy.make (atRiskMargin : ℤ) : CdcRetentionPolicy := ⟨max 0 atRiskMargin⟩

section Policy
variable (u : Unicode)

/-- `token.lower().startswith("0x")`; no other character than X is lower-cased to x. -/
def hasHexMarker : Str → Bool
  | '0' :: c :: _ => c = 'x' || c = 'X'
  | _ => false

/-- `_offset_value`. -/
def offsetValue (backend : CDCBackend) (value : Str) : Except PyError ℤ :=
  let token := strip u value
  let read :=
    if backend = .mssqlCdc then
      pyIntHex u (if hasHexMarker token then token.drop 2 else token)
    else pyInt u token
  match read with
  | some n => .ok n
  | none => .error (.valueError "invalid literal for int()")

/-- `_offset_margin`. -/
def offsetMargin (backend : CDCBackend) (committed minAvailable : Str) : Except PyError ℤ := do
  return (← offsetValue u backend committed) - (← offsetValue u backend minAvailable)

/-- The metrics that every decision begins with. -/
def CdcRetentionPolicy.metrics (policy : CdcRetentionPolicy) (bounds : CdcRetentionBounds) :
    List (String × MetricValue) :=
  [("backend", .text bounds.backend.value),
    ("at_risk_margin", .int policy.atRiskMargin),
    ("min_available_offset", .text bounds.minAvailableOffset),
    ("high_watermark", .text bounds.highWatermark),
    ("current_offset", .text bounds.currentOffset),
    ("retention_seconds", (bounds.retentionSeconds.map MetricValue.int).getD .none)]

/-- The decision on an offset of the backend, by its margin. -/
def CdcRetentionPolicy.judge (policy : CdcRetentionPolicy) (metrics : List (String × MetricValue))
    (margin : ℤ) : CdcRetentionDecision :=
  if margin < 0 then
    { level := .gapDetected, passed := false
      blockers := ["cdc_retention.offset_before_min_available"], warnings := [], metrics
      nextActions := ["run cdc-resync-plan and cdc-resync-execute before resuming CDC"] }
  else if margin < policy.atRiskMargin then
    { level := .atRisk, passed := true, blockers := []
      warnings := ["cdc_retention.offset_near_min_available"], metrics
      nextActions :=
        ["increase retention or run CDC before cleanup reaches the committed offset"] }
  else
    { level := .healthy, passed := true, blockers := [], warnings := [], metrics
      nextActions := [] }

/-- `decide`. Of the stream it reads the backend. -/
def CdcRetentionPolicy.decide (policy : CdcRetentionPolicy) (streamBackend : CDCBackend)
    (committedOffset : Option CDCOffset) (bounds : CdcRetentionBounds) :
    Except PyError CdcRetentionDecision :=
  let metrics := policy.metrics bounds
  if bounds.backend ≠ streamBackend then
    .ok { level := .gapDetected, passed := false, blockers := ["cdc_retention.backend_mismatch"]
          warnings := [], metrics := metrics ++ [("stream_backend", .text streamBackend.value)]
          nextActions := ["verify stream backend configuration before resync"] }
  else
    match committedOffset with
    | none =>
      .ok { level := .healthy, passed := true, blockers := []
            warnings := ["cdc_retention.no_committed_offset"]
            metrics := metrics ++ [("offset_margin", .none)]
            nextActions := ["start initial snapshot before CDC apply"] }
    | some committed =>
      if committed.backend ≠ bounds.backend then
        .ok { level := .gapDetected, passed := false
              blockers := ["cdc_retention.offset_backend_mismatch"], warnings := []
              metrics := metrics ++ [("committed_backend", .text committed.backend.value),
                ("committed_offset", .text committed.token)]
              nextActions := ["rebuild checkpoint using the configured CDC backend"] }
      else do
        let margin ← offsetMargin u bounds.backend committed.token bounds.minAvailableOffset
        let highWatermarkLag ← offsetMargin u bounds.backend committed.token bounds.highWatermark
        return policy.judge (metrics ++ [("committed_offset", .text committed.token),
          ("offset_margin", .int margin), ("high_watermark_lag", .int |highWatermarkLag|)]) margin

end Policy

/-! ### Positions -/

/-- The place in the log of its backend that a token stands for. An LSN of SQL Server is a binary
    number in hexadecimal digits, a version a decimal number, and an LSN of PostgreSQL the two
    halves of a number of 64 bits. -/
def Position : CDCBackend → Str → ℕ → Prop
  | .mssqlCdc, token, n => ∃ digits, digits ≠ [] ∧ numeralValue 16 digits = some n ∧
      (token = digits ∨ token = '0' :: 'x' :: digits ∨ token = '0' :: 'X' :: digits)
  | .mssqlChangeTracking, token, n => token ≠ [] ∧ numeralValue 10 token = some n
  | .postgresLogical, token, n => ∃ high low h l, token = high ++ '/' :: low ∧
      (1 ≤ high.length ∧ high.length ≤ 8) ∧ (1 ≤ low.length ∧ low.length ≤ 8) ∧
      numeralValue 16 high = some h ∧ numeralValue 16 low = some l ∧ n = h * 2 ^ 32 + l

/-! ### Tokens that are read -/

variable {u : Unicode}

theorem isAlphanum_of_digit {c : Char} {d : ℕ} (h : digitOf c = some d) : c.isAlphanum = true := by
  unfold digitOf at h
  unfold Char.isAlphanum Char.isAlpha Char.isUpper Char.isLower Char.isDigit
  simp only [Bool.or_eq_true, Bool.and_eq_true, decide_eq_true_eq]
  split_ifs at h with h₁ h₂ h₃
  · exact .inr h₁
  · exact .inl (.inr ⟨h₂.1, UInt32.le_trans h₂.2 (by decide : 'f'.val ≤ 'z'.val)⟩)
  · exact .inl (.inl ⟨h₃.1, UInt32.le_trans h₃.2 (by decide : 'F'.val ≤ 'Z'.val)⟩)

/-- A numeral consists of digits. -/
theorem digits_of_value {b : ℕ} : ∀ {s : Str} {n v : ℕ}, numeralValueFrom b n s = some v →
    ∀ c ∈ s, ∃ d < b, digitOf c = some d
  | [], _, _, _, c, hc => absurd hc List.not_mem_nil
  | c :: cs, n, v, h, c', hc' => by
    rw [numeralValueFrom] at h
    obtain ⟨d, hd, h⟩ := Option.bind_eq_some_iff.mp h
    split_ifs at h with hlt
    rcases List.mem_cons.mp hc' with rfl | hc'
    · exact ⟨d, hlt, hd⟩
    · exact digits_of_value h c' hc'

theorem hexDigits_of_value : ∀ {s : Str} {after : Bool} {n v : ℕ},
    numeralValueFrom 16 n s = some v → s ≠ [] ∨ after = true → hexDigits u after n s = some v
  | [], after, n, v, h, hne => by
    rw [hexDigits, if_pos (hne.resolve_left fun hnil => hnil rfl)]
    exact h
  | c :: cs, after, n, v, h, _ => by
    rw [numeralValueFrom] at h
    obtain ⟨d, hd, h⟩ := Option.bind_eq_some_iff.mp h
    split_ifs at h
    have hunderscore : c ≠ '_' := by
      rintro rfl
      cases hd
    have hdigit : hexDigit u c = some d := by rw [hexDigit, hd]; rfl
    rw [hexDigits, if_neg hunderscore, hdigit, Option.bind_some]
    exact hexDigits_of_value h (.inr rfl)

theorem strip_of_alphanum {s : Str} (h : ∀ c ∈ s, c.isAlphanum = true) : strip u s = s :=
  strip_eq_self fun c hc => not_space_of_alphanum (h c hc)

/-- Digits are read as they are, whatever else `int` would take. -/
theorem pyIntHex_of_value {digits : Str} {n : ℕ} (hne : digits ≠ [])
    (h : numeralValue 16 digits = some n) : pyIntHex u digits = some (n : ℤ) := by
  have hdigit := digits_of_value h
  have hread : hexDigits u false 0 digits = some n := hexDigits_of_value h (.inl hne)
  have hstrip : strip u digits = digits := strip_of_alphanum fun c hc => by
    obtain ⟨d, -, hd⟩ := hdigit c hc
    exact isAlphanum_of_digit hd
  have hmarker : afterMarker digits = digits := by
    unfold afterMarker
    split
    · next c rest =>
      obtain ⟨d, -, hd⟩ := hdigit c (by simp)
      rw [if_neg]
      rintro (rfl | rfl) <;> cases hd
    · rfl
  unfold pyIntHex
  rw [hstrip]
  split
  · obtain ⟨d, -, hd⟩ := hdigit '-' (by simp)
    cases hd
  · obtain ⟨d, -, hd⟩ := hdigit '+' (by simp)
    cases hd
  · rw [hmarker, hread]
    rfl

theorem hasHexMarker_of_digits {digits : Str} {n : ℕ} (h : numeralValue 16 digits = some n) :
    hasHexMarker digits = false := by
  unfold hasHexMarker
  split
  · next c rest =>
    obtain ⟨d, -, hd⟩ := digits_of_value h c (by simp)
    have hne : c ≠ 'x' ∧ c ≠ 'X' := by constructor <;> rintro rfl <;> cases hd
    simp [hne.1, hne.2]
  · rfl

theorem digitChar_of_digitOf {c : Char} {d : ℕ} (h : digitOf c = some d) (hd : d < 10) :
    c = digitChar d := by
  have hvalue : c.toNat = 48 + d := by
    unfold digitOf at h
    split_ifs at h with h₁ h₂ h₃
    · have hlo : 48 ≤ c.toNat := UInt32.le_iff_toNat_le.mp h₁.1
      have heq := Option.some.inj h
      omega
    · have hlo : 97 ≤ c.toNat := UInt32.le_iff_toNat_le.mp h₂.1
      have heq := Option.some.inj h
      omega
    · have hlo : 65 ≤ c.toNat := UInt32.le_iff_toNat_le.mp h₃.1
      have heq := Option.some.inj h
      omega
  rw [← Char.ofNat_toNat c, hvalue]
  have hall : ∀ d < 10, Char.ofNat (48 + d) = digitChar d := by decide
  exact hall d hd

theorem pyInt_of_value {token : Str} {n : ℕ} (hne : token ≠ [])
    (h : numeralValue 10 token = some n) : pyInt u token = some (n : ℤ) := by
  have hdigit := digits_of_value h
  have hread : intDigits u false 0 token = some n := by
    rw [intDigits_numeral u token false 0 (fun c hc => ?_) (.inl hne)]
    · exact h
    · obtain ⟨d, hd, hc⟩ := hdigit c hc
      exact ⟨d, hd, digitChar_of_digitOf hc hd⟩
  have hstrip : strip u token = token := strip_of_alphanum fun c hc => by
    obtain ⟨d, -, hd⟩ := hdigit c hc
    exact isAlphanum_of_digit hd
  unfold pyInt
  rw [hstrip]
  split
  · obtain ⟨d, -, hd⟩ := hdigit '-' (by simp)
    cases hd
  · obtain ⟨d, -, hd⟩ := hdigit '+' (by simp)
    cases hd
  · rw [hread]
    rfl

/-- CORRECT: a token of SQL Server is read as its position. -/
theorem offsetValue_mssql {backend : CDCBackend} {token : Str} {n : ℕ}
    (hbackend : backend ≠ .postgresLogical) (h : Position backend token n) :
    offsetValue u backend token = .ok (n : ℤ) := by
  cases backend with
  | postgresLogical => exact absurd rfl hbackend
  | mssqlChangeTracking =>
    obtain ⟨hne, hvalue⟩ := h
    have hstrip : strip u token = token := strip_of_alphanum fun c hc => by
      obtain ⟨d, -, hd⟩ := digits_of_value hvalue c hc
      exact isAlphanum_of_digit hd
    simp only [offsetValue, hstrip, reduceCtorEq, if_false, pyInt_of_value hne hvalue]
  | mssqlCdc =>
    obtain ⟨digits, hne, hvalue, htoken⟩ := h
    have hdigits : ∀ c ∈ digits, c.isAlphanum = true := fun c hc => by
      obtain ⟨d, -, hd⟩ := digits_of_value hvalue c hc
      exact isAlphanum_of_digit hd
    have hstrip : strip u token = token := by
      refine strip_of_alphanum ?_
      rcases htoken with rfl | rfl | rfl
      · exact hdigits
      · exact List.forall_mem_cons.mpr ⟨by decide, List.forall_mem_cons.mpr ⟨by decide, hdigits⟩⟩
      · exact List.forall_mem_cons.mpr ⟨by decide, List.forall_mem_cons.mpr ⟨by decide, hdigits⟩⟩
    have hread : (if hasHexMarker token then token.drop 2 else token) = digits := by
      rcases htoken with rfl | rfl | rfl
      · rw [hasHexMarker_of_digits hvalue]
        rfl
      · rfl
      · rfl
    simp only [offsetValue, hstrip, if_true, hread, pyIntHex_of_value hne hvalue]

/-! ### Tokens that are not -/

theorem intDigits_slash (hslash : u.digit '/' = none) : ∀ {s : Str} (after : Bool) (n : ℕ),
    '/' ∈ s → intDigits u after n s = none
  | [], _, _, h => absurd h List.not_mem_nil
  | c :: cs, after, n, h => by
    rw [intDigits]
    rcases List.mem_cons.mp h with rfl | h
    · rw [if_neg (by decide), hslash]
      rfl
    · split_ifs
      · exact intDigits_slash hslash false n h
      · rfl
      · cases u.digit c with
        | none => rfl
        | some d => exact intDigits_slash hslash true _ h

theorem pyInt_slash (hslash : u.digit '/' = none) {s : Str} (h : '/' ∈ strip u s) :
    pyInt u s = none := by
  unfold pyInt
  split
  · next t ht =>
    rw [ht] at h
    rw [intDigits_slash hslash false 0 (by simpa using h)]
    rfl
  · next t ht =>
    rw [ht] at h
    rw [intDigits_slash hslash false 0 (by simpa using h)]
    rfl
  · rw [intDigits_slash hslash false 0 h]
    rfl

/-- An LSN of PostgreSQL is no integer. -/
theorem offsetValue_postgres (hslash : u.digit '/' = none) {token : Str} {n : ℕ}
    (h : Position .postgresLogical token n) :
    ∃ e, offsetValue u .postgresLogical token = .error e := by
  obtain ⟨high, low, vh, vl, rfl, ⟨hhigh, -⟩, ⟨hlow, -⟩, hh, hl, -⟩ := h
  have hdigit : ∀ {s : Str} {v : ℕ} {c : Char}, numeralValue 16 s = some v → c ∈ s →
      ¬ u.isSpace c := by
    intro s v c hs hc
    obtain ⟨d, -, hd⟩ := digits_of_value hs c hc
    exact not_space_of_alphanum (isAlphanum_of_digit hd)
  obtain ⟨c, high, rfl⟩ := List.exists_cons_of_length_pos hhigh
  obtain rfl | ⟨low, d, rfl⟩ := List.eq_nil_or_concat low
  · simp at hlow
  rw [List.concat_eq_append] at hl ⊢
  have hstrip : strip u (c :: high ++ '/' :: (low ++ [d])) = c :: high ++ '/' :: (low ++ [d]) :=
    strip_of_ends rfl (hdigit hh (List.mem_cons_self ..))
      ⟨c :: high ++ '/' :: low, by simp⟩
      (hdigit hl (List.mem_append_right low (List.mem_singleton_self d)))
  have hread : pyInt u (strip u (c :: high ++ '/' :: (low ++ [d]))) = none := by
    refine pyInt_slash hslash ?_
    rw [hstrip, hstrip]
    simp
  exact ⟨_, by rw [offsetValue, if_neg (by decide), hread]⟩

/-! ### The decision -/

/-- The decision on tokens that are read is that of their difference. -/
theorem decide_of_values {policy : CdcRetentionPolicy} {backend : CDCBackend}
    {committed : CDCOffset} {bounds : CdcRetentionBounds} {c m h : ℤ}
    (hbounds : bounds.backend = backend) (hoffset : committed.backend = backend)
    (hc : offsetValue u backend committed.token = .ok c)
    (hm : offsetValue u backend bounds.minAvailableOffset = .ok m)
    (hh : offsetValue u backend bounds.highWatermark = .ok h) :
    ∃ metrics,
      policy.decide u backend (some committed) bounds = .ok (policy.judge metrics (c - m)) := by
  subst hbounds
  refine ⟨policy.metrics bounds ++ [("committed_offset", .text committed.token),
    ("offset_margin", .int (c - m)), ("high_watermark_lag", .int |c - h|)], ?_⟩
  simp only [CdcRetentionPolicy.decide, offsetMargin, hoffset, hc, hm, hh, ok_bind, ne_eq,
    not_true_eq_false, if_false]
  rfl

theorem judge_gap_iff {policy : CdcRetentionPolicy} {metrics : List (String × MetricValue)}
    {margin : ℤ} : (policy.judge metrics margin).level = .gapDetected ↔ margin < 0 := by
  unfold CdcRetentionPolicy.judge
  split_ifs with hgap hrisk
  · exact iff_of_true rfl hgap
  · exact iff_of_false (by simp) hgap
  · exact iff_of_false (by simp) hgap

/-- CORRECT: a decision is returned, and tells a gap exactly when the committed position comes
    before the minimum, for the backends of SQL Server and for them only. -/
theorem decides_gap_iff (hslash : u.digit '/' = none) (policy : CdcRetentionPolicy)
    {committed : CDCOffset} {bounds : CdcRetentionBounds} {c m h : ℕ}
    (hoffset : committed.backend = bounds.backend)
    (hc : Position bounds.backend committed.token c)
    (hm : Position bounds.backend bounds.minAvailableOffset m)
    (hh : Position bounds.backend bounds.highWatermark h) :
    (∃ decision, policy.decide u bounds.backend (some committed) bounds = .ok decision ∧
      (decision.level = .gapDetected ↔ c < m)) ↔ bounds.backend ≠ .postgresLogical := by
  constructor
  · rintro ⟨decision, hdecision, -⟩ hpostgres
    rw [hpostgres] at hc
    obtain ⟨e, he⟩ := offsetValue_postgres hslash hc
    have hmargin : offsetMargin u bounds.backend committed.token bounds.minAvailableOffset =
        .error e := by
      rw [hpostgres, offsetMargin, he]
      rfl
    simp only [CdcRetentionPolicy.decide, hoffset, hmargin, ne_eq, not_true_eq_false,
      if_false] at hdecision
    cases hdecision
  · intro hbackend
    obtain ⟨metrics, hdecide⟩ := @decide_of_values u policy _ _ _ _ _ _ rfl hoffset
      (offsetValue_mssql hbackend hc) (offsetValue_mssql hbackend hm)
      (offsetValue_mssql hbackend hh)
    refine ⟨_, hdecide, judge_gap_iff.trans ?_⟩
    omega

/-- A committed LSN of SQL Server one below the minimum is told as a gap. -/
def mssqlBounds : CdcRetentionBounds :=
  ⟨.mssqlCdc, "0x0000000000000000000A".toList, "0x0000000000000000000f".toList,
    "0x0000000000000000000f".toList, none⟩

theorem decides_gap_iff_on_mssql : ∃ decision, (CdcRetentionPolicy.make 2).decide Unicode.ascii
    .mssqlCdc (some ⟨.mssqlCdc, "0x00000000000000000009".toList, true⟩) mssqlBounds = .ok decision ∧
      (decision.level = .gapDetected ↔ 9 < 10) := by
  have hlsn : ∀ (digits : Str) (n : ℕ), digits ≠ [] → numeralValue 16 digits = some n →
      Position .mssqlCdc ('0' :: 'x' :: digits) n :=
    fun digits n hne hvalue => ⟨digits, hne, hvalue, .inr (.inl rfl)⟩
  exact (@decides_gap_iff Unicode.ascii (by decide) (CdcRetentionPolicy.make 2)
    ⟨.mssqlCdc, "0x00000000000000000009".toList, true⟩ mssqlBounds 9 10 15 rfl
    (hlsn "00000000000000000009".toList 9 (by decide) (by decide))
    (hlsn "0000000000000000000A".toList 10 (by decide) (by decide))
    (hlsn "0000000000000000000f".toList 15 (by decide) (by decide))).mpr (by decide)

/-- A PostgreSQL LSN that comes before the minimum raises. -/
theorem postgres_decision_raises :
    Position .postgresLogical "0/9".toList 9 ∧ Position .postgresLogical "0/A".toList 10 ∧
      Position .postgresLogical "0/F".toList 15 ∧
      (CdcRetentionPolicy.make 2).decide Unicode.ascii .postgresLogical
        (some ⟨.postgresLogical, "0/9".toList, true⟩)
        ⟨.postgresLogical, "0/A".toList, "0/F".toList, "0/F".toList, none⟩ =
      .error (.valueError "invalid literal for int()") := by
  have hlsn : ∀ (c : Char) (n : ℕ), numeralValue 16 [c] = some n →
      Position .postgresLogical ['0', '/', c] n :=
    fun c n h => ⟨['0'], [c], 0, n, rfl, by decide, by simp, by decide, h, by omega⟩
  exact ⟨hlsn '9' 9 (by decide), hlsn 'A' 10 (by decide), hlsn 'F' 15 (by decide), rfl⟩

end Dpone.Cdc.Retention
