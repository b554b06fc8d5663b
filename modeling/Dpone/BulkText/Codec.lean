import Dpone.Schemes.Replace
import Dpone.Schemes.Python

/-! The reversible text encoding of native bulk character files.

    `encode` replaces one control character after the other by a marker and a letter, the marker
    first; `decode` undoes the replacements one after the other, the marker last, and the empty text
    has a marker of its own. LOSSLESS: every text is read back, its encoding is not empty, and no
    character that frames a bulk file survives in it. A text is a list over an alphabet, so that
    Python's texts, whose code points may be surrogates, and well-formed texts share one codec. -/

namespace Dpone.BulkText
open Dpone.Schemes

/-- Characters a text is made of. -/
class Alphabet (α : Type) where
  ofChar : Char → α
  ofChar_injective : Function.Injective ofChar

export Alphabet (ofChar)

instance : Alphabet Char := ⟨id, fun _ _ h => h⟩

/-- A code point of a Python text, surrogates included. -/
abbrev CodePoint := Fin 0x110000

instance : Alphabet CodePoint where
  ofChar c := ⟨c.toNat, toNat_lt c⟩
  ofChar_injective _ _ h := Char.ext (UInt32.toNat.inj (Fin.mk.inj h))

section
variable {α : Type} [Alphabet α]

def text (s : String) : List α := s.toList.map ofChar

def defaultMarkerPrefix : Char := '\x1d'

/-- `_CONTROL_CODES`, in its order. -/
def controlCodes : List (Char × Char) :=
  [(defaultMarkerPrefix, 'P'), ('\t', 'T'), ('\r', 'R'), ('\n', 'N'), ('\x1f', 'U'), ('\x1e', 'S')]

variable (α) in
structure BulkTextCodec where
  markerPrefix : List α
  emptyStringMarker : List α
  fieldTerminator : List α
  rowTerminator : List α

namespace BulkTextCodec

/-- The codec with the defaults of its fields. -/
def default : BulkTextCodec α where
  markerPrefix := [ofChar defaultMarkerPrefix]
  emptyStringMarker := [ofChar defaultMarkerPrefix, ofChar 'E']
  fieldTerminator := [ofChar '\t']
  rowTerminator := [ofChar '\n']

def orderedReplacements : List (α × α) := controlCodes.map fun e => (ofChar e.1, ofChar e.2)

variable [DecidableEq α] (codec : BulkTextCodec α)

def decodeReplacements : List (α × α) :=
  (orderedReplacements.filter fun item => [item.1] ≠ codec.markerPrefix) ++
    orderedReplacements.filter fun item => [item.1] = codec.markerPrefix

def encode (value : List α) : List α :=
  if value = [] then codec.emptyStringMarker
  else orderedReplacements.foldl (fun encoded item =>
    replaceAll [item.1] (codec.markerPrefix ++ [item.2]) encoded) value

def assertFileSafe (encodedValue : List α) : Except PyError Unit := do
  raiseIf (codec.fieldTerminator ≠ [] ∧ codec.fieldTerminator <:+: encodedValue) <|
    .valueError "Encoded bcp value still contains the configured field terminator"
  raiseIf (codec.rowTerminator ≠ [] ∧ codec.rowTerminator <:+: encodedValue) <|
    .valueError "Encoded bcp value still contains the configured row terminator"

def decode (encodedValue : List α) : List α :=
  if encodedValue = codec.emptyStringMarker then []
  else codec.decodeReplacements.foldl (fun decoded item =>
    replaceAll (codec.markerPrefix ++ [item.2]) [item.1] decoded) encodedValue

end BulkTextCodec

/-! ### The default codec -/

theorem ofChar_eq {c d : Char} : (ofChar c : α) = ofChar d ↔ c = d :=
  Alphabet.ofChar_injective.eq_iff

theorem ofChar_ne {c d : Char} (h : c ≠ d) : (ofChar c : α) ≠ ofChar d := fun he =>
  h (ofChar_eq.mp he)

variable (α) in
/-- The marker of the default codec. -/
abbrev marker : α := ofChar defaultMarkerPrefix

variable (α) in
/-- The codes of the characters other than the marker. -/
def frameCodes : List (α × α) := controlCodes.tail.map fun e => (ofChar e.1, ofChar e.2)

variable (α) in
abbrev markerCode : α × α := (marker α, ofChar 'P')

theorem orderedReplacements_eq :
    BulkTextCodec.orderedReplacements = markerCode α :: frameCodes α := rfl

variable [DecidableEq α]

theorem decodeReplacements_default :
    (BulkTextCodec.default (α := α)).decodeReplacements = frameCodes α ++ [markerCode α] := by
  simp [BulkTextCodec.decodeReplacements, BulkTextCodec.default, orderedReplacements_eq, frameCodes,
    controlCodes, ofChar_eq, defaultMarkerPrefix]

/-! ### Round trip -/

omit [DecidableEq α] in
theorem frameCodes_pairwise : (frameCodes α ++ [markerCode α]).Pairwise
    (fun d e => e.1 ≠ d.1 ∧ e.2 ≠ d.2) := by
  simp [frameCodes, controlCodes, ofChar_eq, defaultMarkerPrefix]

theorem encode_eq {value : List α} (h : value ≠ []) : BulkTextCodec.default.encode value =
    value.flatMap (escapeChar (marker α) (frameCodes α ++ [markerCode α])) := by
  have hpair : (markerCode α :: frameCodes α).Pairwise
      (fun d e => e.1 ≠ marker α ∧ e.1 ≠ d.2) := by
    simp [frameCodes, controlCodes, ofChar_eq, defaultMarkerPrefix]
  have hsame : ∀ e, e ∈ markerCode α :: frameCodes α ↔ e ∈ frameCodes α ++ [markerCode α] := by
    intro e
    rw [List.mem_cons, List.mem_append, List.mem_singleton, or_comm]
  rw [BulkTextCodec.encode, if_neg h, orderedReplacements_eq,
    ← escapeChar_congr hsame (frameCodes_pairwise.imp And.left)]
  exact escapeAll_eq value hpair

/-- What stands in an image: the marker, a code, or a character the table does not have. -/
theorem mem_escapeChar {x y : α}
    (h : x ∈ escapeChar (marker α) (frameCodes α ++ [markerCode α]) y) :
    x = marker α ∨ (∃ c ∈ ['P', 'T', 'R', 'N', 'U', 'S'], x = ofChar c) ∨
      ∀ e ∈ controlCodes, x ≠ ofChar e.1 := by
  rcases escapeChar_cases (marker α) y (frameCodes α ++ [markerCode α]) with ⟨heq, hnot⟩ | ⟨e, he, -, heq⟩
  · rw [heq, List.mem_singleton] at h
    subst h
    refine .inr (.inr fun e he => ?_)
    have hmem : (ofChar e.1, ofChar e.2) ∈ frameCodes α ++ [markerCode α] := by
      simp only [controlCodes, List.mem_cons, List.not_mem_nil, or_false] at he
      rcases he with rfl | rfl | rfl | rfl | rfl | rfl <;> simp [frameCodes, controlCodes]
    exact hnot _ hmem
  · rw [heq, List.mem_cons, List.mem_singleton] at h
    rcases h with rfl | rfl
    · exact .inl rfl
    · refine .inr (.inl ?_)
      simp only [frameCodes, controlCodes, List.tail_cons, List.map_cons, List.map_nil,
        List.cons_append, List.nil_append, List.mem_cons, List.not_mem_nil, or_false] at he
      rcases he with rfl | rfl | rfl | rfl | rfl | rfl <;> simp

/-- A control character of a frame: a separator, a terminator or the quote of the producer. -/
def frameControls : List Char := ['\t', '\r', '\n', '\x1e', '\x1f']

theorem encode_plain (value : List α) {c : Char} (hc : c ∈ frameControls) :
    ofChar c ∉ BulkTextCodec.default.encode value := by
  have hcontrol : c ∈ controlCodes.map Prod.fst ∧ c ≠ defaultMarkerPrefix ∧ c ≠ 'E' ∧
      c ∉ ['P', 'T', 'R', 'N', 'U', 'S'] := by
    simp only [frameControls, List.mem_cons, List.not_mem_nil, or_false] at hc
    rcases hc with rfl | rfl | rfl | rfl | rfl <;> decide
  obtain ⟨hkey, hmarker, hempty, hcode⟩ := hcontrol
  intro hmem
  by_cases h : value = []
  · rw [h, BulkTextCodec.encode, if_pos rfl] at hmem
    simp only [BulkTextCodec.default, List.mem_cons, List.not_mem_nil, or_false, ofChar_eq] at hmem
    exact hmem.elim hmarker hempty
  · rw [encode_eq h, List.mem_flatMap] at hmem
    obtain ⟨y, -, hy⟩ := hmem
    rcases mem_escapeChar hy with heq | ⟨d, hd, heq⟩ | hnot
    · exact hmarker (ofChar_eq.mp heq)
    · exact hcode (ofChar_eq.mp heq ▸ hd)
    · obtain ⟨e, he, rfl⟩ := List.mem_map.mp hkey
      exact hnot e he rfl

theorem encode_ne_nil (value : List α) : BulkTextCodec.default.encode value ≠ [] := by
  intro hnil
  by_cases h : value = []
  · rw [h, BulkTextCodec.encode, if_pos rfl] at hnil
    exact List.cons_ne_nil _ _ hnil
  · rw [encode_eq h] at hnil
    cases value with
    | nil => exact h rfl
    | cons y value =>
      have hhead := (List.append_eq_nil_iff.mp hnil).1
      rcases escapeChar_cases (marker α) y (frameCodes α ++ [markerCode α]) with
        ⟨heq, -⟩ | ⟨e, -, -, heq⟩ <;> rw [heq] at hhead <;> exact List.cons_ne_nil _ _ hhead

/-- No text but the empty one is written as the marker of the empty text. -/
theorem encode_ne_empty {value : List α} (h : value ≠ []) :
    BulkTextCodec.default.encode value ≠ (BulkTextCodec.default (α := α)).emptyStringMarker := by
  rw [encode_eq h]
  cases value with
  | nil => exact absurd rfl h
  | cons y value =>
    intro hcon
    rw [List.flatMap_cons] at hcon
    rcases escapeChar_cases (marker α) y (frameCodes α ++ [markerCode α]) with
      ⟨heq, hnot⟩ | ⟨e, he, -, heq⟩
    · rw [heq] at hcon
      exact hnot _ (List.mem_append_right _ (List.mem_singleton_self _)) (List.cons.inj hcon).1
    · rw [heq] at hcon
      have hcode : e.2 = ofChar 'E' := (List.cons.inj (List.cons.inj hcon).2).1
      simp only [frameCodes, controlCodes, List.tail_cons, List.map_cons, List.map_nil,
        List.cons_append, List.nil_append, List.mem_cons, List.not_mem_nil, or_false] at he
      rcases he with rfl | rfl | rfl | rfl | rfl | rfl <;>
        exact ofChar_ne (by decide) hcode

theorem decode_encode (value : List α) :
    BulkTextCodec.default.decode (BulkTextCodec.default.encode value) = value := by
  by_cases h : value = []
  · rw [h, BulkTextCodec.encode, if_pos rfl, BulkTextCodec.decode, if_pos rfl]
  · have hcodes : ∀ d ∈ frameCodes α ++ [markerCode α], d.2 ≠ marker α := by
      simp [frameCodes, controlCodes, ofChar_eq, defaultMarkerPrefix]
    rw [BulkTextCodec.decode, if_neg (encode_ne_empty h), decodeReplacements_default, encode_eq h]
    exact unescapeAll_escapeChar rfl value hcodes frameCodes_pairwise

/-- A text without the marker is decoded to itself. -/
theorem decode_unmarked {value : List α} (h : marker α ∉ value) :
    BulkTextCodec.default.decode value = value := by
  have hne : value ≠ (BulkTextCodec.default (α := α)).emptyStringMarker := by
    rintro rfl
    exact h (List.mem_cons_self ..)
  rw [BulkTextCodec.decode, if_neg hne]
  exact unescapeAll_of_not_mem h _

/-- What makes an encoded text safe in a delimited file. -/
structure FileSafe (codec : BulkTextCodec α) (encoded : List α) : Prop where
  nonempty : encoded ≠ []
  plain : ∀ c ∈ frameControls, ofChar c ∉ encoded
  no_field : ¬ codec.fieldTerminator <:+: encoded
  no_row : ¬ codec.rowTerminator <:+: encoded
  asserted : codec.assertFileSafe encoded = .ok ()

theorem encode_safe (value : List α) :
    FileSafe BulkTextCodec.default (BulkTextCodec.default.encode value) := by
  have hplain : ∀ c ∈ frameControls, ofChar c ∉ BulkTextCodec.default.encode value :=
    fun _ hc => encode_plain value hc
  have hfield : ¬ BulkTextCodec.default.fieldTerminator <:+: BulkTextCodec.default.encode value :=
    fun h => hplain '\t' (by decide) ((List.singleton_infix_iff _ _).mp h)
  have hrow : ¬ BulkTextCodec.default.rowTerminator <:+: BulkTextCodec.default.encode value :=
    fun h => hplain '\n' (by decide) ((List.singleton_infix_iff _ _).mp h)
  refine ⟨encode_ne_nil value, hplain, hfield, hrow, ?_⟩
  unfold BulkTextCodec.assertFileSafe
  rw [raiseIf_neg (not_and_of_not_right _ hfield), raiseIf_neg (not_and_of_not_right _ hrow)]
  rfl

/-- LOSSLESS: the default codec reads back every text of code points, surrogates included; the
    encoding of a text is not empty, holds no character of a frame, and belongs to that text. -/
theorem bulk_text_lossless :
    (∀ value : List CodePoint,
      BulkTextCodec.default.decode (BulkTextCodec.default.encode value) = value ∧
        FileSafe BulkTextCodec.default (BulkTextCodec.default.encode value)) ∧
      Function.Injective (BulkTextCodec.default (α := CodePoint)).encode :=
  ⟨fun value => ⟨decode_encode value, encode_safe value⟩,
    Function.LeftInverse.injective decode_encode⟩

end

end Dpone.BulkText
