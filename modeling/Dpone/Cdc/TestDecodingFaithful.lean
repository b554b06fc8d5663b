import Dpone.Cdc.TestDecodingTuples

/-! What it takes to parse a `test_decoding` message faithfully.

    A message is parsed to the row it was printed from when it is legible: the parser finds its own
    table, the message is one line, the separator of the new tuple occurs where the plugin puts it,
    and both tuples survive their printing. A message that is not legible is not recovered, except
    where the parser reads a value out of a type's name. -/

namespace Dpone.Cdc.TestDecoding
open Dpone.Schemes

/-! ### What a message tells -/

def RowImages.operation : RowImages → CDCOperation
  | .insert _ => .insert
  | .update .. => .update
  | .delete _ => .delete

/-- The tuple that a message is about, as far as it is printed. -/
def RowImages.shown : RowImages → Option Tuple
  | .insert new => new
  | .update _ new => new
  | .delete old => old.map withoutNulls

/-- The old tuple of an update, as far as it is printed. -/
def RowImages.before : RowImages → Option Tuple
  | .update old _ => old.map withoutNulls
  | _ => none

/-- A tuple that is missing has no columns. -/
def RowImages.subject (images : RowImages) : Tuple := images.shown.getD []

structure RowMessage.WellFormed (row : RowMessage) : Prop where
  subject : WellFormedTuple row.images.subject
  before : ∀ old ∈ row.images.before, WellFormedTuple old

/-- A decoded change recovers a row. -/
structure RecoversRow (c : CDCChange PgValue) (row : RowMessage) : Prop where
  operation : c.operation = row.images.operation
  schema : c.sourceSchema = row.schema
  table : c.sourceTable = row.table
  data : RecoversTuple c.data row.images.subject
  before : match c.before, row.images.before with
    | none, none => True
    | some before, some old => RecoversTuple before old
    | _, _ => False

/-- The parser of a row's table recovers the row from its message. -/
def Recovers (u : Unicode) (reserved : Str → Bool) (lsn : Str) (xid : Option Str)
    (row : RowMessage) : Prop :=
  ∃ c, parse u ⟨row.schema, row.table⟩ lsn xid (row.text reserved) = .ok (some c) ∧
    RecoversRow c row

/-- No type in a message continues after a closing bracket with a colon. -/
def RowMessage.Unmixed (row : RowMessage) : Prop :=
  UnmixedTuple row.images.subject ∧ ∀ old ∈ row.images.before, UnmixedTuple old

/-- A message that survives its printing. -/
structure RowMessage.Legible (u : Unicode) (reserved : Str → Bool) (row : RowMessage) : Prop where
  schema : '.' ∉ row.schema
  table : ':' ∉ row.table
  line : '\n' ∉ row.images.text reserved
  subject : LegibleTuple u row.images.subject
  before : ∀ old ∈ row.images.before,
    LegibleTuple u old ∧ ¬ newTupleWord <:+: printTuple reserved old

variable {u : Unicode} {reserved : Str → Bool}

/-! ### The parts of a message -/

/-- The name of an operation, with its colon. -/
def operationWord : CDCOperation → Str
  | .insert => insertWord
  | .update => updateWord
  | _ => deleteWord

def printBefore (reserved : Str → Bool) : Option Tuple → Str
  | none => []
  | some old => ' ' :: (oldKeyWord ++ (printTuple reserved old ++ newTupleWord))

/-- What follows the operation. -/
def RowImages.tail (reserved : Str → Bool) (images : RowImages) : Str :=
  printBefore reserved images.before ++ printNew reserved images.shown

theorem text_eq (images : RowImages) :
    images.text reserved = operationWord images.operation ++ images.tail reserved := by
  cases images with
  | insert new =>
    simp only [RowImages.text, RowImages.tail, RowImages.operation, RowImages.before,
      RowImages.shown, operationWord, printBefore, List.nil_append]
  | delete old =>
    simp only [RowImages.text, RowImages.tail, RowImages.operation, RowImages.before,
      RowImages.shown, operationWord, printBefore, List.nil_append]
  | update old new =>
    cases old with
    | none =>
      simp only [RowImages.text, RowImages.tail, RowImages.operation, RowImages.before,
        RowImages.shown, operationWord, printBefore, List.nil_append, Option.map_none]
    | some old =>
      simp only [RowImages.text, RowImages.tail, RowImages.operation, RowImages.before,
        RowImages.shown, operationWord, printBefore, List.append_assoc, List.cons_append,
        Option.map_some]

theorem matchOperation_text (images : RowImages) :
    matchOperation (images.text reserved) = some (images.operation, images.tail reserved) := by
  rw [text_eq]
  cases images <;> rfl

/-- The body of a message: the tail without the blank before it. -/
def bodyOf (s : Str) : Str := (cutPrefix [' '] s).getD s

theorem bodyOf_start (hu : u.AsciiExact) (s : Str) :
    (bodyOf s).dropWhile u.isSpace = s.dropWhile u.isSpace := by
  have hblank : u.isSpace ' ' = true := hu.space ' ' (by decide)
  unfold bodyOf
  cases hcut : cutPrefix [' '] s with
  | none => rfl
  | some t =>
    obtain rfl : s = ' ' :: t := cutPrefix_eq_some.mp hcut
    exact (List.dropWhile_cons_of_pos hblank).symm

theorem mem_bodyOf {s : Str} {c : Char} (hc : c ≠ ' ') : c ∈ bodyOf s ↔ c ∈ s := by
  unfold bodyOf
  cases hcut : cutPrefix [' '] s with
  | none => rfl
  | some t =>
    obtain rfl : s = ' ' :: t := cutPrefix_eq_some.mp hcut
    simp [hc]

/-! ### The end of a message -/

theorem printTuple_closed (hu : u.AsciiExact) : ∀ {tuple : Tuple},
    (∀ entry ∈ tuple, FitsLiteral entry.1.literal entry.2) → tuple ≠ [] →
    Closed u (printTuple reserved tuple)
  | [], _, hne => absurd rfl hne
  | entry :: tuple, hfits, _ => by
    obtain ⟨hfit, hfits⟩ := List.forall_mem_cons.mp hfits
    rw [printTuple_cons]
    by_cases hnil : tuple = []
    · have hlast : Closed u (printDatum entry.1.literal entry.2) := printDatum_last hu hfit
      have hcolumn := hlast.append (' ' :: (quoteIdentifier reserved entry.1.name ++
        '[' :: (entry.1.typeName ++ [']', ':'])))
      rw [hnil]
      simpa [printTuple, printColumn] using hcolumn
    · exact (printTuple_closed hu hfits hnil).append _

theorem word_closed (hu : u.AsciiExact) {s : Str} {c : Char} (hc : c.toNat < 128)
    (h : asciiSpace c = false) : Closed u (s ++ [c]) := ⟨s, c, rfl, space_false hu hc h⟩

theorem printNew_closed (hu : u.AsciiExact) (reserved : Str → Bool) (shown : Option Tuple)
    (h : WellFormedTuple (shown.getD [])) :
    printNew reserved shown = [] ∨ Closed u (printNew reserved shown) := by
  cases shown with
  | none => exact .inr (word_closed (s := " (no-tuple-data".toList) (c := ')') hu (by decide)
      (by decide))
  | some tuple =>
    by_cases hnil : tuple = []
    · exact .inl (by rw [hnil]; rfl)
    · exact .inr (printTuple_closed hu h.fits hnil)

theorem operationWord_closed (hu : u.AsciiExact) (images : RowImages) :
    Closed u (operationWord images.operation) := by
  cases images with
  | insert new => exact word_closed (s := "INSERT".toList) (c := ':') hu (by decide) (by decide)
  | update old new => exact word_closed (s := "UPDATE".toList) (c := ':') hu (by decide) (by decide)
  | delete old => exact word_closed (s := "DELETE".toList) (c := ':') hu (by decide) (by decide)

theorem text_closed (hu : u.AsciiExact) (reserved : Str → Bool) {images : RowImages}
    (h : WellFormedTuple images.subject) : Closed u (images.text reserved) := by
  rw [text_eq]
  rcases printNew_closed hu reserved images.shown h with hnil | hclosed
  · rw [RowImages.tail, hnil, List.append_nil]
    cases hbefore : images.before with
    | none =>
      rw [printBefore, List.append_nil]
      exact operationWord_closed hu images
    | some old =>
      have hword : Closed u newTupleWord :=
        word_closed (s := " new-tuple".toList) (c := ':') hu (by decide) (by decide)
      have hend := hword.append (' ' :: (oldKeyWord ++ printTuple reserved old))
      refine Closed.append ?_ _
      simpa [printBefore] using hend
  · exact (hclosed.append _).append _

/-! ### The header -/

theorem matchBody_eq {s : Str} (h : ∀ t, s ≠ t ++ ['\n']) :
    matchBody s = if '\n' ∈ s then none else some (bodyOf s) := by
  have hmem : '\n' ∈ bodyOf s ↔ '\n' ∈ s := mem_bodyOf (by decide)
  change (if (bodyOf s).dropWhile (· ≠ '\n') ∈ [[], ['\n']] then
    some ((bodyOf s).takeWhile (· ≠ '\n')) else none) = _
  by_cases hline : '\n' ∈ s
  · rw [if_pos hline, if_neg]
    rw [← hmem] at hline
    intro hcut
    simp only [List.mem_cons, List.not_mem_nil, or_false] at hcut
    have hjoin := List.takeWhile_append_dropWhile (p := (· ≠ '\n')) (l := bodyOf s)
    rcases hcut with hcut | hcut
    · have hplain := List.dropWhile_eq_nil_iff.mp hcut '\n' hline
      simp at hplain
    · rw [hcut] at hjoin
      unfold bodyOf at hjoin
      cases hblank : cutPrefix [' '] s with
      | none =>
        rw [hblank, Option.getD_none] at hjoin
        exact h _ hjoin.symm
      | some t =>
        rw [hblank, Option.getD_some] at hjoin
        refine h (' ' :: t.takeWhile (· ≠ '\n')) ?_
        rw [cutPrefix_eq_some.mp hblank]
        exact congrArg (' ' :: ·) hjoin.symm
  · have hplain : ∀ c ∈ bodyOf s, (decide (c ≠ '\n')) = true := by
      intro c hc
      refine decide_eq_true fun heq => hline ?_
      exact hmem.mp (heq ▸ hc)
    rw [if_neg hline, List.dropWhile_eq_nil_iff.mpr hplain, if_pos (by simp),
      List.takeWhile_eq_self_iff.mpr hplain]

theorem operationWord_line (operation : CDCOperation) : '\n' ∉ operationWord operation := by
  cases operation <;> decide

/-- The pattern, once the words of a header are found. -/
theorem matchMessage_eq {data named named' rest tail : Str} {operation : CDCOperation}
    (htable : cutPrefix "table ".toList data = some named)
    (hpoint : cutPrefix ['.'] (named.dropWhile (· ≠ '.')) = some named')
    (hcolon : cutPrefix ": ".toList (named'.dropWhile (· ≠ ':')) = some rest)
    (hoperation : matchOperation rest = some (operation, tail)) :
    matchMessage data = (matchBody tail).bind fun body =>
      if named.takeWhile (· ≠ '.') = [] ∨ named'.takeWhile (· ≠ ':') = [] then none
      else some ⟨named.takeWhile (· ≠ '.'), named'.takeWhile (· ≠ ':'), operation, body⟩ := by
  simp only [matchMessage, htable, hpoint, hcolon, hoperation, Option.bind_eq_bind,
    Option.bind_some]

/-- What the pattern finds in a message of a legible header. -/
def foundMatch (reserved : Str → Bool) (row : RowMessage) : MessageMatch where
  schema := quoteIdentifier reserved row.schema
  table := quoteIdentifier reserved row.table
  operation := row.images.operation
  body := bodyOf (row.images.tail reserved)

section Header
variable {row : RowMessage}

theorem cut_schema (reserved : Str → Bool) (h : '.' ∉ row.schema) (x : Str) :
    (quoteIdentifier reserved row.schema ++ '.' :: x).takeWhile (· ≠ '.') =
        quoteIdentifier reserved row.schema ∧
      (quoteIdentifier reserved row.schema ++ '.' :: x).dropWhile (· ≠ '.') = '.' :: x := by
  refine taken_run (fun c hc => ?_) (by simp)
  refine decide_eq_true fun heq => h ?_
  exact (mem_quoteIdentifier (by decide)).mp (heq ▸ hc)

theorem cut_table (reserved : Str → Bool) (h : ':' ∉ row.table) (x : Str) :
    (quoteIdentifier reserved row.table ++ ':' :: x).takeWhile (· ≠ ':') =
        quoteIdentifier reserved row.table ∧
      (quoteIdentifier reserved row.table ++ ':' :: x).dropWhile (· ≠ ':') = ':' :: x := by
  refine taken_run (fun c hc => ?_) (by simp)
  refine decide_eq_true fun heq => h ?_
  exact (mem_quoteIdentifier (by decide)).mp (heq ▸ hc)

theorem text_header (row : RowMessage) :
    row.text reserved = "table ".toList ++ (quoteIdentifier reserved row.schema ++
      '.' :: (quoteIdentifier reserved row.table ++ ':' :: ' ' :: row.images.text reserved)) := rfl

/-- CORRECT: a legible header is recognised. -/
theorem matchMessage_text (hu : u.AsciiExact) (reserved : Str → Bool)
    (hformed : WellFormedTuple row.images.subject)
    (hschema : '.' ∉ row.schema) (htable : ':' ∉ row.table) :
    matchMessage (row.text reserved) =
      if '\n' ∈ row.images.text reserved then none else some (foundMatch reserved row) := by
  obtain ⟨htake, hdrop⟩ := cut_schema reserved hschema
    (quoteIdentifier reserved row.table ++ ':' :: ' ' :: row.images.text reserved)
  obtain ⟨htake', hdrop'⟩ := cut_table reserved htable
    (' ' :: row.images.text reserved)
  have hne : quoteIdentifier reserved row.schema ≠ [] ∧
      quoteIdentifier reserved row.table ≠ [] := by
    obtain ⟨c, t, hc, -⟩ := quoteIdentifier_head hu reserved row.schema
    obtain ⟨d, t', hd, -⟩ := quoteIdentifier_head hu reserved row.table
    exact ⟨by rw [hc]; simp, by rw [hd]; simp⟩
  have hend : ∀ t, row.images.tail reserved ≠ t ++ ['\n'] := by
    intro t htail
    obtain ⟨s, c, hs, hc⟩ := text_closed hu reserved hformed
    rw [text_eq, htail, ← List.append_assoc] at hs
    obtain ⟨-, hlast⟩ := List.append_inj' hs rfl
    have hspace : u.isSpace '\n' = true := hu.space '\n' (by decide)
    rw [← (List.cons.inj hlast).1, hspace] at hc
    cases hc
  have hline : '\n' ∈ row.images.text reserved ↔ '\n' ∈ row.images.tail reserved := by
    rw [text_eq, List.mem_append, or_iff_right (operationWord_line _)]
  have hpoint := cutPrefix_append ['.']
    (quoteIdentifier reserved row.table ++ ':' :: ' ' :: row.images.text reserved)
  have hcolon := cutPrefix_append ": ".toList (row.images.text reserved)
  rw [List.singleton_append, ← hdrop] at hpoint
  change cutPrefix ": ".toList (':' :: ' ' :: row.images.text reserved) = _ at hcolon
  rw [← hdrop'] at hcolon
  rw [matchMessage_eq (cutPrefix_eq_some.mpr (text_header row)) hpoint hcolon
    (matchOperation_text row.images), htake, htake', matchBody_eq hend]
  simp only [hline]
  by_cases hnewline : '\n' ∈ row.images.tail reserved
  · rw [if_pos hnewline, if_pos hnewline, Option.bind_none]
  · rw [if_neg hnewline, if_neg hnewline, Option.bind_some, if_neg (by simp [hne])]
    rfl

/-- A message in which the parser finds its own table has a legible header. -/
theorem header_of_match {m : MessageMatch} (hmatch : matchMessage (row.text reserved) = some m)
    (hschema : unquoteIdentifier u m.schema = row.schema)
    (htable : unquoteIdentifier u m.table = row.table) : '.' ∉ row.schema ∧ ':' ∉ row.table := by
  simp only [matchMessage, Option.bind_eq_bind, Option.bind_eq_some_iff] at hmatch
  obtain ⟨named, -, named', -, rest, -, ⟨operation, tail⟩, -, body, -, hm⟩ := hmatch
  split_ifs at hm
  obtain rfl := Option.some.inj hm
  constructor
  · rw [← hschema]
    intro hmem
    have htaken := List.mem_takeWhile_imp (mem_of_mem_unquote (by decide) hmem)
    simp at htaken
  · rw [← htable]
    intro hmem
    have htaken := List.mem_takeWhile_imp (mem_of_mem_unquote (by decide) hmem)
    simp at htaken

theorem strip_message (hu : u.AsciiExact) (h : WellFormedTuple row.images.subject) :
    strip u (row.text reserved) = row.text reserved := by
  have hclosed : Closed u (row.text reserved) := by
    have himages := (text_closed hu reserved h).append ("table ".toList ++
      (quoteIdentifier reserved row.schema ++ '.' :: (quoteIdentifier reserved row.table ++
        [':', ' '])))
    rw [text_header]
    simpa using himages
  have hstrip := strip_of_closed hclosed
  have hhead : u.isSpace 't' = false := space_false hu (by decide) (by decide)
  have hword : row.text reserved = 't' :: ("able ".toList ++ (quoteIdentifier reserved row.schema ++
      '.' :: (quoteIdentifier reserved row.table ++ ':' :: ' ' :: row.images.text reserved))) := rfl
  rw [hword, List.dropWhile_cons_of_neg (by simp [hhead])] at hstrip
  rw [hword]
  exact hstrip

/-- A row is recovered when its header is legible and its body is. -/
theorem recovers_iff (hu : u.AsciiExact) {lsn : Str} {xid : Option Str}
    (h : WellFormedTuple row.images.subject) :
    Recovers u reserved lsn xid row ↔
      ('.' ∉ row.schema ∧ ':' ∉ row.table ∧ '\n' ∉ row.images.text reserved) ∧
        ∃ c, parseBody u (foundMatch reserved row) row.schema row.table lsn xid = .ok c ∧
          RecoversRow c row := by
  have hparse : ∀ {m : MessageMatch}, matchMessage (row.text reserved) = some m →
      unquoteIdentifier u m.schema = row.schema → unquoteIdentifier u m.table = row.table →
      parse u ⟨row.schema, row.table⟩ lsn xid (row.text reserved) =
        (parseBody u m row.schema row.table lsn xid).map some := by
    intro m hmatch hschema htable
    rw [parse, strip_message hu h, hmatch]
    dsimp only
    rw [hschema, htable, if_neg (by simp)]
  have hnames : unquoteIdentifier u (foundMatch reserved row).schema = row.schema ∧
      unquoteIdentifier u (foundMatch reserved row).table = row.table :=
    ⟨unquote_quoteIdentifier hu reserved row.schema, unquote_quoteIdentifier hu reserved row.table⟩
  constructor
  · rintro ⟨c, hc, hrecovers⟩
    -- the parser has found its own table
    obtain ⟨m, hmatch, hschema, htable⟩ : ∃ m, matchMessage (row.text reserved) = some m ∧
        unquoteIdentifier u m.schema = row.schema ∧ unquoteIdentifier u m.table = row.table := by
      rw [parse, strip_message hu h] at hc
      cases hmatch : matchMessage (row.text reserved) with
      | none => rw [hmatch] at hc; cases hc
      | some m =>
        rw [hmatch] at hc
        dsimp only at hc
        split_ifs at hc with hother
        · cases hc
        · rw [not_or, not_not, not_not] at hother
          exact ⟨m, rfl, hother⟩
    obtain ⟨hpoint, hcolon⟩ := header_of_match hmatch hschema htable
    have hfound := matchMessage_text hu reserved h hpoint hcolon
    rw [hmatch] at hfound
    split_ifs at hfound with hline
    obtain rfl := Option.some.inj hfound
    rw [hparse hmatch hschema htable] at hc
    exact ⟨⟨hpoint, hcolon, hline⟩, c, map_some_ok.mp hc, hrecovers⟩
  · rintro ⟨⟨hpoint, hcolon, hline⟩, c, hc, hrecovers⟩
    have hfound := matchMessage_text hu reserved h hpoint hcolon
    rw [if_neg hline] at hfound
    exact ⟨c, by rw [hparse hfound hnames.1 hnames.2, hc]; rfl, hrecovers⟩

end Header

/-! ### The body -/

/-- A body that is a printed tuple, or says that there is none. -/
theorem reads_shown (hu : u.AsciiExact) (shown : Option Tuple) {body : Str}
    (h : WellFormedTuple (shown.getD []))
    (hbody : body.dropWhile u.isSpace = (printNew reserved shown).dropWhile u.isSpace) :
    (LegibleTuple u (shown.getD []) → ReadsTuple u body (shown.getD [])) ∧
      (UnmixedTuple (shown.getD []) → ReadsTuple u body (shown.getD []) →
        LegibleTuple u (shown.getD [])) := by
  cases shown with
  | some tuple =>
    exact ⟨reads_of_legible hu h hbody, legible_of_reads hu h hbody⟩
  | none =>
    refine ⟨fun _ => ⟨[], ?_, nofun, nofun⟩, fun _ _ => ⟨nofun, nofun, nofun⟩⟩
    have hplain : '[' ∉ noTupleWord := by decide
    rw [parseTuple_eq hbody 0]
    exact parseColumns_no_bracket hplain

/-- A tail without an old tuple does not begin like one. -/
theorem no_oldKey (hu : u.AsciiExact) (shown : Option Tuple) :
    ¬ oldKeyWord <+: bodyOf (printNew reserved shown) := by
  rintro ⟨t, ht⟩
  have hword : oldKeyWord ++ t = "old".toList ++ '-' :: ("key:".toList ++ t) := rfl
  cases shown with
  | none => cases ht
  | some tuple =>
    cases tuple with
    | nil => cases ht
    | cons entry tuple =>
      have hbody : bodyOf (printNew reserved (some (entry :: tuple))) =
          quoteIdentifier reserved entry.1.name ++ '[' :: (entry.1.typeName ++ ']' :: ':' ::
            (printDatum entry.1.literal entry.2 ++ printTuple reserved tuple)) := by
        simp [printNew, printTuple, printColumn, bodyOf, cutPrefix]
      have hsafe : "old".toList ≠ [] ∧ ∀ c ∈ "old".toList, safeChar c = true :=
        ⟨by decide, List.all_iff_forall_prop.mp (by decide)⟩
      rw [hbody, hword] at ht
      exact quoteIdentifier_hyphen hu hsafe.1 hsafe.2 ht.symm

section Body
variable {row : RowMessage} {lsn : Str} {xid : Option Str}

/-- A body without an old tuple is recovered when it is read. -/
theorem body_recovered_of_none (hu : u.AsciiExact) (hbefore : row.images.before = none) :
    (∃ c, parseBody u (foundMatch reserved row) row.schema row.table lsn xid = .ok c ∧
      RecoversRow c row) ↔ ReadsTuple u (foundMatch reserved row).body row.images.subject := by
  have hbody : (foundMatch reserved row).body = bodyOf (printNew reserved row.images.shown) := by
    show bodyOf (printBefore reserved row.images.before ++ _) = _
    rw [hbefore, printBefore, List.nil_append]
  have hplain : ¬ ((foundMatch reserved row).operation = .update ∧
      oldKeyWord <+: (foundMatch reserved row).body) := fun h =>
    no_oldKey hu row.images.shown (hbody ▸ h.2)
  rw [parseBody]
  dsimp only
  rw [if_neg hplain]
  constructor
  · rintro ⟨c, hc, hrecovers⟩
    obtain ⟨data, hdata, hc⟩ := bind_ok.mp hc
    cases hc
    exact ⟨data, hdata, hrecovers.data⟩
  · rintro ⟨data, hdata, hrecovers⟩
    rw [hdata]
    exact ⟨_, rfl, rfl, rfl, rfl, hrecovers, by rw [hbefore]; trivial⟩

/-- A body with an old tuple is recovered when both parts are read. -/
theorem body_recovered_of_some {old : Tuple} (hbefore : row.images.before = some old) :
    (∃ c, parseBody u (foundMatch reserved row) row.schema row.table lsn xid = .ok c ∧
      RecoversRow c row) ↔
      ReadsTuple u (strip u (removePrefix oldKeyWord
          (partitionAt newTupleWord (foundMatch reserved row).body).1)) old ∧
        ReadsTuple u (strip u (partitionAt newTupleWord (foundMatch reserved row).body).2)
          row.images.subject := by
  have hupdate : row.images.operation = .update := by
    cases himages : row.images with
    | update old' new => rfl
    | insert new => rw [himages] at hbefore; cases hbefore
    | delete old' => rw [himages] at hbefore; cases hbefore
  have hbody : (foundMatch reserved row).body = oldKeyWord ++ (printTuple reserved old ++
      newTupleWord ++ printNew reserved row.images.shown) := by
    show bodyOf (printBefore reserved row.images.before ++ _) = _
    rw [hbefore]
    simp [printBefore, bodyOf, cutPrefix]
  have hold : (foundMatch reserved row).operation = .update ∧
      oldKeyWord <+: (foundMatch reserved row).body :=
    ⟨hupdate, by rw [hbody]; exact List.prefix_append _ _⟩
  rw [parseBody]
  dsimp only
  rw [if_pos hold]
  constructor
  · rintro ⟨c, hc, hrecovers⟩
    obtain ⟨before, hparsed, hc⟩ := bind_ok.mp hc
    obtain ⟨data, hdata, hc⟩ := bind_ok.mp hc
    cases hc
    have hrecoversOld := hrecovers.before
    rw [hbefore] at hrecoversOld
    exact ⟨⟨before, hparsed, hrecoversOld⟩, data, hdata, hrecovers.data⟩
  · rintro ⟨⟨before, hparsed, hrecoversOld⟩, data, hdata, hrecovers⟩
    rw [hparsed, hdata]
    exact ⟨_, rfl, rfl, rfl, rfl, hrecovers, by rw [hbefore]; exact hrecoversOld⟩

end Body

/-! ### Both parts of an update -/

/-- The body without the word it begins with. -/
def bodyParts (reserved : Str → Bool) (row : RowMessage) (old : Tuple) : Str × Str :=
  partitionAt newTupleWord (printTuple reserved old ++
    (newTupleWord ++ printNew reserved row.images.shown))

theorem partition_body {row : RowMessage} {old : Tuple} (hbefore : row.images.before = some old) :
    partitionAt newTupleWord (foundMatch reserved row).body =
      (oldKeyWord ++ (bodyParts reserved row old).1, (bodyParts reserved row old).2) := by
  have hbody : (foundMatch reserved row).body = oldKeyWord ++ (printTuple reserved old ++
      (newTupleWord ++ printNew reserved row.images.shown)) := by
    show bodyOf (printBefore reserved row.images.before ++ _) = _
    rw [hbefore]
    simp [printBefore, bodyOf, cutPrefix]
  rw [hbody]
  exact partitionAt_skip _ (by decide)

/-- The old tuple is found where it does not contain the separator. -/
theorem partition_old {row : RowMessage} {old : Tuple} (hbefore : row.images.before = some old)
    (h : ¬ newTupleWord <:+: printTuple reserved old) :
    partitionAt newTupleWord (foundMatch reserved row).body =
      (oldKeyWord ++ printTuple reserved old, printNew reserved row.images.shown) := by
  have hcut : bodyParts reserved row old =
      (printTuple reserved old, printNew reserved row.images.shown) :=
    partitionAt_append (by decide) _ h
  rw [partition_body hbefore, hcut]

/-- Otherwise it is cut inside. -/
theorem partition_cut {row : RowMessage} {old : Tuple} (hbefore : row.images.before = some old)
    (h : newTupleWord <:+: printTuple reserved old) :
    ∃ a b, printTuple reserved old = a ++ (newTupleWord ++ b) ∧
      (partitionAt newTupleWord (foundMatch reserved row).body).1 = oldKeyWord ++ a := by
  obtain ⟨a, b, hprint, hcut⟩ := partitionAt_infix
    (newTupleWord ++ printNew reserved row.images.shown) h
  refine ⟨a, b, hprint, ?_⟩
  rw [partition_body hbefore]
  exact congrArg (oldKeyWord ++ ·) (congrArg Prod.fst hcut)

theorem removePrefix_append (word s : Str) : removePrefix word (word ++ s) = s := by
  rw [removePrefix, cutPrefix_append, Option.getD_some]

theorem strip_start {s : Str} (h : s = [] ∨ Closed u s) :
    (strip u s).dropWhile u.isSpace = s.dropWhile u.isSpace := by
  rcases h with rfl | h
  · rfl
  · rw [strip_of_closed h, List.dropWhile_idempotent]

/-- A row inserted into `public.notes`, with one column in quotes. -/
def noteRow (type note : Str) : RowMessage :=
  ⟨"public".toList, "notes".toList, .insert (some [(⟨"note".toList, type, .quoted⟩, .text note)])⟩

theorem noteRow_wellFormed (type note : Str) : (noteRow type note).WellFormed where
  subject := by
    refine ⟨List.nodup_singleton _, fun entry hentry => ?_⟩
    rw [List.mem_singleton.mp hentry]
    exact fun _ _ => trivial
  before := nofun

theorem note_legible : (noteRow "text".toList "it's [x]".toList).Legible Unicode.ascii
    (fun _ => false) where
  schema := by decide
  table := by decide
  line := by decide
  subject := by
    refine ⟨fun entry hentry => ?_, fun entry hentry => ?_, fun entry hentry => ?_⟩ <;>
      rw [List.mem_singleton.mp hentry]
    · decide
    · decide
    · show ¬ Misread Unicode.ascii "it's [x]".toList
      unfold Misread
      decide
  before := nofun

theorem note_not_recovered {type note : Str} (hcolon : ¬ [']', ':'] <:+: type)
    (h : ']' ∈ type ∨ Misread Unicode.ascii note) :
    ¬ Recovers Unicode.ascii (fun _ => false) ['1'] none (noteRow type note) := by
  intro hrecovers
  rw [recovers_iff ascii_exact (noteRow_wellFormed type note).subject,
    body_recovered_of_none ascii_exact rfl] at hrecovers
  have hbody := bodyOf_start ascii_exact ((noteRow type note).images.tail fun _ => false)
  have hlegible := legible_of_reads ascii_exact (noteRow_wellFormed type note).subject hbody
    (fun entry hentry => by rw [List.mem_singleton.mp hentry]; exact hcolon) hrecovers.2
  rcases h with h | h
  · exact hlegible.types _ (List.mem_singleton_self _) h
  · exact hlegible.data _ (List.mem_singleton_self _) h

end Dpone.Cdc.TestDecoding
