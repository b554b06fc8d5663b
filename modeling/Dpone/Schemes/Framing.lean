import Mathlib.Algebra.BigOperators.Group.List.Basic
import Mathlib.Algebra.Order.BigOperators.Group.List
import Mathlib.Data.List.Infix
import Dpone.Schemes.Delimited

/-! Packing items into groups in their order. A group is closed before an item that it has no room
    for, and after an item that brings it to the target. No item is lost, no group is empty, and no
    group outgrows the limit when no item does. -/

namespace Dpone.Schemes

variable {β : Type} (size : β → ℕ) (target limit : ℕ)

/-- What a group weighs. -/
def weight (group : List β) : ℕ := (group.map size).sum

@[simp] theorem weight_nil : weight size [] = 0 := rfl

@[simp] theorem weight_append (group : List β) (item : β) :
    weight size (group ++ [item]) = weight size group + size item := by simp [weight]

/-- The groups that are closed to make room for an item, and the group it is put into. -/
def makeRoom (group : List β) (item : β) : List (List β) × List β :=
  if group ≠ [] ∧ limit < weight size group + size item then ([group], []) else ([], group)

/-- The groups that an item closes, and the group left open after it. -/
def packStep (group : List β) (item : β) : List (List β) × List β :=
  let room := makeRoom size limit group item
  if target ≤ weight size (room.2 ++ [item]) then (room.1 ++ [room.2 ++ [item]], [])
  else (room.1, room.2 ++ [item])

/-- Packing items from an open group on: the groups they close, and the group left open. -/
def packLoop (group : List β) : List β → List (List β) × List β
  | [] => ([], group)
  | item :: items =>
    let step := packStep size target limit group item
    let rest := packLoop step.2 items
    (step.1 ++ rest.1, rest.2)

def closeLast (group : List β) : List (List β) := if group = [] then [] else [group]

/-- All groups of the items. -/
def pack (items : List β) : List (List β) :=
  let loop := packLoop size target limit [] items
  loop.1 ++ closeLast loop.2

theorem makeRoom_flatten (group : List β) (item : β) :
    (makeRoom size limit group item).1.flatten ++ (makeRoom size limit group item).2 = group := by
  unfold makeRoom
  split_ifs <;> simp

theorem packStep_flatten (group : List β) (item : β) :
    (packStep size target limit group item).1.flatten ++ (packStep size target limit group item).2 =
      group ++ [item] := by
  have hroom := makeRoom_flatten size limit group item
  simp only [packStep]
  split_ifs
  · rw [List.flatten_concat, List.append_nil, ← List.append_assoc, hroom]
  · rw [← List.append_assoc, hroom]

theorem packLoop_append : ∀ (group items more : List β),
    packLoop size target limit group (items ++ more) =
      ((packLoop size target limit group items).1 ++
        (packLoop size target limit (packLoop size target limit group items).2 more).1,
      (packLoop size target limit (packLoop size target limit group items).2 more).2)
  | _, [], _ => rfl
  | group, item :: items, more => by
    rw [List.cons_append, packLoop, packLoop_append _ items more]
    simp only [packLoop, List.append_assoc]

theorem packLoop_flatten : ∀ (group items : List β),
    (packLoop size target limit group items).1.flatten ++
      (packLoop size target limit group items).2 = group ++ items
  | group, [] => by simp [packLoop]
  | group, item :: items => by
    simp only [packLoop]
    rw [List.flatten_append, List.append_assoc, packLoop_flatten _ items, ← List.append_assoc,
      packStep_flatten, List.append_assoc, List.singleton_append]

theorem closeLast_flatten (group : List β) : (closeLast group).flatten = group := by
  unfold closeLast
  split_ifs with h
  · exact h.symm
  · simp

/-- LOSSLESS: the groups hold the items in their order. -/
theorem pack_flatten (items : List β) : (pack size target limit items).flatten = items := by
  simp only [pack]
  rw [List.flatten_append, closeLast_flatten, packLoop_flatten, List.nil_append]

/-- A group that may be closed. -/
def Fits (size : β → ℕ) (limit : ℕ) (group : List β) : Prop :=
  group ≠ [] ∧ weight size group ≤ limit

theorem makeRoom_fits {group : List β} {item : β} (hgroup : weight size group ≤ limit)
    (hitem : size item ≤ limit) :
    (∀ closed ∈ (makeRoom size limit group item).1, Fits size limit closed) ∧
      weight size ((makeRoom size limit group item).2 ++ [item]) ≤ limit := by
  unfold makeRoom
  split_ifs with h
  · refine ⟨?_, by simpa [weight] using hitem⟩
    intro closed hclosed
    rw [List.mem_singleton.mp hclosed]
    exact ⟨h.1, hgroup⟩
  · refine ⟨by simp, ?_⟩
    change weight size (group ++ [item]) ≤ limit
    rw [weight_append]
    rcases eq_or_ne group [] with rfl | hne
    · simpa using hitem
    · by_contra hlt
      exact h ⟨hne, by omega⟩

/-- STEP: an item that fits closes groups that fit and leaves an open group within the limit. -/
theorem packStep_fits {group : List β} {item : β} (hgroup : weight size group ≤ limit)
    (hitem : size item ≤ limit) :
    (∀ closed ∈ (packStep size target limit group item).1, Fits size limit closed) ∧
      weight size (packStep size target limit group item).2 ≤ limit := by
  obtain ⟨hclosed, hfilled⟩ := makeRoom_fits size limit hgroup hitem
  simp only [packStep]
  split_ifs
  · refine ⟨?_, by simp⟩
    intro closed h
    rcases List.mem_append.mp h with h | h
    · exact hclosed closed h
    · rw [List.mem_singleton.mp h]
      exact ⟨by simp, hfilled⟩
  · exact ⟨hclosed, hfilled⟩

/-- RUN: items that fit are packed into groups that fit. -/
theorem packLoop_fits : ∀ {group items : List β}, weight size group ≤ limit →
    (∀ item ∈ items, size item ≤ limit) →
      (∀ closed ∈ (packLoop size target limit group items).1, Fits size limit closed) ∧
        weight size (packLoop size target limit group items).2 ≤ limit
  | group, [], hgroup, _ => ⟨by simp [packLoop], hgroup⟩
  | group, item :: items, hgroup, hitems => by
    obtain ⟨hstep, hopen⟩ := packStep_fits size target limit hgroup
      (hitems item (List.mem_cons_self ..))
    obtain ⟨hrest, hlast⟩ := packLoop_fits hopen
      fun i hi => hitems i (List.mem_cons_of_mem _ hi)
    refine ⟨?_, hlast⟩
    intro closed hclosed
    rcases List.mem_append.mp hclosed with h | h
    · exact hstep closed h
    · exact hrest closed h

theorem pack_fits {items : List β} (hitems : ∀ item ∈ items, size item ≤ limit) :
    ∀ group ∈ pack size target limit items, Fits size limit group := by
  have hempty : weight size ([] : List β) ≤ limit := Nat.zero_le limit
  obtain ⟨hclosed, hlast⟩ := packLoop_fits size target limit hempty hitems
  intro group hgroup
  rcases List.mem_append.mp hgroup with h | h
  · exact hclosed group h
  · unfold closeLast at h
    split_ifs at h with hnil
    · exact absurd h List.not_mem_nil
    · rw [List.mem_singleton.mp h]
      exact ⟨hnil, hlast⟩

end Dpone.Schemes

/-! Rows framed by a terminator of any length. A row is framed when it ends at its first
    terminator, so a text made of framed rows can be cut in one way only: scanning it from the left
    finds the rows whatever the terminator overlaps, and finds the same rows when the text arrives
    in pieces. -/

namespace Dpone.Schemes

variable {α : Type} {terminator : List α}

/-- The row ends with the terminator, which does not end earlier in it. -/
structure Framed (terminator row : List α) : Prop where
  ends : terminator <:+ row
  first : ¬ terminator <:+: row.dropLast

instance [DecidableEq α] (terminator row : List α) : Decidable (Framed terminator row) :=
  decidable_of_iff (terminator <:+ row ∧ ¬ terminator <:+: row.dropLast)
    ⟨fun h => ⟨h.1, h.2⟩, fun h => ⟨h.ends, h.first⟩⟩

/-- What stands before the terminator of a framed row. -/
def rowBody (terminator row : List α) : List α := row.take (row.length - terminator.length)

theorem Framed.body_append {row : List α} (h : Framed terminator row) :
    rowBody terminator row ++ terminator = row := by
  obtain ⟨body, rfl⟩ := h.ends
  rw [rowBody, List.length_append, Nat.add_sub_cancel, List.take_left]

theorem rowBody_append (body : List α) : rowBody terminator (body ++ terminator) = body := by
  rw [rowBody, List.length_append, Nat.add_sub_cancel, List.take_left]

theorem Framed.ne_nil {row : List α} (ht : terminator ≠ []) (h : Framed terminator row) :
    row ≠ [] := by
  rintro rfl
  exact ht (List.suffix_nil.mp h.ends)

/-- The terminator does not stand at an earlier place of a framed row, whatever follows it. -/
theorem Framed.not_prefix {c : α} {body : List α} (h : Framed terminator (c :: body ++ terminator))
    (s : List α) : ¬ terminator <+: c :: body ++ terminator ++ s := by
  intro hp
  refine h.first (List.IsPrefix.isInfix ?_)
  have hshort : (c :: body ++ terminator).dropLast <+: c :: body ++ terminator ++ s :=
    (List.dropLast_prefix _).trans (List.prefix_append ..)
  refine List.prefix_of_prefix_length_le hp hshort ?_
  simp

theorem Framed.tail {c : α} {body : List α} (h : Framed terminator (c :: body ++ terminator)) :
    Framed terminator (body ++ terminator) where
  ends := List.suffix_append ..
  first hi := by
    refine h.first (hi.trans ?_)
    cases hb : body ++ terminator with
    | nil => simp
    | cons d rest =>
      rw [List.cons_append, hb, List.dropLast_cons_cons]
      exact (List.suffix_cons ..).isInfix

/-- LOSSLESS: every text is framed rows and a rest in which no terminator ends. -/
theorem exists_framed (ht : terminator ≠ []) (s : List α) :
    ∃ rows tail, s = List.flatten rows ++ tail ∧ (∀ row ∈ rows, Framed terminator row) ∧
      ¬ terminator <:+: tail := by
  induction s using List.reverseRecOn with
  | nil => exact ⟨[], [], rfl, by simp, fun h => ht (List.infix_nil.mp h)⟩
  | append_singleton s x ih =>
    obtain ⟨rows, tail, rfl, hrows, htail⟩ := ih
    by_cases h : terminator <:+: tail ++ [x]
    · -- the new character ends the first terminator of the rest
      have hends : terminator <:+ tail ++ [x] := (List.infix_concat_iff.mp h).resolve_right htail
      refine ⟨rows ++ [tail ++ [x]], [], by simp, ?_, fun h => ht (List.infix_nil.mp h)⟩
      intro row hrow
      rcases List.mem_append.mp hrow with hrow | hrow
      · exact hrows row hrow
      · rw [List.mem_singleton.mp hrow]
        exact ⟨hends, by rwa [List.dropLast_concat]⟩
    · exact ⟨rows, tail ++ [x], by simp, hrows, h⟩

section Split
variable [DecidableEq α]

/-- Passing the rest of a separator. -/
theorem splitFrom_skip : ∀ (u s : List α), splitFrom terminator u.length (u ++ s) =
    splitWord terminator s
  | [], s => rfl
  | c :: u, s => by
    rw [List.length_cons, List.cons_append, splitFrom]
    exact splitFrom_skip u s

theorem splitWord_tail : ∀ {tail : List α}, ¬ terminator <:+: tail →
    splitWord terminator tail = [tail]
  | [], _ => rfl
  | c :: tail, h => by
    have hc : ¬ terminator.isPrefixOf (c :: tail) = true := by
      rw [List.isPrefixOf_iff_prefix]
      exact fun hp => h hp.isInfix
    have htail : splitWord terminator tail = [tail] :=
      splitWord_tail fun hi => h (hi.trans (List.suffix_cons ..).isInfix)
    rw [splitWord, splitFrom, if_neg hc, ← splitWord, htail, consPart]

theorem splitWord_body (ht : terminator ≠ []) (s : List α) : ∀ (body : List α),
    Framed terminator (body ++ terminator) →
      splitWord terminator (body ++ terminator ++ s) = body :: splitWord terminator s
  | [], _ => by
    obtain ⟨c, rest, rfl⟩ := List.exists_cons_of_ne_nil ht
    have hp : (c :: rest).isPrefixOf (c :: (rest ++ s)) = true :=
      List.isPrefixOf_iff_prefix.mpr ⟨s, rfl⟩
    rw [List.nil_append, List.cons_append, splitWord, splitFrom, if_pos hp, List.length_cons,
      Nat.add_sub_cancel, splitFrom_skip]
  | c :: body, h => by
    have hc : ¬ terminator.isPrefixOf (c :: (body ++ terminator ++ s)) = true := by
      rw [List.isPrefixOf_iff_prefix]
      exact h.not_prefix s
    have hbody := splitWord_body ht s body h.tail
    rw [List.cons_append, List.cons_append, splitWord, splitFrom, if_neg hc, ← splitWord, hbody,
      consPart]

/-- LOSSLESS: framed rows are cut where their terminators end, whatever follows them. -/
theorem splitWord_framed (ht : terminator ≠ []) {tail : List α} (htail : ¬ terminator <:+: tail) :
    ∀ {rows : List (List α)}, (∀ row ∈ rows, Framed terminator row) →
      splitWord terminator (rows.flatten ++ tail) = rows.map (rowBody terminator) ++ [tail]
  | [], _ => splitWord_tail htail
  | row :: rows, h => by
    have hrow := h row (List.mem_cons_self ..)
    have hrest := splitWord_framed ht htail fun r hr => h r (List.mem_cons_of_mem _ hr)
    have hsplit := splitWord_body ht (rows.flatten ++ tail) (rowBody terminator row)
      (by rwa [hrow.body_append])
    rw [hrow.body_append, hrest] at hsplit
    rw [List.flatten_cons, List.append_assoc, hsplit, List.map_cons, List.cons_append]

/-- LOSSLESS: a text is cut into framed rows in one way only. -/
theorem framed_unique (ht : terminator ≠ []) {rows rows' : List (List α)} {tail tail' : List α}
    (hrows : ∀ row ∈ rows, Framed terminator row) (hrows' : ∀ row ∈ rows', Framed terminator row)
    (htail : ¬ terminator <:+: tail) (htail' : ¬ terminator <:+: tail')
    (h : rows.flatten ++ tail = rows'.flatten ++ tail') : rows = rows' ∧ tail = tail' := by
  have hsplit := congrArg (splitWord terminator) h
  rw [splitWord_framed ht htail hrows, splitWord_framed ht htail' hrows'] at hsplit
  obtain ⟨hbodies, htails⟩ := List.append_inj' hsplit rfl
  refine ⟨?_, List.singleton_inj.mp htails⟩
  have hback : ∀ {rs : List (List α)}, (∀ row ∈ rs, Framed terminator row) →
      (rs.map (rowBody terminator)).map (· ++ terminator) = rs := by
    intro rs hrs
    rw [List.map_map]
    exact (List.map_congr_left fun r hr => (hrs r hr).body_append).trans (List.map_id _)
  rw [← hback hrows, ← hback hrows', hbodies]

/-- A text in which no terminator ends has no row. -/
theorem framed_rest (ht : terminator ≠ []) {rows : List (List α)} {tail rest : List α}
    (hrows : ∀ row ∈ rows, Framed terminator row) (hrest : ¬ terminator <:+: rest)
    (htail : ¬ terminator <:+: tail) (h : rest = rows.flatten ++ tail) :
    rows = [] ∧ tail = rest := by
  have hnone : ∀ row ∈ ([] : List (List α)), Framed terminator row := by simp
  obtain ⟨hnil, htails⟩ := framed_unique ht hrows hnone htail hrest h.symm
  exact ⟨hnil, htails⟩

end Split

end Dpone.Schemes
