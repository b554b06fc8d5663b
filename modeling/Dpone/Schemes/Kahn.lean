import Mathlib.Algebra.Order.BigOperators.Group.Finset
import Mathlib.Data.Fintype.Card
import Mathlib.Data.Fintype.EquivFin
import Mathlib.Data.Fintype.Sets
import Mathlib.Logic.Relation
import Mathlib.Tactic.Ring

/-! Topological sorting: a node is taken once every edge that comes into it was counted off.

    The queue may hand out the nodes that wait in any order. Every node that is taken comes after
    all nodes that point to it (`Counted`); the nodes that are never taken all wait for each other,
    so that some of them lie on a cycle. -/

namespace Dpone.Schemes

/-! ### Cycles of a finite relation -/

/-- Where every node of a finite set has an edge from the set, some node reaches itself. -/
theorem cycle_of_predecessors {V : Type} {r : V → V → Prop} {s : Finset V} (hne : s.Nonempty)
    (hpred : ∀ w ∈ s, ∃ v ∈ s, r v w) : ∃ v ∈ s, Relation.TransGen r v v := by
  by_contra hnone
  push Not at hnone
  let reaches : s → s → Prop := fun a b => Relation.TransGen r a b
  have : IsTrans s reaches := ⟨fun _ _ _ hab hbc => hab.trans hbc⟩
  have : Std.Irrefl reaches := ⟨fun a => hnone a a.2⟩
  have hwf : WellFounded reaches := Finite.wellFounded_of_trans_of_irrefl reaches
  obtain ⟨first, hfirst⟩ := hne
  obtain ⟨m, -, hmin⟩ := hwf.has_min Set.univ ⟨⟨first, hfirst⟩, trivial⟩
  obtain ⟨v, hv, hedge⟩ := hpred m m.2
  exact hmin ⟨v, hv⟩ trivial (.single hedge)

variable {V : Type} [DecidableEq V]

/-- The state of the loop: the edges into each node that were not counted off, the nodes that wait
    and the nodes that were taken. -/
structure Kahn (V : Type) where
  degree : V → ℤ
  queue : List V
  result : List V

namespace Kahn
variable (succ : V → List V) (enqueue : List V → V → List V)

/-- Counting every edge of a list of nodes. -/
def degrees (nodes : List V) : V → ℤ :=
  nodes.foldl (fun degree v =>
    (succ v).foldl (fun degree w => Function.update degree w (degree w + 1)) degree) fun _ => 0

/-- An edge into a node is counted off; after the last one the node waits. -/
def lower (s : Kahn V) (w : V) : Kahn V :=
  let degree := Function.update s.degree w (s.degree w - 1)
  { s with degree, queue := if degree w = 0 then enqueue s.queue w else s.queue }

/-- One round of the loop. -/
def round (s : Kahn V) : Kahn V :=
  match s.queue with
  | [] => s
  | v :: queue => (succ v).foldl (lower enqueue) { s with queue, result := s.result ++ [v] }

def loop : ℕ → Kahn V → Kahn V
  | 0, s => s
  | n + 1, s => loop n (round succ enqueue s)

/-! ### Degrees -/

theorem count_edges (ws : List V) : ∀ (degree : V → ℤ) (w : V),
    ws.foldl (fun degree w => Function.update degree w (degree w + 1)) degree w =
      degree w + ws.count w := by
  induction ws with
  | nil => simp
  | cons x ws ih =>
    intro degree w
    rw [List.foldl_cons, ih, List.count_cons]
    by_cases hxw : x = w
    · subst hxw
      simp
      ring
    · simp [hxw, Function.update_of_ne (Ne.symm hxw)]

theorem degrees_from (nodes : List V) : ∀ (degree : V → ℤ) (w : V),
    nodes.foldl (fun degree v =>
      (succ v).foldl (fun degree w => Function.update degree w (degree w + 1)) degree) degree w =
      degree w + (nodes.map fun v => ((succ v).count w : ℤ)).sum := by
  induction nodes with
  | nil => simp
  | cons v nodes ih =>
    intro degree w
    rw [List.foldl_cons, ih, count_edges, List.map_cons, List.sum_cons, add_assoc]

variable {succ enqueue}

/-- Nodes that were not taken. -/
def left (nodes result : List V) : Finset V := nodes.toFinset \ result.toFinset

theorem mem_left {nodes result : List V} {v : V} : v ∈ left nodes result ↔ v ∈ nodes ∧ v ∉ result := by
  simp [left]

theorem degrees_eq {nodes : List V} (hnodup : nodes.Nodup) (w : V) :
    degrees succ nodes w = ∑ v ∈ left nodes [], ((succ v).count w : ℤ) := by
  rw [degrees, degrees_from, zero_add, left, List.toFinset_nil, Finset.sdiff_empty,
    List.sum_toFinset _ hnodup]

/-! ### The invariant -/

/-- What holds while the edges `rest` of the node that was taken last are still to be counted off:
    a node waits or was taken when no edge into it is left, and comes after every node that points
    to it. -/
structure Counted (succ : V → List V) (nodes rest : List V) (s : Kahn V) : Prop where
  distinct : (s.result ++ s.queue).Nodup
  known : ∀ v ∈ s.result ++ s.queue, v ∈ nodes
  degree : ∀ w ∈ nodes,
    s.degree w = ∑ v ∈ left nodes s.result, ((succ v).count w : ℤ) + rest.count w
  ready : ∀ w ∈ nodes, w ∈ s.result ++ s.queue ↔ s.degree w = 0
  ordered : ∀ {xs : List V} {v : V} {ys : List V}, s.result = xs ++ v :: ys →
    ∀ u ∈ nodes, v ∈ succ u → u ∈ xs

namespace Counted
variable {nodes rest : List V} {s : Kahn V}

/-- The nodes that no edge points to wait at the start. -/
theorem start (hnodup : nodes.Nodup) {queue : List V}
    (hqueue : queue.Perm (nodes.filter (degrees succ nodes · = 0))) :
    Counted succ nodes [] ⟨degrees succ nodes, queue, []⟩ where
  distinct := hqueue.symm.nodup_iff.mp (hnodup.filter _)
  known v hv := (List.mem_filter.mp (hqueue.mem_iff.mp hv)).1
  degree w _ := by
    rw [List.count_nil, Nat.cast_zero, add_zero]
    exact degrees_eq hnodup w
  ready w hw := by
    show w ∈ queue ↔ _
    rw [hqueue.mem_iff, List.mem_filter, decide_eq_true_iff]
    exact and_iff_right hw
  ordered h := by
    cases List.append_eq_nil_iff.mp h.symm |>.2

theorem sum_nonneg (succ : V → List V) (nodes result : List V) (w : V) :
    0 ≤ ∑ v ∈ left nodes result, ((succ v).count w : ℤ) :=
  Finset.sum_nonneg fun _ _ => Int.natCast_nonneg _

/-- STEP: one edge is counted off. -/
theorem lower (henqueue : ∀ q v, (enqueue q v).Perm (v :: q)) {w : V}
    (h : Counted succ nodes (w :: rest) s) (hw : w ∈ nodes) :
    Counted succ nodes rest (lower enqueue s w) := by
  have hsum := sum_nonneg succ nodes s.result w
  have hdegree := h.degree w hw
  rw [List.count_cons_self] at hdegree
  have hnew : w ∉ s.result ++ s.queue := fun hmem => by
    have hzero := (h.ready w hw).mp hmem
    omega
  have hqueue : ∀ x, x ∈ (Kahn.lower enqueue s w).queue ↔
      x ∈ s.queue ∨ x = w ∧ s.degree w - 1 = 0 := by
    intro x
    simp only [Kahn.lower, Function.update_self]
    split_ifs with hzero
    · rw [(henqueue s.queue w).mem_iff, List.mem_cons]
      simp only [hzero, and_true]
      exact or_comm
    · simp [hzero]
  have hmem : ∀ x, x ∈ s.result ++ (Kahn.lower enqueue s w).queue ↔
      x ∈ s.result ++ s.queue ∨ x = w ∧ s.degree w - 1 = 0 := by
    intro x
    rw [List.mem_append, hqueue, ← or_assoc, ← List.mem_append]
  refine ⟨?_, ?_, ?_, ?_, h.ordered⟩
  · show (s.result ++ (Kahn.lower enqueue s w).queue).Nodup
    simp only [Kahn.lower, Function.update_self]
    split_ifs with hzero
    · rw [((henqueue s.queue w).append_left s.result).nodup_iff, List.perm_middle.nodup_iff]
      exact List.nodup_cons.mpr ⟨hnew, h.distinct⟩
    · exact h.distinct
  · intro x hx
    rcases (hmem x).mp hx with hx | ⟨rfl, -⟩
    · exact h.known x hx
    · exact hw
  · intro x hx
    show Function.update s.degree w (s.degree w - 1) x = _
    have hx' := h.degree x hx
    rw [List.count_cons] at hx'
    by_cases hxw : x = w
    · subst hxw
      rw [Function.update_self, hdegree]
      show _ = ∑ v ∈ left nodes s.result, ((succ v).count x : ℤ) + _
      push_cast
      ring
    · rw [Function.update_of_ne hxw, hx']
      have hne : (w == x) = false := beq_eq_false_iff_ne.mpr (Ne.symm hxw)
      rw [hne]
      rfl
  · intro x hx
    show x ∈ s.result ++ (Kahn.lower enqueue s w).queue ↔ _
    rw [hmem x, h.ready x hx]
    show _ ↔ Function.update s.degree w (s.degree w - 1) x = 0
    by_cases hxw : x = w
    · subst hxw
      rw [Function.update_self]
      constructor
      · rintro (hzero | ⟨-, hzero⟩)
        · omega
        · exact hzero
      · exact fun hzero => .inr ⟨rfl, hzero⟩
    · rw [Function.update_of_ne hxw]
      simp [hxw]

theorem lower_all (henqueue : ∀ q v, (enqueue q v).Perm (v :: q)) :
    ∀ {rest : List V} {s : Kahn V}, (∀ w ∈ rest, w ∈ nodes) → Counted succ nodes rest s →
      Counted succ nodes [] (rest.foldl (Kahn.lower enqueue) s)
  | [], _, _, h => h
  | w :: rest, _, hknown, h => by
    have hrest : ∀ x ∈ rest, x ∈ nodes := fun x hx => hknown x (List.mem_cons_of_mem _ hx)
    rw [List.foldl_cons]
    exact lower_all henqueue hrest (h.lower henqueue (hknown w (List.mem_cons_self ..)))

/-- STEP: one node is taken. -/
theorem round (henqueue : ∀ q v, (enqueue q v).Perm (v :: q))
    (hclosed : ∀ v ∈ nodes, ∀ w ∈ succ v, w ∈ nodes) (h : Counted succ nodes [] s) :
    Counted succ nodes [] (round succ enqueue s) := by
  unfold Kahn.round
  split
  · exact h
  · next v queue hqueue =>
    have hv : v ∈ s.result ++ s.queue := by simp [hqueue]
    have hknown := h.known v hv
    have hdistinct := h.distinct
    rw [hqueue] at hdistinct
    have hnew : v ∉ s.result := fun hmem =>
      List.disjoint_of_nodup_append hdistinct hmem (List.mem_cons_self ..)
    have hleft : left nodes (s.result ++ [v]) = (left nodes s.result).erase v := by
      ext x
      simp only [mem_left, Finset.mem_erase, List.mem_append, List.mem_singleton, not_or]
      tauto
    have hin : v ∈ left nodes s.result := mem_left.mpr ⟨hknown, hnew⟩
    have hsplit : (s.result ++ [v]) ++ queue = s.result ++ s.queue := by
      rw [hqueue, List.append_assoc, List.singleton_append]
    refine lower_all henqueue (hclosed v hknown) ⟨?_, ?_, ?_, ?_, ?_⟩
    · show ((s.result ++ [v]) ++ queue).Nodup
      rw [hsplit]
      exact h.distinct
    · show ∀ x ∈ (s.result ++ [v]) ++ queue, x ∈ nodes
      rw [hsplit]
      exact h.known
    · intro w hw
      show s.degree w = ∑ x ∈ left nodes (s.result ++ [v]), _ + _
      rw [h.degree w hw, hleft, ← Finset.add_sum_erase _ _ hin, List.count_nil, Nat.cast_zero]
      ring
    · intro w hw
      show w ∈ (s.result ++ [v]) ++ queue ↔ _
      rw [hsplit]
      exact h.ready w hw
    · intro xs x ys hcut u hu hedge
      have hcut' : s.result ++ [v] = xs ++ x :: ys := hcut
      rcases List.eq_nil_or_concat ys with rfl | ⟨zs, z, rfl⟩
      · obtain ⟨rfl, hlast⟩ := List.append_inj' hcut' rfl
        obtain rfl := List.singleton_inj.mp hlast
        -- a node that was not taken and points to this one would leave an edge to count off
        by_contra hmem
        have hzero := (h.ready v hknown).mp hv
        rw [h.degree v hknown, List.count_nil, Nat.cast_zero, add_zero,
          Finset.sum_eq_zero_iff_of_nonneg fun _ _ => Int.natCast_nonneg _] at hzero
        have hnone := hzero u (mem_left.mpr ⟨hu, hmem⟩)
        have hsome := List.count_pos_iff.mpr hedge
        omega
      · rw [List.concat_eq_append, ← List.cons_append, ← List.append_assoc] at hcut'
        obtain ⟨hsame, -⟩ := List.append_inj' hcut' rfl
        exact h.ordered hsame u hu hedge

theorem loop (henqueue : ∀ q v, (enqueue q v).Perm (v :: q))
    (hclosed : ∀ v ∈ nodes, ∀ w ∈ succ v, w ∈ nodes) :
    ∀ (n : ℕ) {s : Kahn V}, Counted succ nodes [] s → Counted succ nodes [] (loop succ enqueue n s)
  | 0, _, h => h
  | n + 1, _, h => loop henqueue hclosed n (h.round henqueue hclosed)

end Counted

/-! ### The end of the loop -/

theorem lower_result (ws : List V) : ∀ s : Kahn V, (ws.foldl (lower enqueue) s).result = s.result := by
  induction ws with
  | nil => exact fun _ => rfl
  | cons w ws ih => exact fun s => ih (lower enqueue s w)

theorem loop_of_empty (n : ℕ) {s : Kahn V} (h : s.queue = []) : loop succ enqueue n s = s := by
  have hround : round succ enqueue s = s := by
    unfold round
    rw [h]
  induction n with
  | zero => rfl
  | succ n ih => rw [loop, hround, ih]

/-- Every round before the queue is empty takes a node. -/
theorem loop_length : ∀ (n : ℕ) {s : Kahn V}, (loop succ enqueue n s).queue ≠ [] →
    (loop succ enqueue n s).result.length = s.result.length + n
  | 0, _, _ => rfl
  | n + 1, s, h => by
    rw [loop] at h ⊢
    rw [loop_length n h]
    rcases hqueue : s.queue with _ | ⟨v, queue⟩
    · have hround : round succ enqueue s = s := by
        unfold round
        rw [hqueue]
      rw [hround, loop_of_empty n hqueue] at h
      exact absurd hqueue h
    · have hround : (round succ enqueue s).result.length = s.result.length + 1 := by
        unfold round
        rw [hqueue]
        simp only [lower_result, List.length_append, List.length_singleton]
      omega

/-- TOTAL: there are no more rounds than nodes. -/
theorem loop_ends {nodes : List V} (henqueue : ∀ q v, (enqueue q v).Perm (v :: q))
    (hclosed : ∀ v ∈ nodes, ∀ w ∈ succ v, w ∈ nodes) {s : Kahn V} (h : Counted succ nodes [] s) :
    (loop succ enqueue nodes.length s).queue = [] := by
  by_contra hqueue
  have hend := h.loop henqueue hclosed nodes.length
  have hlength := loop_length nodes.length hqueue
  have hle := (List.Nodup.subperm hend.distinct hend.known).length_le
  rw [List.length_append] at hle
  have hpos := List.length_pos_iff.mpr hqueue
  omega

namespace Counted
variable {nodes : List V} {s : Kahn V}

/-- Where all nodes were taken, no node reaches itself. -/
theorem acyclic (h : Counted succ nodes [] s) (hclosed : ∀ v ∈ nodes, ∀ w ∈ succ v, w ∈ nodes)
    (hall : ∀ v ∈ nodes, v ∈ s.result) {v : V} (hv : v ∈ nodes) :
    ¬ Relation.TransGen (fun a b => b ∈ succ a) v v := by
  have hnodup : s.result.Nodup := (List.nodup_append.mp h.distinct).1
  have hstep : ∀ {a b : V}, a ∈ nodes → b ∈ succ a → s.result.idxOf a < s.result.idxOf b := by
    intro a b ha hedge
    obtain ⟨xs, ys, hcut⟩ := List.append_of_mem (hall b (hclosed a ha b hedge))
    have hbefore := h.ordered hcut a ha hedge
    have hnot : b ∉ xs := by
      rw [hcut] at hnodup
      exact fun hmem => List.disjoint_of_nodup_append hnodup hmem (List.mem_cons_self ..)
    rw [hcut, List.idxOf_append_of_mem hbefore, List.idxOf_append_of_notMem hnot,
      List.idxOf_cons_self]
    exact List.idxOf_lt_length_of_mem hbefore
  have hreach : ∀ {a b : V}, Relation.TransGen (fun a b => b ∈ succ a) a b → a ∈ nodes →
      b ∈ nodes ∧ s.result.idxOf a < s.result.idxOf b := by
    intro a b hab ha
    induction hab with
    | single hedge => exact ⟨hclosed a ha _ hedge, hstep ha hedge⟩
    | tail _ hedge ih => exact ⟨hclosed _ ih.1 _ hedge, ih.2.trans (hstep ih.1 hedge)⟩
  exact fun hcycle => absurd (hreach hcycle hv).2 (lt_irrefl _)

/-- Where nothing waits and a node was not taken, some node reaches itself. -/
theorem cyclic (h : Counted succ nodes [] s) (hqueue : s.queue = []) {v : V} (hv : v ∈ nodes)
    (hleft : v ∉ s.result) : ∃ u ∈ nodes, Relation.TransGen (fun a b => b ∈ succ a) u u := by
  obtain ⟨u, hu, hcycle⟩ := cycle_of_predecessors (r := fun a b => b ∈ succ a)
    (s := left nodes s.result) ⟨v, mem_left.mpr ⟨hv, hleft⟩⟩ fun w hw => by
      obtain ⟨hw, hnew⟩ := mem_left.mp hw
      by_contra hnone
      push Not at hnone
      have hzero : s.degree w = 0 := by
        rw [h.degree w hw, List.count_nil, Nat.cast_zero, add_zero]
        exact Finset.sum_eq_zero fun x hx =>
          Int.natCast_eq_zero.mpr (List.count_eq_zero.mpr (hnone x hx))
      have hmem := (h.ready w hw).mpr hzero
      rw [hqueue, List.append_nil] at hmem
      exact hnew hmem
  exact ⟨u, (mem_left.mp hu).1, hcycle⟩

/-- CORRECT: when nothing waits, all nodes were taken exactly if no node reaches itself. -/
theorem length_eq_iff (h : Counted succ nodes [] s) (hnodup : nodes.Nodup)
    (hclosed : ∀ v ∈ nodes, ∀ w ∈ succ v, w ∈ nodes) (hqueue : s.queue = []) :
    s.result.length = nodes.length ↔
      ∀ v ∈ nodes, ¬ Relation.TransGen (fun a b => b ∈ succ a) v v := by
  have hdistinct : s.result.Nodup := (List.nodup_append.mp h.distinct).1
  have hsubperm : s.result.Subperm nodes :=
    hdistinct.subperm fun v hv => h.known v (List.mem_append_left _ hv)
  constructor
  · intro hlength v hv
    have hperm := hsubperm.perm_of_length_le hlength.ge
    exact h.acyclic hclosed (fun x hx => hperm.mem_iff.mpr hx) hv
  · intro hacyclic
    refine le_antisymm hsubperm.length_le ?_
    refine (hnodup.subperm fun v hv => ?_).length_le
    by_contra hleft
    obtain ⟨u, hu, hcycle⟩ := h.cyclic hqueue hv hleft
    exact hacyclic u hu hcycle

/-- When all nodes were taken, each was taken once. -/
theorem perm (h : Counted succ nodes [] s) (hlength : s.result.length = nodes.length) :
    s.result.Perm nodes := by
  have hdistinct : s.result.Nodup := (List.nodup_append.mp h.distinct).1
  exact (hdistinct.subperm fun v hv => h.known v (List.mem_append_left _ hv)).perm_of_length_le
    hlength.ge

end Counted
end Kahn
end Dpone.Schemes
