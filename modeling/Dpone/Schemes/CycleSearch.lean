import Mathlib.Data.List.Chain
import Mathlib.Data.List.Nodup
import Mathlib.Data.List.Perm.Subperm
import Mathlib.Logic.Relation

/-! Depth-first search for cycles: the nodes that were visited, those the search is inside of, and
    the cycles that it closed.

    The search is a recursion bounded by its fuel; `visit_finds` shows that one more than the nodes
    that are left is enough. A node that is left behind reaches no cycle while none was closed: it is
    accessible (`Acc`) along the edges. -/

namespace Dpone.Schemes

variable {V : Type}

structure CycleSearch (V : Type) where
  visited : List V
  stack : List V
  cycles : List (List V)

namespace CycleSearch
variable (succ : V → List V)

/-- The edges of the graph. -/
def Edge (a b : V) : Prop := b ∈ succ a

/-- Nodes along edges, back to the first. -/
def IsCycle (c : List V) : Prop := c.IsChain (Edge succ) ∧ ∃ v between, c = v :: (between ++ [v])

/-- A node on a cycle reaches itself. -/
theorem IsCycle.reaches {succ : V → List V} {c : List V} (h : IsCycle succ c) :
    ∃ v ∈ c, Relation.TransGen (Edge succ) v v := by
  obtain ⟨hchain, v, between, rfl⟩ := h
  refine ⟨v, List.mem_cons_self .., ?_⟩
  rcases between with _ | ⟨w, between⟩
  · exact .single (List.isChain_pair.mp hchain)
  · rw [List.cons_append, List.isChain_cons_cons] at hchain
    have hlast : (w :: (between ++ [v])).getLast (List.cons_ne_nil _ _) = v :=
      List.getLast_append_singleton (w :: between)
    exact .head' hchain.1 (List.relationReflTransGen_of_exists_isChain_cons _ hchain.2 hlast)

/-- An accessible node does not precede itself. -/
theorem not_self_of_acc {r : V → V → Prop} {v : V} (h : Acc r v) : ¬ r v v := by
  induction h with
  | intro v _ ih => exact fun hself => ih v hself hself

variable [DecidableEq V]

/-- The search from a node that a path leads to. -/
def visit : ℕ → V → List V → CycleSearch V → Option (CycleSearch V)
  | 0, _, _, _ => none
  | fuel + 1, v, path, s =>
    if v ∈ s.stack then
      some { s with cycles := s.cycles ++ [path.drop (path.idxOf v) ++ [v]] }
    else if v ∈ s.visited then some s
    else do
      let s' ← (succ v).foldlM (fun s w => visit fuel w (path ++ [v]) s)
        { s with visited := v :: s.visited, stack := v :: s.stack }
      return { s' with stack := s'.stack.erase v }

/-- The search from every node that was not visited. -/
def search (fuel : ℕ) (nodes : List V) (s : CycleSearch V) : Option (CycleSearch V) :=
  nodes.foldlM (fun s v => if v ∈ s.visited then some s else visit succ fuel v [] s) s

variable {succ} {nodes : List V}

/-! ### One visit -/

/-- What the search keeps when it is at the end of a path. -/
structure Inside (succ : V → List V) (nodes path : List V) (s : CycleSearch V) : Prop where
  stack : ∀ u, u ∈ s.stack ↔ u ∈ path
  inside : ∀ u ∈ s.stack, u ∈ s.visited
  known : ∀ u ∈ s.visited, u ∈ nodes
  distinct : s.visited.Nodup
  behind : s.cycles = [] → ∀ u ∈ s.visited, u ∉ s.stack → Acc (flip (Edge succ)) u

/-- What a search does from one state to another. -/
structure Extends (succ : V → List V) (s s' : CycleSearch V) : Prop where
  stack : s'.stack = s.stack
  visited : s.visited <:+ s'.visited
  cycles : ∃ more, s'.cycles = s.cycles ++ more ∧ ∀ c ∈ more, IsCycle succ c

namespace Extends
omit [DecidableEq V]
variable {s s' s'' : CycleSearch V}

theorem refl (s : CycleSearch V) : Extends succ s s :=
  ⟨rfl, List.suffix_refl _, [], (List.append_nil _).symm, List.forall_mem_nil _⟩

theorem trans (h : Extends succ s s') (h' : Extends succ s' s'') : Extends succ s s'' := by
  obtain ⟨more, hmore, hreal⟩ := h.cycles
  obtain ⟨more', hmore', hreal'⟩ := h'.cycles
  refine ⟨h'.stack.trans h.stack, h.visited.trans h'.visited, more ++ more', ?_, ?_⟩
  · rw [hmore', hmore, List.append_assoc]
  · intro c hc
    rcases List.mem_append.mp hc with hc | hc
    · exact hreal c hc
    · exact hreal' c hc

theorem cycles_nil (h : Extends succ s s') (hnil : s'.cycles = []) : s.cycles = [] := by
  obtain ⟨more, hmore, -⟩ := h.cycles
  rw [hnil] at hmore
  exact (List.append_eq_nil_iff.mp hmore.symm).1

end Extends

/-- The end of a path that comes back to a node of it is a cycle. -/
theorem closes {path : List V} {v : V} (hpath : (path ++ [v]).IsChain (Edge succ)) (hv : v ∈ path) :
    IsCycle succ (path.drop (path.idxOf v) ++ [v]) := by
  have hlt := List.idxOf_lt_length_of_mem hv
  have hdrop : (path ++ [v]).drop (path.idxOf v) = path.drop (path.idxOf v) ++ [v] :=
    List.drop_append_of_le_length hlt.le
  refine ⟨hdrop ▸ hpath.drop _, v, path.drop (path.idxOf v + 1), ?_⟩
  rw [List.drop_eq_getElem_cons hlt, List.getElem_idxOf hlt, List.cons_append]

/-- What a visit of `v` at the end of a path achieves. -/
structure Visited (succ : V → List V) (nodes path : List V) (v : V) (s s' : CycleSearch V) :
    Prop where
  inside : Inside succ nodes path s'
  grows : Extends succ s s'
  reached : v ∈ s'.visited
  cycles : v ∈ s.stack → s'.cycles ≠ []

/-- STEP: the visits of the successors of a node, where each visit does what it should. -/
theorem visit_all {fuel : ℕ} {path : List V} {v : V}
    (hvisit : ∀ w ∈ succ v, ∀ {s : CycleSearch V}, Inside succ nodes (path ++ [v]) s →
      nodes.length < fuel + s.visited.length →
      ∃ s', visit succ fuel w (path ++ [v]) s = some s' ∧
        Visited succ nodes (path ++ [v]) w s s') :
    ∀ {ws : List V} {s : CycleSearch V}, (∀ w ∈ ws, w ∈ succ v) →
      Inside succ nodes (path ++ [v]) s → nodes.length < fuel + s.visited.length →
      ∃ s', ws.foldlM (fun s w => visit succ fuel w (path ++ [v]) s) s = some s' ∧
        Inside succ nodes (path ++ [v]) s' ∧ Extends succ s s' ∧
        (s'.cycles = [] → ∀ w ∈ ws, Acc (flip (Edge succ)) w)
  | [], s, _, hinside, _ => ⟨s, rfl, hinside, .refl s, fun _ => List.forall_mem_nil _⟩
  | w :: ws, s, hws, hinside, hfuel => by
    obtain ⟨s₁, hs₁, hvisited⟩ := hvisit w (hws w (List.mem_cons_self ..)) hinside hfuel
    have hlonger := hvisited.grows.visited.length_le
    have hrest : ∀ x ∈ ws, x ∈ succ v := fun x hx => hws x (List.mem_cons_of_mem _ hx)
    obtain ⟨s₂, hs₂, hinside₂, hgrows₂, hacc₂⟩ :=
      visit_all hvisit hrest hvisited.inside (by omega)
    refine ⟨s₂, ?_, hinside₂, hvisited.grows.trans hgrows₂, ?_⟩
    · rw [List.foldlM_cons, hs₁]
      exact hs₂
    · intro hnil x hx
      rcases List.mem_cons.mp hx with rfl | hx
      · -- a successor on the path would have closed a cycle
        have hnil₁ := hgrows₂.cycles_nil hnil
        refine hvisited.inside.behind hnil₁ x hvisited.reached fun hstack => ?_
        rw [hvisited.grows.stack] at hstack
        exact hvisited.cycles hstack hnil₁
      · exact hacc₂ hnil x hx

/-- STEP: with fuel for the nodes that are left, a visit ends; it closes cycles only, and leaves
    behind nodes that reach none, unless it closed one. -/
theorem visit_finds (hclosed : ∀ v ∈ nodes, ∀ w ∈ succ v, w ∈ nodes) : ∀ (fuel : ℕ) {v : V}
    {path : List V} {s : CycleSearch V}, v ∈ nodes → (path ++ [v]).IsChain (Edge succ) →
      Inside succ nodes path s → nodes.length < fuel + s.visited.length →
      ∃ s', visit succ fuel v path s = some s' ∧ Visited succ nodes path v s s'
  | 0, v, path, s, _, _, hinside, hfuel => by
    have hle := (hinside.distinct.subperm hinside.known).length_le
    omega
  | fuel + 1, v, path, s, hv, hpath, hinside, hfuel => by
    rw [visit]
    by_cases hstack : v ∈ s.stack
    · rw [if_pos hstack]
      have hcycle := closes hpath ((hinside.stack v).mp hstack)
      refine ⟨_, rfl, ⟨hinside.stack, hinside.inside, hinside.known, hinside.distinct, ?_⟩,
        ⟨rfl, List.suffix_refl _, _, rfl, List.forall_mem_singleton.mpr hcycle⟩,
        hinside.inside v hstack, fun _ => List.append_ne_nil_of_right_ne_nil _ (List.cons_ne_nil _ _)⟩
      intro hnil
      exact absurd hnil (List.append_ne_nil_of_right_ne_nil _ (List.cons_ne_nil _ _))
    · rw [if_neg hstack]
      by_cases hvisited : v ∈ s.visited
      · rw [if_pos hvisited]
        exact ⟨s, rfl, hinside, .refl s, hvisited, fun h => absurd h hstack⟩
      · rw [if_neg hvisited]
        have hentered : Inside succ nodes (path ++ [v])
            { s with visited := v :: s.visited, stack := v :: s.stack } := by
          refine ⟨fun u => ?_, fun u hu => ?_, fun u hu => ?_, ?_, fun hnil u hu hout => ?_⟩
          · rw [List.mem_cons, hinside.stack, List.mem_append, List.mem_singleton]
            exact or_comm
          · rcases List.mem_cons.mp hu with rfl | hu
            · exact List.mem_cons_self ..
            · exact List.mem_cons_of_mem _ (hinside.inside u hu)
          · rcases List.mem_cons.mp hu with rfl | hu
            · exact hv
            · exact hinside.known u hu
          · exact List.nodup_cons.mpr ⟨hvisited, hinside.distinct⟩
          · rw [List.mem_cons, not_or] at hout
            rcases List.mem_cons.mp hu with rfl | hu
            · exact absurd rfl hout.1
            · exact hinside.behind hnil u hu hout.2
        obtain ⟨s', hs', hinside', hgrows, hacc⟩ := visit_all
          (fun w hw {s} hs hfuel => visit_finds hclosed fuel (hclosed v hv w hw)
            (List.isChain_append.mpr ⟨hpath, List.isChain_singleton w, by simpa [Edge] using hw⟩) hs hfuel)
          (fun w hw => hw) hentered (by simp only [List.length_cons]; omega)
        have hstack' : s'.stack = v :: s.stack := hgrows.stack
        have hreached : v ∈ s'.visited := hgrows.visited.subset (List.mem_cons_self ..)
        refine ⟨{ s' with stack := s'.stack.erase v }, by rw [hs']; rfl, ⟨?_, ?_, hinside'.known,
          hinside'.distinct, ?_⟩, ⟨?_, ?_, hgrows.cycles⟩, hreached, fun h => absurd h hstack⟩
        · intro u
          show u ∈ s'.stack.erase v ↔ _
          rw [hstack', List.erase_cons_head]
          exact hinside.stack u
        · intro u hu
          exact hinside'.inside u (List.mem_of_mem_erase hu)
        · intro hnil u hu hout
          have hout' : u ∉ s.stack := by
            rwa [hstack', List.erase_cons_head] at hout
          by_cases huv : u = v
          · subst huv
            exact .intro _ fun w hw => hacc hnil w hw
          · refine hinside'.behind hnil u hu ?_
            rw [hstack', List.mem_cons, not_or]
            exact ⟨huv, hout'⟩
        · show s'.stack.erase v = s.stack
          rw [hstack', List.erase_cons_head]
        · exact (List.suffix_cons v s.visited).trans hgrows.visited

/-! ### The whole search -/

theorem search_from (hclosed : ∀ v ∈ nodes, ∀ w ∈ succ v, w ∈ nodes) {fuel : ℕ}
    (hfuel : nodes.length < fuel) : ∀ {starts : List V} {s : CycleSearch V},
      (∀ v ∈ starts, v ∈ nodes) → Inside succ nodes [] s →
      ∃ s', search succ fuel starts s = some s' ∧ Inside succ nodes [] s' ∧ Extends succ s s' ∧
        ∀ v ∈ starts, v ∈ s'.visited
  | [], s, _, hinside => ⟨s, rfl, hinside, .refl s, List.forall_mem_nil _⟩
  | v :: starts, s, hstarts, hinside => by
    have hv := hstarts v (List.mem_cons_self ..)
    obtain ⟨s₁, hs₁, hinside₁, hgrows₁, hreached₁⟩ : ∃ s₁,
        (if v ∈ s.visited then some s else visit succ fuel v [] s) = some s₁ ∧
          Inside succ nodes [] s₁ ∧ Extends succ s s₁ ∧ v ∈ s₁.visited := by
      by_cases hvisited : v ∈ s.visited
      · exact ⟨s, if_pos hvisited, hinside, .refl s, hvisited⟩
      · obtain ⟨s₁, hs₁, hvisit⟩ := visit_finds hclosed fuel hv (List.isChain_singleton v) hinside
          (by omega)
        exact ⟨s₁, (if_neg hvisited).trans hs₁, hvisit.inside, hvisit.grows, hvisit.reached⟩
    obtain ⟨s₂, hs₂, hinside₂, hgrows₂, hreached₂⟩ := search_from hclosed hfuel
      (fun x hx => hstarts x (List.mem_cons_of_mem _ hx)) hinside₁
    refine ⟨s₂, ?_, hinside₂, hgrows₁.trans hgrows₂, ?_⟩
    · rw [search, List.foldlM_cons, hs₁]
      exact hs₂
    · intro x hx
      rcases List.mem_cons.mp hx with rfl | hx
      · exact hgrows₂.visited.subset hreached₁
      · exact hreached₂ x hx

/-- CORRECT: with fuel for all nodes the search ends, every cycle that it closes is one, and it
    closes none only when no node reaches itself. -/
theorem search_correct (hclosed : ∀ v ∈ nodes, ∀ w ∈ succ v, w ∈ nodes) :
    ∃ s, search succ (nodes.length + 1) nodes ⟨[], [], []⟩ = some s ∧
      (∀ c ∈ s.cycles, IsCycle succ c) ∧
      (s.cycles = [] → ∀ v ∈ nodes, ¬ Relation.TransGen (Edge succ) v v) := by
  obtain ⟨s, hs, hinside, hgrows, hreached⟩ := search_from hclosed (Nat.lt_succ_self _)
    (fun v hv => hv) (s := ⟨[], [], []⟩)
    ⟨fun _ => Iff.rfl, List.forall_mem_nil _, List.forall_mem_nil _, List.nodup_nil,
      fun _ => List.forall_mem_nil _⟩
  obtain ⟨more, hmore, hreal⟩ := hgrows.cycles
  have hcycles : s.cycles = more := by simpa using hmore
  refine ⟨s, hs, hcycles ▸ hreal, fun hnil v hv hcycle => ?_⟩
  have hstack : s.stack = [] := hgrows.stack
  have hacc := (hinside.behind hnil v (hreached v hv) (by simp [hstack])).transGen
  have hback : Relation.TransGen (flip (Edge succ)) v v := Relation.transGen_swap.mpr hcycle
  exact not_self_of_acc hacc hback

end CycleSearch
end Dpone.Schemes
