import Mathlib.Data.List.Nodup
import Mathlib.Data.List.Perm.Subperm
import Mathlib.Data.Nat.Basic
import Mathlib.Logic.Relation
import Mathlib.Order.Basic
import Dpone.Schemes.Dict

/-! Breadth-first search that keeps the path on which each node was found.

    The nodes wait in the order in which they were found, so their paths grow and the path of the
    last one is at most one step longer than that of the first (`Layered`). CORRECT: when no node
    waits, exactly the nodes that can be reached were found, each on a path that no other path to it
    is shorter than. -/

namespace Dpone.Schemes

section Paths
variable {V : Type}

/-- A path from `root` along `next`, with both ends. -/
inductive Path (next : V → List V) (root : V) : V → List V → Prop
  | root : Path next root root [root]
  | step {v w : V} {path : List V} (h : Path next root v path) (hw : w ∈ next v) :
    Path next root w (path ++ [w])

/-- A path that no other path to the same node is shorter than. -/
def Shortest (next : V → List V) (root v : V) (path : List V) : Prop :=
  Path next root v path ∧ ∀ other, Path next root v other → path.length ≤ other.length

theorem shortest_root (next : V → List V) (root : V) : Shortest next root root [root] := by
  refine ⟨.root, ?_⟩
  intro other hother
  cases hother with
  | root => exact Nat.le_refl 1
  | step hpath hw =>
    rw [List.length_append]
    exact Nat.le_add_left 1 _

/-- The nodes at the end of paths are those that can be reached. -/
theorem reaches_iff_path {next : V → List V} {root v : V} :
    Relation.ReflTransGen (fun a b => b ∈ next a) root v ↔ ∃ path, Path next root v path := by
  constructor
  · intro h
    induction h with
    | refl => exact ⟨[root], .root⟩
    | tail hreach hstep ih =>
      obtain ⟨path, hpath⟩ := ih
      exact ⟨_, .step hpath hstep⟩
  · rintro ⟨path, hpath⟩
    induction hpath with
    | root => exact .refl
    | step hpath hw ih => exact ih.tail hw

/-- Paths depend on which neighbours a node has, and not on their order. -/
theorem Path.congr {next other : V → List V} (h : ∀ v w, w ∈ next v ↔ w ∈ other v) {root v : V}
    {path : List V} : Path next root v path ↔ Path other root v path := by
  constructor
  · intro hpath
    induction hpath with
    | root => exact .root
    | step hpath hw ih => exact .step ih ((h _ _).mp hw)
  · intro hpath
    induction hpath with
    | root => exact .root
    | step hpath hw ih => exact .step ih ((h _ _).mpr hw)

theorem Shortest.congr {next other : V → List V} (h : ∀ v w, w ∈ next v ↔ w ∈ other v) {root v : V}
    {path : List V} : Shortest next root v path ↔ Shortest other root v path := by
  simp only [Shortest, Path.congr h]

/-- All that is found lies in a set of nodes with their neighbours. -/
theorem Path.mem {next : V → List V} {root v : V} {nodes path : List V} (hroot : root ∈ nodes)
    (hclosed : ∀ v ∈ nodes, ∀ w ∈ next v, w ∈ nodes) (h : Path next root v path) : v ∈ nodes := by
  induction h with
  | root => exact hroot
  | step hpath hw ih => exact hclosed _ ih _ hw

end Paths

/-- The state of the loop: the nodes that wait, and the nodes that were found with their paths. -/
structure Search (V : Type) where
  queue : List V
  paths : List (V × List V)

namespace Search
variable {V : Type}

/-- Only the root was found. -/
def start (root : V) : Search V := ⟨[root], [(root, [root])]⟩

variable [DecidableEq V] (next : V → List V)

/-- A neighbour waits, unless it was found before. -/
def visit (path : List V) (s : Search V) (w : V) : Search V :=
  if w ∈ s.paths.map Prod.fst then s
  else ⟨s.queue ++ [w], s.paths ++ [(w, path ++ [w])]⟩

/-- One round of the loop. -/
def round (s : Search V) : Search V :=
  match s.queue with
  | [] => s
  | v :: queue => (next v).foldl (visit ((s.paths.lookup v).getD [])) ⟨queue, s.paths⟩

def loop : ℕ → Search V → Search V
  | 0, s => s
  | n + 1, s => loop n (round next s)


/-! ### One node -/

/-- What holds of the paths: one a node, in the order of their lengths, none over the limit. -/
structure Grown (next : V → List V) (root : V) (limit : ℕ) (paths : List (V × List V)) : Prop where
  distinct : (paths.map Prod.fst).Nodup
  path : ∀ e ∈ paths, Path next root e.1 e.2
  sorted : paths.Pairwise fun a b => a.2.length ≤ b.2.length
  within : ∀ e ∈ paths, e.2.length ≤ limit
  rooted : paths.head? = some (root, [root])

variable {next} {root v : V} {path : List V} {limit : ℕ} {s : Search V}

theorem Grown.lookup {paths : List (V × List V)} (h : Grown next root limit paths)
    (hmem : (v, path) ∈ paths) : paths.lookup v = some path :=
  Dict.lookup_of_mem h.distinct hmem

/-- STEP: one neighbour is looked at. -/
theorem Grown.visit (h : Grown next root (path.length + 1) s.paths) (hpath : Path next root v path)
    {w : V} (hw : w ∈ next v) :
    ∃ found : List (V × List V), (visit path s w).paths = s.paths ++ found ∧
      (visit path s w).queue = s.queue ++ found.map Prod.fst ∧
      (∀ e ∈ found, e.2.length = path.length + 1) ∧
      Grown next root (path.length + 1) (visit path s w).paths ∧
      w ∈ (visit path s w).paths.map Prod.fst := by
  unfold Search.visit
  by_cases hknown : w ∈ s.paths.map Prod.fst
  · rw [if_pos hknown]
    exact ⟨[], by simp, by simp, by simp, h, hknown⟩
  · rw [if_neg hknown]
    have hlength : (path ++ [w]).length = path.length + 1 := by simp
    refine ⟨[(w, path ++ [w])], rfl, rfl, ?_, ⟨?_, ?_, ?_, ?_, ?_⟩, ?_⟩
    · intro e he
      rw [List.mem_singleton.mp he]
      exact hlength
    · rw [List.map_append, List.nodup_append]
      refine ⟨h.distinct, by simp, ?_⟩
      intro a ha b hb hab
      rw [List.map_singleton, List.mem_singleton] at hb
      rw [hab, hb] at ha
      exact hknown ha
    · intro e he
      rcases List.mem_append.mp he with he | he
      · exact h.path e he
      · rw [List.mem_singleton.mp he]
        exact .step hpath hw
    · rw [List.pairwise_append]
      refine ⟨h.sorted, by simp, ?_⟩
      intro a ha b hb
      rw [List.mem_singleton.mp hb, hlength]
      exact h.within a ha
    · intro e he
      rcases List.mem_append.mp he with he | he
      · exact h.within e he
      · rw [List.mem_singleton.mp he]
        exact Nat.le_of_eq hlength
    · rw [List.head?_append, h.rooted]
      rfl
    · simp

/-- STEP: all neighbours of a node are looked at. -/
theorem Grown.visit_all (hpath : Path next root v path) : ∀ {ws : List V} {s : Search V},
    (∀ w ∈ ws, w ∈ next v) → Grown next root (path.length + 1) s.paths →
    ∃ found : List (V × List V), (ws.foldl (Search.visit path) s).paths = s.paths ++ found ∧
      (ws.foldl (Search.visit path) s).queue = s.queue ++ found.map Prod.fst ∧
      (∀ e ∈ found, e.2.length = path.length + 1) ∧
      Grown next root (path.length + 1) (ws.foldl (Search.visit path) s).paths ∧
      ∀ w ∈ ws, w ∈ (ws.foldl (Search.visit path) s).paths.map Prod.fst
  | [], s, _, h => ⟨[], by simp, by simp, by simp, h, by simp⟩
  | w :: ws, s, hws, h => by
    obtain ⟨first, hpaths, hqueue, hlengths, hgrown, hmem⟩ :=
      h.visit hpath (hws w (List.mem_cons_self ..))
    obtain ⟨found, hpaths', hqueue', hlengths', hgrown', hmem'⟩ :=
      Grown.visit_all hpath (fun x hx => hws x (List.mem_cons_of_mem _ hx)) hgrown
    refine ⟨first ++ found, ?_, ?_, ?_, hgrown', ?_⟩
    · rw [List.foldl_cons, hpaths', hpaths, List.append_assoc]
    · rw [List.foldl_cons, hqueue', hqueue, List.map_append, List.append_assoc]
    · intro e he
      rcases List.mem_append.mp he with he | he
      · exact hlengths e he
      · exact hlengths' e he
    · intro x hx
      rcases List.mem_cons.mp hx with rfl | hx
      · rw [List.foldl_cons, hpaths', List.map_append]
        exact List.mem_append_left _ hmem
      · exact hmem' x hx

/-! ### The invariant -/

/-- What holds between two rounds: the paths are those of the nodes that are done and of those that
    wait; the first that waits bounds them all, and every neighbour of a node that is done has a
    path that is at most one step longer. -/
structure Layered (next : V → List V) (root : V) (done waiting : List (V × List V))
    (s : Search V) : Prop where
  split : s.paths = done ++ waiting
  queue : s.queue = waiting.map Prod.fst
  grown : ∃ limit, Grown next root limit s.paths
  near : ∀ b ∈ waiting, ∀ a ∈ s.paths, a.2.length ≤ b.2.length + 1
  closed : ∀ a ∈ done, ∀ w ∈ next a.1, ∃ b ∈ s.paths, b.1 = w ∧ b.2.length ≤ a.2.length + 1

omit [DecidableEq V] in
/-- The root waits at the start. -/
theorem layered_start (next : V → List V) (root : V) :
    Layered next root [] [(root, [root])] (start root) where
  split := rfl
  queue := rfl
  grown := ⟨1, by simp [start], by simp [start, Path.root], by simp [start], by simp [start], rfl⟩
  near := by simp [start]
  closed := by simp

/-- STEP: the first node that waits is done. -/
theorem Layered.round {done waiting : List (V × List V)} {e : V × List V}
    (h : Layered next root done (e :: waiting) s) :
    ∃ found, Layered next root (done ++ [e]) (waiting ++ found) (round next s) := by
  obtain ⟨v, path⟩ := e
  obtain ⟨limit, hgrown⟩ := h.grown
  have hmem : (v, path) ∈ s.paths := by
    rw [h.split]
    exact List.mem_append_right _ (List.mem_cons_self ..)
  have hlimit : Grown next root (path.length + 1) s.paths :=
    { hgrown with within := h.near (v, path) (List.mem_cons_self ..) }
  have hround : Search.round next s =
      (next v).foldl (Search.visit path) ⟨waiting.map Prod.fst, s.paths⟩ := by
    unfold Search.round
    rw [h.queue, List.map_cons]
    simp only [hgrown.lookup hmem, Option.getD_some]
  obtain ⟨found, hpaths, hqueue, hlengths, hnew, hall⟩ :=
    Grown.visit_all (hgrown.path _ hmem) (fun w hw => hw)
      (s := ⟨waiting.map Prod.fst, s.paths⟩) hlimit
  rw [← hround] at hpaths hqueue hnew hall
  have hpaths : (Search.round next s).paths = s.paths ++ found := hpaths
  refine ⟨found, ?_, ?_, ⟨_, hnew⟩, ?_, ?_⟩
  · rw [hpaths, h.split]
    simp
  · rw [hqueue, List.map_append]
  · intro b hb a ha
    rcases List.mem_append.mp hb with hb | hb
    · -- a node that waited already has a path no shorter than the one that is done now
      have hsorted := hgrown.sorted
      rw [h.split, List.pairwise_append] at hsorted
      have hle : path.length ≤ b.2.length := (List.pairwise_cons.mp hsorted.2.1).1 b hb
      have hwithin : a.2.length ≤ path.length + 1 := hnew.within a ha
      omega
    · have hlength : b.2.length = path.length + 1 := hlengths b hb
      have hwithin : a.2.length ≤ path.length + 1 := hnew.within a ha
      omega
  · intro a ha w hw
    rcases List.mem_append.mp ha with ha | ha
    · obtain ⟨b, hb, hname, hle⟩ := h.closed a ha w hw
      refine ⟨b, ?_, hname, hle⟩
      rw [hpaths]
      exact List.mem_append_left _ hb
    · obtain rfl := List.mem_singleton.mp ha
      obtain ⟨b, hb, hname⟩ := List.mem_map.mp (hall w hw)
      exact ⟨b, hb, hname, hnew.within b hb⟩

/-- RUN: `n` rounds make `n` nodes done, unless no node waits before. -/
theorem Layered.loop : ∀ (n : ℕ) {done waiting : List (V × List V)} {s : Search V},
    Layered next root done waiting s →
    ∃ done' waiting', Layered next root done' waiting' (loop next n s) ∧
      (waiting' = [] ∨ done'.length = done.length + n)
  | 0, done, waiting, _, h => ⟨done, waiting, h, .inr rfl⟩
  | n + 1, done, [], s, h => by
    have hround : Search.round next s = s := by
      unfold Search.round
      rw [h.queue]
      rfl
    have hstay : ∀ n, Search.loop next n s = s := by
      intro n
      induction n with
      | zero => rfl
      | succ n ih => rw [Search.loop, hround, ih]
    rw [hstay]
    exact ⟨done, [], h, .inl rfl⟩
  | n + 1, done, e :: waiting, s, h => by
    obtain ⟨found, hround⟩ := h.round
    obtain ⟨done', waiting', hloop, hlength⟩ := hround.loop n
    refine ⟨done', waiting', hloop, hlength.imp_right ?_⟩
    intro heq
    rw [heq, List.length_append, List.length_singleton]
    omega

/-- TOTAL: there are no more rounds than nodes. -/
theorem loop_ends {nodes : List V} (hroot : root ∈ nodes)
    (hclosed : ∀ v ∈ nodes, ∀ w ∈ next v, w ∈ nodes) :
    ∃ done, Layered next root done [] (loop next nodes.length (start root)) := by
  obtain ⟨done, waiting, hloop, hend⟩ := (layered_start next root).loop nodes.length
  rcases waiting with _ | ⟨e, waiting⟩
  · exact ⟨done, hloop⟩
  · exfalso
    obtain ⟨limit, hgrown⟩ := hloop.grown
    have hall : (loop next nodes.length (start root)).paths.map Prod.fst ⊆ nodes := by
      intro x hx
      obtain ⟨b, hb, rfl⟩ := List.mem_map.mp hx
      exact Path.mem hroot hclosed (hgrown.path b hb)
    have hle := (List.Nodup.subperm hgrown.distinct hall).length_le
    rw [List.length_map, hloop.split, List.length_append, List.length_cons] at hle
    rcases hend with hend | hend
    · cases hend
    · simp only [List.length_nil] at hend
      omega

/-! ### The end of the loop -/

section Ends
variable {done : List (V × List V)} (h : Layered next root done [] s)
include h
omit [DecidableEq V]

/-- Some path was found to a node, and it is no longer than any other. -/
theorem Layered.found (hpath : Path next root v path) :
    ∃ e ∈ s.paths, e.1 = v ∧ e.2.length ≤ path.length := by
  induction hpath with
  | root =>
    obtain ⟨limit, hgrown⟩ := h.grown
    exact ⟨_, List.mem_of_head? hgrown.rooted, rfl, Nat.le_refl 1⟩
  | step hpath hw ih =>
    obtain ⟨e, he, rfl, hle⟩ := ih
    have hdone : e ∈ done := by simpa [h.split] using he
    obtain ⟨b, hb, hname, hnext⟩ := h.closed e hdone _ hw
    refine ⟨b, hb, hname, ?_⟩
    rw [List.length_append, List.length_singleton]
    omega

/-- CORRECT: every path that was found is shortest. -/
theorem Layered.shortest : ∀ e ∈ s.paths, Shortest next root e.1 e.2 := by
  intro e he
  obtain ⟨limit, hgrown⟩ := h.grown
  refine ⟨hgrown.path e he, ?_⟩
  intro other hother
  obtain ⟨b, hb, hname, hle⟩ := h.found hother
  have hsame : b = e := List.inj_on_of_nodup_map hgrown.distinct hb he hname
  rw [← hsame]
  exact hle

/-- The root comes first, and never again. -/
theorem Layered.root_first : ∃ rest, s.paths = (root, [root]) :: rest := by
  obtain ⟨limit, hgrown⟩ := h.grown
  exact List.head?_eq_some_iff.mp hgrown.rooted

/-- CORRECT: the nodes that were found are those that can be reached. -/
theorem Layered.mem_iff : v ∈ s.paths.map Prod.fst ↔
    Relation.ReflTransGen (fun a b => b ∈ next a) root v := by
  rw [reaches_iff_path]
  constructor
  · intro hv
    obtain ⟨e, he, rfl⟩ := List.mem_map.mp hv
    exact ⟨e.2, (h.shortest e he).1⟩
  · rintro ⟨path, hpath⟩
    obtain ⟨e, he, rfl, -⟩ := h.found hpath
    exact List.mem_map_of_mem he

end Ends

end Search
end Dpone.Schemes
