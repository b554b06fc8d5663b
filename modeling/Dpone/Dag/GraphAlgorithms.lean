import Dpone.Schemes.CycleSearch
import Dpone.Schemes.Kahn
import Dpone.Schemes.PosixPath

/-! Process graphs: the order in which processes run and the cycles that keep them from running.

    A process is known by its name, so lists of dependents hold names; the graph of a registry has
    one process for each name. -/

namespace Dpone.Dag
open Dpone.Schemes

structure DependencyConfig where
  path : Str
  aliasName : Option Str := none
  group : Option Str := none
  deriving DecidableEq

structure ProcessNode where
  name : Str
  configPath : PosixPath
  selector : Option Str := none
  dependencies : List DependencyConfig := []
  dependents : List Str := []
  upstream : Option Str := none
  taskGroup : Option Str := none
  deriving DecidableEq

/-- `add_dependent`. -/
def ProcessNode.addDependent (n : ProcessNode) (dependent : Str) : ProcessNode :=
  if dependent ∈ n.dependents then n else { n with dependents := n.dependents ++ [dependent] }

/-- `nodes_by_name.get(name)`. -/
def find (nodes : List ProcessNode) (name : Str) : Option ProcessNode :=
  nodes.find? fun n => n.name = name

/-- The dependents of the process of a name, if there is one. -/
def dependentsOf (nodes : List ProcessNode) (name : Str) : List Str :=
  ((find nodes name).map ProcessNode.dependents).getD []

/-- `detect_cycles`; `none` would be a search that does not end. -/
def detectCycles (nodes : List ProcessNode) : Option (List (List Str)) :=
  (CycleSearch.search (dependentsOf nodes) (nodes.length + 1) (nodes.map ProcessNode.name)
    ⟨[], [], []⟩).map CycleSearch.cycles

/-- What the error of `topological_sort` tells. -/
structure CyclicDependency where
  unprocessed : List Str
  cycles : Option (List (List Str))
  deriving DecidableEq

/-- The loop of `topological_sort`, which takes the processes that wait in their order. -/
def sortedNames (nodes : List ProcessNode) : Kahn Str :=
  let names := nodes.map ProcessNode.name
  let degree := Kahn.degrees (dependentsOf nodes) names
  Kahn.loop (dependentsOf nodes) (fun queue name => queue ++ [name]) nodes.length
    ⟨degree, names.filter (degree · = 0), []⟩

/-- `topological_sort`. -/
def topologicalSort (nodes : List ProcessNode) : Except CyclicDependency (List ProcessNode) :=
  let result := (sortedNames nodes).result
  if result.length ≠ nodes.length then
    .error ⟨(nodes.map ProcessNode.name).filter (· ∉ result), detectCycles nodes⟩
  else .ok (result.filterMap (find nodes))

/-! ### Graphs -/

/-- Processes of different names, whose dependents are among them. -/
structure ProcessGraph where
  nodes : List ProcessNode
  distinct : (nodes.map ProcessNode.name).Nodup
  closed : ∀ n ∈ nodes, ∀ dependent ∈ n.dependents, dependent ∈ nodes.map ProcessNode.name

namespace ProcessGraph
variable (g : ProcessGraph)

/-- The second process depends on the first. -/
def Depends (a b : Str) : Prop := ∃ n ∈ g.nodes, n.name = a ∧ b ∈ n.dependents

/-- Processes each of which depends on the one before, back to the first. -/
def IsCycle (c : List Str) : Prop := c.IsChain g.Depends ∧ ∃ a between, c = a :: (between ++ [a])

def Cyclic : Prop := ∃ c, g.IsCycle c

end ProcessGraph

section Find
variable {nodes : List ProcessNode}

theorem find_some {name : Str} {n : ProcessNode} (h : find nodes name = some n) :
    n ∈ nodes ∧ n.name = name :=
  ⟨List.mem_of_find?_eq_some h, by simpa using List.find?_some h⟩

/-- Where names differ, a process is found by its name. -/
theorem find_name (hdistinct : (nodes.map ProcessNode.name).Nodup) {n : ProcessNode}
    (hn : n ∈ nodes) : find nodes n.name = some n := by
  obtain ⟨n', hn'⟩ : ∃ n', find nodes n.name = some n' :=
    Option.isSome_iff_exists.mp (List.find?_isSome.mpr ⟨n, hn, by simp⟩)
  obtain ⟨hmem, hname⟩ := find_some hn'
  rw [hn', List.inj_on_of_nodup_map hdistinct hmem hn hname]

theorem find_of_mem {name : Str} (h : name ∈ nodes.map ProcessNode.name) :
    ∃ n, find nodes name = some n := by
  obtain ⟨n, hn, rfl⟩ := List.mem_map.mp h
  exact Option.isSome_iff_exists.mp (List.find?_isSome.mpr ⟨n, hn, by simp⟩)

/-- What a process that is found adds to its dependents. -/
theorem mem_dependentsOf (hdistinct : (nodes.map ProcessNode.name).Nodup) {a b : Str} :
    b ∈ dependentsOf nodes a ↔ ∃ n ∈ nodes, n.name = a ∧ b ∈ n.dependents := by
  unfold dependentsOf
  constructor
  · intro h
    rcases hfind : find nodes a with _ | n <;> rw [hfind] at h
    · cases h
    · obtain ⟨hn, hname⟩ := find_some hfind
      exact ⟨n, hn, hname, h⟩
  · rintro ⟨n, hn, rfl, hb⟩
    rw [find_name hdistinct hn]
    exact hb

/-- Processes found by the names of processes. -/
theorem filterMap_find (hdistinct : (nodes.map ProcessNode.name).Nodup) : ∀ {ns : List ProcessNode},
    (∀ n ∈ ns, n ∈ nodes) → (ns.map ProcessNode.name).filterMap (find nodes) = ns
  | [], _ => rfl
  | n :: ns, h => by
    rw [List.map_cons, List.filterMap_cons, find_name hdistinct (h n (List.mem_cons_self ..))]
    exact congrArg (n :: ·) (filterMap_find hdistinct fun m hm => h m (List.mem_cons_of_mem _ hm))

end Find

/-! ### Sorting and finding cycles

    CORRECT: the processes of a graph are sorted so that each comes before its dependents, unless the
    graph has a cycle; then sorting raises, and cycles are found. -/

namespace ProcessGraph
variable (g : ProcessGraph)

theorem depends_iff {a b : Str} : g.Depends a b ↔ CycleSearch.Edge (dependentsOf g.nodes) a b :=
  (mem_dependentsOf g.distinct).symm

theorem isCycle_iff {c : List Str} :
    g.IsCycle c ↔ CycleSearch.IsCycle (dependentsOf g.nodes) c := by
  have hsame : g.Depends = CycleSearch.Edge (dependentsOf g.nodes) :=
    funext fun a => funext fun b => propext g.depends_iff
  rw [IsCycle, hsame]
  exact Iff.rfl

theorem dependents_known : ∀ a ∈ g.nodes.map ProcessNode.name, ∀ b ∈ dependentsOf g.nodes a,
    b ∈ g.nodes.map ProcessNode.name := by
  intro a _ b hb
  obtain ⟨n, hn, -, hb⟩ := (mem_dependentsOf g.distinct).mp hb
  exact g.closed n hn b hb

/-- A graph is cyclic when a process reaches itself. -/
theorem cyclic_of_reaches {a : Str} (ha : a ∈ g.nodes.map ProcessNode.name)
    (h : Relation.TransGen (CycleSearch.Edge (dependentsOf g.nodes)) a a) : g.Cyclic := by
  obtain ⟨s, -, hreal, hfound⟩ := CycleSearch.search_correct g.dependents_known
  rcases hcycles : s.cycles with _ | ⟨c, cycles⟩
  · exact absurd h (hfound hcycles a ha)
  · exact ⟨c, g.isCycle_iff.mpr (hreal c (hcycles ▸ List.mem_cons_self ..))⟩

/-- A process on a cycle is one of the graph, and reaches itself. -/
theorem IsCycle.reaches {c : List Str} (h : g.IsCycle c) : ∃ a ∈ g.nodes.map ProcessNode.name,
    Relation.TransGen (CycleSearch.Edge (dependentsOf g.nodes)) a a := by
  obtain ⟨a, -, hreach⟩ := (g.isCycle_iff.mp h).reaches
  obtain ⟨b, hedge, -⟩ := Relation.TransGen.head'_iff.mp hreach
  obtain ⟨n, hn, rfl, -⟩ := g.depends_iff.mpr hedge
  exact ⟨n.name, List.mem_map_of_mem hn, hreach⟩

/-- What `detect_cycles` finds are cycles, and it finds one in every cyclic graph. -/
theorem detectCycles_spec : ∃ cycles, detectCycles g.nodes = some cycles ∧
    (cycles ≠ [] ↔ g.Cyclic) ∧ ∀ c ∈ cycles, g.IsCycle c := by
  obtain ⟨s, hs, hreal, hfound⟩ := CycleSearch.search_correct g.dependents_known
  rw [List.length_map] at hs
  have hcycle : ∀ c ∈ s.cycles, g.IsCycle c := fun c hc => g.isCycle_iff.mpr (hreal c hc)
  refine ⟨s.cycles, ?_, ⟨fun hne => ?_, ?_⟩, hcycle⟩
  · rw [detectCycles, hs]
    rfl
  · obtain ⟨c, hc⟩ := List.exists_mem_of_ne_nil _ hne
    exact ⟨c, hcycle c hc⟩
  · rintro ⟨c, hc⟩ hnil
    obtain ⟨a, ha, hreach⟩ := IsCycle.reaches g hc
    exact hfound hnil a ha hreach

/-- The loop ends with every process taken after those that it depends on. -/
theorem sortedNames_counted :
    Kahn.Counted (dependentsOf g.nodes) (g.nodes.map ProcessNode.name) [] (sortedNames g.nodes) ∧
      (sortedNames g.nodes).queue = [] := by
  have henqueue : ∀ (queue : List Str) name, (queue ++ [name]).Perm (name :: queue) :=
    fun queue name => List.perm_append_singleton name queue
  have hstart : Kahn.Counted (dependentsOf g.nodes) (g.nodes.map ProcessNode.name) [] _ :=
    Kahn.Counted.start g.distinct (List.Perm.refl _)
  have hqueue := Kahn.loop_ends henqueue g.dependents_known hstart
  rw [List.length_map] at hqueue
  exact ⟨hstart.loop henqueue g.dependents_known _, hqueue⟩

/-- All processes were taken exactly when there is no cycle. -/
theorem sortedNames_length :
    (sortedNames g.nodes).result.length = g.nodes.length ↔ ¬ g.Cyclic := by
  obtain ⟨hcounted, hqueue⟩ := g.sortedNames_counted
  have hiff := hcounted.length_eq_iff g.distinct g.dependents_known hqueue
  rw [List.length_map] at hiff
  rw [hiff]
  constructor
  · rintro hnone ⟨c, hc⟩
    obtain ⟨a, ha, hreach⟩ := IsCycle.reaches g hc
    exact hnone a ha hreach
  · exact fun hacyclic a ha hreach => hacyclic (g.cyclic_of_reaches ha hreach)

/-- The order of a graph without a cycle. -/
theorem ordered (hacyclic : ¬ g.Cyclic) :
    ((sortedNames g.nodes).result.filterMap (find g.nodes)).Perm g.nodes ∧
      ∀ n ∈ g.nodes, ∀ n' ∈ g.nodes, n'.name ∈ n.dependents →
        [n, n'].Sublist ((sortedNames g.nodes).result.filterMap (find g.nodes)) := by
  obtain ⟨hcounted, -⟩ := g.sortedNames_counted
  have hlength := g.sortedNames_length.mpr hacyclic
  have hperm := hcounted.perm (hlength.trans (List.length_map _).symm)
  constructor
  · have hall := hperm.filterMap (find g.nodes)
    rwa [filterMap_find g.distinct fun n hn => hn] at hall
  · intro n hn n' hn' hdepends
    obtain ⟨xs, ys, hcut⟩ := List.append_of_mem (hperm.mem_iff.mpr (List.mem_map_of_mem hn'))
    have hedge : n'.name ∈ dependentsOf g.nodes n.name :=
      (mem_dependentsOf g.distinct).mpr ⟨n, hn, rfl, hdepends⟩
    have hbefore := hcounted.ordered hcut n.name (List.mem_map_of_mem hn) hedge
    rw [hcut, List.filterMap_append, List.filterMap_cons, find_name g.distinct hn']
    have hfound : n ∈ xs.filterMap (find g.nodes) :=
      List.mem_filterMap.mpr ⟨n.name, hbefore, find_name g.distinct hn⟩
    exact (List.singleton_sublist.mpr hfound).append
      (List.singleton_sublist.mpr (List.mem_cons_self ..))

/-- A graph without a cycle is sorted. -/
theorem sorted_of_acyclic (hacyclic : ¬ g.Cyclic) : ∃ order, topologicalSort g.nodes = .ok order ∧
    order.Perm g.nodes ∧
      ∀ n ∈ g.nodes, ∀ n' ∈ g.nodes, n'.name ∈ n.dependents → [n, n'].Sublist order :=
  ⟨_, if_neg (not_not_intro (g.sortedNames_length.mpr hacyclic)), g.ordered hacyclic⟩

/-- Sorting a graph with a cycle raises. -/
theorem raises_of_cyclic (hcyclic : g.Cyclic) : ∃ e, topologicalSort g.nodes = .error e :=
  ⟨_, if_pos (mt g.sortedNames_length.mp (not_not_intro hcyclic))⟩

/-- CORRECT: a graph without a cycle is sorted into an order of its processes in which each comes
    before its dependents, and sorting a graph with a cycle raises; `detect_cycles` finds cycles only,
    and finds one where there is one. -/
theorem execution_order :
    (¬ g.Cyclic → ∃ order, topologicalSort g.nodes = .ok order ∧ order.Perm g.nodes ∧
      ∀ n ∈ g.nodes, ∀ n' ∈ g.nodes, n'.name ∈ n.dependents → [n, n'].Sublist order) ∧
    (g.Cyclic → ∃ e, topologicalSort g.nodes = .error e) ∧
    ∃ cycles, detectCycles g.nodes = some cycles ∧
      (cycles ≠ [] ↔ g.Cyclic) ∧ ∀ c ∈ cycles, g.IsCycle c :=
  ⟨g.sorted_of_acyclic, g.raises_of_cyclic, g.detectCycles_spec⟩

end ProcessGraph
end Dpone.Dag
