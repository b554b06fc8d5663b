import Dpone.Dag.EdgeResolver
import Dpone.Dag.GraphAlgorithms

/-! Declared dependencies order processes, or are reported.

    A dependency is dropped without a word exactly when it is `Dangling`: it names a group without
    processes, or selects a process that its file does not have. Every other one names a process
    that runs before, or is logged as unresolved. -/

namespace Dpone.Dag
open Dpone.Schemes

variable {u : Unicode} {nodes : List ProcessNode}

/-! ### What the indexes hold -/

theorem named_eq_some {o : Option Str} {s : Str} : named o = some s ↔ o = some s ∧ s ≠ [] := by
  rcases o with _ | _ | ⟨c, t⟩
  · simp [named]
  · simp only [named, Option.some.injEq, reduceCtorEq, false_iff, not_and, not_not]
    exact fun h => h.symm
  · simp only [named, Option.some.injEq]
    constructor
    · rintro rfl
      exact ⟨rfl, List.cons_ne_nil c t⟩
    · exact fun h => h.1

@[simp] theorem names_eq_nil {ns : List ProcessNode} : names ns = [] ↔ ns = [] := List.map_eq_nil_iff

theorem inFile_eq (file : Str) : (buildDependencyIndexes nodes).inFile file =
    nodes.filter fun n => n.configPath.text = file := by
  rw [DependencyIndexes.inFile, buildDependencyIndexes, Dict.lookup_groupBy]
  simp only [Option.some.injEq]

theorem inGroup_eq (group : Str) : (buildDependencyIndexes nodes).inGroup group =
    nodes.filter fun n => named n.taskGroup = some group := by
  rw [DependencyIndexes.inGroup, buildDependencyIndexes, Dict.lookup_groupBy]

theorem mem_inGroup {group : Str} {n : ProcessNode} :
    n ∈ (buildDependencyIndexes nodes).inGroup group ↔ n ∈ nodes ∧ named n.taskGroup = some group := by
  rw [inGroup_eq, List.mem_filter, decide_eq_true_iff]

theorem mem_allGroups {group : Str} : group ∈ (buildDependencyIndexes nodes).allGroups ↔
    ∃ n ∈ nodes, named n.taskGroup = some group := List.mem_filterMap

theorem inGroup_ne_nil {group : Str} (h : group ∈ (buildDependencyIndexes nodes).allGroups) :
    (buildDependencyIndexes nodes).inGroup group ≠ [] := by
  obtain ⟨n, hn, hgroup⟩ := mem_allGroups.mp h
  exact List.ne_nil_of_mem (mem_inGroup.mpr ⟨hn, hgroup⟩)

theorem nodesByName_some {name : Str} {n : ProcessNode}
    (h : (buildDependencyIndexes nodes).nodesByName.lookup name = some n) :
    n ∈ nodes ∧ n.name = name := by
  rw [buildDependencyIndexes, Dict.lookup_indexBy] at h
  exact ⟨List.mem_reverse.mp (List.mem_of_find?_eq_some h), by simpa using List.find?_some h⟩

theorem nodesByName_none {name : Str} :
    (buildDependencyIndexes nodes).nodesByName.lookup name = none ↔ ∀ n ∈ nodes, n.name ≠ name := by
  rw [buildDependencyIndexes, Dict.lookup_indexBy, List.find?_eq_none]
  simp

/-! ### Dropped dependencies -/

variable (u nodes)

/-- A reference to a group without processes, or to a process that its file does not have. -/
def Dangling (n : ProcessNode) (dep : DependencyConfig) : Prop :=
  match named dep.group with
  | some group => ∀ m ∈ nodes, named m.taskGroup ≠ some group
  | none =>
    (∀ m ∈ nodes, named m.taskGroup ≠ some (strip u dep.path) ∧ m.name ≠ strip u dep.path) ∧
      ∃ file selector, splitDependencyRef u (strip u dep.path) n = (file, some selector) ∧
        ∀ m ∈ nodes, m.configPath.text = file → selects selector m = false

variable {u nodes}

/-- A path names a process, is unresolved or selects what its file does not have. -/
theorem resolveDependencyPath_names (depPath : Str) (n : ProcessNode) :
    let r := resolveDependencyPath u depPath n (buildDependencyIndexes nodes)
    (r.upstreamNames ≠ [] ∨ (DependencyKind.path r.mode).unresolved = true) ↔
      ¬ ((∀ m ∈ nodes, named m.taskGroup ≠ some (strip u depPath) ∧ m.name ≠ strip u depPath) ∧
        ∃ file selector, splitDependencyRef u (strip u depPath) n = (file, some selector) ∧
          ∀ m ∈ nodes, m.configPath.text = file → selects selector m = false) := by
  intro r
  have hr : r = resolveDependencyPath u depPath n (buildDependencyIndexes nodes) := rfl
  unfold resolveDependencyPath at hr
  by_cases hraw : strip u depPath = []
  · rw [if_pos hraw] at hr
    rw [hr]
    refine iff_of_true (.inr rfl) ?_
    rintro ⟨-, file, selector, hsplit, -⟩
    have hnone : splitDependencyRef u [] n = ([], none) := rfl
    rw [hraw, hnone] at hsplit
    cases hsplit
  rw [if_neg hraw] at hr
  by_cases hgroup : strip u depPath ∈ (buildDependencyIndexes nodes).allGroups
  · rw [if_pos hgroup] at hr
    rw [hr]
    refine iff_of_true (.inl (mt names_eq_nil.mp (inGroup_ne_nil hgroup))) ?_
    rintro ⟨hnone, -⟩
    obtain ⟨m, hm, hnamed⟩ := mem_allGroups.mp hgroup
    exact (hnone m hm).1 hnamed
  rw [if_neg hgroup] at hr
  rcases hdirect : (buildDependencyIndexes nodes).nodesByName.lookup (strip u depPath) with _ | direct
  · rw [hdirect] at hr
    have hunnamed := nodesByName_none.mp hdirect
    have hfree : ∀ m ∈ nodes, named m.taskGroup ≠ some (strip u depPath) ∧
        m.name ≠ strip u depPath := fun m hm =>
      ⟨fun hnamed => hgroup (mem_allGroups.mpr ⟨m, hm, hnamed⟩), hunnamed m hm⟩
    rcases hsplit : splitDependencyRef u (strip u depPath) n with ⟨file, _ | selector⟩
    · -- no selector: some name was found, or the path is unresolved
      rw [hsplit] at hr
      refine iff_of_true ?_ ?_
      · simp only at hr
        by_cases hfile : names ((buildDependencyIndexes nodes).inFile file) = []
        · rw [if_neg (not_not_intro hfile)] at hr
          rcases hpath : groupOfPath (strip u depPath) (buildDependencyIndexes nodes) with
            _ | ⟨group, matchedBy⟩
          · rw [hpath] at hr
            simp only at hr
            split_ifs at hr with hstem
            · rw [hr]
              exact .inl hstem
            · rw [hr]
              exact .inr rfl
          · rw [hpath] at hr
            have hknown := List.find?_some hpath
            simp only [Bool.and_eq_true, decide_eq_true_eq] at hknown
            rw [hr]
            exact .inl (mt names_eq_nil.mp (inGroup_ne_nil hknown.2))
        · rw [if_pos hfile] at hr
          rw [hr]
          exact .inl hfile
      · rintro ⟨-, file', selector, hsome, -⟩
        cases hsome
    · rw [hsplit] at hr
      rw [hr]
      have hmatched : names (((buildDependencyIndexes nodes).inFile file).filter (selects selector)) =
          [] ↔ ∀ m ∈ nodes, m.configPath.text = file → selects selector m = false := by
        rw [names_eq_nil, inFile_eq, List.filter_eq_nil_iff]
        simp only [List.mem_filter, decide_eq_true_eq, Bool.not_eq_true, and_imp]
      constructor
      · rintro (hne | hbad) ⟨-, file', selector', hsome, hnone⟩
        · cases hsome
          exact hne (hmatched.mpr hnone)
        · cases hbad
      · intro hdangling
        refine .inl fun hnil => hdangling ⟨hfree, file, selector, rfl, hmatched.mp hnil⟩
  · rw [hdirect] at hr
    rw [hr]
    obtain ⟨hmem, hname⟩ := nodesByName_some hdirect
    exact iff_of_true (.inl (List.cons_ne_nil _ _)) fun h => (h.1 direct hmem).2 hname

/-- A dependency names a process or is unresolved, unless it is dangling. -/
theorem resolveDeclaredDependency_names (n : ProcessNode) (dep : DependencyConfig) (i : ℕ) :
    let r := resolveDeclaredDependency u n dep i (buildDependencyIndexes nodes)
    (r.upstreamNames ≠ [] ∨ r.kind.unresolved = true) ↔ ¬ Dangling u nodes n dep := by
  intro r
  have hr : r = resolveDeclaredDependency u n dep i (buildDependencyIndexes nodes) := rfl
  unfold resolveDeclaredDependency at hr
  unfold Dangling
  rcases hgroup : named dep.group with _ | group
  · rw [hgroup] at hr
    rw [hr]
    exact resolveDependencyPath_names dep.path n
  · rw [hgroup] at hr
    have hmembers : names ((buildDependencyIndexes nodes).inGroup group) = [] ↔
        ∀ m ∈ nodes, named m.taskGroup ≠ some group := by
      rw [names_eq_nil, inGroup_eq, List.filter_eq_nil_iff]
      simp only [decide_eq_true_eq]
    rcases htask : named n.taskGroup with _ | taskGroup
    all_goals
      rw [htask] at hr
      rw [hr]
      simp only [DependencyKind.unresolved, Bool.false_eq_true, or_false]
      exact not_congr hmembers

/-! ### Edges of the built graph -/

/-- The second process is a dependent of the first. -/
def Linked (nodes : List ProcessNode) (a b : Str) : Prop := ∃ n ∈ nodes, n.name = a ∧ b ∈ n.dependents

theorem modify_names {name : Str} {change : ProcessNode → ProcessNode}
    (hchange : ∀ n, (change n).name = n.name) : names (modify name change nodes) = names nodes := by
  rw [names, modify, List.map_map]
  refine List.map_congr_left fun n _ => ?_
  show (if n.name = name then change n else n).name = n.name
  split_ifs
  · exact hchange n
  · rfl

theorem addDependent_name (n : ProcessNode) (dependent : Str) :
    (n.addDependent dependent).name = n.name := by
  unfold ProcessNode.addDependent
  split_ifs <;> rfl

theorem mem_addDependent {n : ProcessNode} {dependent b : Str} :
    b ∈ (n.addDependent dependent).dependents ↔ b ∈ n.dependents ∨ b = dependent := by
  unfold ProcessNode.addDependent
  split_ifs with hmem
  · exact ⟨.inl, fun h => h.elim id fun h => h ▸ hmem⟩
  · simp

theorem addDependency_names (edge : Str × Str) : names (addDependency nodes edge) = names nodes := by
  unfold addDependency
  split
  · rw [modify_names (by exact fun _ => rfl), modify_names fun n => addDependent_name n _]
  · rfl

theorem linked_modify {name a b : Str} {change : ProcessNode → ProcessNode}
    (hchange : ∀ n, (change n).name = n.name) :
    Linked (modify name change nodes) a b ↔
      ∃ n ∈ nodes, n.name = a ∧ b ∈ (if n.name = name then change n else n).dependents := by
  unfold Linked modify
  simp only [List.mem_map, exists_exists_and_eq_and]
  refine exists_congr fun n => and_congr_right fun _ => and_congr_left fun _ => ?_
  split_ifs
  · rw [hchange n]
  · rfl

/-- STEP: an edge between two processes is added, and no other. -/
theorem linked_addDependency {edge : Str × Str} {a b : Str} :
    Linked (addDependency nodes edge) a b ↔
      Linked nodes a b ∨ (a, b) = edge ∧ a ∈ names nodes ∧ b ∈ names nodes := by
  obtain ⟨up, down⟩ := edge
  unfold addDependency
  rcases hdown : find nodes down with _ | dependent
  · have hnone : down ∉ names nodes := fun hmem => by
      obtain ⟨n, hn⟩ := find_of_mem hmem
      rw [hdown] at hn
      cases hn
    refine (or_iff_left ?_).symm
    rintro ⟨heq, -, hb⟩
    cases heq
    exact hnone hb
  rcases hup : find nodes up with _ | dependency
  · have hnone : up ∉ names nodes := fun hmem => by
      obtain ⟨n, hn⟩ := find_of_mem hmem
      rw [hup] at hn
      cases hn
    refine (or_iff_left ?_).symm
    rintro ⟨heq, ha, -⟩
    cases heq
    exact hnone ha
  obtain ⟨hdownMem, rfl⟩ := find_some hdown
  obtain ⟨hupMem, rfl⟩ := find_some hup
  simp only
  rw [linked_modify (by exact fun _ => rfl)]
  have hsame : (∃ n ∈ modify dependency.name (·.addDependent dependent.name) nodes, n.name = a ∧
      b ∈ (if n.name = dependent.name then
        { n with upstream := n.upstream <|> some dependency.name } else n).dependents) ↔
      Linked (modify dependency.name (·.addDependent dependent.name) nodes) a b := by
    refine exists_congr fun n => and_congr_right fun _ => and_congr_right fun _ => ?_
    split_ifs <;> rfl
  rw [hsame, linked_modify fun n => addDependent_name n _]
  constructor
  · rintro ⟨n, hn, rfl, hb⟩
    split_ifs at hb with hname
    · rcases mem_addDependent.mp hb with hb | rfl
      · exact .inl ⟨n, hn, rfl, hb⟩
      · exact .inr ⟨by rw [hname], List.mem_map_of_mem hn, List.mem_map_of_mem hdownMem⟩
    · exact .inl ⟨n, hn, rfl, hb⟩
  · rintro (⟨n, hn, rfl, hb⟩ | ⟨heq, -, -⟩)
    · refine ⟨n, hn, rfl, ?_⟩
      split_ifs
      · exact mem_addDependent.mpr (.inl hb)
      · exact hb
    · cases heq
      refine ⟨dependency, hupMem, rfl, ?_⟩
      rw [if_pos rfl]
      exact mem_addDependent.mpr (.inr rfl)

/-- The edges of one resolution are added. -/
theorem linked_addAll : ∀ (edges : List (Str × Str)) (nodes : List ProcessNode),
    names (edges.foldl addDependency nodes) = names nodes ∧
      ∀ a b, Linked (edges.foldl addDependency nodes) a b ↔
        Linked nodes a b ∨ (a, b) ∈ edges ∧ a ∈ names nodes ∧ b ∈ names nodes
  | [], nodes => ⟨rfl, fun a b => by simp⟩
  | edge :: edges, nodes => by
    obtain ⟨hnames, hlinked⟩ := linked_addAll edges (addDependency nodes edge)
    rw [List.foldl_cons]
    refine ⟨hnames.trans (addDependency_names edge), fun a b => ?_⟩
    rw [hlinked, linked_addDependency, addDependency_names, List.mem_cons]
    tauto

/-- A resolution that adds edges. -/
def DependencyResolution.Orders (r : DependencyResolution) (a b : Str) : Prop :=
  r.kind.unresolved = false ∧ a ∈ r.upstreamNames ∧ b ∈ r.downstreamNames ∧ a ≠ b

theorem mem_edges {r : DependencyResolution} {a b : Str} :
    (a, b) ∈ r.edges ↔ a ∈ r.upstreamNames ∧ b ∈ r.downstreamNames ∧ a ≠ b := by
  unfold DependencyResolution.edges
  simp only [List.mem_flatMap, List.mem_map, List.mem_filter, Prod.mk.injEq, ne_eq,
    decide_eq_true_eq]
  constructor
  · rintro ⟨up, hup, down, ⟨hdown, hne⟩, rfl, rfl⟩
    exact ⟨hup, hdown, fun h => hne h.symm⟩
  · rintro ⟨hup, hdown, hne⟩
    exact ⟨a, hup, b, ⟨hdown, fun h => hne h.symm⟩, rfl, rfl⟩

/-- RUN RULE: building adds the edges of all resolutions, and warns of the unresolved ones. -/
theorem linked_build : ∀ (rs : List DependencyResolution) (s : Relationships),
    names (rs.foldl Relationships.relate s).nodes = names s.nodes ∧
      (∀ a b, Linked (rs.foldl Relationships.relate s).nodes a b ↔ Linked s.nodes a b ∨
        (∃ r ∈ rs, r.Orders a b) ∧ a ∈ names s.nodes ∧ b ∈ names s.nodes) ∧
      (∀ w ∈ s.warnings, w ∈ (rs.foldl Relationships.relate s).warnings) ∧
      ∀ r ∈ rs, r.kind.unresolved = true →
        ∃ w ∈ (rs.foldl Relationships.relate s).warnings, w.triggerTaskName = r.triggerTaskName
  | [], s => ⟨rfl, fun a b => by simp, fun w hw => hw, List.forall_mem_nil _⟩
  | r :: rs, s => by
    obtain ⟨hnames, hlinked, hkept, hwarned⟩ := linked_build rs (s.relate r)
    rw [List.foldl_cons]
    rcases hr : r.kind.unresolved with _ | _
    · have hstep : s.relate r = { s with nodes := r.edges.foldl addDependency s.nodes } := by
        rw [Relationships.relate, hr]
        rfl
      obtain ⟨hnames', hlinked'⟩ := linked_addAll r.edges s.nodes
      have hsame : names (s.relate r).nodes = names s.nodes := by rw [hstep]; exact hnames'
      refine ⟨hnames.trans hsame, fun a b => ?_, fun w hw => hkept w (by rw [hstep]; exact hw),
        fun x hx hunresolved => ?_⟩
      · have hfirst : Linked (s.relate r).nodes a b ↔ Linked s.nodes a b ∨
            (a, b) ∈ r.edges ∧ a ∈ names s.nodes ∧ b ∈ names s.nodes := by
          rw [hstep]
          exact hlinked' a b
        have horders : r.Orders a b ↔ (a, b) ∈ r.edges := by
          rw [mem_edges, DependencyResolution.Orders, hr]
          exact and_iff_right rfl
        rw [hlinked, hfirst, hsame, List.exists_mem_cons_iff, horders]
        tauto
      · rcases List.mem_cons.mp hx with rfl | hx
        · rw [hr] at hunresolved
          cases hunresolved
        · exact hwarned x hx hunresolved
    · have hstep : (s.relate r).nodes = s.nodes := by
        rw [Relationships.relate, hr]
        rfl
      have hwarning : ∃ w, (s.relate r).warnings = s.warnings ++ [w] ∧
          w.triggerTaskName = r.triggerTaskName := by
        rw [Relationships.relate, hr]
        exact ⟨_, rfl, rfl⟩
      obtain ⟨w, hw, hname⟩ := hwarning
      refine ⟨by rw [hnames, hstep], fun a b => ?_, fun x hx => hkept x ?_, fun x hx hunresolved => ?_⟩
      · have hnone : ¬ r.Orders a b := fun h => by
          rw [DependencyResolution.Orders, hr] at h
          cases h.1
        rw [hlinked, hstep, List.exists_mem_cons_iff]
        tauto
      · rw [hw]
        exact List.mem_append_left _ hx
      · rcases List.mem_cons.mp hx with rfl | hx
        · refine ⟨w, hkept w ?_, hname⟩
          rw [hw]
          exact List.mem_append_right _ (List.mem_singleton_self w)
        · exact hwarned x hx hunresolved

/-! ### Names that resolutions give -/

theorem names_inFile (file : Str) :
    ∀ a ∈ names ((buildDependencyIndexes nodes).inFile file), a ∈ names nodes := by
  intro a ha
  obtain ⟨n, hn, rfl⟩ := List.mem_map.mp ha
  rw [inFile_eq] at hn
  exact List.mem_map_of_mem (List.mem_filter.mp hn).1

theorem names_inGroup (group : Str) :
    ∀ a ∈ names ((buildDependencyIndexes nodes).inGroup group), a ∈ names nodes := by
  intro a ha
  obtain ⟨n, hn, rfl⟩ := List.mem_map.mp ha
  exact List.mem_map_of_mem (mem_inGroup.mp hn).1

/-- A path names processes of the list. -/
theorem resolveDependencyPath_known (depPath : Str) (n : ProcessNode) :
    ∀ a ∈ (resolveDependencyPath u depPath n (buildDependencyIndexes nodes)).upstreamNames,
      a ∈ names nodes := by
  have matched : ∀ {p : ProcessNode → Bool} {ns : List ProcessNode},
      (∀ a ∈ names ns, a ∈ names nodes) → ∀ a ∈ names (ns.filter p), a ∈ names nodes := by
    intro p ns hns a ha
    obtain ⟨m, hm, rfl⟩ := List.mem_map.mp ha
    exact hns _ (List.mem_map_of_mem (List.mem_filter.mp hm).1)
  unfold resolveDependencyPath
  dsimp only
  split
  · exact List.forall_mem_nil _
  · split
    · exact names_inGroup _
    · split
      · next direct hdirect =>
        obtain ⟨hmem, -⟩ := nodesByName_some hdirect
        exact List.forall_mem_singleton.mpr (List.mem_map_of_mem hmem)
      · split
        · exact matched (names_inFile _)
        · split
          · exact names_inFile _
          · split
            · exact names_inGroup _
            · split
              · exact matched fun a ha => ha
              · exact List.forall_mem_nil _

/-- Both ends of a resolution are processes of the list. -/
theorem resolveDeclaredDependency_known {n : ProcessNode} (hn : n ∈ nodes) (dep : DependencyConfig)
    (i : ℕ) : let r := resolveDeclaredDependency u n dep i (buildDependencyIndexes nodes)
    (∀ a ∈ r.upstreamNames, a ∈ names nodes) ∧ ∀ b ∈ r.downstreamNames, b ∈ names nodes := by
  intro r
  have hr : r = resolveDeclaredDependency u n dep i (buildDependencyIndexes nodes) := rfl
  unfold resolveDeclaredDependency at hr
  have hself : ∀ b ∈ [n.name], b ∈ names nodes :=
    List.forall_mem_singleton.mpr (List.mem_map_of_mem hn)
  rcases hgroup : named dep.group with _ | group <;> rw [hgroup] at hr
  · rw [hr]
    exact ⟨resolveDependencyPath_known dep.path n, hself⟩
  · rcases htask : named n.taskGroup with _ | taskGroup <;> rw [htask] at hr <;> rw [hr]
    · exact ⟨names_inGroup _, hself⟩
    · exact ⟨names_inGroup _, names_inGroup _⟩

theorem mem_collect {r : DependencyResolution} : r ∈ collectDependencyResolutions u nodes ↔
    ∃ n ∈ nodes, ∃ i, ∃ dep, n.dependencies[i]? = some dep ∧
      r = resolveDeclaredDependency u n dep i (buildDependencyIndexes nodes) := by
  unfold collectDependencyResolutions resolveNodeDependencies
  simp only [List.mem_flatMap, List.mem_mapIdx]
  refine exists_congr fun n => and_congr_right fun _ => ?_
  constructor
  · rintro ⟨i, hi, rfl⟩
    exact ⟨i, _, List.getElem?_eq_getElem hi, rfl⟩
  · rintro ⟨i, dep, hdep, rfl⟩
    obtain ⟨hi, rfl⟩ := List.getElem?_eq_some_iff.mp hdep
    exact ⟨i, hi, rfl⟩

/-! ### The order of the built graph -/

variable (u) in
/-- The graph that is built from registered processes. -/
def built (g : ProcessGraph) : ProcessGraph where
  nodes := (Relationships.build u g.nodes).nodes
  distinct := by
    obtain ⟨hnames, -⟩ := linked_build (collectDependencyResolutions u g.nodes)
      { nodes := g.nodes }
    show (names (Relationships.build u g.nodes).nodes).Nodup
    rw [Relationships.build, hnames]
    exact g.distinct
  closed := by
    obtain ⟨hnames, hlinked, -, -⟩ := linked_build (collectDependencyResolutions u g.nodes)
      { nodes := g.nodes }
    intro n hn b hb
    show b ∈ names (Relationships.build u g.nodes).nodes
    rw [Relationships.build, hnames]
    rcases (hlinked n.name b).mp ⟨n, hn, rfl, hb⟩ with ⟨m, hm, -, hb⟩ | ⟨-, -, hb⟩
    · exact g.closed m hm b hb
    · exact hb

/-- Processes that a resolution orders come in that order. -/
theorem ordered_of_resolution (g : ProcessGraph) {order : List ProcessNode}
    (horder : topologicalSort (built u g).nodes = .ok order) {r : DependencyResolution}
    (hr : r ∈ collectDependencyResolutions u g.nodes) {a b : Str} (horders : r.Orders a b) :
    [a, b].Sublist (names order) := by
  obtain ⟨hnames, hlinked, -, -⟩ := linked_build (collectDependencyResolutions u g.nodes)
    { nodes := g.nodes }
  obtain ⟨n, hn, i, dep, -, rfl⟩ := mem_collect.mp hr
  obtain ⟨hup, hdown⟩ := resolveDeclaredDependency_known (u := u) hn dep i
  have hlink : Linked (built u g).nodes a b := (hlinked a b).mpr
    (.inr ⟨⟨_, hr, horders⟩, hup a horders.2.1, hdown b horders.2.2.1⟩)
  obtain ⟨n, hn, rfl, hb⟩ := hlink
  obtain ⟨n', hn', rfl⟩ := List.mem_map.mp ((built u g).closed n hn b hb)
  have hacyclic : ¬ (built u g).Cyclic := fun hcyclic => by
    obtain ⟨e, he⟩ := (built u g).raises_of_cyclic hcyclic
    rw [horder] at he
    cases he
  obtain ⟨order', horder', -, hordered⟩ := (built u g).sorted_of_acyclic hacyclic
  rw [horder] at horder'
  cases horder'
  exact (hordered n hn n' hn' hb).map ProcessNode.name

/-- A group dependency of a grouped process orders the two groups. -/
theorem orders_groups {n : ProcessNode} (hn : n ∈ nodes) {i : ℕ} {dep : DependencyConfig}
    (hdep : n.dependencies[i]? = some dep) {up down : Str} (hup : named dep.group = some up)
    (hdown : named n.taskGroup = some down) {a b : ProcessNode} (ha : a ∈ nodes)
    (hgroupA : named a.taskGroup = some up) (hb : b ∈ nodes) (hgroupB : named b.taskGroup = some down)
    (hne : a.name ≠ b.name) :
    ∃ r ∈ collectDependencyResolutions u nodes, r.Orders a.name b.name := by
  refine ⟨_, mem_collect.mpr ⟨n, hn, i, dep, hdep, rfl⟩, ?_⟩
  unfold resolveDeclaredDependency
  rw [hup, hdown]
  exact ⟨rfl, List.mem_map_of_mem (mem_inGroup.mpr ⟨ha, hgroupA⟩),
    List.mem_map_of_mem (mem_inGroup.mpr ⟨hb, hgroupB⟩), hne⟩

/-- CORRECT: a declared dependency names an upstream process or is unresolved exactly when it is not
    dangling, and building warns of the unresolved ones. In the order of the built graph every
    process that a resolution names comes before those downstream, and so do the processes of a
    group before those of a group that depends on it. -/
theorem dependency_kept_iff (u : Unicode) (nodes : List ProcessNode) :
    (∀ n ∈ nodes, ∀ i dep, n.dependencies[i]? = some dep →
      let r := resolveDeclaredDependency u n dep i (buildDependencyIndexes nodes)
      (r.upstreamNames ≠ [] ∨ r.kind.unresolved = true ∧
        ∃ w ∈ (Relationships.build u nodes).warnings, w.triggerTaskName = n.name) ↔
        ¬ Dangling u nodes n dep) ∧
    ∀ g : ProcessGraph, g.nodes = nodes → ∀ order,
      topologicalSort (Relationships.build u nodes).nodes = .ok order →
      (∀ r ∈ collectDependencyResolutions u nodes, r.kind.unresolved = false →
        ∀ a ∈ r.upstreamNames, ∀ b ∈ r.downstreamNames, a ≠ b → [a, b].Sublist (names order)) ∧
      ∀ n ∈ nodes, ∀ dep ∈ n.dependencies, ∀ up down, named dep.group = some up →
        named n.taskGroup = some down → ∀ a ∈ nodes, named a.taskGroup = some up →
          ∀ b ∈ nodes, named b.taskGroup = some down → a.name ≠ b.name →
            [a.name, b.name].Sublist (names order) := by
  constructor
  · intro n hn i dep hdep r
    refine Iff.trans (or_congr_right (and_iff_left_of_imp fun hunresolved => ?_))
      (resolveDeclaredDependency_names n dep i)
    obtain ⟨-, -, -, hwarned⟩ := linked_build (collectDependencyResolutions u nodes)
      { nodes := nodes }
    obtain ⟨w, hw, hname⟩ := hwarned r (mem_collect.mpr ⟨n, hn, i, dep, hdep, rfl⟩) hunresolved
    refine ⟨w, hw, hname.trans ?_⟩
    show (resolveDeclaredDependency u n dep i (buildDependencyIndexes nodes)).triggerTaskName = _
    unfold resolveDeclaredDependency
    rcases named dep.group with _ | group
    · rfl
    · rcases named n.taskGroup with _ | taskGroup <;> rfl
  · rintro g rfl order horder
    refine ⟨fun r hr hresolved a ha b hb hne =>
      ordered_of_resolution g horder hr ⟨hresolved, ha, hb, hne⟩, ?_⟩
    intro n hn dep hdep up down hup hdown a ha hgroupA b hb hgroupB hne
    obtain ⟨i, hi⟩ := List.getElem?_of_mem hdep
    obtain ⟨r, hr, horders⟩ := orders_groups (u := u) hn hi hup hdown ha hgroupA hb hgroupB hne
    exact ordered_of_resolution g horder hr horders

/-- A process that waits for a group that nobody is in. -/
def waiting : ProcessNode where
  name := "load_orders".toList
  configPath := PosixPath.ofText "/manifests/orders.yaml".toList
  dependencies := [{ path := [], group := some "dimensions".toList }]

/-- The dependency on the missing group names no process, is not unresolved, and nothing is logged. -/
theorem missing_group_dropped : ¬ ∀ (u : Unicode) (nodes : List ProcessNode), ∀ n ∈ nodes,
    ∀ i dep, n.dependencies[i]? = some dep →
      let r := resolveDeclaredDependency u n dep i (buildDependencyIndexes nodes)
      r.upstreamNames ≠ [] ∨ r.kind.unresolved = true := by
  intro hclaim
  have hdropped := hclaim Unicode.ascii [waiting] waiting (List.mem_singleton_self _) 0 _ rfl
  rcases hdropped with h | h
  · exact h rfl
  · cases h

end Dpone.Dag
