import Mathlib.Data.Set.Basic
import Dpone.Manifest.SelectionEngine

/-! Graphs that were built: their ids are distinct, their edges known, and nothing tells how their
    workloads and edges were listed. -/

namespace Dpone.Manifest
open Dpone.Schemes Dpone.Contracts

/-! ### What the checks accept -/

theorem declareNodes_ok : ∀ {nodes known byId : List SelectionNode},
    (known.map SelectionNode.nodeId).Nodup →
    (declareNodes known nodes = .ok byId ↔
      byId = known ++ nodes ∧ ((known ++ nodes).map SelectionNode.nodeId).Nodup)
  | [], known, byId, hknown => by
    rw [declareNodes, List.append_nil]
    constructor
    · intro h
      exact ⟨(Except.ok.inj h).symm, hknown⟩
    · rintro ⟨rfl, -⟩
      rfl
  | n :: nodes, known, byId, hknown => by
    rw [declareNodes]
    by_cases hmem : n.nodeId ∈ known.map SelectionNode.nodeId
    · rw [if_pos hmem]
      refine iff_of_false (fun h => nomatch h) ?_
      rintro ⟨-, hnodup⟩
      rw [List.map_append, List.map_cons, List.nodup_append] at hnodup
      exact hnodup.2.2 _ hmem _ (List.mem_cons_self ..) rfl
    · rw [if_neg hmem]
      have hnext : ((known ++ [n]).map SelectionNode.nodeId).Nodup := by
        rw [List.map_append, List.nodup_append]
        refine ⟨hknown, by simp, ?_⟩
        intro a ha b hb hab
        rw [List.map_singleton, List.mem_singleton] at hb
        exact hmem (hb ▸ hab ▸ ha)
      rw [declareNodes_ok hnext, List.append_assoc, List.singleton_append]

theorem declare_all {nodes byId : List SelectionNode} : declareNodes [] nodes = .ok byId ↔
    byId = nodes ∧ (nodes.map SelectionNode.nodeId).Nodup := by
  have hnil : (([] : List SelectionNode).map SelectionNode.nodeId).Nodup := List.nodup_nil
  rw [declareNodes_ok hnil, List.nil_append]

/-- The error for a workload that is declared twice. -/
def duplicateWorkload (id : PyText) : SelectionFailure :=
  failure (pyText "DPONE_SELECTION_DUPLICATE_WORKLOAD")
    (pyText "Workload id is declared more than once: " ++ id) [(pyText "workload_id", .str id)]

theorem declareNodes_error : ∀ {nodes known : List SelectionNode} {e : SelectionFailure},
    declareNodes known nodes = .error e → ∃ n ∈ nodes, e = duplicateWorkload n.nodeId
  | n :: nodes, known, e, h => by
    rw [declareNodes] at h
    split at h
    · exact ⟨n, List.mem_cons_self .., (Except.error.inj h).symm⟩
    · obtain ⟨m, hm, hsame⟩ := declareNodes_error h
      exact ⟨m, List.mem_cons_of_mem _ hm, hsame⟩

theorem requireKnown_ok {ids : List PyText} : ∀ {edges : List SelectionEdge},
    requireKnown ids edges = .ok () ↔ ∀ e ∈ edges, e.1 ∈ ids ∧ e.2 ∈ ids
  | [] => by simp [requireKnown]
  | (upstream, downstream) :: edges => by
    rw [requireKnown, List.forall_mem_cons]
    by_cases hknown : upstream ∈ ids ∧ downstream ∈ ids
    · rw [if_neg (by tauto), requireKnown_ok]
      simp [hknown]
    · rw [if_pos (by tauto)]
      exact iff_of_false (fun h => nomatch h) fun h => hknown h.1

/-- The order in which the ids are listed does not matter to the search for a cycle. -/
theorem requireAcyclic_congr {ids ids' : List PyText} (h : ids.Perm ids')
    (edges : List SelectionEdge) : requireAcyclic ids edges = requireAcyclic ids' edges := by
  have hsort : ∀ p : PyText → Bool,
      sortedBy (fun s => s) (ids.filter p) = sortedBy (fun s => s) (ids'.filter p) :=
    fun p => sortedBy_congr (h.filter p) fun _ _ _ _ hab => hab
  have htake : takeReady ids edges = takeReady ids' edges := by
    rw [takeReady, takeReady, h.length_eq, hsort]
  rw [requireAcyclic, requireAcyclic, htake, h.length_eq, hsort]

/-! ### Building -/

section Build
variable {sha256 : Bytes → PyText} {floatText : PyFloat → PyText}

/-- What `build` requires and returns. -/
structure Built (sha256 : Bytes → PyText) (floatText : PyFloat → PyText)
    (nodes : List SelectionNode) (edges : List SelectionEdge) (g : SelectionGraph) : Prop where
  distinct : (nodes.map SelectionNode.nodeId).Nodup
  edges_eq : g.edges = sortedSet (fun e => toLex e) edges
  known : ∀ e ∈ g.edges, e.1 ∈ nodes.map SelectionNode.nodeId ∧ e.2 ∈ nodes.map SelectionNode.nodeId
  acyclic : requireAcyclic (nodes.map SelectionNode.nodeId) g.edges = .ok ()
  nodes_eq : (sortedBy SelectionNode.nodeId nodes).mapM
    (SelectionNode.withGraphFingerprint sha256 floatText g.edges) = .ok g.nodes
  fingerprint : encoded (canonicalFingerprint sha256 floatText
    (SelectionGraph.payload g.nodes g.edges)) = .ok g.catalogFingerprint

theorem build_ok {nodes : List SelectionNode} {edges : List SelectionEdge} {g : SelectionGraph} :
    SelectionGraph.build sha256 floatText nodes edges = .ok g ↔
      Built sha256 floatText nodes edges g := by
  unfold SelectionGraph.build
  constructor
  · intro h
    obtain ⟨byId, hdeclare, hchecks⟩ := bind_ok.mp h
    obtain ⟨rfl, hdistinct⟩ := declare_all.mp hdeclare
    obtain ⟨⟨⟩, hknown, hsearch⟩ := bind_ok.mp hchecks
    obtain ⟨⟨⟩, hacyclic, hnormalize⟩ := bind_ok.mp hsearch
    obtain ⟨normalized, hnodes, hprint⟩ := bind_ok.mp hnormalize
    obtain ⟨fingerprint, hfingerprint, hgraph⟩ := bind_ok.mp hprint
    cases Except.ok.inj hgraph
    exact ⟨hdistinct, rfl, requireKnown_ok.mp hknown, hacyclic, hnodes, hfingerprint⟩
  · rintro ⟨hdistinct, hedges, hknown, hacyclic, hnodes, hfingerprint⟩
    rw [hedges] at hknown hacyclic hnodes hfingerprint
    refine bind_ok.mpr ⟨nodes, declare_all.mpr ⟨rfl, hdistinct⟩, ?_⟩
    refine bind_ok.mpr ⟨(), requireKnown_ok.mpr hknown, ?_⟩
    refine bind_ok.mpr ⟨(), hacyclic, ?_⟩
    refine bind_ok.mpr ⟨_, hnodes, ?_⟩
    refine bind_ok.mpr ⟨_, hfingerprint, ?_⟩
    rw [← hedges]
    rfl

variable {nodes : List SelectionNode} {edges : List SelectionEdge} {g : SelectionGraph}

/-- A graph does not tell in which order its workloads were listed, nor how often its edges were. -/
theorem Built.relisted (h : Built sha256 floatText nodes edges g) {nodes' : List SelectionNode}
    {edges' : List SelectionEdge} (hnodes : nodes'.Perm nodes)
    (hedges : ∀ e, e ∈ edges' ↔ e ∈ edges) : Built sha256 floatText nodes' edges' g := by
  have hids := hnodes.map SelectionNode.nodeId
  refine ⟨hids.nodup_iff.mpr h.distinct, ?_, ?_, ?_, ?_, h.fingerprint⟩
  · rw [h.edges_eq]
    exact (sortedSet_congr (fun _ _ hab => toLex.injective hab) hedges).symm
  · intro e he
    rw [hids.mem_iff, hids.mem_iff]
    exact h.known e he
  · rw [requireAcyclic_congr hids]
    exact h.acyclic
  · have hsorted : sortedBy SelectionNode.nodeId nodes' = sortedBy SelectionNode.nodeId nodes := by
      refine sortedBy_congr hnodes ?_
      intro a ha b hb hab
      have hnodup : (nodes'.map SelectionNode.nodeId).Nodup := hids.nodup_iff.mpr h.distinct
      exact List.inj_on_of_nodup_map hnodup ha hb hab
    rw [hsorted]
    exact h.nodes_eq

theorem withGraphFingerprint_nodeId {n m : SelectionNode} {edges : List SelectionEdge}
    (h : n.withGraphFingerprint sha256 floatText edges = .ok m) : m.nodeId = n.nodeId := by
  obtain ⟨fingerprint, -, rfl⟩ := map_ok.mp h
  rfl

theorem Built.ids (h : Built sha256 floatText nodes edges g) :
    (g.nodes.map SelectionNode.nodeId).Perm (nodes.map SelectionNode.nodeId) := by
  have hsame : g.nodes.map SelectionNode.nodeId =
      (sortedBy SelectionNode.nodeId nodes).map SelectionNode.nodeId := by
    refine List.forall₂_eq_eq_eq ▸ ?_
    rw [List.forall₂_map_left_iff, List.forall₂_map_right_iff]
    refine (mapM_ok.mp h.nodes_eq).flip.imp ?_
    intro m n hmn
    exact withGraphFingerprint_nodeId hmn
  rw [hsame]
  exact (sortedBy_perm SelectionNode.nodeId nodes).map SelectionNode.nodeId

/-- What the engine relies on: the ends of every edge are workloads. -/
def SelectionGraph.Known (g : SelectionGraph) : Prop :=
  ∀ e ∈ g.edges, e.1 ∈ g.nodes.map SelectionNode.nodeId ∧ e.2 ∈ g.nodes.map SelectionNode.nodeId

theorem Built.known_ids (h : Built sha256 floatText nodes edges g) : g.Known := by
  intro e he
  rw [h.ids.mem_iff, h.ids.mem_iff]
  exact h.known e he

end Build

/-! ### Neighbours -/

variable {g : SelectionGraph}

theorem mem_downstreams {edges : List SelectionEdge} {v w : PyText} :
    w ∈ downstreams edges v ↔ (v, w) ∈ edges := by
  simp only [downstreams, List.mem_map, List.mem_filter, decide_eq_true_eq]
  constructor
  · rintro ⟨⟨a, b⟩, ⟨he, rfl⟩, rfl⟩
    exact he
  · intro he
    exact ⟨_, ⟨he, rfl⟩, rfl⟩

theorem mem_upstreams {edges : List SelectionEdge} {v w : PyText} :
    w ∈ upstreams edges v ↔ (w, v) ∈ edges := by
  simp only [upstreams, List.mem_map, List.mem_filter, decide_eq_true_eq]
  constructor
  · rintro ⟨⟨a, b⟩, ⟨he, rfl⟩, rfl⟩
    exact he
  · intro he
    exact ⟨_, ⟨he, rfl⟩, rfl⟩

/-- The neighbours in an adjacency of all workloads. -/
theorem neighbors_map (f : PyText → List PyText) (v : PyText) : ∀ nodes : List SelectionNode,
    neighbors (nodes.map fun n => (n.nodeId, f n.nodeId)) v =
      if v ∈ nodes.map SelectionNode.nodeId then f v else []
  | [] => rfl
  | n :: nodes => by
    have ih := neighbors_map f v nodes
    unfold neighbors at ih ⊢
    rw [List.map_cons, Dict.lookup_cons_if, List.map_cons]
    by_cases hv : v = n.nodeId
    · simp [hv]
    · rw [if_neg hv, ih]
      simp [hv]

theorem mem_outgoing (h : g.Known) {v w : PyText} :
    w ∈ neighbors (outgoing g) v ↔ w ∈ downstreams g.edges v := by
  unfold outgoing
  rw [neighbors_map fun id => sortedBy (fun s => s) (downstreams g.edges id)]
  split
  · exact mem_sortedBy
  · next hv =>
    refine iff_of_false List.not_mem_nil fun hw => hv ?_
    exact (h _ (mem_downstreams.mp hw)).1

theorem mem_incoming (h : g.Known) {v w : PyText} :
    w ∈ neighbors (incoming g) v ↔ w ∈ upstreams g.edges v := by
  unfold incoming
  rw [neighbors_map fun id => sortedBy (fun s => s) (upstreams g.edges id)]
  split
  · exact mem_sortedBy
  · next hv =>
    refine iff_of_false List.not_mem_nil fun hw => hv ?_
    exact (h _ (mem_upstreams.mp hw)).2

/-! ### Meaning and correctness

    What an expression denotes, as a set of workloads, and that the engine finds just these.

    An expression denotes its roots, with all ancestors and all descendants of the roots where a
    plus asks for them. The roots of a named selection are what some of its expressions denote and
    none of its excluded ones; a name that is nested deeper than the bound denotes nothing, and the
    engine never gets there. -/

/-! ### Meaning -/

/-- One workload directly depends on another. -/
def SelectionGraph.Feeds (g : SelectionGraph) (upstream downstream : PyText) : Prop :=
  (upstream, downstream) ∈ g.edges

section Meaning
variable (isSpace : CodePoint → Bool) (c : Scope)

/-- Roots with what a plus adds to them. -/
def closure (g : SelectionGraph) (e : ParsedSelectionExpression) (roots : Set PyText) :
    Set PyText :=
  {id | id ∈ roots ∨
    (e.includeAncestors = true ∧ ∃ root ∈ roots, Relation.TransGen g.Feeds id root) ∨
    (e.includeDescendants = true ∧ ∃ root ∈ roots, Relation.TransGen g.Feeds root id)}

/-- The workloads that an expression matches itself. -/
def rootSet (meaning : PyText → Set PyText) (e : ParsedSelectionExpression) : Set PyText :=
  match e.method with
  | .selector =>
    match c.named.lookup e.value with
    | none => ∅
    | some definition =>
      {id | (∃ raw ∈ definition.select, id ∈ meaning raw) ∧
        ¬ ∃ raw ∈ definition.exclude, id ∈ meaning raw}
  | .state => {id | ∃ s ∈ c.stateStatuses, s.1 = id ∧ s.2.text = e.value}
  | method => {id | ∃ n ∈ c.graph.nodes, n.nodeId = id ∧ matchesNode method e.value n = true}

/-- What an expression denotes, with named selections nested up to a depth. -/
def denotes (depth : ℕ) (raw : PyText) : Set PyText :=
  match parseSelectionExpression isSpace raw with
  | .error _ => ∅
  | .ok e => closure c.graph e (rootSet c
      (match depth with
        | 0 => fun _ => ∅
        | n + 1 => denotes n) e)

/-- What some of the expressions denote. -/
def denotesAny (depth : ℕ) (expressions : List PyText) : Set PyText :=
  {id | ∃ raw ∈ expressions, id ∈ denotes isSpace c depth raw}

end Meaning

/-- A reason is true of a workload: its path is a shortest one from its root, against the edges for
    an ancestor, along them for a descendant; any other workload is its own root. -/
def Explains (g : SelectionGraph) (id : PyText) (r : SelectionReason) : Prop :=
  match r.kind with
  | .ancestor => Shortest (upstreams g.edges) r.root id r.path
  | .descendant => Shortest (downstreams g.edges) r.root id r.path
  | _ => r.root = id ∧ r.path = [id]

/-! ### Blanks around expressions -/

section Blanks
variable {isSpace : CodePoint → Bool}

theorem stripped_stripped (s : PyText) :
    stripped isSpace (stripped isSpace s) = stripped isSpace s := by
  have hfirst : (stripped isSpace s).dropWhile isSpace = stripped isSpace s := by
    rcases hs : stripped isSpace s with _ | ⟨c, t⟩
    · rfl
    · obtain ⟨rest, hrest⟩ := List.rdropWhile_prefix isSpace (l := s.dropWhile isSpace)
      have hhead := List.head?_dropWhile_not isSpace s
      unfold stripped at hs
      rw [hs] at hrest
      rw [← hrest] at hhead
      exact List.dropWhile_cons_of_neg (by simpa using hhead)
  rw [stripped, hfirst]
  exact List.rdropWhile_idempotent isSpace _

theorem parse_stripped (raw : PyText) : parseSelectionExpression isSpace (stripped isSpace raw) =
    parseSelectionExpression isSpace raw := by
  simp only [parseSelectionExpression, stripped_stripped]

theorem denotes_stripped (c : Scope) (depth : ℕ) (raw : PyText) :
    denotes isSpace c depth (stripped isSpace raw) = denotes isSpace c depth raw := by
  rw [denotes.eq_def isSpace c depth raw, denotes.eq_def, parse_stripped]

theorem mem_normalizedExpressions {expressions : List PyText} {raw : PyText} :
    raw ∈ normalizedExpressions isSpace expressions ↔
      ∃ source ∈ expressions, stripped isSpace source = raw := by
  rw [normalizedExpressions, mem_sortedSet, List.mem_map]

theorem normalizedExpressions_congr {expressions others : List PyText}
    (h : ∀ raw, raw ∈ others ↔ raw ∈ expressions) :
    normalizedExpressions isSpace others = normalizedExpressions isSpace expressions := by
  refine sortedSet_congr Function.injective_id ?_
  intro raw
  simp only [List.mem_map, h]

theorem denotesAny_normalized (c : Scope) (depth : ℕ) (expressions : List PyText) :
    denotesAny isSpace c depth (normalizedExpressions isSpace expressions) =
      denotesAny isSpace c depth expressions := by
  ext id
  constructor
  · rintro ⟨raw, hraw, hid⟩
    obtain ⟨source, hsource, rfl⟩ := mem_normalizedExpressions.mp hraw
    rw [denotes_stripped] at hid
    exact ⟨source, hsource, hid⟩
  · rintro ⟨raw, hraw, hid⟩
    refine ⟨stripped isSpace raw, mem_normalizedExpressions.mpr ⟨raw, hraw, rfl⟩, ?_⟩
    rw [denotes_stripped]
    exact hid

end Blanks

/-! ### Searching from roots -/

/-- The ids of the matched workloads. -/
abbrev matchedKeys (found : Matches) : List PyText := found.map Prod.fst

/-- All reasons are true of their workloads. -/
def AllExplained (g : SelectionGraph) (found : Matches) : Prop :=
  ∀ m ∈ found, ∀ r ∈ m.2, Explains g m.1 r

section Searching
variable {g : SelectionGraph} {adjacency : List (PyText × List PyText)}
  {next : PyText → List PyText} {kind : ReasonKind}

/-- An adjacency of all workloads, for the reasons of one kind. -/
structure Walks (g : SelectionGraph) (adjacency : List (PyText × List PyText))
    (next : PyText → List PyText) (kind : ReasonKind) : Prop where
  mem_iff : ∀ v w, w ∈ neighbors adjacency v ↔ w ∈ next v
  length : adjacency.length = (g.nodes.map SelectionNode.nodeId).length
  closed : ∀ v w, w ∈ next v → w ∈ g.nodes.map SelectionNode.nodeId
  explains : ∀ {root id path} (expression : PyText), Shortest next root id path →
    Explains g id ⟨kind, expression, root, path⟩

theorem walks_outgoing (h : g.Known) :
    Walks g (outgoing g) (downstreams g.edges) .descendant where
  mem_iff _ _ := mem_outgoing h
  length := by simp [outgoing]
  closed v w hw := (h _ (mem_downstreams.mp hw)).2
  explains _ hpath := hpath

theorem walks_incoming (h : g.Known) : Walks g (incoming g) (upstreams g.edges) .ancestor where
  mem_iff _ _ := mem_incoming h
  length := by simp [incoming]
  closed v w hw := (h _ (mem_upstreams.mp hw)).1
  explains _ hpath := hpath

/-- CALL RULE: the search finds its root first and then, on shortest paths, all that can be
    reached. -/
theorem Walks.search (h : Walks g adjacency next kind) {root : PyText}
    (hroot : root ∈ g.nodes.map SelectionNode.nodeId) :
    ∃ rest, searchFrom adjacency root = (root, [root]) :: rest ∧
      (∀ e ∈ rest, Shortest next root e.1 e.2) ∧
      ∀ v, v = root ∨ v ∈ rest.map Prod.fst ↔
        Relation.ReflTransGen (fun a b => b ∈ next a) root v := by
  have hclosed : ∀ v ∈ g.nodes.map SelectionNode.nodeId, ∀ w ∈ neighbors adjacency v,
      w ∈ g.nodes.map SelectionNode.nodeId := fun v _ w hw => h.closed v w ((h.mem_iff v w).mp hw)
  obtain ⟨done, hend⟩ := Search.loop_ends hroot hclosed
  rw [← h.length] at hend
  obtain ⟨rest, hrest⟩ := hend.root_first
  refine ⟨rest, hrest, ?_, ?_⟩
  · intro e he
    refine (Shortest.congr h.mem_iff).mp (hend.shortest e ?_)
    rw [hrest]
    exact List.mem_cons_of_mem _ he
  · intro v
    have hmem := hend.mem_iff (v := v)
    rw [hrest, List.map_cons, List.mem_cons] at hmem
    simpa only [h.mem_iff] using hmem

theorem Walks.expandRoot (h : Walks g adjacency next kind) (expression : PyText) {root : PyText}
    (hroot : root ∈ g.nodes.map SelectionNode.nodeId) {result : Matches}
    (hmem : root ∈ matchedKeys result) (hresult : AllExplained g result) :
    (∀ v, v ∈ matchedKeys (expandRoot adjacency kind expression result root) ↔
      v ∈ matchedKeys result ∨ Relation.ReflTransGen (fun a b => b ∈ next a) root v) ∧
    AllExplained g (expandRoot adjacency kind expression result root) := by
  obtain ⟨rest, hsearch, hpaths, hreach⟩ := h.search hroot
  unfold Manifest.expandRoot
  rw [hsearch, List.drop_one, List.tail_cons]
  constructor
  · intro v
    rw [Dict.mem_keys_foldl_extend, ← hreach]
    constructor
    · rintro (⟨e, he, rfl⟩ | hv)
      · exact .inr (.inr (List.mem_map_of_mem he))
      · exact .inl hv
    · rintro (hv | rfl | hv)
      · exact .inr hv
      · exact .inr hmem
      · exact .inl (List.mem_map.mp hv)
  · refine Dict.forall_foldl_extend (P := fun id r => Explains g id r) ?_ hresult
    intro e he r hr
    rw [List.mem_singleton.mp hr]
    exact h.explains expression (hpaths e he)

/-- RUN: roots are expanded one after the other. -/
theorem Walks.expand (h : Walks g adjacency next kind) (expression : PyText) :
    ∀ {roots : List PyText} {result : Matches},
      (∀ root ∈ roots, root ∈ g.nodes.map SelectionNode.nodeId ∧ root ∈ matchedKeys result) →
      AllExplained g result →
      (∀ v, v ∈ matchedKeys (expand adjacency kind expression roots result) ↔
        v ∈ matchedKeys result ∨
          ∃ root ∈ roots, Relation.ReflTransGen (fun a b => b ∈ next a) root v) ∧
      AllExplained g (expand adjacency kind expression roots result)
  | [], result, _, hresult => ⟨by simp [Manifest.expand], hresult⟩
  | root :: roots, result, hroots, hresult => by
    obtain ⟨⟨hroot, hmem⟩, hrest⟩ := List.forall_mem_cons.mp hroots
    obtain ⟨hkeys, hfirst⟩ := h.expandRoot expression hroot hmem hresult
    obtain ⟨hkeys', hall⟩ := h.expand expression
      (fun r hr => ⟨(hrest r hr).1, (hkeys r).mpr (.inl (hrest r hr).2)⟩) hfirst
    refine ⟨?_, hall⟩
    intro v
    rw [Manifest.expand, List.foldl_cons, ← Manifest.expand, hkeys', hkeys]
    simp only [List.mem_cons, exists_eq_or_imp]
    exact or_assoc

/-- The roots are expanded where a plus asks for it. -/
theorem Walks.expandIf (h : Walks g adjacency next kind) (expression : PyText) (wanted : Bool)
    {roots : List PyText} {result : Matches}
    (hroots : ∀ root ∈ roots, root ∈ g.nodes.map SelectionNode.nodeId ∧ root ∈ matchedKeys result)
    (hresult : AllExplained g result) :
    (∀ v, v ∈ matchedKeys (if wanted then Manifest.expand adjacency kind expression roots result
        else result) ↔
      v ∈ matchedKeys result ∨
        (wanted = true ∧ ∃ root ∈ roots, Relation.ReflTransGen (fun a b => b ∈ next a) root v)) ∧
    AllExplained g (if wanted then Manifest.expand adjacency kind expression roots result
      else result) := by
  cases wanted with
  | true =>
    obtain ⟨hkeys, hall⟩ := h.expand expression hroots hresult
    refine ⟨?_, hall⟩
    intro v
    rw [if_pos rfl, hkeys]
    simp only [true_and]
  | false =>
    refine ⟨?_, hresult⟩
    intro v
    simp

end Searching

/-! ### Expressions -/

/-- What an evaluation found: all that is denoted, nothing but workloads, for true reasons. -/
structure Finds (g : SelectionGraph) (meaning : Set PyText) (found : Matches) : Prop where
  keys : ∀ id, id ∈ matchedKeys found ↔ id ∈ meaning
  known : ∀ id ∈ meaning, id ∈ g.nodes.map SelectionNode.nodeId
  explained : AllExplained g found

section Expressions
variable {isSpace : CodePoint → Bool} {c : Scope}

theorem swap_reaches {g : SelectionGraph} {root v : PyText} :
    Relation.ReflTransGen (fun a b => b ∈ upstreams g.edges a) root v ↔
      Relation.ReflTransGen g.Feeds v root := by
  rw [← Relation.reflTransGen_swap]
  simp only [mem_upstreams]
  rfl

theorem downstream_reaches {g : SelectionGraph} {root v : PyText} :
    Relation.ReflTransGen (fun a b => b ∈ downstreams g.edges a) root v ↔
      Relation.ReflTransGen g.Feeds root v := by
  simp only [mem_downstreams]
  rfl

/-- What leads to a root is a root, or leads there in at least one step. -/
theorem reaches_above {r : PyText → PyText → Prop} {roots : List PyText} {v : PyText} :
    (∃ root ∈ roots, Relation.ReflTransGen r v root) ↔
      (v ∈ roots ∨ ∃ root ∈ roots, Relation.TransGen r v root) := by
  constructor
  · rintro ⟨root, hroot, hreach⟩
    rcases Relation.reflTransGen_iff_eq_or_transGen.mp hreach with rfl | hreach
    · exact .inl hroot
    · exact .inr ⟨root, hroot, hreach⟩
  · rintro (hv | ⟨root, hroot, hreach⟩)
    · exact ⟨v, hv, .refl⟩
    · exact ⟨root, hroot, hreach.to_reflTransGen⟩

theorem reaches_below {r : PyText → PyText → Prop} {roots : List PyText} {v : PyText} :
    (∃ root ∈ roots, Relation.ReflTransGen r root v) ↔
      (v ∈ roots ∨ ∃ root ∈ roots, Relation.TransGen r root v) := by
  constructor
  · rintro ⟨root, hroot, hreach⟩
    rcases Relation.reflTransGen_iff_eq_or_transGen.mp hreach with rfl | hreach
    · exact .inl hroot
    · exact .inr ⟨root, hroot, hreach⟩
  · rintro (hv | ⟨root, hroot, hreach⟩)
    · exact ⟨v, hv, .refl⟩
    · exact ⟨root, hroot, hreach.to_reflTransGen⟩

/-- Roots that are reached in no step are there anyway. -/
theorem absorb_roots {isRoot above below wantsAbove wantsBelow : Prop} :
    ((isRoot ∨ wantsAbove ∧ (isRoot ∨ above)) ∨ wantsBelow ∧ (isRoot ∨ below)) ↔
      isRoot ∨ wantsAbove ∧ above ∨ wantsBelow ∧ below := by
  tauto

/-- CALL RULE: the reasons of an expression are those of its roots and of what they lead to. -/
theorem explain_finds (hg : c.graph.Known) (e : ParsedSelectionExpression) {found : List PyText}
    (hfound : ∀ id ∈ found, id ∈ c.graph.nodes.map SelectionNode.nodeId) :
    Finds c.graph (closure c.graph e {id | id ∈ found}) (explain c e found) := by
  have hroots : ∀ root ∈ sortedSet (fun s => s) found,
      root ∈ c.graph.nodes.map SelectionNode.nodeId := fun root hroot =>
    hfound root (mem_sortedSet.mp hroot)
  obtain ⟨direct, hdirect⟩ : ∃ direct, direct = (sortedSet (fun s => s) found).foldl
      (fun result root => Dict.extend root [⟨directKind e.method, e.raw, root, [root]⟩] result)
      ([] : Matches) := ⟨_, rfl⟩
  have hkeys : ∀ v, v ∈ matchedKeys direct ↔ v ∈ found := by
    intro v
    rw [hdirect, matchedKeys, Dict.mem_keys_foldl_extend]
    simp
  have hexplained : AllExplained c.graph direct := by
    rw [hdirect]
    refine Dict.forall_foldl_extend (P := fun id r => Explains c.graph id r) ?_ (by simp)
    intro root _ r hr
    rw [List.mem_singleton.mp hr]
    cases hmethod : e.method <;> exact ⟨rfl, rfl⟩
  have hstart : ∀ root ∈ sortedSet (fun s => s) found,
      root ∈ c.graph.nodes.map SelectionNode.nodeId ∧ root ∈ matchedKeys direct := fun root hroot =>
    ⟨hroots root hroot, (hkeys root).mpr (mem_sortedSet.mp hroot)⟩
  obtain ⟨habove, hexplained⟩ :=
    (walks_incoming hg).expandIf e.raw e.includeAncestors hstart hexplained
  obtain ⟨hall, hexplained⟩ :=
    (walks_outgoing hg).expandIf e.raw e.includeDescendants
      (fun root hroot => ⟨hroots root hroot, (habove root).mpr (.inl (hstart root hroot).2)⟩)
      hexplained
  refine ⟨?_, ?_, ?_⟩
  · intro v
    have hexplain : explain c e found =
        if e.includeDescendants then
          expand (outgoing c.graph) .descendant e.raw (sortedSet (fun s => s) found)
            (if e.includeAncestors then
              expand (incoming c.graph) .ancestor e.raw (sortedSet (fun s => s) found) direct
            else direct)
        else if e.includeAncestors then
          expand (incoming c.graph) .ancestor e.raw (sortedSet (fun s => s) found) direct
        else direct := by
      rw [hdirect]
      rfl
    rw [hexplain, hall, habove, hkeys]
    simp only [mem_sortedSet, swap_reaches, downstream_reaches, reaches_above, reaches_below]
    exact absorb_roots
  · rintro v (hv | ⟨-, root, -, hreach⟩ | ⟨-, root, -, hreach⟩)
    · exact hfound v hv
    · obtain ⟨w, hedge, -⟩ := Relation.TransGen.head'_iff.mp hreach
      exact (hg _ hedge).1
    · obtain ⟨w, -, hedge⟩ := Relation.TransGen.tail'_iff.mp hreach
      exact (hg _ hedge).2
  · rw [hdirect] at hexplained
    exact hexplained

/-- CALL RULE: expressions whose evaluations are right match together what some of them denote. -/
theorem matchedIds_spec {evaluate : PyText → Except SelectionFailure Matches}
    {meaning : PyText → Set PyText}
    (hevaluate : ∀ raw found, evaluate raw = .ok found → Finds c.graph (meaning raw) found) :
    ∀ {expressions ids : List PyText}, matchedIds evaluate expressions = .ok ids →
      (∀ id, id ∈ ids ↔ ∃ raw ∈ expressions, id ∈ meaning raw) ∧
      ∀ id ∈ ids, id ∈ c.graph.nodes.map SelectionNode.nodeId
  | [], ids, h => by
    cases Except.ok.inj h
    simp
  | raw :: expressions, ids, h => by
    obtain ⟨found, hfound, h⟩ := bind_ok.mp h
    obtain ⟨rest, hrest, rfl⟩ := map_ok.mp h
    have hfinds := hevaluate raw found hfound
    obtain ⟨hids, hknown⟩ := matchedIds_spec hevaluate hrest
    constructor
    · intro id
      rw [List.mem_append, hids, hfinds.keys]
      simp only [List.mem_cons, exists_eq_or_imp]
    · intro id hid
      rcases List.mem_append.mp hid with hid | hid
      · exact hfinds.known id ((hfinds.keys id).mp hid)
      · exact hknown id hid

/-- The statuses are those of the workloads. -/
def Scope.Rated (c : Scope) : Prop :=
  ∀ s ∈ c.stateStatuses, s.1 ∈ c.graph.nodes.map SelectionNode.nodeId

/-- STEP: where the evaluation of named expressions is right, the roots are. -/
theorem roots_spec {evaluate : List PyText → PyText → Except SelectionFailure Matches}
    {trail : List PyText} {meaning : PyText → Set PyText} (hrated : c.Rated)
    (hblank : ∀ raw, meaning (stripped isSpace raw) = meaning raw)
    (hevaluate : trail.length < maxNamedDepth → ∀ name raw found,
      evaluate (trail ++ [name]) raw = .ok found → Finds c.graph (meaning raw) found)
    {e : ParsedSelectionExpression} {found : List PyText}
    (h : roots isSpace c evaluate trail e = .ok found) :
    (∀ id, id ∈ found ↔ id ∈ rootSet c meaning e) ∧
      ∀ id ∈ found, id ∈ c.graph.nodes.map SelectionNode.nodeId := by
  have hplain : ∀ {expressions : List PyText} {id : PyText},
      (∃ raw ∈ normalizedExpressions isSpace expressions, id ∈ meaning raw) ↔
        ∃ raw ∈ expressions, id ∈ meaning raw := by
    intro expressions id
    constructor
    · rintro ⟨raw, hraw, hid⟩
      obtain ⟨source, hsource, rfl⟩ := mem_normalizedExpressions.mp hraw
      exact ⟨source, hsource, hblank source ▸ hid⟩
    · rintro ⟨raw, hraw, hid⟩
      exact ⟨_, mem_normalizedExpressions.mpr ⟨raw, hraw, rfl⟩, (hblank raw).symm ▸ hid⟩
  have hdirect : ∀ method : SelectionMethod,
      (∀ id, id ∈ (c.graph.nodes.filter (matchesNode method e.value)).map SelectionNode.nodeId ↔
        ∃ n ∈ c.graph.nodes, n.nodeId = id ∧ matchesNode method e.value n = true) ∧
      ∀ id ∈ (c.graph.nodes.filter (matchesNode method e.value)).map SelectionNode.nodeId,
        id ∈ c.graph.nodes.map SelectionNode.nodeId := by
    intro method
    constructor
    · intro id
      simp only [List.mem_map, List.mem_filter]
      constructor
      · rintro ⟨n, ⟨hn, hmatch⟩, hid⟩
        exact ⟨n, hn, hid, hmatch⟩
      · rintro ⟨n, hn, hid, hmatch⟩
        exact ⟨n, ⟨hn, hmatch⟩, hid⟩
    · intro id hid
      obtain ⟨n, hn, rfl⟩ := List.mem_map.mp hid
      exact List.mem_map_of_mem (List.mem_filter.mp hn).1
  unfold roots at h
  unfold rootSet
  rcases hmethod : e.method
  case selector =>
    rw [hmethod] at h
    unfold namedRoots at h
    simp only at h ⊢
    split_ifs at h with hcycle hdeep
    rcases hnamed : c.named.lookup e.value with _ | definition
    · rw [hnamed] at h
      cases h
    · rw [hnamed] at h
      simp only at h ⊢
      obtain ⟨selected, hselected, h⟩ := bind_ok.mp h
      obtain ⟨excluded, hexcluded, rfl⟩ := map_ok.mp h
      have hright := hevaluate (Nat.lt_of_not_le hdeep) e.value
      obtain ⟨hselect, hknown⟩ := matchedIds_spec hright hselected
      obtain ⟨hexclude, -⟩ := matchedIds_spec hright hexcluded
      simp only [List.mem_filter, decide_eq_true_eq, hselect, hexclude, hplain]
      refine ⟨fun id => Iff.rfl, ?_⟩
      rintro id ⟨hid, -⟩
      exact hknown id ((hselect id).mpr (hplain.mpr hid))
  case state =>
    rw [hmethod] at h
    simp only at h ⊢
    split_ifs at h with hempty
    cases Except.ok.inj h
    constructor
    · intro id
      simp only [List.mem_map, List.mem_filter, decide_eq_true_eq]
      constructor
      · rintro ⟨s, ⟨hs, hvalue⟩, hid⟩
        exact ⟨s, hs, hid, hvalue⟩
      · rintro ⟨s, hs, hid, hvalue⟩
        exact ⟨s, ⟨hs, hvalue⟩, hid⟩
    · intro id hid
      obtain ⟨s, hs, rfl⟩ := List.mem_map.mp hid
      exact hrated s (List.mem_filter.mp hs).1
  all_goals
    rw [hmethod] at h
    cases Except.ok.inj h
    exact hdirect _

/-- The meanings that a named selection at a depth is made of. -/
def meaningBelow (isSpace : CodePoint → Bool) (c : Scope) : ℕ → PyText → Set PyText
  | 0 => fun _ => ∅
  | n + 1 => denotes isSpace c n

theorem denotes_of_parse {depth : ℕ} {raw : PyText} {e : ParsedSelectionExpression}
    (h : parseSelectionExpression isSpace raw = .ok e) :
    denotes isSpace c depth raw =
      closure c.graph e (rootSet c (meaningBelow isSpace c depth) e) := by
  unfold denotes
  rw [h]
  cases depth <;> rfl

/-- The evaluation that a named selection calls. -/
def evaluateBelow (isSpace : CodePoint → Bool) (c : Scope) :
    ℕ → List PyText → PyText → Except SelectionFailure Matches
  | 0 => fun _ _ => .error (limitExceeded [] [])
  | n + 1 => evaluateExpression isSpace c n

/-- STEP: one expression, its named selections being right. -/
theorem evaluate_step (hg : c.graph.Known) (hrated : c.Rated) {fuel depth : ℕ}
    {trail : List PyText}
    (hbelow : trail.length < maxNamedDepth → ∀ name raw found,
      evaluateBelow isSpace c fuel (trail ++ [name]) raw = .ok found →
        Finds c.graph (meaningBelow isSpace c depth raw) found)
    {raw : PyText} {found : Matches} (h : evaluateExpression isSpace c fuel trail raw = .ok found) :
    Finds c.graph (denotes isSpace c depth raw) found := by
  have hcalled : (parseSelectionExpression isSpace raw).bind (fun e =>
      (roots isSpace c (evaluateBelow isSpace c fuel) trail e).map (explain c e)) = .ok found := by
    rw [← h]
    cases fuel <;> rfl
  obtain ⟨e, hparse, hmap⟩ := bind_ok.mp hcalled
  obtain ⟨ids, hroots, rfl⟩ := map_ok.mp hmap
  have hblank : ∀ raw, meaningBelow isSpace c depth (stripped isSpace raw) =
      meaningBelow isSpace c depth raw := by
    intro raw
    cases depth with
    | zero => rfl
    | succ n => exact denotes_stripped c n raw
  obtain ⟨hids, hknown⟩ := roots_spec hrated hblank hbelow hroots
  have hset : {id | id ∈ ids} = rootSet c (meaningBelow isSpace c depth) e := Set.ext hids
  rw [denotes_of_parse hparse, ← hset]
  exact explain_finds hg e hknown

/-- RUN: an evaluation that does not raise finds what the expression denotes. -/
theorem evaluate_spec (hg : c.graph.Known) (hrated : c.Rated) : ∀ (fuel depth : ℕ)
    (trail : List PyText), maxNamedDepth ≤ depth + trail.length → ∀ raw found,
      evaluateExpression isSpace c fuel trail raw = .ok found →
        Finds c.graph (denotes isSpace c depth raw) found := by
  intro fuel
  induction fuel with
  | zero =>
    intro depth trail hdepth raw found h
    refine evaluate_step hg hrated ?_ h
    intro _ name raw' found' h'
    cases h'
  | succ fuel ih =>
    intro depth trail hdepth raw found h
    refine evaluate_step hg hrated ?_ h
    intro hlt name raw' found' h'
    obtain ⟨n, rfl⟩ : ∃ n, depth = n + 1 := ⟨depth - 1, by omega⟩
    refine ih n (trail ++ [name]) ?_ raw' found' h'
    rw [List.length_append, List.length_singleton]
    omega

end Expressions
end Dpone.Manifest
