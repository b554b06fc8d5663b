import Dpone.Dag.GraphAlgorithms
import Dpone.Schemes.Dict

/-! Dependencies between processes: what a declared dependency refers to, the edges it stands for,
    and the graph that is built from all of them. -/

namespace Dpone.Dag
open Dpone.Schemes

/-! ### Indexes -/

structure DependencyIndexes where
  nodes : List ProcessNode
  nodesByName : List (Str × ProcessNode)
  nodesByFile : List (Str × List ProcessNode)
  nodesByGroup : List (Str × List ProcessNode)
  allGroups : List Str

/-- A name that is there and not empty. -/
def named : Option Str → Option Str
  | some (c :: s) => some (c :: s)
  | _ => none

/-- `build_dependency_indexes`. -/
def buildDependencyIndexes (nodes : List ProcessNode) : DependencyIndexes where
  nodes
  nodesByName := Dict.indexBy ProcessNode.name nodes
  nodesByFile := Dict.groupBy (fun n => some n.configPath.text) nodes
  nodesByGroup := Dict.groupBy (fun n => named n.taskGroup) nodes
  allGroups := nodes.filterMap fun n => named n.taskGroup

namespace DependencyIndexes

def inFile (indexes : DependencyIndexes) (file : Str) : List ProcessNode :=
  (indexes.nodesByFile.lookup file).getD []

def inGroup (indexes : DependencyIndexes) (group : Str) : List ProcessNode :=
  (indexes.nodesByGroup.lookup group).getD []

end DependencyIndexes

/-! ### Paths -/

/-- How a group was recognised. -/
inductive MatchedBy where
  | exact
  | basename
  | stem
  deriving DecidableEq

/-- What a path was resolved as, with the details that reports show. -/
inductive PathMode where
  | groupString (group : Str) (matchCount : ℕ) (matchedBy : MatchedBy) (raw : Option Str)
  | taskId (taskId : Str)
  | selector (file selector : Str) (matchCount : ℕ)
  | file (file : Str) (matchCount : ℕ)
  | stem (stem : Str) (matchCount : ℕ)
  | empty (raw : Str)
  | unresolved (raw filePart : Str) (selector : Option Str)
  deriving DecidableEq

structure PathDependencyResolution where
  upstreamNames : List Str
  mode : PathMode
  deriving DecidableEq

variable (u : Unicode)

/-- `text.strip() or None`. -/
def stripOrNone (s : Str) : Option Str := named (some (strip u s))

/-- `split_dependency_ref`. -/
def splitDependencyRef (depPath : Str) (currentNode : ProcessNode) : Str × Option Str :=
  let raw := strip u depPath
  match raw with
  | [] => ([], none)
  | '#' :: selector => (currentNode.configPath.text, stripOrNone u selector)
  | _ =>
    if '#' ∈ raw then
      (strip u (raw.takeWhile (· ≠ '#')), stripOrNone u ((raw.dropWhile (· ≠ '#')).drop 1))
    else (raw, none)

/-- A selector names a process by its own selector or by its name. -/
def selects (selector : Str) (n : ProcessNode) : Bool :=
  named n.selector = some selector || n.name = selector

def names (nodes : List ProcessNode) : List Str := nodes.map ProcessNode.name

/-- A path whose last name, or its stem, is a group. -/
def groupOfPath (raw : Str) (indexes : DependencyIndexes) : Option (Str × MatchedBy) :=
  let path := PosixPath.ofText raw
  [(path.name, MatchedBy.basename), (path.stem, .stem)].find? fun candidate =>
    candidate.1 ≠ [] && candidate.1 ∈ indexes.allGroups

/-- `resolve_dependency_path`. -/
def resolveDependencyPath (depPath : Str) (currentNode : ProcessNode)
    (indexes : DependencyIndexes) : PathDependencyResolution :=
  let raw := strip u depPath
  if raw = [] then ⟨[], .empty depPath⟩
  else if raw ∈ indexes.allGroups then
    let matched := names (indexes.inGroup raw)
    ⟨matched, .groupString raw matched.length .exact none⟩
  else match indexes.nodesByName.lookup raw with
  | some direct => ⟨[direct.name], .taskId raw⟩
  | none =>
    let (filePart, selector) := splitDependencyRef u raw currentNode
    match selector with
    | some selector =>
      let matched := names ((indexes.inFile filePart).filter (selects selector))
      ⟨matched, .selector filePart selector matched.length⟩
    | none =>
      let matched := names (indexes.inFile filePart)
      if matched ≠ [] then ⟨matched, .file filePart matched.length⟩
      else match groupOfPath raw indexes with
      | some (group, matchedBy) =>
        let matched := names (indexes.inGroup group)
        ⟨matched, .groupString group matched.length matchedBy (some raw)⟩
      | none =>
        let stem := (PosixPath.ofText raw).stem
        let matched := names (indexes.nodes.filter fun n => n.configPath.stem = stem)
        if matched ≠ [] then ⟨matched, .stem stem matched.length⟩
        else ⟨[], .unresolved raw filePart none⟩

/-! ### Declared dependencies -/

inductive DependencyKind where
  | groupToGroup (upstreamGroup downstreamGroup triggerTask : Str) (triggerSelector : Option Str)
  | groupToTask (group triggerTask : Str) (triggerSelector : Option Str)
  | path (mode : PathMode)
  deriving DecidableEq

/-- `kind == "unresolved"`. -/
def DependencyKind.unresolved : DependencyKind → Bool
  | .path (.empty _) | .path (.unresolved ..) => true
  | _ => false

structure DependencyResolution where
  triggerTaskName : Str
  triggerSelector : Option Str
  dependencyIndex : ℕ
  kind : DependencyKind
  upstreamNames : List Str
  downstreamNames : List Str
  rawPath : Option Str := none
  group : Option Str := none
  aliasName : Option Str
  deriving DecidableEq

/-- `resolve_declared_dependency`. -/
def resolveDeclaredDependency (currentNode : ProcessNode) (dep : DependencyConfig) (depIndex : ℕ)
    (indexes : DependencyIndexes) : DependencyResolution :=
  match named dep.group with
  | some group =>
    let upstreamNames := names (indexes.inGroup group)
    match named currentNode.taskGroup with
    | some taskGroup =>
      { triggerTaskName := currentNode.name
        triggerSelector := currentNode.selector
        dependencyIndex := depIndex
        kind := .groupToGroup group taskGroup currentNode.name currentNode.selector
        upstreamNames
        downstreamNames := names (indexes.inGroup taskGroup)
        group := some group
        aliasName := dep.aliasName }
    | none =>
      { triggerTaskName := currentNode.name
        triggerSelector := currentNode.selector
        dependencyIndex := depIndex
        kind := .groupToTask group currentNode.name currentNode.selector
        upstreamNames
        downstreamNames := [currentNode.name]
        group := some group
        aliasName := dep.aliasName }
  | none =>
    let resolution := resolveDependencyPath u dep.path currentNode indexes
    { triggerTaskName := currentNode.name
      triggerSelector := currentNode.selector
      dependencyIndex := depIndex
      kind := .path resolution.mode
      upstreamNames := resolution.upstreamNames
      downstreamNames := [currentNode.name]
      rawPath := some dep.path
      aliasName := dep.aliasName }

/-- `resolve_node_dependencies`. -/
def resolveNodeDependencies (currentNode : ProcessNode) (indexes : DependencyIndexes) :
    List DependencyResolution :=
  currentNode.dependencies.mapIdx fun depIndex dep =>
    resolveDeclaredDependency u currentNode dep depIndex indexes

/-- `collect_dependency_resolutions`. -/
def collectDependencyResolutions (nodes : List ProcessNode) : List DependencyResolution :=
  nodes.flatMap fun n => resolveNodeDependencies u n (buildDependencyIndexes nodes)

/-! ### Building the graph -/

/-- The pairs of names that a resolution orders. -/
def DependencyResolution.edges (r : DependencyResolution) : List (Str × Str) :=
  r.upstreamNames.flatMap fun up =>
    (r.downstreamNames.filter (· ≠ up)).map fun down => (up, down)

/-- The registered process of a name is replaced. -/
def modify (name : Str) (change : ProcessNode → ProcessNode) (nodes : List ProcessNode) :
    List ProcessNode :=
  nodes.map fun n => if n.name = name then change n else n

/-- `add_dependency`. -/
def addDependency (nodes : List ProcessNode) (edge : Str × Str) : List ProcessNode :=
  match find nodes edge.2, find nodes edge.1 with
  | some dependent, some dependency =>
    modify dependent.name (fun n => { n with upstream := n.upstream <|> some dependency.name })
      (modify dependency.name (·.addDependent dependent.name) nodes)
  | _, _ => nodes

/-- A warning names the reference and the process that declares it. -/
structure UnresolvedDependency where
  raw : Str
  triggerTaskName : Str
  deriving DecidableEq

/-- The registered processes and the warnings that were logged. -/
structure Relationships where
  nodes : List ProcessNode
  warnings : List UnresolvedDependency := []

/-- One round of `RelationshipBuilder.build`. -/
def Relationships.relate (s : Relationships) (r : DependencyResolution) : Relationships :=
  if r.kind.unresolved then
    { s with warnings := s.warnings ++
        [⟨((r.rawPath.bind fun raw => named (some raw)) <|> r.group).getD [], r.triggerTaskName⟩] }
  else { s with nodes := r.edges.foldl addDependency s.nodes }

/-- `RelationshipBuilder.build`. -/
def Relationships.build (nodes : List ProcessNode) : Relationships :=
  (collectDependencyResolutions u nodes).foldl relate { nodes }

end Dpone.Dag
