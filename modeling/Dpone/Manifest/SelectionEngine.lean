import Dpone.Manifest.SelectionModels
import Dpone.Schemes.BreadthFirst

/-! The selection engine: `selection.py`.

    Every expression is evaluated to the workloads it matches, each with the reasons why: first its
    roots, then what a breadth-first search finds above or below each root. A named selection is
    evaluated where its name is met; the trail of names stops cycles and deep nesting. -/

namespace Dpone.Manifest
open Dpone.Schemes Dpone.Contracts

/-- Workloads with the reasons why they match. -/
abbrev Matches := List (PyText × List SelectionReason)

def limitExceeded (message : PyText) (context : List (PyText × JsonValue)) : SelectionFailure :=
  failure (pyText "DPONE_SELECTION_LIMIT_EXCEEDED") message context

def stateRequired : SelectionFailure :=
  failure (pyText "DPONE_SELECTION_STATE_REQUIRED")
    (pyText "A state selector requires a baseline.") []

def natText (n : ℕ) : PyText := textOf (intText n)

def maxExpressions : ℕ := 1000

def maxNamedDepth : ℕ := 8

/-! ### The graph -/

/-- `_adjacency`, downstream. -/
def outgoing (g : SelectionGraph) : List (PyText × List PyText) :=
  g.nodes.map fun n => (n.nodeId, sortedBy (fun s => s) (downstreams g.edges n.nodeId))

/-- The upstream ends of the edges into a workload. -/
def upstreams (edges : List SelectionEdge) (id : PyText) : List PyText :=
  (edges.filter fun e => e.2 = id).map Prod.fst

/-- `_adjacency`, upstream. -/
def incoming (g : SelectionGraph) : List (PyText × List PyText) :=
  g.nodes.map fun n => (n.nodeId, sortedBy (fun s => s) (upstreams g.edges n.nodeId))

/-- `adjacency.get(current, ())`. -/
def neighbors (adjacency : List (PyText × List PyText)) (id : PyText) : List PyText :=
  (adjacency.lookup id).getD []

/-- `_matches`. -/
def matchesNode (method : SelectionMethod) (value : PyText) (n : SelectionNode) : Bool :=
  match method with
  | .id => n.nodeId = value
  | .domain => n.domain = some value
  | .owner => n.owner = some value
  | .tag => value ∈ n.tags
  | .source => value ∈ n.sources
  | .sink => value ∈ n.sinks
  | .group => value ∈ n.groups
  | .state => false
  | .selector => false

/-! ### Reasons -/

/-- The paths from a root to all that its neighbours lead to. -/
def searchFrom (adjacency : List (PyText × List PyText)) (root : PyText) :
    List (PyText × List PyText) :=
  (Search.loop (neighbors adjacency) adjacency.length (Search.start root)).paths

/-- `_expand`, from one root. -/
def expandRoot (adjacency : List (PyText × List PyText)) (kind : ReasonKind) (expression : PyText)
    (result : Matches) (root : PyText) : Matches :=
  ((searchFrom adjacency root).drop 1).foldl
    (fun result found => Dict.extend found.1 [⟨kind, expression, root, found.2⟩] result) result

/-- `_expand`. -/
def expand (adjacency : List (PyText × List PyText)) (kind : ReasonKind) (expression : PyText)
    (roots : List PyText) (result : Matches) : Matches :=
  roots.foldl (expandRoot adjacency kind expression) result

/-- `_merge_reasons`. -/
def mergeReasons (target source : Matches) : Matches :=
  source.foldl (fun target m => Dict.extend m.1 m.2 target) target

/-- `_ordered_reasons`. -/
def orderedReasons (reasons : List SelectionReason) : List SelectionReason :=
  sortedSet (fun r => toLex (r.kind.text, toLex (r.expression, toLex (r.root, r.path)))) reasons

/-! ### Expressions -/

section Engine
variable (isSpace : CodePoint → Bool)

/-- What an evaluation reads. -/
structure Scope where
  graph : SelectionGraph
  named : List (PyText × NamedSelection)
  stateStatuses : List (PyText × NodeStatus)

/-- The ids of all that some expressions match. -/
def matchedIds (evaluate : PyText → Except SelectionFailure Matches) :
    List PyText → Except SelectionFailure (List PyText)
  | [] => .ok []
  | raw :: expressions =>
    (evaluate raw).bind fun found =>
      (matchedIds evaluate expressions).map fun ids => found.map Prod.fst ++ ids

variable (c : Scope)

/-- `_named_roots`. -/
def namedRoots (evaluate : List PyText → PyText → Except SelectionFailure Matches)
    (trail : List PyText) (name : PyText) : Except SelectionFailure (List PyText) :=
  if name ∈ trail then
    .error (failure (pyText "DPONE_SELECTION_NAMED_CYCLE")
      (pyText "Named selector cycle detected at " ++ name ++ pyText ".") [])
  else if maxNamedDepth ≤ trail.length then
    .error (limitExceeded (pyText "Named selector depth limit was exceeded.") [])
  else
    match c.named.lookup name with
    | none =>
      .error (failure (pyText "DPONE_SELECTION_NAMED_NOT_FOUND")
        (pyText "Named selector was not found: " ++ name ++ pyText ".") [])
    | some definition =>
      let nextTrail := trail ++ [name]
      (matchedIds (evaluate nextTrail) (normalizedExpressions isSpace definition.select)).bind
        fun selected =>
          (matchedIds (evaluate nextTrail)
            (normalizedExpressions isSpace definition.exclude)).map fun excluded =>
              selected.filter fun id => id ∉ excluded

/-- `_roots`. -/
def roots (evaluate : List PyText → PyText → Except SelectionFailure Matches)
    (trail : List PyText) (e : ParsedSelectionExpression) :
    Except SelectionFailure (List PyText) :=
  match e.method with
  | .selector => namedRoots isSpace c evaluate trail e.value
  | .state =>
    if c.stateStatuses = [] then .error stateRequired
    else .ok ((c.stateStatuses.filter fun s => s.2.text = e.value).map Prod.fst)
  | method => .ok ((c.graph.nodes.filter (matchesNode method e.value)).map SelectionNode.nodeId)

def directKind : SelectionMethod → ReasonKind
  | .selector => .named
  | .state => .state
  | _ => .direct

/-- The reasons of an expression, from its roots. -/
def explain (e : ParsedSelectionExpression) (found : List PyText) : Matches :=
  let orderedRoots := sortedSet (fun s => s) found
  let result := orderedRoots.foldl
    (fun result root => Dict.extend root [⟨directKind e.method, e.raw, root, [root]⟩] result) []
  let result :=
    if e.includeAncestors then expand (incoming c.graph) .ancestor e.raw orderedRoots result
    else result
  if e.includeDescendants then expand (outgoing c.graph) .descendant e.raw orderedRoots result
  else result

/-- `_evaluate_expression`; the trail is refused before the fuel of names is spent. -/
def evaluateExpression (fuel : ℕ) (trail : List PyText) (raw : PyText) :
    Except SelectionFailure Matches :=
  (parseSelectionExpression isSpace raw).bind fun e =>
    (roots isSpace c
      (match fuel with
        | 0 => fun _ _ => .error (limitExceeded [] [])
        | n + 1 => evaluateExpression n)
      trail e).map (explain c e)

/-- Evaluate expressions one by one: all that they match, and those that match nothing. -/
def evaluateAll : List PyText → Matches × List PyText →
    Except SelectionFailure (Matches × List PyText)
  | [], state => .ok state
  | raw :: expressions, (merged, unmatched) =>
    (evaluateExpression isSpace c maxNamedDepth [] raw).bind fun found =>
      evaluateAll expressions
        (mergeReasons merged found, if found = [] then unmatched ++ [raw] else unmatched)

/-! ### The engine -/

/-- Some expression asks for a state. -/
def needsState : List PyText → Except SelectionFailure Bool
  | [] => .ok false
  | raw :: expressions =>
    (parseSelectionExpression isSpace raw).bind fun e =>
      if e.method = .state then .ok true else needsState expressions

/-- `_state_context`. -/
def stateContext (g : SelectionGraph) (request : SelectionRequest) :
    Except SelectionFailure (List (PyText × NodeStatus) × List PyText) :=
  (needsState isSpace (request.select ++ request.exclude)).bind fun needs =>
    match request.state with
    | none => if needs then .error stateRequired else .ok ([], [])
    | some baseline => .ok (classifyState g baseline)

/-- The reasons of all workloads, where no expression selects any. -/
def allByDefault (g : SelectionGraph) : Matches :=
  (sortedBy (fun s => s) (g.nodes.map SelectionNode.nodeId)).map fun id =>
    (id, [⟨.allByDefault, pyText "*", id, [id]⟩])

/-- The reasons under an id. -/
def reasonsOf (found : Matches) (id : PyText) : List SelectionReason := (found.lookup id).getD []

/-- The entry of a workload. -/
def entryOf (g : SelectionGraph) (reasons : PyText → List SelectionReason) (id : PyText) :
    Except SelectionFailure SelectionEntry :=
  match g.nodes.find? fun n => n.nodeId = id with
  | none => .error (.keyError id)
  | some n => .ok ⟨n, orderedReasons (reasons id)⟩

variable (sha256 : Bytes → PyText) (floatText : PyFloat → PyText)

/-- The report on what was included and excluded. -/
def report (g : SelectionGraph) (request : SelectionRequest) (removed : List PyText)
    (included excluded : Matches) (unmatched : List PyText) :
    Except SelectionFailure SelectionReport :=
  let selectedIds := sortedSet (fun s => s)
    ((included.map Prod.fst).filter fun id => id ∉ excluded.map Prod.fst)
  let excludedIds := sortedSet (fun s => s)
    ((included.map Prod.fst).filter fun id => id ∈ excluded.map Prod.fst)
  let unmatched := sortedSet (fun s => s) unmatched
  if selectedIds = [] then
    .error (failure (pyText "DPONE_SELECTION_EMPTY")
      (pyText "Selector expressions produced an empty workload set.")
      [(pyText "unmatched", texts unmatched)])
  else if request.maxSelected < selectedIds.length then
    .error (limitExceeded
      (pyText "Selected workload count " ++ natText selectedIds.length ++
        pyText " exceeds limit " ++ textOf (intText request.maxSelected) ++ pyText ".")
      [(pyText "selected", .int selectedIds.length), (pyText "limit", .int request.maxSelected)])
  else do
    let selected ← selectedIds.mapM (entryOf g (reasonsOf included))
    let excludedEntries ← excludedIds.mapM
      (entryOf g fun id => reasonsOf included id ++ reasonsOf excluded id)
    let selectExpressions := normalizedExpressions isSpace request.select
    let excludeExpressions := normalizedExpressions isSpace request.exclude
    let stateFingerprint := request.state.map SelectionState.stateFingerprint
    let fingerprint ← encoded (selectionReportFingerprint sha256 floatText g.catalogFingerprint
      stateFingerprint selectExpressions excludeExpressions selected excludedEntries)
    return ⟨selected, excludedEntries, unmatched, removed, fingerprint, g.catalogFingerprint,
      stateFingerprint, selectExpressions, excludeExpressions⟩

/-- `SelectionEngine.select`. -/
def select (g : SelectionGraph) (request : SelectionRequest) :
    Except SelectionFailure SelectionReport :=
  if request.maxSelected ≤ 0 then
    .error (limitExceeded (pyText "max_selected must be greater than zero.") [])
  else if maxExpressions < request.select.length + request.exclude.length then
    .error (limitExceeded (pyText "Selector expression budget was exceeded.") [])
  else
    (stateContext isSpace g request).bind fun context =>
      let c : Scope := ⟨g, request.named, context.1⟩
      (if request.select = [] then .ok (allByDefault g, [])
        else evaluateAll isSpace c (normalizedExpressions isSpace request.select) ([], [])).bind
        fun included =>
          (evaluateAll isSpace c (normalizedExpressions isSpace request.exclude)
            ([], included.2)).bind fun excluded =>
              report isSpace sha256 floatText g request context.2 included.1 excluded.1 excluded.2

end Engine
end Dpone.Manifest
