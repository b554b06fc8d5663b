import Mathlib.Data.Prod.Lex
import Dpone.Contracts.CanonicalJson
import Dpone.Schemes.Dict
import Dpone.Schemes.Kahn
import Dpone.Schemes.PosixPath
import Dpone.Schemes.Records

/-! Workloads that can be selected, and the graph of their dependencies: `selection_models.py`.

    A graph is built of workloads with distinct ids and of edges between them, without a cycle. Both
    are sorted and fingerprinted, so that no trace is left of how they were listed. -/

namespace Dpone.Manifest
open Dpone.Schemes Dpone.Contracts

/-! ### Errors -/

structure SelectionError where
  code : PyText
  message : PyText
  context : List (PyText × JsonValue)

/-- What goes wrong in a selection: the error of the contract, a text without an encoding or an id
    that is not there. -/
inductive SelectionFailure where
  | selectionError (e : SelectionError)
  | unicodeEncodeError
  | keyError (key : PyText)

def failure (code message : PyText) (context : List (PyText × JsonValue)) : SelectionFailure :=
  .selectionError ⟨code, message, context⟩

def invalidExpression (message : PyText) : SelectionFailure :=
  failure (pyText "DPONE_SELECTION_EXPRESSION_INVALID") message []

/-- A text that was hashed, if it could be encoded. -/
def encoded (digest : Option PyText) : Except SelectionFailure PyText :=
  match digest with
  | some d => .ok d
  | none => .error .unicodeEncodeError

/-! ### Expressions -/

inductive SelectionMethod where
  | id | tag | domain | owner | source | sink | group | state | selector
  deriving DecidableEq

namespace SelectionMethod

def text : SelectionMethod → PyText
  | .id => pyText "id"
  | .tag => pyText "tag"
  | .domain => pyText "domain"
  | .owner => pyText "owner"
  | .source => pyText "source"
  | .sink => pyText "sink"
  | .group => pyText "group"
  | .state => pyText "state"
  | .selector => pyText "selector"

def all : List SelectionMethod :=
  [.id, .tag, .domain, .owner, .source, .sink, .group, .state, .selector]

def ofText (s : PyText) : Option SelectionMethod := all.find? fun m => m.text = s

end SelectionMethod

/-- How a workload compares with a baseline. -/
inductive NodeStatus where
  | new | modified | unmodified
  deriving DecidableEq

def NodeStatus.text : NodeStatus → PyText
  | .new => pyText "new"
  | .modified => pyText "modified"
  | .unmodified => pyText "unmodified"

structure ParsedSelectionExpression where
  raw : PyText
  method : SelectionMethod
  value : PyText
  includeAncestors : Bool
  includeDescendants : Bool

section Expressions

/-- A letter or digit of ASCII. -/
def alnum (c : CodePoint) : Bool :=
  (65 ≤ c.val && c.val ≤ 90) || (97 ≤ c.val && c.val ≤ 122) || (48 ≤ c.val && c.val ≤ 57)

/-- A character that a value may have after its first. -/
def valueChar (c : CodePoint) : Bool := alnum c || c ∈ pyText "_.@-/"

/-- `_VALUE_PATTERN.fullmatch(value)`. -/
def valuePattern : PyText → Bool
  | [] => false
  | c :: s => alnum c && s.length ≤ 127 && s.all valueChar

/-- No part of the value is a dot or two. -/
def plainParts (value : PyText) : Bool :=
  (charsOf value).all fun s =>
    (PosixPath.ofText s).parts.all fun part => part ≠ ['.'] && part ≠ ['.', '.']

/-- `_valid_selection_value`. -/
def validSelectionValue (value : PyText) : Bool :=
  valuePattern value && ¬ pyText "://" <:+: value && cp '\\' ∉ value && plainParts value

variable (isSpace : CodePoint → Bool)

/-- `parse_selection_expression`. -/
def parseSelectionExpression (rawExpression : PyText) :
    Except SelectionFailure ParsedSelectionExpression :=
  let raw := stripped isSpace rawExpression
  if raw = [] ∨ 256 < raw.length then
    .error (invalidExpression (pyText "Selector expression must contain 1 to 256 characters."))
  else
    let ancestors := raw.head? = some (cp '+')
    let descendants := raw.getLast? = some (cp '+')
    let body := if ancestors then raw.drop 1 else raw
    let body := if descendants then body.dropLast else body
    if body.count (cp ':') ≠ 1 then
      .error (invalidExpression (pyText "Selector expression must use method:value syntax."))
    else
      let name := body.takeWhile (· ≠ cp ':')
      let value := (body.dropWhile (· ≠ cp ':')).drop 1
      match SelectionMethod.ofText name with
      | none => .error (invalidExpression (pyText "Unsupported selector method: " ++
          (if name = [] then pyText "<empty>" else name) ++ pyText "."))
      | some method =>
        if validSelectionValue value = false then
          .error (invalidExpression
            (pyText "Selector value contains unsupported or unsafe characters."))
        else if method = .state ∧
            value ∉ [NodeStatus.modified, .new, .unmodified].map NodeStatus.text then
          .error (invalidExpression
            (pyText "State selector must be state:modified, state:new, or state:unmodified."))
        else .ok ⟨raw, method, value, ancestors, descendants⟩

/-- `_normalized_expressions`. -/
def normalizedExpressions (expressions : List PyText) : List PyText :=
  sortedSet (fun s => s) (expressions.map (stripped isSpace))

end Expressions

/-! ### Workloads -/

structure SelectionNode where
  nodeId : PyText
  sourcePath : PyText
  semanticFingerprint : PyText
  domain : Option PyText
  owner : Option PyText
  tags : List PyText
  sources : List PyText
  sinks : List PyText
  groups : List PyText
  graphFingerprint : PyText
  deriving DecidableEq

abbrev SelectionEdge := PyText × PyText

def texts (ts : List PyText) : JsonValue := .arr (ts.map .str)

def optionalText : Option PyText → JsonValue
  | some s => .str s
  | none => .null

namespace SelectionNode

def toJsonable (n : SelectionNode) : List (PyText × JsonValue) :=
  [(pyText "id", .str n.nodeId),
    (pyText "source", .str n.sourcePath),
    (pyText "semantic_fingerprint", .str n.semanticFingerprint),
    (pyText "graph_fingerprint", .str n.graphFingerprint),
    (pyText "domain", optionalText n.domain),
    (pyText "owner", optionalText n.owner),
    (pyText "tags", texts n.tags),
    (pyText "sources", texts n.sources),
    (pyText "sinks", texts n.sinks),
    (pyText "groups", texts n.groups)]

variable (sha256 : Bytes → PyText) (floatText : PyFloat → PyText)

def withGraphFingerprint (edges : List SelectionEdge) (n : SelectionNode) :
    Except SelectionFailure SelectionNode :=
  let dependencies := (edges.filter fun e => e.2 = n.nodeId).map Prod.fst
  (encoded (canonicalFingerprint sha256 floatText (.obj
    [(pyText "node_id", .str n.nodeId), (pyText "direct_dependencies", texts dependencies)]))).map
    fun fingerprint =>
      { n with
        tags := sortedSet (fun s => s) n.tags
        sources := sortedSet (fun s => s) n.sources
        sinks := sortedSet (fun s => s) n.sinks
        groups := sortedSet (fun s => s) n.groups
        graphFingerprint := fingerprint }

end SelectionNode

/-! ### Graphs -/

structure SelectionGraph where
  nodes : List SelectionNode
  edges : List SelectionEdge
  catalogFingerprint : PyText

/-- The workloads by their ids, as long as none is declared twice. -/
def declareNodes : List SelectionNode → List SelectionNode →
    Except SelectionFailure (List SelectionNode)
  | known, [] => .ok known
  | known, n :: nodes =>
    if n.nodeId ∈ known.map SelectionNode.nodeId then
      .error (failure (pyText "DPONE_SELECTION_DUPLICATE_WORKLOAD")
        (pyText "Workload id is declared more than once: " ++ n.nodeId)
        [(pyText "workload_id", .str n.nodeId)])
    else declareNodes (known ++ [n]) nodes

/-- Both ends of every edge are known. -/
def requireKnown (ids : List PyText) : List SelectionEdge → Except SelectionFailure Unit
  | [] => .ok ()
  | (upstream, downstream) :: edges =>
    if upstream ∉ ids ∨ downstream ∉ ids then
      .error (failure (pyText "DPONE_SELECTION_EDGE_UNKNOWN")
        (pyText "Selection edge references an unknown workload: " ++ upstream ++ pyText " -> " ++
          downstream)
        [(pyText "upstream", .str upstream), (pyText "downstream", .str downstream)])
    else requireKnown ids edges

/-- The downstream ends of the edges from a workload. -/
def downstreams (edges : List SelectionEdge) (id : PyText) : List PyText :=
  (edges.filter fun e => e.1 = id).map Prod.snd

/-- How many edges come into each workload. -/
def incomingCounts (edges : List SelectionEdge) : PyText → ℤ :=
  edges.foldl (fun incoming e => Function.update incoming e.2 (incoming e.2 + 1)) fun _ => 0

/-- The loop of `_require_acyclic` at its end. -/
def takeReady (ids : List PyText) (edges : List SelectionEdge) : Kahn PyText :=
  Kahn.loop (fun id => sortedBy (fun s => s) (downstreams edges id))
    (fun ready id => sortedBy (fun s => s) (ready ++ [id])) ids.length
    ⟨incomingCounts edges,
      sortedBy (fun s => s) (ids.filter fun id => incomingCounts edges id = 0), []⟩

/-- `_require_acyclic`. -/
def requireAcyclic (ids : List PyText) (edges : List SelectionEdge) :
    Except SelectionFailure Unit :=
  let final := takeReady ids edges
  if final.result.length ≠ ids.length then
    let cycleNodes := sortedBy (fun s => s) (ids.filter fun id => 0 < final.degree id)
    .error (failure (pyText "DPONE_SELECTION_GRAPH_CYCLE")
      (pyText "Selection graph contains a dependency cycle.")
      [(pyText "cycle_nodes", texts (cycleNodes.take 20))])
  else .ok ()

namespace SelectionGraph
variable (sha256 : Bytes → PyText) (floatText : PyFloat → PyText)

def payload (nodes : List SelectionNode) (edges : List SelectionEdge) : JsonValue :=
  .obj [(pyText "nodes", .arr (nodes.map fun n => .obj n.toJsonable)),
    (pyText "edges", .arr (edges.map fun e =>
      .obj [(pyText "upstream", .str e.1), (pyText "downstream", .str e.2)]))]

def build (nodes : List SelectionNode) (edges : List SelectionEdge) :
    Except SelectionFailure SelectionGraph := do
  let orderedEdges := sortedSet (fun e => toLex e) edges
  let byId ← declareNodes [] nodes
  let ids := byId.map SelectionNode.nodeId
  requireKnown ids orderedEdges
  requireAcyclic ids orderedEdges
  let normalized ← (sortedBy SelectionNode.nodeId byId).mapM
    (SelectionNode.withGraphFingerprint sha256 floatText orderedEdges)
  let fingerprint ←
    encoded (canonicalFingerprint sha256 floatText (payload normalized orderedEdges))
  return ⟨normalized, orderedEdges, fingerprint⟩

end SelectionGraph

/-! ### States -/

structure SelectionStateNode where
  nodeId : PyText
  semanticFingerprint : PyText
  graphFingerprint : PyText
  deriving DecidableEq

structure SelectionState where
  nodes : List SelectionStateNode
  stateFingerprint : PyText

/-- How a workload compares with what a baseline says of it. -/
def classifyNode (old : Option SelectionStateNode) (n : SelectionNode) : NodeStatus :=
  match old with
  | none => .new
  | some old =>
    if old.semanticFingerprint ≠ n.semanticFingerprint ∨ old.graphFingerprint ≠ n.graphFingerprint
    then .modified
    else .unmodified

/-- `classify_state`. -/
def classifyState (graph : SelectionGraph) (baseline : SelectionState) :
    List (PyText × NodeStatus) × List PyText :=
  let previous := Dict.indexBy SelectionStateNode.nodeId baseline.nodes
  let currentIds := graph.nodes.map SelectionNode.nodeId
  (graph.nodes.map fun n => (n.nodeId, classifyNode (previous.lookup n.nodeId) n),
    sortedSet (fun s => s) ((previous.map Prod.fst).filter fun id => id ∉ currentIds))

/-! ### Requests and reports -/

structure NamedSelection where
  name : PyText
  select : List PyText
  exclude : List PyText

structure SelectionRequest where
  select : List PyText
  exclude : List PyText
  named : List (PyText × NamedSelection)
  state : Option SelectionState
  maxSelected : ℤ

inductive ReasonKind where
  | allByDefault | direct | named | state | ancestor | descendant
  deriving DecidableEq

def ReasonKind.text : ReasonKind → PyText
  | .allByDefault => pyText "all_by_default"
  | .direct => pyText "direct"
  | .named => pyText "named"
  | .state => pyText "state"
  | .ancestor => pyText "ancestor"
  | .descendant => pyText "descendant"

structure SelectionReason where
  kind : ReasonKind
  expression : PyText
  root : PyText
  path : List PyText
  deriving DecidableEq

def SelectionReason.toJsonable (r : SelectionReason) : JsonValue :=
  .obj [(pyText "kind", .str r.kind.text), (pyText "expression", .str r.expression),
    (pyText "root", .str r.root), (pyText "path", texts r.path)]

structure SelectionEntry where
  node : SelectionNode
  reasons : List SelectionReason

/-- `_selection_entry_identity`. -/
def selectionEntryIdentity (e : SelectionEntry) : JsonValue :=
  .obj [(pyText "id", .str e.node.nodeId),
    (pyText "reasons", .arr (e.reasons.map SelectionReason.toJsonable))]

structure SelectionReport where
  selected : List SelectionEntry
  excluded : List SelectionEntry
  unmatched : List PyText
  removed : List PyText
  selectionFingerprint : PyText
  catalogFingerprint : PyText
  stateFingerprint : Option PyText
  selectExpressions : List PyText
  excludeExpressions : List PyText

variable (sha256 : Bytes → PyText) (floatText : PyFloat → PyText)

/-- `selection_report_fingerprint`. -/
def selectionReportFingerprint (catalogFingerprint : PyText) (stateFingerprint : Option PyText)
    (selectExpressions excludeExpressions : List PyText) (selected excluded : List SelectionEntry) :
    Option PyText :=
  sha256Digest sha256 floatText (.obj
    [(pyText "catalog_fingerprint", .str catalogFingerprint),
      (pyText "state_fingerprint", optionalText stateFingerprint),
      (pyText "select", texts selectExpressions),
      (pyText "exclude", texts excludeExpressions),
      (pyText "selected", .arr (selected.map selectionEntryIdentity)),
      (pyText "excluded", .arr (excluded.map selectionEntryIdentity))])

end Dpone.Manifest
