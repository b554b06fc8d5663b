import Dpone.Manifest.SelectionMeaning

/-! Workload selection is exact: a report selects what the select expressions denote without what
    the excluded ones do, explains it by shortest paths, and does not tell how anything was
    listed. -/

namespace Dpone.Manifest
open Dpone.Schemes Dpone.Contracts

variable {isSpace : CodePoint → Bool} {sha256 : Bytes → PyText} {floatText : PyFloat → PyText}

/-! ### Lists of expressions -/

section Lists
variable {c : Scope}

/-- RUN: expressions that are evaluated one by one. -/
theorem evaluateAll_spec (hg : c.graph.Known) (hrated : c.Rated) {depth : ℕ}
    (hdepth : maxNamedDepth ≤ depth) :
    ∀ {expressions : List PyText} {state out : Matches × List PyText},
      AllExplained c.graph state.1 → evaluateAll isSpace c expressions state = .ok out →
      (∀ id, id ∈ matchedKeys out.1 ↔
        id ∈ matchedKeys state.1 ∨ id ∈ denotesAny isSpace c depth expressions) ∧
      AllExplained c.graph out.1 ∧
      ∀ raw ∈ expressions, ∃ e, parseSelectionExpression isSpace raw = .ok e
  | [], state, out, hstate, h => by
    cases Except.ok.inj h
    refine ⟨?_, hstate, by simp⟩
    intro id
    simp [denotesAny]
  | raw :: expressions, state, out, hstate, h => by
    obtain ⟨found, hfound, hrest⟩ := bind_ok.mp h
    have hfinds := evaluate_spec hg hrated maxNamedDepth depth [] (by simpa using hdepth) raw found
      hfound
    have hmerged : AllExplained c.graph (mergeReasons state.1 found) :=
      Dict.forall_foldl_extend (P := fun id r => Explains c.graph id r) hfinds.explained hstate
    obtain ⟨hkeys, hexplained, hparse⟩ := evaluateAll_spec hg hrated hdepth hmerged hrest
    refine ⟨?_, hexplained, ?_⟩
    · intro id
      have hmerge : id ∈ matchedKeys (mergeReasons state.1 found) ↔
          id ∈ matchedKeys state.1 ∨ id ∈ denotes isSpace c depth raw := by
        rw [← hfinds.keys]
        refine (Dict.mem_keys_foldl_extend id Prod.fst Prod.snd found state.1).trans ?_
        exact or_comm.trans (or_congr_right List.mem_map.symm)
      rw [hkeys, hmerge, or_assoc]
      simp only [denotesAny, Set.mem_ofPred_eq, List.mem_cons, exists_eq_or_imp]
    · obtain ⟨e, he, -⟩ := bind_ok.mp hfound
      exact List.forall_mem_cons.mpr ⟨⟨e, he⟩, hparse⟩

end Lists

/-! ### States -/

/-- What the expressions of a request are evaluated in. -/
def scopeOf (g : SelectionGraph) (request : SelectionRequest) : Scope where
  graph := g
  named := request.named
  stateStatuses :=
    match request.state with
    | none => []
    | some baseline => (classifyState g baseline).1

theorem scopeOf_rated (g : SelectionGraph) (request : SelectionRequest) :
    (scopeOf g request).Rated := by
  intro s hs
  unfold scopeOf at hs ⊢
  rcases hstate : request.state with _ | baseline
  · rw [hstate] at hs
    cases hs
  · rw [hstate] at hs
    obtain ⟨n, hn, rfl⟩ := List.mem_map.mp hs
    exact List.mem_map_of_mem hn

/-- An expression asks for a state. -/
def AsksState (isSpace : CodePoint → Bool) (raw : PyText) : Prop :=
  ∃ e, parseSelectionExpression isSpace raw = .ok e ∧ e.method = .state

open Classical in
/-- Where all expressions are well formed, it does not matter which is read first. -/
theorem needsState_eq : ∀ {expressions : List PyText},
    (∀ raw ∈ expressions, ∃ e, parseSelectionExpression isSpace raw = .ok e) →
      needsState isSpace expressions = .ok (decide (∃ raw ∈ expressions, AsksState isSpace raw))
  | [], _ => by
    simp [needsState]
  | raw :: expressions, h => by
    obtain ⟨⟨e, he⟩, hrest⟩ := List.forall_mem_cons.mp h
    have ih := needsState_eq hrest
    have hasks : AsksState isSpace raw ↔ e.method = .state := by
      constructor
      · rintro ⟨e', he', hmethod⟩
        rw [he] at he'
        cases he'
        exact hmethod
      · intro hmethod
        exact ⟨e, he, hmethod⟩
    rw [needsState, he]
    show (if e.method = .state then _ else _) = _
    by_cases hmethod : e.method = .state
    · rw [if_pos hmethod]
      simp [hasks, hmethod]
    · rw [if_neg hmethod, ih]
      simp [hasks, hmethod]

theorem stateContext_scope {g : SelectionGraph} {request : SelectionRequest}
    {context : List (PyText × NodeStatus) × List PyText}
    (h : stateContext isSpace g request = .ok context) :
    context.1 = (scopeOf g request).stateStatuses := by
  obtain ⟨needs, -, h⟩ := bind_ok.mp h
  unfold scopeOf
  rcases hstate : request.state with _ | baseline
  · rw [hstate] at h
    simp only at h ⊢
    split_ifs at h
    cases Except.ok.inj h
    rfl
  · rw [hstate] at h
    cases Except.ok.inj h
    rfl

/-! ### Reports -/

/-- What a report on the included and excluded workloads says. -/
structure Reports (g : SelectionGraph) (included excluded : Matches) (r : SelectionReport) :
    Prop where
  selected : ∀ id, id ∈ r.selected.map (·.node.nodeId) ↔
    id ∈ matchedKeys included ∧ id ∉ matchedKeys excluded
  reasons : ∀ entry ∈ r.selected ++ r.excluded, ∀ reason ∈ entry.reasons,
    reason ∈ reasonsOf included entry.node.nodeId ++ reasonsOf excluded entry.node.nodeId

theorem entryOf_ok {g : SelectionGraph} {reasons : PyText → List SelectionReason} {id : PyText}
    {entry : SelectionEntry} (h : entryOf g reasons id = .ok entry) :
    entry.node.nodeId = id ∧ entry.reasons = orderedReasons (reasons id) := by
  unfold entryOf at h
  split at h
  · cases h
  · next n hn =>
    cases Except.ok.inj h
    exact ⟨by simpa using List.find?_some hn, rfl⟩

theorem entries_ok {g : SelectionGraph} {reasons : PyText → List SelectionReason}
    {ids : List PyText} {entries : List SelectionEntry}
    (h : ids.mapM (entryOf g reasons) = .ok entries) :
    entries.map (·.node.nodeId) = ids ∧
      ∀ entry ∈ entries, ∀ reason ∈ entry.reasons, reason ∈ reasons entry.node.nodeId := by
  have hall := mapM_ok.mp h
  constructor
  · refine List.forall₂_eq_eq_eq ▸ ?_
    rw [List.forall₂_map_left_iff]
    exact hall.flip.imp fun _ _ hentry => (entryOf_ok hentry).1
  · intro entry hentry reason hreason
    obtain ⟨id, hid, hok⟩ := mem_of_mapM h entry hentry
    obtain ⟨hname, hreasons⟩ := entryOf_ok hok
    rw [hreasons, orderedReasons, mem_sortedSet] at hreason
    rw [hname]
    exact hreason

/-- CALL RULE: a report has an entry for each id that was included and not excluded. -/
theorem report_ok {g : SelectionGraph} {request : SelectionRequest}
    {removed unmatched : List PyText} {included excluded : Matches} {r : SelectionReport}
    (h : report isSpace sha256 floatText g request removed included excluded unmatched = .ok r) :
    Reports g included excluded r := by
  unfold report at h
  simp only at h
  split_ifs at h
  obtain ⟨selected, hselected, h⟩ := bind_ok.mp h
  obtain ⟨excludedEntries, hexcluded, h⟩ := bind_ok.mp h
  obtain ⟨fingerprint, -, h⟩ := bind_ok.mp h
  cases Except.ok.inj h
  obtain ⟨hids, hreasons⟩ := entries_ok hselected
  obtain ⟨-, hreasons'⟩ := entries_ok hexcluded
  refine ⟨?_, ?_⟩
  · intro id
    show id ∈ selected.map (·.node.nodeId) ↔ _
    rw [hids, mem_sortedSet, List.mem_filter, decide_eq_true_eq]
  · intro entry hentry reason hreason
    rcases List.mem_append.mp hentry with hentry | hentry
    · exact List.mem_append_left _ (hreasons entry hentry reason hreason)
    · exact hreasons' entry hentry reason hreason

/-- A report reads of a request its expressions, its state and its limit. -/
theorem report_congr (request other : SelectionRequest) {g : SelectionGraph}
    {removed unmatched : List PyText} {included excluded : Matches}
    (hselect : normalizedExpressions isSpace other.select =
      normalizedExpressions isSpace request.select)
    (hexclude : normalizedExpressions isSpace other.exclude =
      normalizedExpressions isSpace request.exclude)
    (hstate : other.state = request.state) (hmax : other.maxSelected = request.maxSelected) :
    report isSpace sha256 floatText g other removed included excluded unmatched =
      report isSpace sha256 floatText g request removed included excluded unmatched := by
  simp only [report, hselect, hexclude, hstate, hmax]

theorem explains_of_reasonsOf {g : SelectionGraph} {found : Matches} (h : AllExplained g found)
    {id : PyText} {reason : SelectionReason} (hmem : reason ∈ reasonsOf found id) :
    Explains g id reason := by
  unfold reasonsOf at hmem
  rcases hlookup : found.lookup id with _ | reasons
  · rw [hlookup] at hmem
    cases hmem
  · rw [hlookup] at hmem
    exact h _ (Dict.mem_of_lookup hlookup) reason hmem

/-! ### Selecting -/

/-- The parts of a selection that does not raise. -/
structure Selects (isSpace : CodePoint → Bool) (sha256 : Bytes → PyText)
    (floatText : PyFloat → PyText) (g : SelectionGraph) (request : SelectionRequest)
    (context : List (PyText × NodeStatus) × List PyText) (included excluded : Matches × List PyText)
    (r : SelectionReport) : Prop where
  positive : ¬ request.maxSelected ≤ 0
  budget : ¬ maxExpressions < request.select.length + request.exclude.length
  state : stateContext isSpace g request = .ok context
  select : (if request.select = [] then .ok (allByDefault g, [])
    else evaluateAll isSpace (scopeOf g request)
      (normalizedExpressions isSpace request.select) ([], [])) = .ok included
  exclude : evaluateAll isSpace (scopeOf g request)
    (normalizedExpressions isSpace request.exclude) ([], included.2) = .ok excluded
  report : report isSpace sha256 floatText g request context.2 included.1 excluded.1 excluded.2 =
    .ok r

variable {g : SelectionGraph} {request : SelectionRequest} {r : SelectionReport}

theorem select_ok : select isSpace sha256 floatText g request = .ok r ↔
    ∃ context included excluded,
      Selects isSpace sha256 floatText g request context included excluded r := by
  unfold select
  constructor
  · intro h
    by_cases hpositive : request.maxSelected ≤ 0
    · rw [if_pos hpositive] at h
      cases h
    by_cases hbudget : maxExpressions < request.select.length + request.exclude.length
    · rw [if_neg hpositive, if_pos hbudget] at h
      cases h
    rw [if_neg hpositive, if_neg hbudget] at h
    obtain ⟨context, hstate, hevaluate⟩ := bind_ok.mp h
    obtain ⟨included, hincluded, hexclude⟩ := bind_ok.mp hevaluate
    obtain ⟨excluded, hexcluded, hreport⟩ := bind_ok.mp hexclude
    have hscope : (⟨g, request.named, context.1⟩ : Scope) = scopeOf g request := by
      rw [stateContext_scope hstate]
      rfl
    rw [hscope] at hincluded hexcluded
    exact ⟨context, included, excluded, hpositive, hbudget, hstate, hincluded, hexcluded, hreport⟩
  · rintro ⟨context, included, excluded, h⟩
    have hscope : (⟨g, request.named, context.1⟩ : Scope) = scopeOf g request := by
      rw [stateContext_scope h.state]
      rfl
    rw [if_neg h.positive, if_neg h.budget]
    refine bind_ok.mpr ⟨context, h.state, ?_⟩
    simp only [hscope]
    exact bind_ok.mpr ⟨included, h.select, bind_ok.mpr ⟨excluded, h.exclude, h.report⟩⟩

theorem allByDefault_explained (g : SelectionGraph) : AllExplained g (allByDefault g) := by
  intro m hm reason hreason
  obtain ⟨id, -, rfl⟩ := List.mem_map.mp hm
  rw [List.mem_singleton.mp hreason]
  exact ⟨rfl, rfl⟩

theorem matchedKeys_allByDefault (g : SelectionGraph) (id : PyText) :
    id ∈ matchedKeys (allByDefault g) ↔ id ∈ g.nodes.map SelectionNode.nodeId := by
  unfold allByDefault
  rw [matchedKeys, List.map_map]
  exact (List.mem_map.trans (by simp)).trans Iff.rfl

/-- What a request includes: all workloads, where it has no select expression. -/
def includes (isSpace : CodePoint → Bool) (g : SelectionGraph) (request : SelectionRequest)
    (depth : ℕ) : Set PyText :=
  {id | if request.select = [] then id ∈ g.nodes.map SelectionNode.nodeId
    else id ∈ denotesAny isSpace (scopeOf g request) depth request.select}

section Selected
variable {context : List (PyText × NodeStatus) × List PyText}
  {included excluded : Matches × List PyText}
  (h : Selects isSpace sha256 floatText g request context included excluded r) (hg : g.Known)
include h hg

/-- Every expression of the request is well formed. -/
theorem Selects.parses : ∀ raw ∈ request.select ++ request.exclude,
    ∃ e, parseSelectionExpression isSpace raw = .ok e := by
  have hrated := scopeOf_rated g request
  have hsource : ∀ {expressions : List PyText} {state out : Matches × List PyText},
      AllExplained g state.1 →
      evaluateAll isSpace (scopeOf g request) (normalizedExpressions isSpace expressions) state =
        .ok out →
      AllExplained g out.1 ∧
        ∀ raw ∈ expressions, ∃ e, parseSelectionExpression isSpace raw = .ok e := by
    intro expressions state out hstate hout
    obtain ⟨-, hexplained, hparse⟩ :=
      evaluateAll_spec (c := scopeOf g request) hg hrated le_rfl hstate hout
    refine ⟨hexplained, ?_⟩
    intro raw hraw
    obtain ⟨e, he⟩ := hparse _ (mem_normalizedExpressions.mpr ⟨raw, hraw, rfl⟩)
    rw [parse_stripped] at he
    exact ⟨e, he⟩
  intro raw hraw
  rcases List.mem_append.mp hraw with hraw | hraw
  · have hselect := h.select
    rw [if_neg (List.ne_nil_of_mem hraw)] at hselect
    exact (hsource (by simp [AllExplained]) hselect).2 raw hraw
  · exact (hsource (by simp [AllExplained]) h.exclude).2 raw hraw

theorem Selects.included_spec {depth : ℕ} (hdepth : maxNamedDepth ≤ depth) :
    (∀ id, id ∈ matchedKeys included.1 ↔ id ∈ includes isSpace g request depth) ∧
      AllExplained g included.1 := by
  have hselect := h.select
  unfold includes
  by_cases hnil : request.select = []
  · rw [if_pos hnil] at hselect
    cases Except.ok.inj hselect
    refine ⟨?_, allByDefault_explained g⟩
    intro id
    show _ ↔ if request.select = [] then _ else _
    rw [if_pos hnil]
    exact matchedKeys_allByDefault g id
  · rw [if_neg hnil] at hselect
    obtain ⟨hkeys, hexplained, -⟩ := evaluateAll_spec (c := scopeOf g request) hg
      (scopeOf_rated g request) hdepth (by simp [AllExplained]) hselect
    refine ⟨?_, hexplained⟩
    intro id
    show _ ↔ if request.select = [] then _ else _
    rw [if_neg hnil, hkeys, denotesAny_normalized]
    simp

theorem Selects.excluded_spec {depth : ℕ} (hdepth : maxNamedDepth ≤ depth) :
    (∀ id, id ∈ matchedKeys excluded.1 ↔
      id ∈ denotesAny isSpace (scopeOf g request) depth request.exclude) ∧
      AllExplained g excluded.1 := by
  obtain ⟨hkeys, hexplained, -⟩ := evaluateAll_spec (c := scopeOf g request) hg
    (scopeOf_rated g request) hdepth (by simp [AllExplained]) h.exclude
  refine ⟨?_, hexplained⟩
  intro id
  rw [hkeys, denotesAny_normalized]
  simp

/-- A report does not tell how the expressions of its request were listed. -/
theorem Selects.relisted {select' exclude' : List PyText}
    (hselect : ∀ raw, raw ∈ select' ↔ raw ∈ request.select)
    (hexclude : ∀ raw, raw ∈ exclude' ↔ raw ∈ request.exclude)
    (hbudget : select'.length + exclude'.length ≤ maxExpressions) :
    Selects isSpace sha256 floatText g { request with select := select', exclude := exclude' }
      context included excluded r := by
  have hnil : select' = [] ↔ request.select = [] := by
    simp only [List.eq_nil_iff_forall_not_mem, hselect]
  have hmem : ∀ raw, raw ∈ select' ++ exclude' ↔ raw ∈ request.select ++ request.exclude := by
    intro raw
    rw [List.mem_append, List.mem_append, hselect, hexclude]
  have hparses := h.parses hg
  have hneeds : needsState isSpace (select' ++ exclude') =
      needsState isSpace (request.select ++ request.exclude) := by
    rw [needsState_eq hparses, needsState_eq fun raw hraw => hparses raw ((hmem raw).mp hraw)]
    congr 1
    exact decide_eq_decide.mpr (exists_congr fun raw => and_congr_left fun _ => hmem raw)
  refine ⟨h.positive, Nat.not_lt_of_le hbudget, ?_, ?_, ?_, ?_⟩
  · have hstate := h.state
    unfold stateContext at hstate ⊢
    rw [← hneeds] at hstate
    exact hstate
  · show (if select' = [] then _ else evaluateAll isSpace (scopeOf g request)
      (normalizedExpressions isSpace select') _) = _
    rw [if_congr hnil rfl rfl, normalizedExpressions_congr hselect]
    exact h.select
  · show evaluateAll isSpace (scopeOf g request) (normalizedExpressions isSpace exclude') _ = _
    rw [normalizedExpressions_congr hexclude]
    exact h.exclude
  · have hselect' : normalizedExpressions isSpace select' =
        normalizedExpressions isSpace request.select := normalizedExpressions_congr hselect
    have hexclude' : normalizedExpressions isSpace exclude' =
        normalizedExpressions isSpace request.exclude := normalizedExpressions_congr hexclude
    exact (report_congr request { request with select := select', exclude := exclude' } hselect'
      hexclude' rfl rfl).trans h.report

end Selected

/-! ### The whole selection -/

/-- CORRECT: what a selection over a built graph reports.

    It selects what it includes without what its excluded expressions denote, whatever the depth at
    which names stop to mean anything beyond the bound; every reason is true; and the report is the
    same however workloads, edges and expressions are listed. Only listing a workload twice is
    refused, and so are more expressions than the budget. -/
theorem selection_exact {nodes : List SelectionNode} {edges : List SelectionEdge}
    (hbuild : SelectionGraph.build sha256 floatText nodes edges = .ok g)
    (hselect : select isSpace sha256 floatText g request = .ok r) :
    (∀ depth, maxNamedDepth ≤ depth → ∀ id, id ∈ r.selected.map (·.node.nodeId) ↔
      id ∈ includes isSpace g request depth ∧
        id ∉ denotesAny isSpace (scopeOf g request) depth request.exclude) ∧
    (∀ entry ∈ r.selected ++ r.excluded, ∀ reason ∈ entry.reasons,
      Explains g entry.node.nodeId reason) ∧
    (∀ nodes' edges', nodes'.Perm nodes → (∀ e, e ∈ edges' ↔ e ∈ edges) →
      SelectionGraph.build sha256 floatText nodes' edges' = .ok g) ∧
    (∀ nodes' edges', ¬ (nodes'.map SelectionNode.nodeId).Nodup → ∃ n ∈ nodes',
      SelectionGraph.build sha256 floatText nodes' edges' = .error (duplicateWorkload n.nodeId)) ∧
    ∀ select' exclude', (∀ raw, raw ∈ select' ↔ raw ∈ request.select) →
      (∀ raw, raw ∈ exclude' ↔ raw ∈ request.exclude) →
      select isSpace sha256 floatText g { request with select := select', exclude := exclude' } =
        if select'.length + exclude'.length ≤ maxExpressions then .ok r
        else .error (limitExceeded (pyText "Selector expression budget was exceeded.") []) := by
  have hbuilt := build_ok.mp hbuild
  have hknown := hbuilt.known_ids
  obtain ⟨context, included, excluded, h⟩ := select_ok.mp hselect
  have hreports := report_ok h.report
  refine ⟨?_, ?_, ?_, ?_, ?_⟩
  · intro depth hdepth id
    rw [hreports.selected, (h.included_spec hknown hdepth).1, (h.excluded_spec hknown hdepth).1]
  · intro entry hentry reason hreason
    rcases List.mem_append.mp (hreports.reasons entry hentry reason hreason) with hmem | hmem
    · exact explains_of_reasonsOf (h.included_spec hknown le_rfl).2 hmem
    · exact explains_of_reasonsOf (h.excluded_spec hknown le_rfl).2 hmem
  · intro nodes' edges' hnodes hedges
    exact build_ok.mpr (hbuilt.relisted hnodes hedges)
  · intro nodes' edges' hrepeated
    rcases hdeclare : declareNodes [] nodes' with e | byId
    · obtain ⟨n, hn, rfl⟩ := declareNodes_error hdeclare
      refine ⟨n, hn, ?_⟩
      unfold SelectionGraph.build
      rw [hdeclare]
      rfl
    · exact absurd (declare_all.mp hdeclare).2 hrepeated
  · intro select' exclude' hselect' hexclude'
    split_ifs with hbudget
    · exact select_ok.mpr
        ⟨context, included, excluded, h.relisted hknown hselect' hexclude' hbudget⟩
    · unfold select
      rw [if_neg h.positive, if_pos (Nat.lt_of_not_le hbudget)]

/-- Two workloads, of which one feeds the other, selected from below. -/
theorem two_workloads_selected :
    let node := fun id : PyText => (⟨id, [], [], none, none, [], [], [], [], []⟩ : SelectionNode)
    let request : SelectionRequest := ⟨[pyText "+id:b"], [], [], none, 1000⟩
    ∃ g r, SelectionGraph.build (fun _ => []) (fun _ => []) [node (pyText "a"), node (pyText "b")]
        [(pyText "a", pyText "b")] = .ok g ∧
      select (fun c => c.val = 32) (fun _ => []) (fun _ => []) g request = .ok r ∧
      ∀ entry ∈ r.selected ++ r.excluded, ∀ reason ∈ entry.reasons,
        Explains g entry.node.nodeId reason := by
  intro node request
  have hruns : ((SelectionGraph.build (fun _ => []) (fun _ => [])
      [node (pyText "a"), node (pyText "b")] [(pyText "a", pyText "b")]).bind fun g =>
        select (fun c => c.val = 32) (fun _ => []) (fun _ => []) g request).isOk = true := by
    decide +kernel
  rcases hbuild : SelectionGraph.build (fun _ => []) (fun _ => [])
    [node (pyText "a"), node (pyText "b")] [(pyText "a", pyText "b")] with e | g
  · rw [hbuild] at hruns
    cases hruns
  · rcases hselect : select (fun c => c.val = 32) (fun _ => []) (fun _ => []) g request with e | r
    · rw [hbuild] at hruns
      simp only [Except.bind, hselect] at hruns
      cases hruns
    · exact ⟨g, r, rfl, hselect, (selection_exact hbuild hselect).2.1⟩

end Dpone.Manifest
