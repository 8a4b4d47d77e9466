import MetricQuery.Proofs.FilterTree.Defects

/-!
# Why a query cannot be written

A query is written if nothing is wrong with it.  Otherwise the error is about the first defect: the
metric comes first, then the nodes of the filters in pre-order, then the calls.

* `Query.defects` lists the defects of a query with their places.
* `Query.Place.texts` are the contexts of an error about a place, in words.
* `Query.render_eq_orFirst`: a query is written up to the first defect.
* `Query.render_firstDefect` puts it together with what a query has to be like to be written.
-/

namespace MetricQuery

namespace Query

/-- A part of a query that can be defective. -/
inductive Place where
  | metric
  /-- A node of the filters, by the indices of the way to it. -/
  | node (path : List Nat)
  | call (index : Nat)

namespace Place

/-- The contexts of an error about a place. -/
def contexts (context : Nat → Context) : Place → List Context
  | .metric => []
  | .node path => .filters :: path.map context
  | .call index => [.function index]

/-- The same in words, where the filters have a group among them or not. -/
def texts (grouped : Bool) : Place → List String
  | .metric => []
  | .node path => "failed to build filters" :: path.map fun index =>
    if grouped then s!"failed to build child {index} of filter group"
    else s!"failed to build filter {index}"
  | .call index => [s!"failed to build function {index}"]

theorem message_contexts (trees : List FilterTree) (place : Place) :
    (place.contexts (blockContext trees)).map Context.message =
      place.texts (trees.any FilterTree.isGroup) := by
  cases place with
  | metric => rfl
  | node path =>
    rw [contexts, texts, blockContext, List.map_cons, List.map_map]
    cases trees.any FilterTree.isGroup <;> rfl
  | call index => rfl

end Place

/-- The defects of the nodes of some trees. -/
def nodeDefects (trees : List FilterTree) : List (Place × Defect) :=
  (FilterTree.nodesFrom 0 trees).flatMap fun node =>
    node.2.ownDefects.map fun defect => (.node node.1, defect)

/-- The defects of some calls; the indices of the calls count from `index`. -/
def callDefects (index : Nat) (calls : List FunctionCall) : List (Place × Defect) :=
  (calls.zipIdx index).flatMap fun call =>
    if call.1.name = "" then [(.call call.2, .noFunctionName)] else []

/-- The defects of a query. -/
def defects (q : Query) : List (Place × Defect) :=
  (if q.metric = "" then [(.metric, .noMetric)] else []) ++ nodeDefects q.filterList ++
    callDefects 0 q.functionList

/-- Some defects in the contexts of their places. -/
def inContexts (context : Nat → Context) (defects : List (Place × Defect)) :
    List (List Context × Defect) :=
  defects.map (Prod.map (Place.contexts context) id)

theorem inContexts_append (context : Nat → Context) (front behind : List (Place × Defect)) :
    inContexts context (front ++ behind) =
      inContexts context front ++ inContexts context behind :=
  List.map_append

/-- Calls are written one by one up to the first one without a name. -/
theorem renderCalls_eq_orFirst (context : Nat → Context) (calls : List FunctionCall) : ∀ index,
    renderCalls index calls =
      orFirst (calls.map FunctionCall.written) (inContexts context (callDefects index calls)) := by
  induction calls with
  | nil => exact fun _ => rfl
  | cons call rest ih =>
    intro index
    have hcall : inContext (.function index) call.render = orFirst call.written
        (inContexts context
          (if call.name = "" then [(.call index, .noFunctionName)] else [])) := by
      by_cases hname : call.name = ""
      · simp [FunctionCall.render, hname, inContext, inContexts, Place.contexts, orFirst,
          Defect.within]
      · rw [FunctionCall.render_eq_ok_iff.2 ⟨hname, rfl⟩, if_neg hname]
        rfl
    rw [renderCalls, hcall, callDefects, List.zipIdx_cons, List.flatMap_cons, inContexts_append]
    refine orFirst_bind ?_ _
    rw [ih]
    exact orFirst_map (List.cons call.written) _

theorem inContexts_nodeDefects (context : Nat → Context) (trees : List FilterTree) :
    inContexts context (nodeDefects trees) =
      (FilterTree.defectsOf context (FilterTree.nodesFrom 0 trees)).map
        (Prod.map (List.cons .filters) id) := by
  simp [inContexts, nodeDefects, FilterTree.defectsOf, List.map_flatMap, Function.comp_def,
    Place.contexts]

/-- A query is written up to its first defect. -/
theorem render_eq_orFirst (q : Query) :
    q.render = orFirst q.written (inContexts (blockContext q.filterList) q.defects) := by
  rw [render, defects]
  by_cases hmetric : q.metric = ""
  · simp [hmetric, inContexts, Place.contexts, orFirst, Defect.within]
  · have hnonempty : ¬ q.metric.isEmpty = true := by simpa [String.isEmpty_iff] using hmetric
    rw [if_neg hnonempty, if_neg hmetric, List.nil_append, inContexts_append,
      inContexts_nodeDefects, renderBlock_eq_orFirst, inContext_orFirst]
    refine orFirst_bind ?_ _
    rw [renderCalls_eq_orFirst (blockContext q.filterList)]
    exact orFirst_map _ _

/-- A query is written exactly if nothing is missing from it.  If something is, the error is a
validation error about the first defect, and its contexts lead to the place of that.  A filter is
written only with as many values as its operation takes. -/
theorem render_firstDefect (q : Query) :
    ((∃ text, q.render = .ok text) ↔ q.Complete) ∧
      (match q.defects.head? with
        | none => q.render = .ok q.written
        | some (place, defect) => ∃ contexts, q.render = .error (defect.within contexts) ∧
            (defect.within contexts).kind = .validation ∧
            contexts.map Context.message = place.texts (q.filterList.any FilterTree.isGroup)) ∧
      ∀ (f : Filter) operation, f.check = .ok operation →
        operation ≠ .oneOf → operation ≠ .noneOf → ∃ value, f.values = [value] := by
  refine ⟨⟨?_, ?_⟩, ?_, ?_⟩
  · rintro ⟨text, htext⟩
    exact (render_eq_ok_iff.1 htext).1
  · intro hcomplete
    exact ⟨q.written, render_eq_ok_iff.2 ⟨hcomplete, rfl⟩⟩
  · rw [render_eq_orFirst]
    cases q.defects with
    | nil => rfl
    | cons found rest =>
      exact ⟨_, rfl, Defect.kind_within _ _, Place.message_contexts q.filterList found.1⟩
  · intro f operation hcheck hone hnone
    obtain ⟨hop, hcomplete⟩ := Filter.check_eq_ok_iff.1 hcheck
    obtain ⟨operation', hop', hcount⟩ := hcomplete.values
    obtain rfl := Option.some.inj (hop.symm.trans hop')
    cases operation with
    | oneOf => exact absurd rfl hone
    | noneOf => exact absurd rfl hnone
    | _ => exact List.length_eq_one_iff.1 hcount

/-- The second child of a group without children in front of a call without a name. -/
example :
    let leaf : FilterTree := .leaf ⟨"k", some .equal, ["v"]⟩
    let q : Query :=
      { metric := "m"
        filterList := [leaf, .group .or true [leaf, .group .and false []]]
        functionList := [⟨"", []⟩] }
    (match q.render with
      | .ok text => text
      | .error error => error.message) =
      "failed to build filters: failed to build child 1 of filter group: " ++
        "failed to build child 1 of filter group: " ++
        "validation error: filter group must have at least one child" := by
  decide +kernel

end Query

end MetricQuery
