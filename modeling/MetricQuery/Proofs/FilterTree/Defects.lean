import MetricQuery.Proofs.FilterTree.Nodes

/-!
# The defects of filter trees

Writing stops at the first defect that it meets.  Here all defects of a part are listed in the order
in which they would be met, and writing is compared with the first one of the list.

* `Filter.defects` and `FilterTree.ownDefects`: what is wrong with a filter, and with a node of a
  tree, whatever the nodes below it are like.
* `orFirst`: the result of writing a part that has these defects.  `orFirst_bind` is the step from
  one part to the next: the defects of the one stand in front of those of the other.
* `FilterTree.render_eq_orFirst` and `renderBlock_eq_orFirst`: trees are written, or refused for the
  first defect of their nodes in pre-order, with one context for each index of the way there.
-/

namespace MetricQuery

/-! ## Filters -/

namespace Filter

open Text

/-- What is wrong with the number of values: it has to be one, or for a list any but none. -/
def countDefects (f : Filter) (operation : Operation) : List Defect :=
  let ofSingle : List Defect :=
    if f.values.length = 1 then [] else [.valueCount operation f.key f.values.length]
  let ofList : List Defect := if f.values = [] then [.noValues operation f.key] else []
  match operation with
  | .equal => ofSingle
  | .notEqual => ofSingle
  | .regex => ofSingle
  | .oneOf => ofList
  | .noneOf => ofList

/-- What is wrong with a filter that has this operation. -/
def defectsWith (f : Filter) (operation : Operation) : List Defect :=
  f.countDefects operation ++
  (if f.key.toList.all isKeyChar then [] else [.keyCharacters f.key]) ++
  (if f.values.any String.isEmpty then [.emptyValue operation f.key] else [])

/-- What is wrong with a filter. -/
def defects (f : Filter) : List Defect :=
  (if f.key = "" then [.noFilterKey] else []) ++
    match f.operation with
    | none => [.noOperation f.key]
    | some operation => f.defectsWith operation

theorem countDefects_eq (f : Filter) (operation : Operation) :
    f.countDefects operation =
      if operation.isList then if f.values = [] then [.noValues operation f.key] else []
      else if f.values.length = 1 then [] else [.valueCount operation f.key f.values.length] := by
  cases operation <;> rfl

theorem defectWith?_eq_head? (f : Filter) (operation : Operation) :
    f.defectWith? operation = (f.defectsWith operation).head? := by
  simp only [defectWith?, defectsWith, countDefects_eq]
  -- The texts of the key and the values are looked at only if there is the right number of values.
  cases operation.isList with
  | true =>
    by_cases hvalues : f.values = []
    · simp [hvalues, -List.all_eq_true]
    · cases f.key.toList.all isKeyChar <;> cases f.values.any String.isEmpty <;> simp [hvalues]
  | false =>
    by_cases hvalues : f.values.length = 1
    · cases f.key.toList.all isKeyChar <;> cases f.values.any String.isEmpty <;> simp [hvalues]
    · simp [hvalues, -List.all_eq_true]

/-- What passes the check is complete, and the answer is its operation. -/
theorem check_eq_ok_iff {f : Filter} {operation : Operation} :
    f.check = .ok operation ↔ f.operation = some operation ∧ f.Complete := by
  by_cases hkey : f.key = ""
  · have hcheck : f.check = .error .noFilterKey := by simp [check, hkey]
    simp only [hcheck, reduceCtorEq, false_iff, not_and]
    exact fun _ hcomplete => hcomplete.key_ne hkey
  · cases hop : f.operation with
    | none => simp [check, String.isEmpty_iff, hkey, hop]
    | some operation' =>
      rw [← defectWith?_eq_none_iff hkey hop]
      cases hfound : f.defectWith? operation' with
      | none => simp [check, String.isEmpty_iff, hkey, hop, hfound]
      | some defect => simp [check, String.isEmpty_iff, hkey, hop, hfound]

end Filter

/-! ## The first defect -/

/-- The error for a defect in some contexts, the outermost one first. -/
def Defect.within (defect : Defect) (contexts : List Context) : QueryError :=
  contexts.foldr .within (.invalid defect)

theorem Defect.kind_within (defect : Defect) (contexts : List Context) :
    (defect.within contexts).kind = .validation := by
  induction contexts with
  | nil => rfl
  | cons context contexts ih => exact ih

/-- The result for what has these defects: an error for the first one, if there is any. -/
def orFirst {α : Type} (a : α) : List (List Context × Defect) → Except QueryError α
  | [] => .ok a
  | (contexts, defect) :: _ => .error (defect.within contexts)

section OrFirst

variable {α β : Type} {a : α} {b : β}

theorem orFirst_bind {next : α → Except QueryError β} {more : List (List Context × Defect)}
    (h : next a = orFirst b more) (defects : List (List Context × Defect)) :
    orFirst a defects >>= next = orFirst b (defects ++ more) := by
  cases defects with
  | nil => exact h
  | cons defect rest => rfl

theorem orFirst_map (f : α → β) (defects : List (List Context × Defect)) :
    (orFirst a defects >>= fun a => pure (f a)) = orFirst (f a) defects := by
  cases defects <;> rfl

theorem inContext_orFirst (context : Context) (defects : List (List Context × Defect)) :
    inContext context (orFirst a defects) =
      orFirst a (defects.map (Prod.map (List.cons context) id)) := by
  cases defects <;> rfl

end OrFirst

theorem Filter.render_eq_orFirst (f : Filter) :
    f.render = orFirst f.written (f.defects.map fun defect => ([], defect)) := by
  by_cases hkey : f.key = ""
  · simp [render, check, defects, hkey, orFirst, Defect.within]
  · cases hop : f.operation with
    | none => simp [render, check, defects, hkey, hop, orFirst, Defect.within]
    | some operation =>
      have hdefects : f.defects = f.defectsWith operation := by simp [defects, hkey, hop]
      have hfirst := f.defectWith?_eq_head? operation
      rw [hdefects]
      cases hfound : f.defectsWith operation with
      | nil => simp [render, check, String.isEmpty_iff, hkey, hop, hfirst, hfound, orFirst, written]
      | cons defect rest =>
        simp [render, check, String.isEmpty_iff, hkey, hop, hfirst, hfound, orFirst, Defect.within]

/-! ## Trees -/

namespace FilterTree

/-- What is wrong with a node, whatever the nodes below it are like. -/
def ownDefects : FilterTree → List Defect
  | .leaf f => f.defects
  | .group _ _ [] => [.emptyGroup]
  | .group _ _ (_ :: _) => []

/-- The defects of some nodes, each in the contexts of the way to it. -/
def defectsOf (context : Nat → Context) (nodes : List (List Nat × FilterTree)) :
    List (List Context × Defect) :=
  nodes.flatMap fun node => node.2.ownDefects.map fun defect => (node.1.map context, defect)

theorem defectsOf_map_cons (context : Nat → Context) (index : Nat)
    (nodes : List (List Nat × FilterTree)) :
    defectsOf context (nodes.map (Prod.map (List.cons index) id)) =
      (defectsOf context nodes).map (Prod.map (List.cons (context index)) id) := by
  simp [defectsOf, List.flatMap_map, List.map_flatMap, Function.comp_def]

theorem defectsOf_append (context : Nat → Context) (front behind : List (List Nat × FilterTree)) :
    defectsOf context (front ++ behind) = defectsOf context front ++ defectsOf context behind :=
  List.flatMap_append

/-- Trees of a list are written one by one up to the first defect, if each of them is. -/
theorem renderFrom_eq_orFirst {context : Nat → Context} {trees : List FilterTree}
    (h : ∀ t ∈ trees, t.render = orFirst t.written (defectsOf context (nodes t))) :
    ∀ index, renderFrom context index trees =
      orFirst (trees.map written) (defectsOf context (nodesFrom index trees)) := by
  induction trees with
  | nil => exact fun _ => rfl
  | cons t rest ih =>
    intro index
    obtain ⟨hfirst, hothers⟩ := List.forall_mem_cons.1 h
    rw [renderFrom, hfirst, inContext_orFirst, ← defectsOf_map_cons, nodesFrom, defectsOf_append]
    refine orFirst_bind ?_ _
    rw [ih hothers]
    exact orFirst_map (List.cons t.written) _

/-- A tree is written up to the first defect of its nodes. -/
theorem render_eq_orFirst (t : FilterTree) :
    t.render = orFirst t.written (defectsOf .child (nodes t)) := by
  induction t with
  | leaf f =>
    rw [render, f.render_eq_orFirst]
    simp [defectsOf, nodes, ownDefects, written]
  | group junction negated children ih =>
    cases children with
    | nil => rfl
    | cons child rest =>
      have hdefects : defectsOf .child (nodes (.group junction negated (child :: rest))) =
          defectsOf .child (nodesFrom 0 (child :: rest)) := rfl
      rw [render, renderFrom_eq_orFirst ih, hdefects, written, writtenAll_eq_map]
      exact orFirst_map (joinParts junction negated) _

/-- The only node of a tree that is no group is its root, which no index leads to. -/
theorem defectsOf_nodes_of_not_isGroup (context context' : Nat → Context) {t : FilterTree}
    (h : t.isGroup = false) : defectsOf context (nodes t) = defectsOf context' (nodes t) := by
  cases t with
  | leaf f => rfl
  | group => simp [isGroup] at h

end FilterTree

open FilterTree

/-- What the contexts of a block say of an index: with a group in it the block is a group itself. -/
def blockContext (trees : List FilterTree) : Nat → Context :=
  if trees.any isGroup then .child else .filter

/-- A block is written up to the first defect of the nodes of its trees. -/
theorem renderBlock_eq_orFirst (trees : List FilterTree) :
    renderBlock trees =
      orFirst (writtenBlock trees) (defectsOf (blockContext trees) (nodesFrom 0 trees)) := by
  cases trees with
  | nil => rfl
  | cons t rest =>
    rw [renderBlock, writtenBlock, blockContext]
    simp only [List.isEmpty_cons, Bool.false_eq_true, if_false]
    by_cases hgroup : (t :: rest).any isGroup = true
    · rw [if_pos hgroup, if_pos hgroup, if_pos hgroup, render_eq_orFirst, written,
        writtenAll_eq_map]
      rfl
    · rw [if_neg hgroup, if_neg hgroup, if_neg hgroup]
      have hleaves : ∀ u ∈ t :: rest,
          u.render = orFirst u.written (defectsOf .filter (nodes u)) := by
        intro u hu
        have hleaf : u.isGroup = false :=
          Bool.eq_false_iff.2 fun hu' => hgroup (List.any_eq_true.2 ⟨u, hu, hu'⟩)
        rw [render_eq_orFirst, defectsOf_nodes_of_not_isGroup .child .filter hleaf]
      rw [renderFrom_eq_orFirst hleaves]
      exact orFirst_map (", ".intercalate) _

end MetricQuery
