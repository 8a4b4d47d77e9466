import MetricQuery.Proofs.FilterTree.Grown
import MetricQuery.Proofs.Query.Reread

/-!
# Editing sessions

A session makes edits to a query one after the other.  `Query.Edit` is the list of edits there
are, and `Query.states` are the states that a query goes through.

* `addToGroup_of_some` and `addToGroup_of_none`: a filter goes to the group that the path leads to,
  or else to the filters of the query.
* `Edit.complete` and `forall_states`: an edit that brings in nothing incomplete leaves a query
  complete, and so does a session of such edits.
* `parseQuery_states_render`: a session that starts with a query from a text and brings in what can
  be written has states only that can be written.
* `Edit.grownAll` and `pairwise_groupAt?_states`: filters only grow in a session.
* `addToGroup_appendsOnly`: what an edit at a path changes, and that paths stay valid.
-/

namespace MetricQuery

namespace Query

/-! ## Edits -/

/-- A change of a query. -/
inductive Edit where
  | withMetric (name : String)
  | withAggregator (name : String)
  | withWindow (window : String)
  | filter (tree : FilterTree)
  | filters (trees : List FilterTree)
  | groupBy (tag : String)
  | groupByTags (tags : List String)
  | function (call : FunctionCall)
  | addToGroup (path : Option GroupPath) (tree : FilterTree)

/-- The query after an edit. -/
def Edit.apply (q : Query) : Edit → Query
  | .withMetric name => q.withMetric name
  | .withAggregator name => q.withAggregator name
  | .withWindow window => q.withWindow window
  | .filter tree => q.filter tree
  | .filters trees => q.filters trees
  | .groupBy tag => q.groupBy tag
  | .groupByTags tags => q.groupByTags tags
  | .function call => q.function call
  | .addToGroup path tree => q.addToGroup path tree

/-- The states that a query goes through under edits, the first one included. -/
def states (q : Query) (edits : List Edit) : List Query :=
  edits.scanl Edit.apply q

section States

variable {q : Query} {edits : List Edit}

theorem states_cons (q : Query) (edit : Edit) (edits : List Edit) :
    q.states (edit :: edits) = q :: (edit.apply q).states edits :=
  List.scanl_cons

/-- What every edit keeps holds in all states. -/
theorem forall_states {P : Query → Prop} (hstep : ∀ edit ∈ edits, ∀ q, P q → P (edit.apply q))
    (h : P q) : ∀ state ∈ q.states edits, P state := by
  induction edits generalizing q with
  | nil => simpa [states] using h
  | cons edit edits ih =>
    obtain ⟨hfirst, hothers⟩ := List.forall_mem_cons.1 hstep
    rw [states_cons]
    exact List.forall_mem_cons.2 ⟨h, ih hothers (hfirst q h)⟩

/-- What an edit brings about holds between any two states. -/
theorem pairwise_states {R : Query → Query → Prop}
    (htrans : ∀ {a b c}, R a b → R b c → R a c) (hstep : ∀ edit ∈ edits, ∀ q, R q (edit.apply q)) :
    (q.states edits).Pairwise R := by
  induction edits generalizing q with
  | nil => simp [states]
  | cons edit edits ih =>
    obtain ⟨hfirst, hothers⟩ := List.forall_mem_cons.1 hstep
    rw [states_cons]
    refine List.pairwise_cons.2 ⟨?_, ih hothers⟩
    exact forall_states (fun edit hedit state h => htrans h (hothers edit hedit state)) (hfirst q)

end States

section AddToGroup

variable {q : Query} {path : GroupPath} {g : FilterGroup}

/-- A path that leads to a group: the filters are those with one child more at its end. -/
theorem addToGroup_of_some (tree : FilterTree) (h : q.groupAt? path = some g) :
    ∃ trees, q.addToGroup (some path) tree = { q with filterList := trees } ∧
      FilterGroup.AppendedAt tree path.indices ⟨q.filterList, .and, false⟩ ⟨trees, .and, false⟩ := by
  obtain ⟨indices⟩ := path
  cases indices with
  | nil => simp [groupAt?, FilterTree.groupAt?] at h
  | cons i rest =>
    obtain ⟨trees, htrees, happended⟩ := FilterTree.exists_appendAt? tree h .and false
    exact ⟨trees, by simp [addToGroup, htrees], happended⟩

/-- A path that leads to no group is as good as none. -/
theorem addToGroup_of_none (tree : FilterTree) (h : q.groupAt? path = none) :
    q.addToGroup (some path) tree = q.filter tree := by
  simp [addToGroup, FilterTree.appendAt?_eq_none tree h]

/-- Wherever a filter goes, it is appended to the children of some group or to the filters of the
query. -/
theorem addToGroup_cases (q : Query) (path : Option GroupPath) (tree : FilterTree) :
    ∃ indices trees, q.addToGroup path tree = { q with filterList := trees } ∧
      FilterGroup.AppendedAt tree indices ⟨q.filterList, .and, false⟩ ⟨trees, .and, false⟩ := by
  cases path with
  | none => exact ⟨[], _, rfl, .here _⟩
  | some path =>
    cases hgroup : q.groupAt? path with
    | none => exact ⟨[], _, addToGroup_of_none tree hgroup, .here _⟩
    | some g => exact ⟨path.indices, addToGroup_of_some tree hgroup⟩

end AddToGroup

/-! ## Complete queries -/

namespace Edit

/-- The edit brings in a name that is not empty, and filters that can be written. -/
def Sound : Edit → Prop
  | .withMetric name => name ≠ ""
  | .filter tree => ∃ text, tree.render = .ok text
  | .filters trees => ∀ tree ∈ trees, ∃ text, tree.render = .ok text
  | .function call => call.name ≠ ""
  | .addToGroup _ tree => ∃ text, tree.render = .ok text
  | _ => True

theorem complete_of_render {tree : FilterTree} (h : ∃ text, tree.render = .ok text) :
    tree.Complete := by
  obtain ⟨text, htext⟩ := h
  exact (FilterTree.render_eq_ok_iff.1 htext).1

/-- Complete queries stay complete. -/
theorem complete {edit : Edit} (hedit : edit.Sound) {q : Query} (h : q.Complete) :
    (edit.apply q).Complete := by
  have happend : ∀ trees : List FilterTree, (∀ t ∈ trees, t.Complete) →
      ∀ t ∈ q.filterList ++ trees, t.Complete :=
    fun trees htrees t ht => (List.mem_append.1 ht).elim (h.trees t) (htrees t)
  cases edit with
  | withMetric name => exact ⟨hedit, h.trees, h.calls⟩
  | withAggregator name => exact ⟨h.metric_ne, h.trees, h.calls⟩
  | withWindow window => exact ⟨h.metric_ne, h.trees, h.calls⟩
  | filter tree =>
    have htree : ∀ t ∈ [tree], t.Complete := by simpa using complete_of_render hedit
    exact ⟨h.metric_ne, happend [tree] htree, h.calls⟩
  | filters trees =>
    have htrees : ∀ t ∈ trees, t.Complete := fun t ht => complete_of_render (hedit t ht)
    exact ⟨h.metric_ne, happend trees htrees, h.calls⟩
  | groupBy tag => exact ⟨h.metric_ne, h.trees, h.calls⟩
  | groupByTags tags => exact ⟨h.metric_ne, h.trees, h.calls⟩
  | function call =>
    refine ⟨h.metric_ne, h.trees, fun other hother => ?_⟩
    rcases List.mem_append.1 hother with hother | hother
    · exact h.calls other hother
    · rw [List.mem_singleton.1 hother]
      exact hedit
  | addToGroup path tree =>
    obtain ⟨indices, trees, heq, happended⟩ := q.addToGroup_cases path tree
    rw [apply, heq]
    exact ⟨h.metric_ne, happended.complete (complete_of_render hedit) h.trees, h.calls⟩

end Edit

end Query

/-- A session that starts with a query from a text never comes to a state that cannot be written,
if it brings in only filters that can be written, and names that are not empty. -/
theorem parseQuery_states_render {text : String} {limits : Limits} {engine : PatternEngine}
    {q : Query} {edits : List Query.Edit} (h : parseQuery text limits engine = .ok (.metric q))
    (hedits : ∀ edit ∈ edits, edit.Sound) :
    ∀ state ∈ q.states edits, ∃ written, state.render = .ok written := by
  obtain ⟨pattern, -, hq⟩ := parseQuery_fromText h
  have hcomplete : ∀ state ∈ q.states edits, state.Complete :=
    Query.forall_states (fun edit hedit state => Query.Edit.complete (hedits edit hedit))
      hq.readable.complete
  intro state hstate
  exact ⟨state.written, Query.render_eq_ok_iff.2 ⟨hcomplete state hstate, rfl⟩⟩

/-- A negated group that goes into a group of the text, then into what went in before, and then by
a path that ends at a filter. -/
theorem parseQuery_states_render_nested :
    let text := "sum(5m):m\x7ba:1, NOT (b!:2 OR (c IN (x,y) AND d:3))\x7d by \x7bh\x7d.f()"
    let q : Query :=
      { metric := "m"
        aggregator := some "sum"
        window := some "5m"
        filterList :=
          [.leaf ⟨"a", some .equal, ["1"]⟩,
            .group .or true
              [.leaf ⟨"b", some .notEqual, ["2"]⟩,
                .group .and false
                  [.leaf ⟨"c", some .oneOf, ["x", "y"]⟩, .leaf ⟨"d", some .equal, ["3"]⟩]]]
        tags := ["h"]
        functionList := [⟨"f", []⟩] }
    let negated : FilterTree := .group .or true [.leaf ⟨"e", some .noneOf, ["v w"]⟩]
    let edits : List Query.Edit :=
      [.addToGroup (some ⟨[1, 1]⟩) negated, .addToGroup (some ⟨[1, 1, 2]⟩) negated,
        .addToGroup (some ⟨[0, 3]⟩) negated, .addToGroup none negated, .withAggregator "",
        .withMetric "n", .filters [negated, negated], .function ⟨"g", ["1"]⟩, .groupByTags [""]]
    parseQuery text = .ok (.metric q) ∧ (∀ edit ∈ edits, edit.Sound) ∧
      ∀ state ∈ q.states edits, ∃ written, state.render = .ok written := by
  intro text q negated edits
  have hread : parseQuery text = .ok (.metric q) := by decide +kernel
  have hnegated : negated.render = .ok "NOT e NOT IN (\"v w\")" := by decide +kernel
  have hedits : ∀ edit ∈ edits, edit.Sound := by simp [edits, Query.Edit.Sound, hnegated]
  exact ⟨hread, hedits, parseQuery_states_render hread hedits⟩

/-! ## Filters grow -/

namespace Query

/-- An edit makes the filters grow. -/
theorem Edit.grownAll (edit : Edit) (q : Query) :
    FilterTree.GrownAll q.filterList (edit.apply q).filterList := by
  cases edit with
  | filter tree => exact FilterTree.grownAll_append [tree] (.refl q.filterList)
  | filters trees => exact FilterTree.grownAll_append trees (.refl q.filterList)
  | addToGroup path tree =>
    obtain ⟨indices, trees, heq, happended⟩ := q.addToGroup_cases path tree
    rw [apply, heq]
    exact happended.grown.children
  | _ => exact .refl q.filterList

/-- A path that leads to a group in one state leads to the same group, grown, in the later ones. -/
theorem pairwise_groupAt?_states (q : Query) (edits : List Edit) :
    (q.states edits).Pairwise fun earlier later => ∀ path g, earlier.groupAt? path = some g →
      ∃ g', later.groupAt? path = some g' ∧ g.Grown g' := by
  have hgrown : (q.states edits).Pairwise fun earlier later =>
      FilterTree.GrownAll earlier.filterList later.filterList :=
    pairwise_states FilterTree.GrownAll.trans fun edit _ q => edit.grownAll q
  exact hgrown.imp fun h path g hg => FilterTree.exists_groupAt?_of_grownAll h hg

/-- The second query is the first one with a child more in the group `g`, which the path leads to.
What a path leads to depends on where it goes: to the group itself, to a group around it, into the
new child or elsewhere. -/
structure AppendsOnly (tree : FilterTree) (path : List Nat) (g : FilterGroup) (q q' : Query) :
    Prop where
  target : q'.groupAt? ⟨path⟩ = some { g with children := g.children ++ [tree] }
  above : ∀ front i rest, front ≠ [] → path = front ++ i :: rest →
    ∃ h h', q.groupAt? ⟨front⟩ = some h ∧ q'.groupAt? ⟨front⟩ = some h' ∧
      h'.junction = h.junction ∧ h'.negated = h.negated ∧
      h'.children.length = h.children.length ∧ ∀ j ≠ i, h'.children[j]? = h.children[j]?
  new : ∀ rest, q.groupAt? ⟨path ++ g.children.length :: rest⟩ = none ∧
    q'.groupAt? ⟨path ++ g.children.length :: rest⟩ = FilterTree.groupAt? (0 :: rest) [tree]
  apart : ∀ other, ¬ other <+: path → ¬ path ++ [g.children.length] <+: other →
    q'.groupAt? ⟨other⟩ = q.groupAt? ⟨other⟩
  filterList : q'.filterList.length = q.filterList.length ∧
    ∀ j, path.head? ≠ some j → q'.filterList[j]? = q.filterList[j]?
  parts : { q' with filterList := q.filterList } = q

/-- What the path leads to is what it leads to from a group of all filters. -/
theorem groupAt?_cons (q : Query) (i : Nat) (path : List Nat) :
    q.groupAt? ⟨i :: path⟩ = FilterGroup.at? (i :: path) ⟨q.filterList, .and, false⟩ :=
  FilterTree.groupAt?_cons i path q.filterList .and false

/-- A child that is appended where the path leads is all that an edit at the path changes. -/
theorem appendsOnly_of_appendedAt {q : Query} {tree : FilterTree} {i : Nat} {path : List Nat}
    {g : FilterGroup} {trees : List FilterTree} (hgroup : q.groupAt? ⟨i :: path⟩ = some g)
    (happended : FilterGroup.AppendedAt tree (i :: path) ⟨q.filterList, .and, false⟩
      ⟨trees, .and, false⟩) :
    AppendsOnly tree (i :: path) g q { q with filterList := trees } := by
  rw [groupAt?_cons] at hgroup
  refine ⟨?_, ?_, ?_, ?_, ?_, rfl⟩
  · rw [groupAt?_cons, happended.at?_target, hgroup]
    rfl
  · intro front k rest hfront hpath
    obtain ⟨first, front, rfl⟩ := List.exists_cons_of_ne_nil hfront
    rw [hpath] at happended
    obtain ⟨above, t, habove, -, habove'⟩ := happended.at?_above
    rw [groupAt?_cons, groupAt?_cons]
    refine ⟨above, _, habove, habove', rfl, rfl, List.length_set, fun j hj => ?_⟩
    exact List.getElem?_set_ne (Ne.symm hj)
  · intro rest
    rw [List.cons_append, groupAt?_cons, groupAt?_cons]
    exact happended.at?_new hgroup rest
  · intro other hother hnew
    cases other with
    | nil => exact absurd List.nil_prefix hother
    | cons j other =>
      rw [groupAt?_cons, groupAt?_cons]
      exact happended.at?_apart hgroup hother hnew
  · rw [← List.nil_append (i :: path)] at happended
    obtain ⟨above, t, habove, -, habove'⟩ := happended.at?_above
    obtain rfl := Option.some.inj habove
    obtain rfl : trees = q.filterList.set i t :=
      congrArg FilterGroup.children (Option.some.inj habove')
    exact ⟨List.length_set, fun j hj => List.getElem?_set_ne fun heq => hj (congrArg some heq)⟩

/-- Appending to a group changes that group alone, and without a group the filters of the query
alone.  So in a session paths stay valid: what they lead to has grown at most. -/
theorem addToGroup_appendsOnly (q : Query) (path : GroupPath) (tree : FilterTree) :
    (∀ g, q.groupAt? path = some g →
        AppendsOnly tree path.indices g q (q.addToGroup (some path) tree)) ∧
      (q.groupAt? path = none →
        q.addToGroup (some path) tree = { q with filterList := q.filterList ++ [tree] }) ∧
      ∀ edits : List Edit, (q.states edits).Pairwise fun earlier later =>
        ∀ other g, earlier.groupAt? other = some g → ∃ g', later.groupAt? other = some g' ∧
          g'.junction = g.junction ∧ g'.negated = g.negated ∧
            FilterTree.GrownAll g.children g'.children := by
  refine ⟨fun g hgroup => ?_, addToGroup_of_none tree, fun edits => ?_⟩
  · obtain ⟨trees, heq, happended⟩ := addToGroup_of_some tree hgroup
    obtain ⟨indices⟩ := path
    cases indices with
    | nil => simp [groupAt?, FilterTree.groupAt?] at hgroup
    | cons i rest =>
      rw [heq]
      exact appendsOnly_of_appendedAt hgroup happended
  · refine (pairwise_groupAt?_states q edits).imp fun h other g hg => ?_
    obtain ⟨g', hg', hgrown⟩ := h other g hg
    exact ⟨g', hg', hgrown.junction, hgrown.negated, hgrown.children⟩

/-- A group inside another one, which has a third group behind it. -/
theorem addToGroup_appendsOnly_nested :
    let leaf : FilterTree := .leaf ⟨"k", some .equal, ["v"]⟩
    let target : FilterGroup := ⟨[leaf, leaf], .or, true⟩
    let last : FilterTree := .group .and true []
    let q : Query := { metric := "m", filterList := [leaf, .group .or false [target.toTree, last]] }
    let q' : Query :=
      { q with filterList :=
          [leaf, .group .or false [.group .or true [leaf, leaf, last], last]] }
    q.groupAt? ⟨[1, 0]⟩ = some target ∧ q.addToGroup (some ⟨[1, 0]⟩) last = q' ∧
      AppendsOnly last [1, 0] target q q' ∧ q.groupAt? ⟨[1, 0, 2]⟩ = none ∧
      q.addToGroup (some ⟨[1, 0, 2]⟩) last = q.filter last := by
  intro leaf target last q q'
  have hgroup : q.groupAt? ⟨[1, 0]⟩ = some target := rfl
  have hnone : q.groupAt? ⟨[1, 0, 2]⟩ = none := rfl
  have hq' : q.addToGroup (some ⟨[1, 0]⟩) last = q' := rfl
  refine ⟨hgroup, hq', ?_, hnone, (addToGroup_appendsOnly q ⟨[1, 0, 2]⟩ last).2.1 hnone⟩
  rw [← hq']
  exact (addToGroup_appendsOnly q ⟨[1, 0]⟩ last).1 target hgroup

end Query

end MetricQuery
