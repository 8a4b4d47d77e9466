import MetricQuery.Proofs.FilterTree.Nodes

/-!
# Searching for a group

A search for a group asks its test about one group after the other.  The test may have effects, so
it matters which groups it is asked about, and in which order.

* `Query.groups` lists the groups of a query in pre-order, each with its path.
* `Query.findGroupM_eq_findM?`: in any monad the search goes through this list up to the first
  group that passes.
* `recorded` is a test with a record of its calls, and `findM?_recorded` says what the record of a
  search through a list is.
* `Query.findGroupM_preorder`: which groups a search asks about, and what it gives.
-/

namespace MetricQuery

/-! ## Search through a list -/

section Lists

variable {m : Type → Type} [Monad m] [LawfulMonad m] {α : Type}

theorem findM?_append (test : α → m Bool) (front behind : List α) :
    (front ++ behind).findM? test = front.findM? test >>= fun
      | some found => pure (some found)
      | none => behind.findM? test := by
  induction front with
  | nil => simp [List.findM?]
  | cons a front ih =>
    rw [List.cons_append, List.findM?, List.findM?, ih, bind_assoc]
    refine bind_congr fun passed => ?_
    cases passed <;> simp

end Lists

/-! ## Search through trees -/

namespace FilterTree

/-- The groups among some nodes, with the paths to them; the nodes are below `path`. -/
def groupsBelow (path : List Nat) (nodes : List (List Nat × FilterTree)) :
    List (GroupPath × FilterGroup) :=
  nodes.filterMap fun node => node.2.group?.map fun g => (⟨path ++ node.1⟩, g)

theorem groupsBelow_append (path : List Nat) (front behind : List (List Nat × FilterTree)) :
    groupsBelow path (front ++ behind) = groupsBelow path front ++ groupsBelow path behind :=
  List.filterMap_append

theorem groupsBelow_map_cons (path : List Nat) (index : Nat)
    (nodes : List (List Nat × FilterTree)) :
    groupsBelow path (nodes.map (Prod.map (List.cons index) id)) =
      groupsBelow (path ++ [index]) nodes := by
  simp only [groupsBelow, List.filterMap_map, Function.comp_def, Prod.map_fst, Prod.map_snd, id_eq,
    List.append_assoc, List.singleton_append]

variable {m : Type → Type} [Monad m] [LawfulMonad m] (test : FilterGroup → m Bool)

/-- What a search gives, and the way that it leaves behind: that to the group it has found, or, if
there is none, the one it has started with. -/
def leaving (way : List Nat) (found : Option (GroupPath × FilterGroup)) :
    Option GroupPath × List Nat :=
  (found.map Prod.fst, found.elim way fun entry => entry.1.indices)

theorem run_searchFrom_of_forall {trees : List FilterTree}
    (h : ∀ t ∈ trees, ∀ way index, (searchTree test index t).run way =
      leaving way <$> (groupsBelow (way ++ [index]) (nodes t)).findM? fun entry => test entry.2) :
    ∀ way index, (searchFrom test index trees).run way =
      leaving way <$>
        (groupsBelow way (nodesFrom index trees)).findM? fun entry => test entry.2 := by
  induction trees with
  | nil => simp [searchFrom, nodesFrom, groupsBelow, List.findM?, leaving]
  | cons t rest ih =>
    intro way index
    obtain ⟨hfirst, hothers⟩ := List.forall_mem_cons.1 h
    rw [searchFrom, StateT.run_bind, hfirst, nodesFrom, groupsBelow_append, groupsBelow_map_cons,
      findM?_append, map_bind, bind_map_left]
    refine bind_congr fun found => ?_
    cases found with
    | none => exact ih hothers way (index + 1)
    | some found => simp [leaving]

/-- A search goes through the groups in pre-order, and every index that is put on the way is taken
off again unless a group below it is found. -/
theorem run_searchTree (t : FilterTree) : ∀ way index, (searchTree test index t).run way =
    leaving way <$> (groupsBelow (way ++ [index]) (nodes t)).findM? fun entry => test entry.2 := by
  induction t with
  | leaf f => simp [searchTree, nodes, groupsBelow, group?, List.findM?, leaving]
  | group junction negated children ih =>
    intro way index
    have hinner := run_searchFrom_of_forall test ih (way ++ [index]) 0
    have hgroups : groupsBelow (way ++ [index]) (nodes (.group junction negated children)) =
        (⟨way ++ [index]⟩, ⟨children, junction, negated⟩) ::
          groupsBelow (way ++ [index]) (nodesFrom 0 children) := by
      simp [groupsBelow, nodes, group?]
    rw [searchTree, hgroups, List.findM?, map_bind]
    simp only [StateT.run_bind, StateT.run_modify, StateT.run_monadLift, bind_assoc, pure_bind]
    refine bind_congr fun passed => ?_
    cases passed with
    | true => simp [leaving]
    | false =>
      simp only [Bool.false_eq_true, if_false, StateT.run_bind, hinner, bind_map_left]
      rw [map_eq_pure_bind]
      refine bind_congr fun found => ?_
      cases found <;> simp [leaving]

end FilterTree

namespace Query

/-- The groups of a query, each with its path: a group in front of those inside it, and children in
order. -/
def groups (q : Query) : List (GroupPath × FilterGroup) :=
  FilterTree.groupsBelow [] (FilterTree.nodesFrom 0 q.filterList)

/-- The groups of the list are exactly those that paths lead to. -/
theorem mem_groups_iff {q : Query} {path : GroupPath} {g : FilterGroup} :
    (path, g) ∈ q.groups ↔ q.groupAt? path = some g := by
  rw [groupAt?, ← FilterTree.mem_nodesFrom_iff_groupAt?, groups, FilterTree.groupsBelow,
    List.mem_filterMap]
  constructor
  · rintro ⟨⟨indices, node⟩, hnode, heq⟩
    obtain ⟨g', hg, heq⟩ := Option.map_eq_some_iff.1 heq
    cases heq
    rwa [show node = g.toTree from FilterTree.eq_toTree_of_group? hg] at hnode
  · intro hnode
    exact ⟨_, hnode, rfl⟩

/-- The paths ascend. -/
theorem pairwise_groups (q : Query) :
    q.groups.Pairwise fun a b => a.1.indices < b.1.indices := by
  rw [groups, FilterTree.groupsBelow, List.pairwise_filterMap]
  refine (FilterTree.pairwise_nodesFrom 0 q.filterList).imp ?_
  intro a b hlt x hx y hy
  obtain ⟨-, -, rfl⟩ := Option.map_eq_some_iff.1 hx
  obtain ⟨-, -, rfl⟩ := Option.map_eq_some_iff.1 hy
  exact hlt

theorem findGroupM_eq_findM? {m : Type → Type} [Monad m] [LawfulMonad m] (q : Query)
    (test : FilterGroup → m Bool) :
    q.findGroupM test = Option.map Prod.fst <$> q.groups.findM? fun entry => test entry.2 := by
  have hrun := FilterTree.run_searchFrom_of_forall test
    (fun t (_ : t ∈ q.filterList) => FilterTree.run_searchTree test t) [] 0
  rw [findGroupM, StateT.run'_eq, hrun, Functor.map_map]
  rfl

end Query

/-! ## The calls of a test -/

/-- The test with a record of its calls, each with its answer. -/
def recorded {m : Type → Type} [Monad m] (test : FilterGroup → m Bool) (g : FilterGroup) :
    StateT (List (FilterGroup × Bool)) m Bool := do
  let passed ← test g
  modify fun calls => calls ++ [(g, passed)]
  return passed

/-- The calls of a search through some groups: all groups without success, or those up to the one
that is found. -/
def SearchedBy (groups : List (GroupPath × FilterGroup)) (calls : List (FilterGroup × Bool)) :
    Option (GroupPath × FilterGroup) → Prop
  | none => calls = groups.map fun entry => (entry.2, false)
  | some found => ∃ before behind, groups = before ++ found :: behind ∧
      calls = before.map (fun entry => (entry.2, false)) ++ [(found.2, true)]

theorem run_recorded {m : Type → Type} [Monad m] [LawfulMonad m] (test : FilterGroup → m Bool)
    (g : FilterGroup) (calls : List (FilterGroup × Bool)) :
    (recorded test g).run calls = (fun passed => (passed, calls ++ [(g, passed)])) <$> test g := by
  simp [recorded]

theorem SearchedBy.cons {groups : List (GroupPath × FilterGroup)}
    {calls : List (FilterGroup × Bool)} {found : Option (GroupPath × FilterGroup)}
    (entry : GroupPath × FilterGroup) (h : SearchedBy groups calls found) :
    SearchedBy (entry :: groups) ((entry.2, false) :: calls) found := by
  cases found with
  | none => exact congrArg (List.cons _) h
  | some found =>
    obtain ⟨before, behind, rfl, rfl⟩ := h
    exact ⟨entry :: before, behind, rfl, rfl⟩

theorem findM?_recorded {σ : Type} (test : FilterGroup → StateM σ Bool)
    (groups : List (GroupPath × FilterGroup)) : ∀ calls s, ∃ found more s',
      (groups.findM? fun entry => test entry.2).run s = pure (found, s') ∧
      ((groups.findM? fun entry => recorded test entry.2).run calls).run s =
        pure ((found, calls ++ more), s') ∧ SearchedBy groups more found := by
  -- The state and the calls so far are arbitrary: both have moved on at the next group.
  induction groups with
  | nil =>
    intro calls s
    exact ⟨none, [], s, rfl, by simp [List.findM?], rfl⟩
  | cons entry rest ih =>
    intro calls s
    obtain ⟨passed, s', htest⟩ : ∃ passed s', (test entry.2).run s = pure (passed, s') :=
      ⟨_, _, rfl⟩
    cases passed with
    | true =>
      refine ⟨some entry, [(entry.2, true)], s', ?_, ?_, [], rest, rfl, rfl⟩
      · simp [List.findM?, htest]
      · simp [List.findM?, run_recorded, htest]
    | false =>
      obtain ⟨found, more, s'', hrun, hcalls, hsearched⟩ := ih (calls ++ [(entry.2, false)]) s'
      refine ⟨found, (entry.2, false) :: more, s'', ?_, ?_, ?_⟩
      · simp [List.findM?, htest, hrun]
      · simp [List.findM?, run_recorded, htest, hcalls]
      · exact hsearched.cons entry

namespace Query

/-- A search asks about the groups of a query in pre-order, each once, and stops at the first one
that passes, whatever the answers depend on.  If there is none, it has asked about all of them; else
it gives the path of the last one that it has asked about, and those not asked about come later. -/
theorem findGroupM_preorder {σ : Type} (q : Query) (test : FilterGroup → StateM σ Bool) (s : σ) :
    (∀ path g, (path, g) ∈ q.groups ↔ q.groupAt? path = some g) ∧
      (q.groups.Pairwise fun a b => a.1.indices < b.1.indices) ∧
      ∃ found calls s', (q.findGroupM test).run s = (found, s') ∧
        ((q.findGroupM (recorded test)).run []).run s = ((found, calls), s') ∧
        match found with
        | none => calls = q.groups.map fun entry => (entry.2, false)
        | some path => ∃ g before behind, q.groups = before ++ (path, g) :: behind ∧
            calls = before.map (fun entry => (entry.2, false)) ++ [(g, true)] ∧
            q.groupAt? path = some g ∧ ∀ entry ∈ behind, path.indices < entry.1.indices := by
  refine ⟨fun path g => mem_groups_iff, pairwise_groups q, ?_⟩
  obtain ⟨found, calls, s', hrun, hcalls, hsearched⟩ := findM?_recorded test q.groups [] s
  refine ⟨found.map Prod.fst, calls, s', ?_, ?_, ?_⟩
  · rw [findGroupM_eq_findM?, StateT.run_map, hrun]
    rfl
  · rw [findGroupM_eq_findM?, StateT.run_map, StateT.run_map, hcalls]
    rfl
  · cases found with
    | none => exact hsearched
    | some entry =>
      obtain ⟨before, behind, hgroups, hcalls⟩ := hsearched
      have hmem : entry ∈ q.groups := by simp [hgroups]
      have hlater := pairwise_groups q
      rw [hgroups, List.pairwise_append, List.pairwise_cons] at hlater
      exact ⟨entry.2, before, behind, hgroups, hcalls, mem_groups_iff.1 hmem, hlater.2.1.1⟩

/-- The third call of a test is about the group behind the two that are one in the other. -/
example :
    let leaf : FilterTree := .leaf ⟨"k", some .equal, ["v"]⟩
    let inner : FilterTree := .group .and true [leaf]
    let q : Query :=
      { filterList := [leaf, .group .or false [leaf, inner], inner, .group .or false []] }
    let third : FilterGroup → StateM Nat Bool := fun _ => do
      modify (· + 1)
      return (← get) = 3
    (q.findGroupM third).run 0 = (some ⟨[2]⟩, 3) := by
  rfl

/-- Without effects a search gives the path of the first group that passes. -/
theorem findGroup?_eq_find? (q : Query) (test : FilterGroup → Bool) :
    q.findGroup? test = (q.groups.find? fun entry => test entry.2).map Prod.fst := by
  rw [findGroup?, findGroupM_eq_findM?, List.findM?_pure]
  rfl

end Query

end MetricQuery
