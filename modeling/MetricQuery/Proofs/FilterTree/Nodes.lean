import MetricQuery.Proofs.FilterTree.Appended

/-!
# The nodes of filter trees

`FilterTree.nodes` lists the nodes of a tree in pre-order, each with the way to it from the root: a
node stands in front of those below it, and children stand in order.

* `mem_nodesFrom`: the nodes of several trees, by the tree they are in.
* `pairwise_nodesFrom`: the ways ascend, where a way comes before those that go on from it, and
  indices count from left to right.
* `mem_nodesFrom_iff_groupAt?`: the groups of the list are exactly those that paths lead to.
-/

namespace MetricQuery

namespace FilterTree

mutual

/-- The nodes of a tree, each with the way to it. -/
def nodes : FilterTree → List (List Nat × FilterTree)
  | .leaf f => [([], .leaf f)]
  | .group junction negated children =>
    ([], .group junction negated children) :: nodesFrom 0 children

/-- The nodes of some trees; the indices of the trees count from `index`. -/
def nodesFrom (index : Nat) : List FilterTree → List (List Nat × FilterTree)
  | [] => []
  | t :: rest => (nodes t).map (Prod.map (List.cons index) id) ++ nodesFrom (index + 1) rest

end

theorem mem_nodesFrom {path : List Nat} {node : FilterTree} {trees : List FilterTree} :
    ∀ {index : Nat}, (path, node) ∈ nodesFrom index trees ↔
      ∃ i t rest, path = (index + i) :: rest ∧ trees[i]? = some t ∧ (rest, node) ∈ nodes t := by
  induction trees with
  | nil => simp [nodesFrom]
  | cons t trees ih =>
    intro index
    rw [nodesFrom, List.mem_append, List.mem_map, ih]
    constructor
    · rintro (⟨⟨rest, node⟩, hnode, heq⟩ | ⟨i, u, rest, rfl, hu, hnode⟩)
      · cases heq
        exact ⟨0, t, rest, rfl, rfl, hnode⟩
      · exact ⟨i + 1, u, rest, by rw [Nat.add_right_comm, Nat.add_assoc], hu, hnode⟩
    · rintro ⟨_ | i, u, rest, rfl, hu, hnode⟩
      · obtain rfl := Option.some.inj hu
        exact .inl ⟨(rest, node), hnode, rfl⟩
      · exact .inr ⟨i, u, rest, by rw [Nat.add_right_comm, Nat.add_assoc], hu, hnode⟩

/-- The root is in front of all other nodes. -/
theorem mem_nodes_nil {t node : FilterTree} : ([], node) ∈ nodes t ↔ node = t := by
  cases t with
  | leaf f => simp [nodes]
  | group junction negated children => simp [nodes, mem_nodesFrom]

/-! ## Order -/

theorem pairwise_nodesFrom_of_forall {trees : List FilterTree}
    (h : ∀ t ∈ trees, (nodes t).Pairwise fun a b => a.1 < b.1) :
    ∀ index, (nodesFrom index trees).Pairwise fun a b => a.1 < b.1 := by
  induction trees with
  | nil => exact fun index => .nil
  | cons t rest ih =>
    intro index
    obtain ⟨hfirst, hothers⟩ := List.forall_mem_cons.1 h
    rw [nodesFrom, List.pairwise_append, List.pairwise_map]
    refine ⟨hfirst.imp fun hlt => ?_, ih hothers (index + 1), ?_⟩
    · exact List.cons_lt_cons_iff.2 (.inr ⟨rfl, hlt⟩)
    · intro a ha ⟨path, node⟩ hb
      obtain ⟨c, -, rfl⟩ := List.mem_map.1 ha
      obtain ⟨i, u, tail, rfl, -, -⟩ := mem_nodesFrom.1 hb
      exact List.cons_lt_cons_iff.2 (.inl (by omega))

theorem pairwise_nodes (t : FilterTree) : (nodes t).Pairwise fun a b => a.1 < b.1 := by
  induction t with
  | leaf f => simp [nodes]
  | group junction negated children ih =>
    refine List.pairwise_cons.2 ⟨?_, pairwise_nodesFrom_of_forall ih 0⟩
    intro ⟨path, node⟩ hnode
    obtain ⟨i, t, rest, rfl, -, -⟩ := mem_nodesFrom.1 hnode
    exact List.nil_lt_cons _ _

theorem pairwise_nodesFrom (index : Nat) (trees : List FilterTree) :
    (nodesFrom index trees).Pairwise fun a b => a.1 < b.1 :=
  pairwise_nodesFrom_of_forall (fun t _ => pairwise_nodes t) index

/-! ## Groups -/

theorem toTree_eq_iff_group? {t : FilterTree} {g : FilterGroup} :
    g.toTree = t ↔ t.group? = some g := by
  refine ⟨?_, fun h => (eq_toTree_of_group? h).symm⟩
  rintro rfl
  rfl

theorem mem_nodesFrom_iff_at? {trees : List FilterTree} {i : Nat} {path : List Nat}
    {g : FilterGroup}
    (h : ∀ t ∈ trees, (path, g.toTree) ∈ nodes t ↔ t.group?.bind (FilterGroup.at? path) = some g) :
    (i :: path, g.toTree) ∈ nodesFrom 0 trees ↔
      (trees[i]?.bind group?).bind (FilterGroup.at? path) = some g := by
  rw [mem_nodesFrom]
  constructor
  · rintro ⟨k, t, rest, heq, ht, hnode⟩
    obtain ⟨rfl, rfl⟩ : i = k ∧ path = rest := by simpa using heq
    rw [ht]
    exact (h t (List.mem_of_getElem? ht)).1 hnode
  · intro hat
    cases ht : trees[i]? with
    | none => simp [ht] at hat
    | some t =>
      rw [ht] at hat
      exact ⟨i, t, path, by rw [Nat.zero_add], ht, (h t (List.mem_of_getElem? ht)).2 hat⟩

/-- The groups among the nodes of a tree are those that the ways into it lead to. -/
theorem mem_nodes_iff_at? {t : FilterTree} {path : List Nat} {g : FilterGroup} :
    (path, g.toTree) ∈ nodes t ↔ t.group?.bind (FilterGroup.at? path) = some g := by
  induction t generalizing path with
  | leaf f => simp [nodes, group?, FilterGroup.toTree]
  | group junction negated children ih =>
    cases path with
    | nil =>
      rw [mem_nodes_nil, toTree_eq_iff_group?]
      exact Iff.rfl
    | cons i path =>
      rw [nodes, List.mem_cons, Prod.mk.injEq]
      simp only [reduceCtorEq, false_and, false_or]
      exact mem_nodesFrom_iff_at? fun t ht => ih t ht

/-- The groups among the nodes of some trees are those that paths lead to. -/
theorem mem_nodesFrom_iff_groupAt? {trees : List FilterTree} {path : List Nat} {g : FilterGroup} :
    (path, g.toTree) ∈ nodesFrom 0 trees ↔ groupAt? path trees = some g := by
  cases path with
  | nil => simp [mem_nodesFrom, groupAt?]
  | cons i path =>
    rw [groupAt?_cons i path trees .and false]
    exact mem_nodesFrom_iff_at? fun _ _ => mem_nodes_iff_at?

end FilterTree

end MetricQuery
