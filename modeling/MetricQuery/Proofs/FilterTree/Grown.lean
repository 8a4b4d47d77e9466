import MetricQuery.Proofs.FilterTree.Appended

/-!
# Trees that have grown

A tree grows when children are appended to its groups.  `FilterTree.Grown` compares a tree with a
later state of it: filters, operators and negations are the same, and the children of a group are
the first children of the later group, each of them possibly grown.

* `Grown.refl` and `Grown.trans`: growing is a preorder.
* `grownAll_append`, `FilterGroup.AppendedAt.grown`: appending makes lists and groups grow.
* `exists_groupAt?_of_grownAll`: a path leads to a group still after the trees have grown, and to
  one that has grown itself at most.
-/

namespace MetricQuery

namespace FilterTree

mutual

/-- The second tree is the first one, grown. -/
inductive Grown : FilterTree → FilterTree → Prop where
  | leaf (f : Filter) : Grown (.leaf f) (.leaf f)
  | group (junction : Junction) (negated : Bool) {children children' : List FilterTree}
      (hchildren : GrownAll children children') :
      Grown (.group junction negated children) (.group junction negated children')

/-- The second list starts with the trees of the first one, grown. -/
inductive GrownAll : List FilterTree → List FilterTree → Prop where
  | nil (trees : List FilterTree) : GrownAll [] trees
  | cons {t t' : FilterTree} {rest rest' : List FilterTree} (hfirst : Grown t t')
      (hrest : GrownAll rest rest') : GrownAll (t :: rest) (t' :: rest')

end

/-! ## Lists -/

theorem grownAll_append {trees trees' : List FilterTree} (more : List FilterTree)
    (h : GrownAll trees trees') : GrownAll trees (trees' ++ more) := by
  induction trees generalizing trees' with
  | nil => exact .nil _
  | cons t rest ih =>
    cases h with
    | cons hfirst hrest => exact .cons hfirst (ih hrest)

/-- Lists grow if their trees do. -/
theorem grownAll_of_forall {trees : List FilterTree} (h : ∀ t ∈ trees, Grown t t) :
    GrownAll trees trees := by
  induction trees with
  | nil => exact .nil []
  | cons t rest ih =>
    obtain ⟨hfirst, hrest⟩ := List.forall_mem_cons.1 h
    exact .cons hfirst (ih hrest)

theorem Grown.refl (t : FilterTree) : Grown t t := by
  induction t with
  | leaf f => exact .leaf f
  | group junction negated children ih => exact .group junction negated (grownAll_of_forall ih)

theorem GrownAll.refl (trees : List FilterTree) : GrownAll trees trees :=
  grownAll_of_forall fun t _ => .refl t

/-- One tree of a list grows. -/
theorem grownAll_set {trees : List FilterTree} {i : Nat} {t t' : FilterTree}
    (ht : trees[i]? = some t) (h : Grown t t') : GrownAll trees (trees.set i t') := by
  induction trees generalizing i with
  | nil => exact .nil _
  | cons first rest ih =>
    cases i with
    | zero =>
      obtain rfl : first = t := by simpa using ht
      exact .cons h (.refl rest)
    | succ i => exact .cons (.refl first) (ih (by simpa using ht))

/-- Each tree of a list has its place in the grown one. -/
theorem GrownAll.exists_getElem? {trees trees' : List FilterTree} {i : Nat} {t : FilterTree}
    (h : GrownAll trees trees') (ht : trees[i]? = some t) :
    ∃ t', trees'[i]? = some t' ∧ Grown t t' := by
  induction trees generalizing trees' i with
  | nil => simp at ht
  | cons first rest ih =>
    cases h with
    | @cons _ first' _ rest' hfirst hrest =>
      cases i with
      | zero =>
        obtain rfl : first = t := by simpa using ht
        exact ⟨first', rfl, hfirst⟩
      | succ i =>
        have ht : rest[i]? = some t := by simpa using ht
        obtain ⟨t', ht', hgrown⟩ := ih hrest ht
        exact ⟨t', ht', hgrown⟩

theorem grownAll_trans {trees trees' trees'' : List FilterTree}
    (h : GrownAll trees trees') (h' : GrownAll trees' trees'')
    (htrans : ∀ t ∈ trees, ∀ {t' t'' : FilterTree}, Grown t t' → Grown t' t'' → Grown t t'') :
    GrownAll trees trees'' := by
  induction trees generalizing trees' trees'' with
  | nil => exact .nil _
  | cons t rest ih =>
    obtain ⟨htrans, hothers⟩ := List.forall_mem_cons.1 htrans
    cases h with
    | cons hfirst hrest =>
      cases h' with
      | cons hfirst' hrest' => exact .cons (htrans hfirst hfirst') (ih hrest hrest' hothers)

theorem Grown.trans {t t' t'' : FilterTree} (h : Grown t t') (h' : Grown t' t'') :
    Grown t t'' := by
  induction t generalizing t' t'' with
  | leaf f =>
    cases h
    exact h'
  | group junction negated children ih =>
    cases h with
    | group _ _ hchildren =>
      cases h' with
      | group _ _ hchildren' =>
        exact .group junction negated
          (grownAll_trans hchildren hchildren' fun t ht {_ _} => ih t ht)

theorem GrownAll.trans {trees trees' trees'' : List FilterTree} (h : GrownAll trees trees')
    (h' : GrownAll trees' trees'') : GrownAll trees trees'' :=
  grownAll_trans h h' fun _ _ {_ _} => Grown.trans

end FilterTree

/-! ## Groups -/

/-- The later group has the operator and the negation of the first one, and its children, grown,
in front of others. -/
structure FilterGroup.Grown (g g' : FilterGroup) : Prop where
  junction : g'.junction = g.junction
  negated : g'.negated = g.negated
  children : FilterTree.GrownAll g.children g'.children

theorem FilterGroup.Grown.toTree {g g' : FilterGroup} (h : g.Grown g') :
    g.toTree.Grown g'.toTree := by
  rw [FilterGroup.toTree, FilterGroup.toTree, h.junction, h.negated]
  exact .group g.junction g.negated h.children

/-- What a group has grown to is a group. -/
theorem FilterTree.Grown.exists_group {g : FilterGroup} {t' : FilterTree}
    (h : g.toTree.Grown t') : ∃ g', t' = g'.toTree ∧ g.Grown g' := by
  cases h with
  | @group _ _ _ children' hchildren =>
    exact ⟨⟨children', g.junction, g.negated⟩, rfl, rfl, rfl, hchildren⟩

/-- Appending a child makes a group grow. -/
theorem FilterGroup.AppendedAt.grown {tree : FilterTree} {path : List Nat} {g g' : FilterGroup}
    (h : AppendedAt tree path g g') : g.Grown g' := by
  induction h with
  | here g => exact ⟨rfl, rfl, FilterTree.grownAll_append [tree] (.refl g.children)⟩
  | within hchild _ ih => exact ⟨rfl, rfl, FilterTree.grownAll_set hchild ih.toTree⟩

/-- A path leads on after the group has grown, to a group that has grown at most. -/
theorem FilterGroup.Grown.exists_at? {path : List Nat} {g g' target : FilterGroup}
    (h : g.Grown g') (htarget : at? path g = some target) :
    ∃ target', at? path g' = some target' ∧ target.Grown target' := by
  induction path generalizing g g' with
  | nil =>
    obtain rfl := Option.some.inj htarget
    exact ⟨g', rfl, h⟩
  | cons i path ih =>
    obtain ⟨child, ht, htarget⟩ := exists_child_of_at? htarget
    obtain ⟨t', ht', hgrown⟩ := h.children.exists_getElem? ht
    obtain ⟨child', rfl, hchild'⟩ := hgrown.exists_group
    rw [at?_cons_of_child path ht']
    exact ih hchild' htarget

/-- The same for paths into a list of trees. -/
theorem FilterTree.exists_groupAt?_of_grownAll {path : List Nat} {trees trees' : List FilterTree}
    {g : FilterGroup} (h : GrownAll trees trees') (hg : groupAt? path trees = some g) :
    ∃ g', groupAt? path trees' = some g' ∧ g.Grown g' := by
  cases path with
  | nil => simp [groupAt?] at hg
  | cons i path =>
    have hroot : FilterGroup.Grown ⟨trees, .and, false⟩ ⟨trees', .and, false⟩ := ⟨rfl, rfl, h⟩
    rw [groupAt?_cons i path _ .and false] at hg ⊢
    exact hroot.exists_at? hg

end MetricQuery
