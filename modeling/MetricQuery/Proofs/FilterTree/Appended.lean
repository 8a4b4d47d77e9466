import MetricQuery.Proofs.FilterTree.Written
import MetricQuery.Query.Path

/-!
# Children that are appended at a path

A list of filters is looked through as if it were the children of a group: from there a path
leads to groups only, and the empty path to the group itself.  `FilterGroup.at?` follows a path
in that way.

* `FilterTree.groupAt?_cons`: paths into a list are paths from such a group.
* `FilterGroup.AppendedAt`: two groups that differ by one child more at the end of the group that
  a path leads to, as a relation that goes down the path.
* `FilterTree.exists_appendAt?` and `FilterTree.appendAt?_eq_none`: a child is appended wherever
  the path leads to a group, and nowhere else.
* `AppendedAt.at?_target`, `at?_new`, `at?_above` and `at?_apart`: what becomes of the group that
  another path leads to, by where that path goes.
* `AppendedAt.complete`: a complete child leaves complete trees complete.
-/

namespace MetricQuery

namespace FilterGroup

/-! ## Paths from a group -/

/-- The group that a path leads to, from this one on. -/
def at? : List Nat → FilterGroup → Option FilterGroup
  | [], g => some g
  | i :: path, g => (g.children[i]?.bind FilterTree.group?).bind (at? path)

/-- A path that goes on from another one starts in the group that that one leads to. -/
theorem at?_append (front path : List Nat) (g : FilterGroup) :
    at? (front ++ path) g = (at? front g).bind (at? path) := by
  induction front generalizing g with
  | nil => rfl
  | cons i front ih =>
    rw [List.cons_append, at?, at?]
    cases g.children[i]?.bind FilterTree.group? with
    | none => rfl
    | some child => exact ih child

/-- Of the children only the one counts that the path goes through. -/
theorem at?_cons_congr {g h : FilterGroup} {i : Nat} (path : List Nat)
    (hchild : g.children[i]? = h.children[i]?) : at? (i :: path) g = at? (i :: path) h := by
  rw [at?, at?, hchild]

theorem at?_cons_of_child {g child : FilterGroup} {i : Nat} (path : List Nat)
    (hchild : g.children[i]? = some child.toTree) : at? (i :: path) g = at? path child := by
  rw [at?, hchild]
  rfl

end FilterGroup

namespace FilterTree

theorem eq_toTree_of_group? {t : FilterTree} {g : FilterGroup} (h : t.group? = some g) :
    t = g.toTree := by
  cases t with
  | leaf f => simp [group?] at h
  | group junction negated children =>
    obtain rfl := Option.some.inj h
    rfl

/-- A path into a list is one from a group that has the list for its children. -/
theorem groupAt?_cons (i : Nat) (path : List Nat) (trees : List FilterTree) (junction : Junction)
    (negated : Bool) :
    groupAt? (i :: path) trees = FilterGroup.at? (i :: path) ⟨trees, junction, negated⟩ := by
  induction path generalizing i trees junction negated with
  | nil => cases h : trees[i]?.bind group? <;> simp [groupAt?, FilterGroup.at?, h]
  | cons j path ih =>
    rw [groupAt?, FilterGroup.at?]
    cases htree : trees[i]? with
    | none => rfl
    | some t =>
      cases t with
      | leaf f => rfl
      | group inner negated' children => exact ih j children inner negated'

end FilterTree

/-- A path that goes on leads through a child that is a group. -/
theorem FilterGroup.exists_child_of_at? {g target : FilterGroup} {i : Nat} {path : List Nat}
    (h : at? (i :: path) g = some target) :
    ∃ child : FilterGroup, g.children[i]? = some child.toTree ∧ at? path child = some target := by
  obtain ⟨child, hchild, htarget⟩ := Option.bind_eq_some_iff.1 h
  obtain ⟨t, ht, hgroup⟩ := Option.bind_eq_some_iff.1 hchild
  obtain rfl := FilterTree.eq_toTree_of_group? hgroup
  exact ⟨child, ht, htarget⟩

/-! ## One child more -/

/-- The second group is the first one with one child more at the end of the group that the path
leads to. -/
inductive FilterGroup.AppendedAt (tree : FilterTree) :
    List Nat → FilterGroup → FilterGroup → Prop where
  | here (g : FilterGroup) : AppendedAt tree [] g (g.append tree)
  | within {g child child' : FilterGroup} {i : Nat} {path : List Nat}
      (hchild : g.children[i]? = some child.toTree) (hpath : AppendedAt tree path child child') :
      AppendedAt tree (i :: path) g { g with children := g.children.set i child'.toTree }

namespace FilterTree

/-- Where a path leads to a group, a child is appended there. -/
theorem exists_appendAt? (tree : FilterTree) {i : Nat} {path : List Nat} {trees : List FilterTree}
    {g : FilterGroup} (h : groupAt? (i :: path) trees = some g) (junction : Junction)
    (negated : Bool) :
    ∃ trees', appendAt? tree (i :: path) trees = some trees' ∧
      FilterGroup.AppendedAt tree (i :: path) ⟨trees, junction, negated⟩
        ⟨trees', junction, negated⟩ := by
  induction path generalizing i trees junction negated with
  | nil =>
    obtain ⟨t, ht, hgroup⟩ := Option.bind_eq_some_iff.1 h
    obtain rfl := eq_toTree_of_group? hgroup
    refine ⟨trees.set i (g.append tree).toTree, ?_, ?_⟩
    · simp [appendAt?, ht, FilterGroup.toTree, FilterGroup.append]
    · exact .within (g := ⟨trees, junction, negated⟩) ht (.here g)
  | cons j path ih =>
    rw [groupAt?] at h
    split at h
    · next inner negated' children ht =>
      obtain ⟨children', hchildren, hwithin⟩ := ih h inner negated'
      refine ⟨trees.set i (.group inner negated' children'), ?_, ?_⟩
      · simp [appendAt?, ht, hchildren]
      · exact .within (g := ⟨trees, junction, negated⟩) ht hwithin
    · simp at h

/-- Where a path leads to no group, no child is appended. -/
theorem appendAt?_eq_none (tree : FilterTree) {path : List Nat} {trees : List FilterTree}
    (h : groupAt? path trees = none) : appendAt? tree path trees = none := by
  fun_induction appendAt? tree path trees with
  | case1 => rfl
  | case2 i trees junction negated children ht => simp [groupAt?, ht, group?] at h
  | case3 => rfl
  | case4 i j path trees junction negated children ht ih =>
    rw [groupAt?, ht] at h
    rw [ih h]
    rfl
  | case5 => rfl

end FilterTree

namespace FilterGroup.AppendedAt

variable {tree : FilterTree} {path : List Nat} {g g' : FilterGroup}

/-! ## Where other paths lead -/

/-- The group that the path leads to has the new child. -/
theorem at?_target (h : AppendedAt tree path g g') :
    at? path g' = (at? path g).map fun target => target.append tree := by
  induction h with
  | here g => rfl
  | @within g child child' i path hchild hpath ih =>
    have hlt := (List.getElem?_eq_some_iff.1 hchild).1
    rw [at?_cons_of_child path hchild, at?_cons_of_child path (List.getElem?_set_self hlt), ih]

/-- Behind the last child there was no group, and now those of the new child are there. -/
theorem at?_new {target : FilterGroup} (h : AppendedAt tree path g g')
    (htarget : at? path g = some target) (rest : List Nat) :
    at? (path ++ target.children.length :: rest) g = none ∧
      at? (path ++ target.children.length :: rest) g' = FilterTree.groupAt? (0 :: rest) [tree] := by
  have htarget' : at? path g' = some (target.append tree) := by rw [h.at?_target, htarget]; rfl
  rw [at?_append, at?_append, htarget, htarget', FilterTree.groupAt?_cons 0 rest [tree] .and false]
  constructor
  · simp [at?]
  · simp [at?, append]

/-- A group on the way to the new child has another child there, and is else as it was. -/
theorem at?_above {front rest : List Nat} {i : Nat} (h : AppendedAt tree (front ++ i :: rest) g g') :
    ∃ above t, at? front g = some above ∧ i < above.children.length ∧
      at? front g' = some { above with children := above.children.set i t } := by
  generalize hpath : front ++ i :: rest = path at h
  induction h generalizing front with
  | here g => simp at hpath
  | @within g child child' k path hchild hwithin ih =>
    have hlt := (List.getElem?_eq_some_iff.1 hchild).1
    cases front with
    | nil =>
      obtain ⟨rfl, rfl⟩ := List.cons.inj hpath
      exact ⟨g, child'.toTree, rfl, hlt, rfl⟩
    | cons j front =>
      obtain ⟨rfl, rfl⟩ := List.cons.inj hpath
      rw [at?_cons_of_child front hchild, at?_cons_of_child front (List.getElem?_set_self hlt)]
      exact ih rfl

/-- Groups apart from the way to the new child, and from the child itself, are as they were. -/
theorem at?_apart {target : FilterGroup} {other : List Nat} (h : AppendedAt tree path g g')
    (htarget : at? path g = some target) (hother : ¬ other <+: path)
    (hnew : ¬ path ++ [target.children.length] <+: other) : at? other g' = at? other g := by
  induction h generalizing other with
  | here g =>
    obtain rfl := Option.some.inj htarget
    cases other with
    | nil => exact absurd List.nil_prefix hother
    | cons j other =>
      have hj : j ≠ g.children.length := by
        rintro rfl
        exact hnew (by simp)
      refine at?_cons_congr other ?_
      rcases Nat.lt_or_ge j g.children.length with hlt | hge
      · exact List.getElem?_append_left hlt
      · rw [List.getElem?_eq_none hge, append, List.getElem?_eq_none]
        rw [List.length_append, List.length_singleton]
        omega
  | @within g child child' i path hchild hwithin ih =>
    cases other with
    | nil => exact absurd List.nil_prefix hother
    | cons j other =>
      by_cases hj : i = j
      · subst hj
        have hlt := (List.getElem?_eq_some_iff.1 hchild).1
        rw [at?_cons_of_child path hchild] at htarget
        rw [at?_cons_of_child other hchild, at?_cons_of_child other (List.getElem?_set_self hlt)]
        refine ih htarget (fun hprefix => hother ?_) (fun hprefix => hnew ?_)
        · exact List.cons_prefix_cons.2 ⟨rfl, hprefix⟩
        · exact List.cons_prefix_cons.2 ⟨rfl, hprefix⟩
      · exact at?_cons_congr other (List.getElem?_set_ne hj)

/-! ## Complete trees -/

theorem children_ne (h : AppendedAt tree path g g') : g'.children ≠ [] := by
  cases h with
  | here g => simp [append]
  | @within _ child child' i path hchild _ =>
    intro hempty
    rw [List.set_eq_nil_iff] at hempty
    simp [hempty] at hchild

/-- With a complete child more, complete trees are complete. -/
theorem complete (h : AppendedAt tree path g g') (htree : tree.Complete)
    (hg : ∀ t ∈ g.children, t.Complete) : ∀ t ∈ g'.children, t.Complete := by
  induction h with
  | here g =>
    intro t ht
    rcases List.mem_append.1 ht with ht | ht
    · exact hg t ht
    · rw [List.mem_singleton.1 ht]
      exact htree
  | @within g child child' i path hchild hwithin ih =>
    intro t ht
    rcases List.mem_or_eq_of_mem_set ht with ht | rfl
    · exact hg t ht
    · have hcomplete := hg child.toTree (List.mem_of_getElem? hchild)
      cases hcomplete with
      | group _ hchildren => exact .group hwithin.children_ne (ih hchildren)

end FilterGroup.AppendedAt

end MetricQuery
