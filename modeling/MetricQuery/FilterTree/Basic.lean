import MetricQuery.Filter.Basic

/-!
# Filter trees

Filters combine to trees: a group joins its children by AND or by OR and may be
negated.  A `FilterGroup` is the content of a group node.

* `FilterGroup.and`, `or`, `not` build groups from an empty one;
* `FilterTree.decEq` decides equality of trees.
-/

namespace MetricQuery

/-- The word that joins the children of a group. -/
inductive Junction where
  | and
  | or
  deriving DecidableEq, Repr

namespace Junction

def word : Junction → String
  | .and => "AND"
  | .or => "OR"

end Junction

/-- A filter or a group of trees. -/
inductive FilterTree where
  | leaf (filter : Filter)
  | group (junction : Junction) (negated : Bool) (children : List FilterTree)

/-- The content of a group. -/
structure FilterGroup where
  children : List FilterTree := []
  junction : Junction := .and
  negated : Bool := false

namespace FilterTree

def isGroup : FilterTree → Bool
  | .leaf _ => false
  | .group _ _ _ => true

/-- The content of a tree that is a group. -/
def group? : FilterTree → Option FilterGroup
  | .leaf _ => none
  | .group junction negated children => some ⟨children, junction, negated⟩

/-- The filter of a tree that is a single one. -/
def filter? : FilterTree → Option Filter
  | .leaf filter => some filter
  | .group _ _ _ => none

mutual

/-- Equality of trees is decided node by node. -/
def decEq : (a b : FilterTree) → Decidable (a = b)
  | .leaf f, .leaf g =>
    if h : f = g then isTrue (by rw [h]) else isFalse (by simpa using h)
  | .leaf _, .group _ _ _ => isFalse (by simp)
  | .group _ _ _, .leaf _ => isFalse (by simp)
  | .group j n cs, .group k m ds =>
    match decEqAll cs ds with
    | isTrue hcs =>
      if h : j = k ∧ n = m then isTrue (by rw [h.1, h.2, hcs])
      else isFalse (by simp only [group.injEq]; exact fun g => h ⟨g.1, g.2.1⟩)
    | isFalse hcs => isFalse (by simp only [group.injEq]; exact fun g => hcs g.2.2)

/-- Equality of lists of trees. -/
def decEqAll : (as bs : List FilterTree) → Decidable (as = bs)
  | [], [] => isTrue rfl
  | [], _ :: _ => isFalse (by simp)
  | _ :: _, [] => isFalse (by simp)
  | a :: as, b :: bs =>
    match decEq a b, decEqAll as bs with
    | isTrue ha, isTrue has => isTrue (by rw [ha, has])
    | isFalse ha, _ => isFalse (by simp only [List.cons.injEq]; exact fun g => ha g.1)
    | _, isFalse has => isFalse (by simp only [List.cons.injEq]; exact fun g => has g.2)

end

instance : DecidableEq FilterTree := decEq

/-- The opposite of a tree.  A negated group becomes a plain one and back; a filter
is put into a negated group of its own. -/
def negate : FilterTree → FilterTree
  | .leaf filter => .group .and true [.leaf filter]
  | .group junction negated children => .group junction (!negated) children

end FilterTree

deriving instance DecidableEq for FilterGroup

namespace FilterGroup

/-- The group as a tree. -/
def toTree (g : FilterGroup) : FilterTree :=
  .group g.junction g.negated g.children

/-- One more child.  The first child decides how the group joins. -/
def push (g : FilterGroup) (junction : Junction) (tree : FilterTree) : FilterGroup :=
  { g with
    junction := if g.children.isEmpty then junction else g.junction
    children := g.children ++ [tree] }

def and (g : FilterGroup) (tree : FilterTree) : FilterGroup :=
  g.push .and tree

def or (g : FilterGroup) (tree : FilterTree) : FilterGroup :=
  g.push .or tree

/-- The group, negated; that it was negated before makes no difference. -/
def not (g : FilterGroup) : FilterGroup :=
  { g with negated := true }

/-- One more child, whatever joins them. -/
def append (g : FilterGroup) (tree : FilterTree) : FilterGroup :=
  { g with children := g.children ++ [tree] }

end FilterGroup

end MetricQuery
