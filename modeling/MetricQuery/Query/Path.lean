import MetricQuery.Query.Basic

/-!
# Paths to groups

A group of a query is addressed by the child indices on the way to it, the first one
into the query's filters.  A path is a plain value; one that leads to no group is
simply not found.

* `FilterTree.groupAt?` follows a path and `appendAt?` adds a child at its end;
* `FilterTree.searchFrom` looks for the first group with a property, a group before its
  children and children in order; the test may have effects;
* `Query.groupAt?`, `addToGroup`, `findGroupM` and `findGroup?` are the same on the
  filters of a query.
-/

namespace MetricQuery

/-- The way to a group. -/
structure GroupPath where
  indices : List Nat
  deriving DecidableEq, Repr

namespace GroupPath

def depth (path : GroupPath) : Nat :=
  path.indices.length

/-- The path as it is shown: each index behind a slash, and one slash for no index. -/
def shown (path : GroupPath) : String :=
  "/" ++ "/".intercalate (path.indices.map toString)

end GroupPath

namespace FilterTree

/-- The group that a path leads to. -/
def groupAt? : List Nat → List FilterTree → Option FilterGroup
  | [], _ => none
  | [i], trees => trees[i]?.bind group?
  | i :: j :: path, trees =>
    match trees[i]? with
    | some (.group _ _ children) => groupAt? (j :: path) children
    | _ => none

/-- The same trees with one more child in the group that a path leads to. -/
def appendAt? (tree : FilterTree) : List Nat → List FilterTree → Option (List FilterTree)
  | [], _ => none
  | [i], trees =>
    match trees[i]? with
    | some (.group junction negated children) =>
      some (trees.set i (.group junction negated (children ++ [tree])))
    | _ => none
  | i :: j :: path, trees =>
    match trees[i]? with
    | some (.group junction negated children) =>
      (appendAt? tree (j :: path) children).map fun children =>
        trees.set i (.group junction negated children)
    | _ => none

section Search

variable {m : Type → Type} [Monad m]

mutual

/-- The path to the first group of a tree that passes the test.  The state is the way to the
group that the tree is a child of, and the index of the tree is on it while the tree is
searched. -/
def searchTree (test : FilterGroup → m Bool) (index : Nat) :
    FilterTree → StateT (List Nat) m (Option GroupPath)
  | .leaf _ => pure none
  | .group junction negated children => do
    modify fun way => way ++ [index]
    if ← test ⟨children, junction, negated⟩ then return some ⟨← get⟩
    else
      match ← searchFrom test 0 children with
      | some found => return some found
      | none =>
        modify List.dropLast
        return none

/-- The path to the first group of some trees that passes the test; the trees are the
children from `index` on. -/
def searchFrom (test : FilterGroup → m Bool) (index : Nat) :
    List FilterTree → StateT (List Nat) m (Option GroupPath)
  | [] => pure none
  | tree :: rest => do
    match ← searchTree test index tree with
    | some found => return some found
    | none => searchFrom test (index + 1) rest

end

end Search

end FilterTree

namespace Query

/-- The group that a path leads to, if it still leads to one. -/
def groupAt? (q : Query) (path : GroupPath) : Option FilterGroup :=
  FilterTree.groupAt? path.indices q.filterList

/-- One more tree in the group that a path leads to.  Without a path, or with one that
leads to no group, the tree becomes a filter of the query. -/
def addToGroup (q : Query) (path : Option GroupPath) (tree : FilterTree) : Query :=
  match path.bind fun path => FilterTree.appendAt? tree path.indices q.filterList with
  | some trees => { q with filterList := trees }
  | none => q.filter tree

/-- The path to the first group that passes a test with effects. -/
def findGroupM {m : Type → Type} [Monad m] (q : Query) (test : FilterGroup → m Bool) :
    m (Option GroupPath) :=
  (FilterTree.searchFrom test 0 q.filterList).run' []

/-- The path to the first group that passes a test. -/
def findGroup? (q : Query) (test : FilterGroup → Bool) : Option GroupPath :=
  Id.run (q.findGroupM fun group => pure (test group))

end Query

end MetricQuery
