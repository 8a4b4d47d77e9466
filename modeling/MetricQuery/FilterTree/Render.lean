import MetricQuery.FilterTree.Basic

/-!
# Writing filter trees

A group of several children is written in parentheses, a group of one child as that
child; `NOT` stands in front of a negated group.  A block, the content of a query's
braces, lists plain filters with commas; as soon as it has a group it is written as
one AND group.

* `FilterTree.render`, `FilterGroup.render` write trees and groups;
* `renderBlock` writes a block.

An error names the way to the part that has a defect, one context a level.
-/

namespace MetricQuery

/-- The parts of a group as it is written. -/
def joinParts (junction : Junction) (negated : Bool) (parts : List String) : String :=
  let joined := s!" {junction.word} ".intercalate parts
  let body := if parts.length > 1 then "(" ++ joined ++ ")" else joined
  if negated then "NOT " ++ body else body

namespace FilterTree

mutual

/-- The written tree. -/
def render : FilterTree → Except QueryError String
  | .leaf filter => filter.render
  | .group _ _ [] => .error (.invalid .emptyGroup)
  | .group junction negated (child :: children) => do
    let parts ← renderFrom .child 0 (child :: children)
    return joinParts junction negated parts

/-- The written trees of a list.  The context of an error has the index of the tree,
counted from `index`. -/
def renderFrom (context : Nat → Context) (index : Nat) :
    List FilterTree → Except QueryError (List String)
  | [] => return []
  | tree :: rest => do
    let part ← inContext (context index) tree.render
    let parts ← renderFrom context (index + 1) rest
    return part :: parts

end

end FilterTree

/-- The written group. -/
def FilterGroup.render (g : FilterGroup) : Except QueryError String :=
  g.toTree.render

/-- The written filter block of a query. -/
def renderBlock (trees : List FilterTree) : Except QueryError String :=
  if trees.isEmpty then return "*"
  else if trees.any FilterTree.isGroup then (FilterTree.group .and false trees).render
  else do
    let parts ← FilterTree.renderFrom .filter 0 trees
    return ", ".intercalate parts

end MetricQuery
