import MetricQuery.FilterTree.Basic

/-!
# Filter trees from the items of a block

A filter block is read as a flat list of operands and separators.  Commas cut the
list into segments, and each segment becomes one tree: a single operand stands for
itself, several become a group.

| separator          | effect                                                   |
|--------------------|----------------------------------------------------------|
| `,`                | ends the segment                                         |
| `AND`, `OR`        | goes on with the segment; the last one joins all of it   |
| `AND NOT`, `OR NOT`| the same, and negates the next operand                   |
| `NOT`              | negates the next operand; a second one takes that back   |

* `Condition.toTree` turns one condition into a tree;
* `Ingest` is what has been read so far, with a step for operands and one for
  separators;
* `FilterTree.ofBlock` reads a whole list.
-/

namespace MetricQuery

/-- Does the comparator compare with a list? -/
def Comparator.takesList : Comparator → Bool
  | .oneOf => true
  | .noneOf => true
  | _ => false

namespace Condition

/-- The tree for a test of one value.  The exclamation mark turns a comparison into its
opposite; a pattern, which has none, is negated as a tree. -/
def ofSingle (key : String) (comparator : Comparator) (negative : Bool) (value : String) :
    FilterTree :=
  let filter := Filter.new key
  match comparator, negative with
  | .colon, false => .leaf (filter.equal value)
  | .colon, true => .leaf (filter.notEqual value)
  | .notColon, false => .leaf (filter.notEqual value)
  | .notColon, true => .leaf (filter.equal value)
  | _, false => .leaf (filter.regex value)
  | _, true => (FilterTree.leaf (filter.regex value)).negate

/-- The tree for a test against a list. -/
def ofList (key : String) (comparator : Comparator) (negative : Bool)
    (values : List String) : FilterTree :=
  if (comparator = .oneOf) != negative then .leaf ((Filter.new key).oneOf values)
  else .leaf ((Filter.new key).noneOf values)

/-- The tree for a condition. -/
def toTree (condition : Condition) : Except BlockFault FilterTree :=
  let key := condition.key
  let comparator := condition.comparator
  if key.isEmpty then .error .emptyKey
  else
    match condition.comparand, comparator.takesList with
    | .single value, false =>
      if value.isEmpty then .error (.noValue key)
      else .ok (ofSingle key comparator condition.negative value)
    | .list values, true =>
      if values.isEmpty then .error (.noValues key)
      else .ok (ofList key comparator condition.negative values)
    | comparand, _ => .error (.unsupportedValue key comparator comparand)

end Condition

/-- What has been read of a filter list. -/
structure Ingest where
  /-- The trees of the list, but for the group in progress. -/
  trees : List FilterTree := []
  /-- The group in progress: the segment that is being read, once a word has joined operands. -/
  openGroup : Option FilterGroup := none
  /-- The separator that waits for its right operand. -/
  pending : Option Separator := none
  /-- The next operand goes into the group in progress. -/
  joining : Bool := false
  /-- The next operand is to be negated. -/
  negating : Bool := false
  /-- An operand has been read. -/
  started : Bool := false

namespace Ingest

/-- One more tree, in the group in progress if that waits for it. -/
def add (s : Ingest) (tree : FilterTree) : Ingest :=
  match s.openGroup, s.joining with
  | some group, true => { s with openGroup := some (group.append tree) }
  | _, _ => { s with trees := s.trees ++ [tree] }

/-- Reads an operand. -/
def operand (s : Ingest) (tree : FilterTree) : Except BlockFault Ingest :=
  if s.started && s.pending.isNone then .error .unseparated
  else
    .ok { s.add (if s.negating then tree.negate else tree) with
      pending := none
      joining := false
      negating := false
      started := true }

/-- The group in progress, if there is one, becomes a tree of the list. -/
def close (s : Ingest) : Ingest :=
  match s.openGroup with
  | some group => { s with trees := s.trees ++ [group.toTree], openGroup := none }
  | none => s

/-- All separators but `NOT` need an operand to their left. -/
def requireLeft (s : Ingest) (sep : Separator) : Except BlockFault Unit :=
  if s.started then .ok () else .error (.noLeftOperand sep)

/-- Behind another separator only a `NOT` may stand. -/
def requireFree (s : Ingest) (sep : Separator) : Except BlockFault Unit :=
  match s.pending with
  | some previous => if sep = .not then .ok () else .error (.noRightOperand previous)
  | none => .ok ()

/-- Reads a `NOT` of its own. -/
def negation (s : Ingest) : Except BlockFault Ingest :=
  if s.started && s.pending.isNone then .error .misplacedNot
  else .ok { s with negating := !s.negating }

/-- Reads a separator that goes on with a segment.  The first one opens a group, with the last
tree of the list as its first child; the last one says how the group is joined. -/
def join (s : Ingest) (sep : Separator) (junction : Junction) (negating : Bool) :
    Except BlockFault Ingest := do
  s.requireLeft sep
  match s.openGroup with
  | some group =>
    return { s with openGroup := some { group with junction }, joining := true, negating }
  | none =>
    match s.trees.getLast? with
    | some previous =>
      return { s with
        trees := s.trees.dropLast
        openGroup := some { children := [previous], junction }
        joining := true
        negating }
    | none => .error (.noLeftOperand sep)

/-- What a separator does. -/
def effect (s : Ingest) : Separator → Except BlockFault Ingest
  | .comma => do
    s.requireLeft .comma
    return s.close
  | .not => s.negation
  | .and => s.join .and .and false
  | .andNot => s.join .andNot .and true
  | .or => s.join .or .or false
  | .orNot => s.join .orNot .or true

/-- Reads a separator. -/
def separator (s : Ingest) (sep : Separator) : Except BlockFault Ingest := do
  s.requireFree sep
  let s ← s.effect sep
  return { s with pending := some sep }

/-- The trees of a list that is read to its end. -/
def finish (s : Ingest) : Except BlockFault (List FilterTree) :=
  match s.pending with
  | some sep => .error (.noRightOperand sep)
  | none => .ok s.close.trees

end Ingest

/-- A step that fails because of a fault in the block. -/
def blockStep {α : Type} : Except BlockFault α → Except QueryError α
  | .ok a => .ok a
  | .error fault => .error (.block fault)

namespace FilterTree

/-- The tree for a list in parentheses: a single group stands for itself, anything
else becomes an AND group. -/
def ofGrouped : List FilterTree → Except BlockFault FilterTree
  | [] => .error .emptyGroup
  | [.group junction negated children] => .ok (.group junction negated children)
  | trees => .ok (.group .and false trees)

mutual

/-- Reads one item. -/
def readItem (s : Ingest) : BlockItem → Except QueryError Ingest
  | .wildcard => .ok s
  | .condition condition => blockStep do
    let tree ← condition.toTree
    s.operand tree
  | .grouped items => do
    let inner ← inContext .grouped do
      let inner ← readItems {} items
      blockStep inner.finish
    blockStep do
      let tree ← ofGrouped inner
      s.operand tree
  | .separator sep => blockStep (s.separator sep)

/-- Reads items one after the other. -/
def readItems (s : Ingest) : List BlockItem → Except QueryError Ingest
  | [] => .ok s
  | item :: rest => do
    let s ← readItem s item
    readItems s rest

end

/-- The trees that the items of a block stand for, one for each segment. -/
def ofBlock (items : List BlockItem) : Except QueryError (List FilterTree) := do
  let s ← readItems {} items
  blockStep s.finish

end FilterTree

end MetricQuery
