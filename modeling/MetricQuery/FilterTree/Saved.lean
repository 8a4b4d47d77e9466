import MetricQuery.FilterTree.Basic
import MetricQuery.Json.Reader
import MetricQuery.Json.Record

/-!
# Filters and trees in JSON

A filter is `{"key", "operation", "values"}` and a group
`{"children", "operator", "negated"}`.  In a tree either has a first member `kind` that
tells them apart.

Reading a tree takes two steps.  Its JSON value as a whole has to be sound, members
that are passed over included, and nest no deeper than there is room for.  Then it is
read node by node.  Below the root a kind may also be its number, and the name of an
operation may have an empty object beside it.
-/

namespace MetricQuery

/-- The deepest nesting of arrays and objects in a saved form. -/
def savedDepth : Nat := 127

/-! ## Names -/

namespace Filter.Operation

/-- The name of an operation in saved forms. -/
def savedName : Operation → String
  | .equal => "equal"
  | .notEqual => "not_equal"
  | .regex => "regex"
  | .oneOf => "in"
  | .noneOf => "not_in"

def toJson (operation : Operation) : Json :=
  .text operation.savedName

def ofSavedName? (name : String) : Option Operation :=
  if name = "equal" then some .equal
  else if name = "not_equal" then some .notEqual
  else if name = "regex" then some .regex
  else if name = "in" then some .oneOf
  else if name = "not_in" then some .noneOf
  else none

/-- `inTree` says that the operation is part of a tree. -/
def ofJson? (inTree : Bool) (j : Json) : Option Operation :=
  (j.toName? inTree).bind ofSavedName?

/-- An operation that may be null. -/
def ofJsonOrNull? (inTree : Bool) : Json → Option (Option Operation)
  | .null => some none
  | j => (ofJson? inTree j).map some

end Filter.Operation

namespace Junction

def toJson (junction : Junction) : Json :=
  .text junction.word

/-- `inTree` says that the word is part of a tree. -/
def ofJson? (inTree : Bool) (j : Json) : Option Junction :=
  match j.toName? inTree with
  | some name =>
    if name = "AND" then some .and else if name = "OR" then some .or else none
  | none => none

end Junction

/-! ## Filters -/

namespace Filter

/-- The members of a saved filter. -/
def members (f : Filter) : List (String × Json) :=
  [("key", .text f.key),
   ("operation", (f.operation.map Operation.toJson).getD .null),
   ("values", .texts f.values)]

def toJson (f : Filter) : Json :=
  .record f.members

/-- `inTree` says that the filter is part of a tree. -/
def ofJson? (inTree : Bool) (j : Json) : Option Filter :=
  match j.fields? ["key", "operation", "values"] with
  | some [key, operation, values] => do
    let key ← Json.required? Json.toText? key
    let operation ← Json.withDefault? none (Operation.ofJsonOrNull? inTree) operation
    let values ← Json.withDefault? [] (Json.toList? Json.toText?) values
    return { key, operation, values }
  | _ => none

end Filter

/-! ## Trees and groups -/

namespace FilterTree

mutual

def toJson : FilterTree → Json
  | .leaf filter => .record (("kind", .text "filter") :: filter.members)
  | .group junction negated children =>
    .record
      [("kind", .text "group"), ("children", .array (toJsonAll children)),
       ("operator", junction.toJson), ("negated", .bool negated)]

def toJsonAll : List FilterTree → List Json
  | [] => []
  | tree :: rest => toJson tree :: toJsonAll rest

end

/-- The two kinds of nodes. -/
inductive Kind where
  | filter
  | group
  deriving DecidableEq, Repr

namespace Kind

/-- A kind by its name or, below the root of a tree, by its number. -/
def ofJson? (below : Bool) : Json → Option Kind
  | .string (some name) =>
    if name = "filter" then some .filter
    else if name = "group" then some .group
    else none
  | .number n =>
    if !below then none
    else if n.toIndex? = some 0 then some .filter
    else if n.toIndex? = some 1 then some .group
    else none
  | _ => none

end Kind

/-- The kind of a node and the value that holds its other members.  In an array the kind
comes first; in an object it may stand anywhere, but once. -/
def kind? (below : Bool) : Json → Option (Kind × Json)
  | .object members => do
    let kind ← (← Json.field? members "kind").bind (Kind.ofJson? below)
    return (kind, .object members)
  | .array (kind :: items) => do
    let kind ← Kind.ofJson? below kind
    return (kind, .array items)
  | _ => none

/-- Reads a node and those below it, no more than `room` levels. -/
def node? : Nat → Bool → Json → Option FilterTree
  | 0, _, _ => none
  | room + 1, below, j => do
    match ← kind? below j with
    | (.filter, j) =>
      let filter ← Filter.ofJson? true j
      return .leaf filter
    | (.group, j) =>
      match j.fields? ["children", "operator", "negated"] with
      | some [children, operator, negated] => do
        let children ← Json.required? (Json.toList? (node? room true)) children
        let junction ← Json.withDefault? .and (Junction.ofJson? true) operator
        let negated ← Json.withDefault? false Json.toBool? negated
        return .group junction negated children
      | _ => none

/-- The tree of a saved form that may nest `room` deep. -/
def ofJson? (room : Nat) (j : Json) : Option FilterTree :=
  if j.isSound room then node? room false j else none

end FilterTree

namespace FilterGroup

def toJson (g : FilterGroup) : Json :=
  .record
    [("children", .array (FilterTree.toJsonAll g.children)),
     ("operator", g.junction.toJson), ("negated", .bool g.negated)]

/-- The children stand inside an object and an array. -/
def ofJson? (j : Json) : Option FilterGroup :=
  match j.fields? ["children", "operator", "negated"] with
  | some [children, operator, negated] => do
    let children ←
      Json.required? (Json.toList? (FilterTree.ofJson? (savedDepth - 2))) children
    let junction ← Json.withDefault? .and (Junction.ofJson? false) operator
    let negated ← Json.withDefault? false Json.toBool? negated
    return { children, junction, negated }
  | _ => none

end FilterGroup

end MetricQuery
