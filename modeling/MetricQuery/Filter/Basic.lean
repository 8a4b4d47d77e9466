import MetricQuery.QueryError
import MetricQuery.Text.Literal

/-!
# Filters

A filter tests one key.  It is made without an operation; each operation set later
replaces the one before, values included.  Nothing is checked until the filter is
rendered.

* `Filter.new`, `equal`, `notEqual`, `regex`, `oneOf`, `noneOf` make filters;
* `Filter.emitted` is the written form of a value;
* `Filter.check` says what keeps a filter from being written, and `Filter.render`
  writes it.
-/

namespace MetricQuery

/-- A test of one key. -/
structure Filter where
  key : String
  operation : Option Filter.Operation := none
  values : List String := []
  deriving DecidableEq, Repr

namespace Filter

open Text

/-- A filter that has no operation yet. -/
def new (key : String) : Filter :=
  { key }

def equal (f : Filter) (value : String) : Filter :=
  { f with operation := some .equal, values := [value] }

def notEqual (f : Filter) (value : String) : Filter :=
  { f with operation := some .notEqual, values := [value] }

def regex (f : Filter) (pattern : String) : Filter :=
  { f with operation := some .regex, values := [pattern] }

def oneOf (f : Filter) (values : List String) : Filter :=
  { f with operation := some .oneOf, values }

def noneOf (f : Filter) (values : List String) : Filter :=
  { f with operation := some .noneOf, values }

/-! ## Writing -/

/-- A value may be written without quotation marks: it does not start with one and
all its characters are value characters. -/
def isBare (value : List Char) : Bool :=
  !value.head?.any isQuote && value.all isValueChar

/-- A value as it is written: bare if it can be, unchanged if it is a string literal
already, and otherwise quoted. -/
def emitted (value : String) : String :=
  if isBare value.toList || isLiteral value.toList then value
  else String.ofList (quote value.toList)

/-- What keeps a filter with this operation from being written. -/
def defectWith? (f : Filter) (operation : Operation) : Option Defect :=
  if operation.isList && f.values.isEmpty then some (.noValues operation f.key)
  else if !operation.isList && f.values.length ≠ 1 then
    some (.valueCount operation f.key f.values.length)
  else if !f.key.toList.all isKeyChar then some (.keyCharacters f.key)
  else if f.values.any String.isEmpty then some (.emptyValue operation f.key)
  else none

/-- The operation of a filter that can be written, or what keeps it from that. -/
def check (f : Filter) : Except Defect Operation :=
  if f.key.isEmpty then .error .noFilterKey
  else
    match f.operation with
    | none => .error (.noOperation f.key)
    | some operation =>
      match f.defectWith? operation with
      | some defect => .error defect
      | none => .ok operation

/-- A comparison as it is written. -/
def write (key : String) (operation : Operation) (values : List String) : String :=
  let texts := values.map emitted
  match operation with
  | .equal => key ++ ":" ++ String.join texts
  | .notEqual => key ++ "!:" ++ String.join texts
  | .regex => key ++ ":~" ++ String.join texts
  | .oneOf => key ++ " IN (" ++ ",".intercalate texts ++ ")"
  | .noneOf => key ++ " NOT IN (" ++ ",".intercalate texts ++ ")"

/-- The written filter. -/
def render (f : Filter) : Except QueryError String :=
  match f.check with
  | .error defect => .error (.invalid defect)
  | .ok operation => .ok (write f.key operation f.values)

end Filter

end MetricQuery
