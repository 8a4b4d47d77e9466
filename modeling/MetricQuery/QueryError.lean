import MetricQuery.Expr
import MetricQuery.Filter.Operation
import MetricQuery.ParseError
import MetricQuery.Text.Shown

/-!
# Errors of queries

A query cannot be written because a part of it has a defect, a text cannot be read
as a query because of its grammar or of its filter block, and a saved form cannot
be restored.  On its way out an error collects contexts, the outermost one first
in the message.
-/

namespace MetricQuery

/-- What keeps a part of a query from being written. -/
inductive Defect where
  | noMetric
  | noFilterKey
  | noOperation (key : String)
  | noValues (operation : Filter.Operation) (key : String)
  | valueCount (operation : Filter.Operation) (key : String) (count : Nat)
  | keyCharacters (key : String)
  | emptyValue (operation : Filter.Operation) (key : String)
  | emptyGroup
  | noFunctionName
  /-- A defect in the caller's own words. -/
  | other (message : String)
  deriving DecidableEq, Repr

namespace Defect

def message : Defect → String
  | .noMetric => "metric name is required"
  | .noFilterKey => "filter key is required"
  | .noOperation key => s!"filter '{key}' has no operation set"
  | .noValues operation key =>
    s!"{operation.words} filter '{key}' requires at least one value"
  | .valueCount operation key count =>
    s!"{operation.words} filter '{key}' requires exactly one value, got {count}"
  | .keyCharacters key =>
    s!"filter key '{key}' may only contain letters, digits and '_-./@'"
  | .emptyValue operation key => s!"{operation.words} filter '{key}' has an empty value"
  | .emptyGroup => "filter group must have at least one child"
  | .noFunctionName => "function name is required"
  | .other message => message

end Defect

/-- The name of a comparator in messages. -/
def Comparator.name : Comparator → String
  | .colon => "Colon"
  | .notColon => "NotColon"
  | .regex => "Regex"
  | .oneOf => "In"
  | .noneOf => "NotIn"

/-- A compared value in messages: its form, and the texts with escapes. -/
def Comparand.shown : Comparand → String
  | .single value => "Single(" ++ Text.shown value ++ ")"
  | .list values => "List([" ++ ", ".intercalate (values.map Text.shown) ++ "])"

/-- What is wrong with the items of a filter block. -/
inductive BlockFault where
  | emptyKey
  | noValue (key : String)
  | noValues (key : String)
  | unsupportedValue (key : String) (comparator : Comparator) (comparand : Comparand)
  | emptyGroup
  | unseparated
  | noRightOperand (separator : Separator)
  | noLeftOperand (separator : Separator)
  | misplacedNot
  /-- A fault in the caller's own words. -/
  | other (message : String)
  deriving DecidableEq, Repr

namespace BlockFault

def message : BlockFault → String
  | .emptyKey => "filter key is empty"
  | .noValue key => s!"filter '{key}' has no value"
  | .noValues key => s!"list filter '{key}' has no values"
  | .unsupportedValue key comparator comparand =>
    s!"filter '{key}' pairs {comparator.name} with unsupported value {comparand.shown}"
  | .emptyGroup => "grouped filter is empty"
  | .unseparated => "filters must be separated by ',', AND or OR"
  | .noRightOperand sep => s!"separator '{sep.word}' is not followed by a filter"
  | .noLeftOperand sep => s!"separator '{sep.word}' has no left operand"
  | .misplacedNot => "NOT must start the filter list or follow ','"
  | .other message => message

end BlockFault

/-- Where an error happened. -/
inductive Context where
  | filters
  | filter (index : Nat)
  | child (index : Nat)
  | function (index : Nat)
  | filtersOfTerm (index : Nat)
  | blockOf (metric : String)
  | grouped
  /-- A context in the caller's own words. -/
  | other (message : String)
  deriving DecidableEq, Repr

namespace Context

def message : Context → String
  | .filters => "failed to build filters"
  | .filter index => s!"failed to build filter {index}"
  | .child index => s!"failed to build child {index} of filter group"
  | .function index => s!"failed to build function {index}"
  | .filtersOfTerm index => s!"failed to build filters of metric query {index}"
  | .blockOf metric => s!"failed to ingest filters of '{metric}'"
  | .grouped => "failed to ingest grouped filter"
  | .other message => message

end Context

/-- Why an operation on queries fails. -/
inductive QueryError where
  | invalid (defect : Defect)
  | block (fault : BlockFault)
  | grammar (error : ParseError)
  | saved (message : String)
  | within (context : Context) (error : QueryError)
  deriving DecidableEq, Repr

namespace QueryError

/-- The three kinds of errors. -/
inductive Kind where
  | validation
  | parse
  | serialization
  deriving DecidableEq, Repr

/-- The kind of an error is that of its cause, whatever contexts it has collected. -/
def kind : QueryError → Kind
  | .invalid _ => .validation
  | .block _ => .parse
  | .grammar _ => .parse
  | .saved _ => .serialization
  | .within _ error => error.kind

def message : QueryError → String
  | .invalid defect => s!"validation error: {defect.message}"
  | .block fault => s!"parse error: {fault.message}"
  | .grammar error => s!"parse error: {error.message}"
  | .saved message => s!"serialization error: {message}"
  | .within context error => s!"{context.message}: {error.message}"

/-- How many causes stand behind an error: one for every context, and one for an
error of the grammar. -/
def causes : QueryError → Nat
  | .within _ error => error.causes + 1
  | .grammar _ => 1
  | _ => 0

end QueryError

/-- The same result, with a context added to its error. -/
def inContext {α : Type} (context : Context) : Except QueryError α → Except QueryError α
  | .ok a => .ok a
  | .error error => .error (.within context error)

end MetricQuery
