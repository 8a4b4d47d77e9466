import MetricQuery.Text.Span

/-!
# Query expressions

The tree that a query text is read into.  A filter block stays a flat list of
items in the order of the text, operands and separators alternating as written;
only a list in parentheses is nested.  Every node but a block item of another kind
than a condition knows the span it was read from.
-/

namespace MetricQuery

/-- What stands between two operands of a filter block, or in front of one. -/
inductive Separator where
  | comma
  | and
  | or
  /-- A `NOT` of its own, at the start of a block or behind another separator. -/
  | not
  | andNot
  | orNot
  deriving DecidableEq, Repr

namespace Separator

/-- The separator as it is written. -/
def word : Separator → String
  | .comma => ","
  | .and => "AND"
  | .or => "OR"
  | .not => "NOT"
  | .andNot => "AND NOT"
  | .orNot => "OR NOT"

end Separator

/-- How a condition compares the value of its key. -/
inductive Comparator where
  /-- As in `key:value`. -/
  | colon
  /-- As in `key!:value`. -/
  | notColon
  /-- As in `key:~pattern`. -/
  | regex
  /-- As in `key IN (a, b)`. -/
  | oneOf
  /-- As in `key NOT IN (a, b)`. -/
  | noneOf
  deriving DecidableEq, Repr

/-- What a condition compares with.  A quoted value keeps its quotation marks. -/
inductive Comparand where
  | single (value : String)
  | list (values : List String)
  deriving DecidableEq, Repr

/-- A test of one key, as written. -/
structure Condition where
  /-- An exclamation mark stands in front, as in `!host:web-1`. -/
  negative : Bool
  key : String
  comparator : Comparator
  comparand : Comparand
  span : Span
  deriving DecidableEq, Repr

/-- One item of a filter block. -/
inductive BlockItem where
  /-- The item `*`, which filters nothing. -/
  | wildcard
  | condition (condition : Condition)
  /-- A list in parentheses. -/
  | grouped (items : List BlockItem)
  | separator (separator : Separator)

/-- A suffix `.name(arguments)`; each argument is the trimmed text. -/
structure FunctionCall where
  name : String
  arguments : List String
  deriving DecidableEq, Repr

/-- A metric query as written:
`[aggregator[(window)]:]metric{block}[ by {tags}][.function(arguments)...]`. -/
structure MetricTerm where
  aggregator : Option String
  window : Option String
  metric : String
  block : List BlockItem
  /-- What stands between the braces of the filter block. -/
  blockSpan : Span
  groupBy : List String
  functions : List FunctionCall
  span : Span

/-- The arithmetic operators. -/
inductive Operator where
  | add
  | sub
  | mul
  | div
  deriving DecidableEq, Repr

namespace Operator

def symbol : Operator → Char
  | .add => '+'
  | .sub => '-'
  | .mul => '*'
  | .div => '/'

/-- The operators that join the summands of an expression. -/
def additive? (c : Char) : Option Operator :=
  if c = '+' then some .add else if c = '-' then some .sub else none

/-- The operators that join the factors of a summand. -/
def multiplicative? (c : Char) : Option Operator :=
  if c = '*' then some .mul else if c = '/' then some .div else none

end Operator

/-- A query: one metric query, or an expression around any number of them. -/
inductive Expr where
  | metric (term : MetricTerm)
  | number (text : String) (span : Span)
  /-- A string literal with its quotation marks. -/
  | literal (text : String) (span : Span)
  /-- A bare word; only an argument of a call can be one. -/
  | word (name : String) (span : Span)
  | call (name : String) (arguments : List Expr) (span : Span)
  | binary (operator : Operator) (left right : Expr) (span : Span)
  | paren (inner : Expr) (span : Span)

namespace Expr

def span : Expr → Span
  | .metric term => term.span
  | .number _ span => span
  | .literal _ span => span
  | .word _ span => span
  | .call _ _ span => span
  | .binary _ _ _ span => span
  | .paren _ span => span

/-- The metric query that the expression is, if it is nothing more. -/
def metricTerm? : Expr → Option MetricTerm
  | .metric term => some term
  | _ => none

/-- Two operands joined; the span runs from the start of the left one to the end of
the right one. -/
def join (operator : Operator) (left right : Expr) : Expr :=
  .binary operator left right ⟨left.span.start, right.span.stop⟩

mutual

/-- All metric queries of an expression, in the order of the text. -/
def metricTerms : Expr → List MetricTerm
  | .metric term => [term]
  | .number _ _ => []
  | .literal _ _ => []
  | .word _ _ => []
  | .call _ arguments _ => metricTermsOfAll arguments
  | .binary _ left right _ => metricTerms left ++ metricTerms right
  | .paren inner _ => metricTerms inner

/-- All metric queries of some expressions, in order. -/
def metricTermsOfAll : List Expr → List MetricTerm
  | [] => []
  | expr :: rest => metricTerms expr ++ metricTermsOfAll rest

end

end Expr

end MetricQuery
