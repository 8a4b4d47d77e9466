import MetricQuery.Grammar.Expr
import MetricQuery.Query.OfTerm

/-!
# Queries read from a text

A text that is one metric query becomes a `Query`.  Any larger expression is kept as
text; filters can be added to it, and they end up in the filter block of every metric
query in it, all other text being left alone.

* `ExpressionQuery.render` writes an expression with its added filters;
* `parseQuery` reads a text, and `ParsedQuery.filter` adds a filter to either form.
-/

namespace MetricQuery

/-- An expression kept as text. -/
structure ExpressionQuery where
  /-- The text, in which no filter has been added. -/
  text : String
  added : List FilterTree := []
  /-- The limits that the text was read under. -/
  limits : Limits := {}
  deriving DecidableEq

namespace ExpressionQuery

def filter (q : ExpressionQuery) (tree : FilterTree) : ExpressionQuery :=
  { q with added := q.added ++ [tree] }

/-- The new filter blocks of metric terms and the spans they go to.  The context of
an error has the index of the term, counted from `index`. -/
def blocks (added : List FilterTree) (index : Nat) :
    List MetricTerm → Except QueryError (List (Span × String))
  | [] => return []
  | term :: rest => do
    let filters ← term.filters
    let block ← inContext (.filtersOfTerm index) (renderBlock (filters ++ added))
    let others ← blocks added (index + 1) rest
    return (term.blockSpan, block) :: others

/-- The edits in the order in which they are made: the one furthest behind in the text
first, so that the spans in front of it still fit. -/
def backToFront (edits : List (Span × String)) : List (Span × String) :=
  edits.mergeSort fun a b => b.1.start ≤ a.1.start

/-- The text with the block of each edit over its span. -/
def splice (text : List Char) (edits : List (Span × String)) : List Char :=
  (backToFront edits).foldl (fun text edit => edit.1.replace edit.2.toList text) text

/-- The written expression. -/
def render (q : ExpressionQuery) (engine : PatternEngine := .basic) : Except QueryError String :=
  if q.added.isEmpty then return q.text
  else
    match parse q.text q.limits engine with
    | .error error => .error (.grammar error)
    | .ok expr => do
      let blocks ← blocks q.added 0 expr.metricTerms
      return String.ofList (splice q.text.toList blocks)

end ExpressionQuery

/-- What a text is read as. -/
inductive ParsedQuery where
  | metric (query : Query)
  | expression (query : ExpressionQuery)
  deriving DecidableEq

namespace ParsedQuery

/-- One more filter, for every metric query of an expression. -/
def filter (q : ParsedQuery) (tree : FilterTree) : ParsedQuery :=
  match q with
  | .metric query => .metric (query.filter tree)
  | .expression query => .expression (query.filter tree)

/-- The query, if the text was nothing more. -/
def metric? : ParsedQuery → Option Query
  | .metric query => some query
  | .expression _ => none

def isExpression : ParsedQuery → Bool
  | .metric _ => false
  | .expression _ => true

def render (q : ParsedQuery) (engine : PatternEngine := .basic) : Except QueryError String :=
  match q with
  | .metric query => query.render
  | .expression query => query.render engine

end ParsedQuery

/-- The query that a text spells under some limits. -/
def parseQuery (text : String) (limits : Limits := {}) (engine : PatternEngine := .basic) :
    Except QueryError ParsedQuery :=
  match parse text limits engine with
  | .error error => .error (.grammar error)
  | .ok expr =>
    match expr.metricTerm? with
    | some term => do
      let query ← Query.ofTerm term
      return .metric query
    | none => .ok (.expression { text, limits })

end MetricQuery
