import MetricQuery.FilterTree.Render
import MetricQuery.Query.FunctionCall

/-!
# Queries

A query asks for one metric.  It is put together by functions that return the
changed query; nothing is checked until it is rendered.

* `Query.withMetric`, `withAggregator`, `withWindow`, `filter`, `filters`, `groupBy`,
  `groupByTags`, `function` change one part;
* `Query.render` writes
  `[aggregator[(window)]:]metric{filters}[ by {tags}][.function(arguments)...]`.
-/

namespace MetricQuery

/-- A query for one metric. -/
structure Query where
  metric : String := ""
  aggregator : Option String := none
  /-- Written only together with an aggregator. -/
  window : Option String := none
  filterList : List FilterTree := []
  tags : List String := []
  functionList : List FunctionCall := []
  deriving DecidableEq

namespace Query

/-- A text, unless it is empty. -/
def nonEmpty? (text : String) : Option String :=
  if text.isEmpty then none else some text

def withMetric (q : Query) (name : String) : Query :=
  { q with metric := name }

/-- Another aggregator; the empty text takes it away. -/
def withAggregator (q : Query) (name : String) : Query :=
  { q with aggregator := nonEmpty? name }

/-- Another time window; the empty text takes it away. -/
def withWindow (q : Query) (window : String) : Query :=
  { q with window := nonEmpty? window }

def filter (q : Query) (tree : FilterTree) : Query :=
  { q with filterList := q.filterList ++ [tree] }

def filters (q : Query) (trees : List FilterTree) : Query :=
  { q with filterList := q.filterList ++ trees }

def groupBy (q : Query) (tag : String) : Query :=
  { q with tags := q.tags ++ [tag] }

def groupByTags (q : Query) (tags : List String) : Query :=
  { q with tags := q.tags ++ tags }

def function (q : Query) (call : FunctionCall) : Query :=
  { q with functionList := q.functionList ++ [call] }

/-! ## Writing -/

/-- What is written in front of the metric name. -/
def renderAggregator (q : Query) : String :=
  match q.aggregator.bind nonEmpty?, q.window.bind nonEmpty? with
  | none, _ => ""
  | some aggregator, none => aggregator ++ ":"
  | some aggregator, some window => aggregator ++ "(" ++ window ++ "):"

/-- The written group-by tags. -/
def renderTags (q : Query) : String :=
  if q.tags.isEmpty then "" else " by \x7b" ++ ", ".intercalate q.tags ++ "\x7d"

/-- The written calls.  The context of an error has the index of the call, counted
from `index`. -/
def renderCalls (index : Nat) : List FunctionCall → Except QueryError (List String)
  | [] => return []
  | call :: rest => do
    let part ← inContext (.function index) call.render
    let parts ← renderCalls (index + 1) rest
    return part :: parts

/-- The written query. -/
def render (q : Query) : Except QueryError String :=
  if q.metric.isEmpty then .error (.invalid .noMetric)
  else do
    let block ← inContext .filters (renderBlock q.filterList)
    let calls ← renderCalls 0 q.functionList
    return q.renderAggregator ++ q.metric ++ "\x7b" ++ block ++ "\x7d" ++ q.renderTags
      ++ String.join calls

end Query

end MetricQuery
