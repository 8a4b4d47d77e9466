import MetricQuery.FilterTree.Saved
import MetricQuery.Limits
import MetricQuery.Query.Path

/-!
# Queries in JSON

A query is saved as an object of its parts, all of them written and none of them
needed for reading.  Paths are arrays of indices, and limits objects like queries.

* `Query.save` and `Query.restore` write and read the text form.
-/

namespace MetricQuery

namespace FunctionCall

def toJson (call : FunctionCall) : Json :=
  .record [("name", .text call.name), ("args", .texts call.arguments)]

def ofJson? (j : Json) : Option FunctionCall :=
  match j.fields? ["name", "args"] with
  | some [name, arguments] => do
    let name ← Json.required? Json.toText? name
    let arguments ← Json.withDefault? [] (Json.toList? Json.toText?) arguments
    return { name, arguments }
  | _ => none

end FunctionCall

namespace GroupPath

def toJson (path : GroupPath) : Json :=
  .array (path.indices.map Json.nat)

def ofJson? (j : Json) : Option GroupPath :=
  (j.toList? Json.toIndex?).map fun indices => { indices }

end GroupPath

namespace Limits

def toJson (limits : Limits) : Json :=
  .record
    [("max_query_len", .nat limits.maxLength), ("max_depth", .nat limits.maxDepth),
     ("time_window_pattern", .text limits.windowPattern)]

def ofJson? (j : Json) : Option Limits :=
  match j.fields? ["max_query_len", "max_depth", "time_window_pattern"] with
  | some [maxLength, maxDepth, windowPattern] => do
    let unset : Limits := {}
    let maxLength ← Json.withDefault? unset.maxLength Json.toIndex? maxLength
    let maxDepth ← Json.withDefault? unset.maxDepth Json.toIndex? maxDepth
    let windowPattern ← Json.withDefault? unset.windowPattern Json.toText? windowPattern
    return { maxLength, maxDepth, windowPattern }
  | _ => none

end Limits

namespace Query

def toJson (q : Query) : Json :=
  .record
    [("metric", .text q.metric), ("aggregator", .optional q.aggregator),
     ("time_window", .optional q.window),
     ("filters", .array (FilterTree.toJsonAll q.filterList)),
     ("group_by", .texts q.tags),
     ("functions", .array (q.functionList.map FunctionCall.toJson))]

/-- The filters stand inside an object and an array. -/
def ofJson? (j : Json) : Option Query :=
  match j.fields?
    ["metric", "aggregator", "time_window", "filters", "group_by", "functions"] with
  | some [metric, aggregator, window, filters, tags, functions] => do
    let metric ← Json.withDefault? "" Json.toText? metric
    let aggregator ← Json.withDefault? none Json.toOptional? aggregator
    let window ← Json.withDefault? none Json.toOptional? window
    let filterList ←
      Json.withDefault? [] (Json.toList? (FilterTree.ofJson? (savedDepth - 2))) filters
    let tags ← Json.withDefault? [] (Json.toList? Json.toText?) tags
    let functionList ← Json.withDefault? [] (Json.toList? FunctionCall.ofJson?) functions
    return { metric, aggregator, window, filterList, tags, functionList }
  | _ => none

/-- The text form of a query. -/
def save (q : Query) : String :=
  q.toJson.render

/-- The query of a text form. -/
def restore (text : String) : Except QueryError Query :=
  match (Json.read? text).bind ofJson? with
  | some q => .ok q
  | none => .error (.saved "not the saved form of a query")

end Query

end MetricQuery
