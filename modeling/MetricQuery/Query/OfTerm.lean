import MetricQuery.FilterTree.OfBlock
import MetricQuery.Query.Basic

/-!
# Queries from metric terms

A metric query that was read from a text becomes an editable one: its filter block
turns into trees, all else is taken over.
-/

namespace MetricQuery

/-- The trees that the block of a metric term stands for. -/
def MetricTerm.filters (term : MetricTerm) : Except QueryError (List FilterTree) :=
  inContext (.blockOf term.metric) (FilterTree.ofBlock term.block)

/-- The editable form of a metric term. -/
def Query.ofTerm (term : MetricTerm) : Except QueryError Query := do
  let filterList ← term.filters
  return {
    metric := term.metric
    aggregator := term.aggregator.bind Query.nonEmpty?
    window := term.window.bind Query.nonEmpty?
    filterList
    tags := term.groupBy
    functionList := term.functions }

end MetricQuery
