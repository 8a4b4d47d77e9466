/-!
# Window patterns

A pattern says which texts may stand as a time window in `agg(window):metric`.  What
patterns mean is not a matter of the query grammar: they belong to a language of their own,
with an engine that compiles them and searches with them.  The grammar takes the engine as a
parameter, and asks only whether a text is a pattern and whether it occurs in a window.
-/

namespace MetricQuery

/-- A compiled pattern. -/
structure WindowPattern where
  /-- Does the pattern match somewhere in the text? -/
  occursIn : List Char → Bool

/-- An engine for patterns. -/
structure PatternEngine where
  /-- The pattern that a text spells; `none` if it spells none. -/
  compile? : String → Option WindowPattern

end MetricQuery
