/-!
# Filter operations

The five comparisons that a filter can make: with one value, with a pattern, or with
a list of values.
-/

namespace MetricQuery

/-- The comparison that a filter makes. -/
inductive Filter.Operation where
  | equal
  | notEqual
  | regex
  | oneOf
  | noneOf
  deriving DecidableEq, Repr

namespace Filter.Operation

/-- Does the operation compare with a list of values? -/
def isList : Operation → Bool
  | .oneOf => true
  | .noneOf => true
  | _ => false

/-- The operation in words. -/
def words : Operation → String
  | .equal => "equal"
  | .notEqual => "not equal"
  | .regex => "regex"
  | .oneOf => "in"
  | .noneOf => "not in"

end Filter.Operation

end MetricQuery
