/-!
# Errors of the query grammar

A text is refused because it is malformed at some place, too long, nested too
deeply, or because the limits it is read under make no sense.  Each cause is a
value; `ParseError.message` gives it words.
-/

namespace MetricQuery

/-- What the grammar wants to read at a place. -/
inductive Expectation where
  | endOfText
  | term
  | filterBlock (metric : String)
  | metricName
  | functionName
  | groupTag
  | functionArgument
  | filterKey
  | filterValue
  | inAfterNot
  | comparator (key : String)
  | separator (close : Char)
  | char (c : Char)
  deriving DecidableEq, Repr

namespace Expectation

def message : Expectation → String
  | .endOfText => "unexpected trailing input"
  | .term => "expected a metric query, number or function call"
  | .filterBlock metric => s!"expected '\x7b' after metric name '{metric}'"
  | .metricName => "expected metric name"
  | .functionName => "expected function name after '.'"
  | .groupTag => "expected group-by tag"
  | .functionArgument => "empty function argument"
  | .filterKey => "expected filter key"
  | .filterValue => "expected filter value"
  | .inAfterNot => "expected IN after NOT"
  | .comparator key => s!"expected ':', '!:', ':~', IN or NOT IN after key '{key}'"
  | .separator close => s!"expected ',', AND, OR or '{close}'"
  | .char c => s!"expected '{c}'"

end Expectation

/-- Why a text is malformed. -/
inductive Malformed where
  /-- Something else is wanted than the character found, or than the end. -/
  | unexpected (wanted : Expectation) (found : Option Char)
  | aggregator (word : String)
  | functionName (word : String)
  | timeWindow (window : String)
  | unterminatedString
  | unclosedCall
  /-- A cause in the caller's own words. -/
  | other (message : String)
  deriving DecidableEq, Repr

namespace Malformed

def message : Malformed → String
  | .unexpected wanted (some c) => s!"{wanted.message}, found '{c}'"
  | .unexpected wanted none => s!"{wanted.message}, found end of input"
  | .aggregator word => s!"invalid aggregator '{word}'"
  | .functionName word => s!"invalid function name '{word}'"
  | .timeWindow window => s!"invalid time window '{window}'"
  | .unterminatedString => "unterminated string literal"
  | .unclosedCall => "unclosed function call"
  | .other message => message

end Malformed

/-- Why limits cannot be used. -/
inductive BadLimits where
  | zeroLength
  | zeroDepth
  | windowPattern
  deriving DecidableEq, Repr

namespace BadLimits

def message : BadLimits → String
  | .zeroLength => "max_query_len must be greater than zero"
  | .zeroDepth => "max_depth must be greater than zero"
  | .windowPattern => "time_window_pattern"

end BadLimits

/-- Why a text is not read. -/
inductive ParseError where
  /-- The text is malformed at a byte position. -/
  | malformed (cause : Malformed) (offset : Nat)
  | tooLong (length limit : Nat)
  | tooDeep (limit : Nat)
  | badLimits (cause : BadLimits)
  deriving DecidableEq, Repr

namespace ParseError

def message : ParseError → String
  | .malformed cause offset => s!"syntax error at offset {offset}: {cause.message}"
  | .tooLong length limit => s!"query too long: {length} bytes (max: {limit})"
  | .tooDeep limit => s!"query nests deeper than {limit} levels"
  | .badLimits cause => s!"invalid configuration: {cause.message}"

/-- The byte position of a malformed text. -/
def offset? : ParseError → Option Nat
  | .malformed _ offset => some offset
  | _ => none

end ParseError

end MetricQuery
