import MetricQuery.Text.Blank

/-!
# Word classes

The characters that names, keys and values are made of.  All classes but
`isValueChar` are ASCII classes: names and keys hold no other letters or digits.
-/

namespace MetricQuery.Text

/-- A quotation mark opens a string literal. -/
def isQuote (c : Char) : Bool :=
  c = '\'' || c = '"'

/-- A word starts with an ASCII letter or an underscore. -/
def isWordStart (c : Char) : Bool :=
  c.isAlpha || c = '_'

/-- A word goes on with ASCII letters, digits and underscores. -/
def isWordChar (c : Char) : Bool :=
  c.isAlphanum || c = '_'

/-- Aggregators, functions and bare arguments are identifiers. -/
def isIdentifier : List Char → Bool
  | [] => false
  | c :: rest => isWordStart c && rest.all isWordChar

/-- A metric name is made of words joined by dots. -/
def isMetricChar (c : Char) : Bool :=
  isWordChar c || c = '.'

/-- The characters of a filter key. -/
def isKeyChar (c : Char) : Bool :=
  c.isAlphanum || c = '_' || c = '-' || c = '.' || c = '/' || c = '@'

/-- The characters of a filter value that is written without quotation marks. -/
def isValueChar (c : Char) : Bool :=
  !isBlank c && !(c = ',' || c = '(' || c = ')' || c = '{' || c = '}')

/-- The characters of a group-by tag. -/
def isTagChar (c : Char) : Bool :=
  !isBlank c && !(c = ',' || c = '}')

/-- Do two texts agree up to the case of ASCII letters? -/
def sameLetters (a b : List Char) : Bool :=
  a.map Char.toUpper == b.map Char.toUpper

end MetricQuery.Text
