/-!
# Sets of characters

The sets that the classes of a pattern denote: closed ranges of characters and what
can be made of them.

* `CharSet.contains` tests a character;
* `CharSet.named?` knows the sets of ASCII characters that have a name.
-/

namespace MetricQuery

/-- How two sets are put together. -/
inductive SetOperator where
  | union
  | intersection
  | difference
  | symmetricDifference
  deriving DecidableEq, Repr

/-- A set of characters. -/
inductive CharSet where
  /-- The characters in one of some closed ranges. -/
  | ranges (pairs : List (Char × Char))
  | complement (set : CharSet)
  | combination (operator : SetOperator) (left right : CharSet)
  deriving DecidableEq, Repr

/-- Is something in a combination that is, or is not, in either set? -/
def SetOperator.holds : SetOperator → Bool → Bool → Bool
  | .union, inLeft, inRight => inLeft || inRight
  | .intersection, inLeft, inRight => inLeft && inRight
  | .difference, inLeft, inRight => inLeft && !inRight
  | .symmetricDifference, inLeft, inRight => inLeft != inRight

namespace CharSet

def contains (c : Char) : CharSet → Bool
  | .ranges pairs => pairs.any fun pair => pair.1 ≤ c && c ≤ pair.2
  | .complement set => !set.contains c
  | .combination operator left right => operator.holds (left.contains c) (right.contains c)

/-- The set without members. -/
def empty : CharSet :=
  .ranges []

/-- The set of one character. -/
def single (c : Char) : CharSet :=
  .ranges [(c, c)]

/-- All characters but the line feed. -/
def dot : CharSet :=
  .complement (single '\n')

/-- The sets of ASCII characters that have a name. -/
def named : List (String × List (Char × Char)) :=
  [("alnum", [('0', '9'), ('A', 'Z'), ('a', 'z')]),
   ("alpha", [('A', 'Z'), ('a', 'z')]),
   ("ascii", [('\x00', '\x7f')]),
   ("blank", [('\t', '\t'), (' ', ' ')]),
   ("cntrl", [('\x00', '\x1f'), ('\x7f', '\x7f')]),
   ("digit", [('0', '9')]),
   ("graph", [('!', '~')]),
   ("lower", [('a', 'z')]),
   ("print", [(' ', '~')]),
   ("punct", [('!', '/'), (':', '@'), ('[', '\x60'), ('\x7b', '~')]),
   ("space", [('\t', '\r'), (' ', ' ')]),
   ("upper", [('A', 'Z')]),
   ("word", [('0', '9'), ('A', 'Z'), ('_', '_'), ('a', 'z')]),
   ("xdigit", [('0', '9'), ('A', 'F'), ('a', 'f')])]

/-- The set with a name. -/
def named? (name : String) : Option CharSet :=
  (named.lookup name).map .ranges

end CharSet

end MetricQuery
