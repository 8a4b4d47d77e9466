import MetricQuery.Window.CharSet

/-!
# Regular expressions

Regular expressions over characters, with anchors at both ends of the text.

A search reads the text once.  While it does, the expression carries marks: a set of
characters is marked if the character just read can be matched by it.

* `Regex.step` moves the marks over one character;
* `Regex.found` says whether a match can end at a place;
* `Regex.occursIn` looks for the expression anywhere in a text.
-/

namespace MetricQuery

/-- A regular expression, with the marks of a search. -/
inductive Regex where
  /-- The empty text. -/
  | empty
  /-- One character of a set. -/
  | one (set : CharSet) (marked : Bool := false)
  /-- Nothing, at the start of the text. -/
  | atStart
  /-- Nothing, at the end of the text. -/
  | atEnd
  | seq (first second : Regex)
  | alt (left right : Regex)
  /-- Any number of repetitions. -/
  | many (body : Regex)
  /-- One repetition or more. -/
  | oneOrMore (body : Regex)
  deriving DecidableEq, Repr

namespace Regex

/-- What an anchor asks about a place between two characters. -/
structure Place where
  isStart : Bool
  isEnd : Bool
  deriving DecidableEq, Repr

/-- Does the pattern match the empty text at this place? -/
def matchesEmpty (place : Place) : Regex → Bool
  | .empty => true
  | .one _ _ => false
  | .atStart => place.isStart
  | .atEnd => place.isEnd
  | .seq first second => first.matchesEmpty place && second.matchesEmpty place
  | .alt left right => left.matchesEmpty place || right.matchesEmpty place
  | .many _ => true
  | .oneOrMore body => body.matchesEmpty place

/-- Can a match that has read the last character end at this place? -/
def endsAt (place : Place) : Regex → Bool
  | .empty => false
  | .one _ marked => marked
  | .atStart => false
  | .atEnd => false
  | .seq first second =>
    second.endsAt place || (first.endsAt place && second.matchesEmpty place)
  | .alt left right => left.endsAt place || right.endsAt place
  | .many body => body.endsAt place
  | .oneOrMore body => body.endsAt place

/-- The marks behind the character that follows a place.  A match of the whole pattern may
start at the place if `enter` says so. -/
def step (place : Place) (c : Char) (enter : Bool) : Regex → Regex
  | .empty => .empty
  | .one set _ => .one set (enter && set.contains c)
  | .atStart => .atStart
  | .atEnd => .atEnd
  | .seq first second =>
    .seq (first.step place c enter)
      (second.step place c (first.endsAt place || (enter && first.matchesEmpty place)))
  | .alt left right => .alt (left.step place c enter) (right.step place c enter)
  | .many body => .many (body.step place c (enter || body.endsAt place))
  | .oneOrMore body => .oneOrMore (body.step place c (enter || body.endsAt place))

/-- Can a match end at this place? -/
def found (place : Place) (pattern : Regex) : Bool :=
  pattern.matchesEmpty place || pattern.endsAt place

/-- Does a match end in what is left of a text?  Nothing has been read of it if
`isStart`. -/
def foundIn (pattern : Regex) (isStart : Bool) : List Char → Bool
  | [] => pattern.found ⟨isStart, true⟩
  | c :: rest =>
    pattern.found ⟨isStart, false⟩ ||
      foundIn (pattern.step ⟨isStart, false⟩ c true) false rest

/-- Does the pattern match somewhere in the text? -/
def occursIn (pattern : Regex) (text : List Char) : Bool :=
  pattern.foundIn true text

end Regex

end MetricQuery
