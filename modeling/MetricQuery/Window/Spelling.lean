import MetricQuery.Window.Pattern
import MetricQuery.Window.Regex

/-!
# The spelling of regular expressions

An engine for window patterns in a part of the usual language: there are no classes by a
letter (`\d`), no counted repetitions, no flags and no groups but plain ones, and a text with
one of these is no pattern here.

```text
pattern  := sequence ('|' sequence)*
sequence := (item (('*' | '+' | '?') ['?'])*)*
item     := '(' pattern ')' | '[' class ']' | '.' | '^' | '$' | character
class    := ['^'] ['-'+ | ']'] union (('&&' | '--' | '~~') union)*
union    := (character ['-' character] | '[' class ']' | '[:' ['^'] name ':]')*
```

A backslash makes the character behind it literal.  The question mark behind a sign of
repetition asks for short matches first, which makes no difference to whether there is
a match.

A spelling may nest only so deep.  `Nested` keeps the height of what has been read:
groups, repetitions and classes add a level, and so does everything that has two or
more parts.

* `CharSet.classBehind?` reads a class;
* `Regex.compile?` reads a pattern from its text;
* `PatternEngine.basic` is the engine.
-/

namespace MetricQuery

/-- What a spelling denotes, and how high the spelling nests. -/
structure Nested (α : Type) where
  value : α
  height : Nat
  deriving Repr

/-- The height of some parts together: a single one stands for itself. -/
def jointHeight : List Nat → Nat
  | [] => 0
  | [height] => height
  | heights => heights.foldl max 0 + 1

/-- A backslash may stand before these characters, which are then literal. -/
def isEscapable (c : Char) : Bool :=
  c.toNat < 0x80 && !c.isAlphanum && !(c = '<' || c = '>')

/-- The character behind a backslash. -/
def escapedChar? : List Char → Option (Char × List Char)
  | [] => none
  | c :: rest => if isEscapable c then some (c, rest) else none

/-! ## Classes -/

namespace CharSet

/-- One character of a class. -/
def member? : List Char → Option (Char × List Char)
  | [] => none
  | c :: rest => if c = '\\' then escapedChar? rest else some (c, rest)

/-- A character or a range of a class.  A hyphen in front of a closing bracket or of
another hyphen joins nothing. -/
def range? (text : List Char) : Option (CharSet × List Char) := do
  let (low, rest) ← member? text
  match rest with
  | '-' :: c :: tail =>
    if c = ']' || c = '-' then return (single low, rest)
    else
      let (high, rest) ← member? (c :: tail)
      if low ≤ high then return (.ranges [(low, high)], rest) else none
  | _ => return (single low, rest)

/-- Behind `[`: a set by its name, as in `[:name:]`. -/
def nameBehind? (text : List Char) : Option (CharSet × List Char) :=
  match text with
  | ':' :: rest =>
    let negated := rest.head? == some '^'
    let rest := if negated then rest.tail else rest
    match named? (String.ofList (rest.takeWhile (· ≠ ':'))), rest.dropWhile (· ≠ ':') with
    | some set, ':' :: ']' :: rest => some (if negated then .complement set else set, rest)
    | _, _ => none
  | _ => none

/-- The start of a class behind its bracket: is it negated, which characters are literal
because of their place, and what follows. -/
def opening (text : List Char) : Bool × List Char × List Char :=
  let negated := text.head? == some '^'
  let text := if negated then text.tail else text
  match text with
  | ']' :: rest => (negated, [']'], rest)
  | _ => (negated, text.takeWhile (· = '-'), text.dropWhile (· = '-'))

/-- The operator that two characters spell. -/
def operator? : List Char → Option (SetOperator × List Char)
  | '&' :: '&' :: rest => some (.intersection, rest)
  | '-' :: '-' :: rest => some (.difference, rest)
  | '~' :: '~' :: rest => some (.symmetricDifference, rest)
  | _ => none

/-- The union of the parts of a class. -/
def unionOf (parts : List (Nested CharSet)) : Nested CharSet :=
  ⟨parts.foldr (fun part set => .combination .union part.value set) empty,
    jointHeight (parts.map Nested.height)⟩

/-- A union with the operator and the set in front of it, if there are any. -/
def applied (left : Option (SetOperator × Nested CharSet)) (right : Nested CharSet) :
    Nested CharSet :=
  match left with
  | none => right
  | some (operator, left) =>
    ⟨.combination operator left.value right.value, max left.height right.height + 1⟩

/-- A class in its brackets. -/
def bracketed (negated : Bool) (set : Nested CharSet) : Nested CharSet :=
  ⟨if negated then .complement set.value else set.value, set.height + 1⟩

/-- The rest of a class up to its closing bracket.  Its last union has the given parts
so far, and `left` stands in front of it.  Every call takes a character. -/
def classRest? : Nat → Option (SetOperator × Nested CharSet) → List (Nested CharSet) →
    List Char → Option (Nested CharSet × List Char)
  | 0, _, _, _ => none
  | _ + 1, _, _, [] => none
  | fuel + 1, left, parts, c :: rest =>
    if c = ']' then some (applied left (unionOf parts), rest)
    else if c = '[' then
      match nameBehind? rest with
      | some (set, rest) => classRest? fuel left (⟨set, 0⟩ :: parts) rest
      | none => do
        let (negated, literals, rest) := opening rest
        let (inner, rest) ←
          classRest? fuel none (literals.map fun c => ⟨single c, 0⟩) rest
        classRest? fuel left (bracketed negated inner :: parts) rest
    else
      match operator? (c :: rest) with
      | some (operator, rest) =>
        classRest? fuel (some (operator, applied left (unionOf parts))) [] rest
      | none => do
        let (set, rest) ← range? (c :: rest)
        classRest? fuel left (⟨set, 0⟩ :: parts) rest

/-- Behind an opening bracket: a class and the rest. -/
def classBehind? (text : List Char) : Option (Nested CharSet × List Char) := do
  let (negated, literals, rest) := opening text
  let (inner, rest) ←
    classRest? (rest.length + 1) none (literals.map fun c => ⟨single c, 0⟩) rest
  return (bracketed negated inner, rest)

end CharSet

/-! ## Patterns -/

namespace Regex

/-- The parts of a sequence as one pattern. -/
def sequenceOf (parts : List (Nested Regex)) : Nested Regex :=
  ⟨parts.foldr (fun part pattern => .seq part.value pattern) .empty,
    jointHeight (parts.map Nested.height)⟩

/-- Alternatives as one pattern. -/
def alternationOf (first : Nested Regex) (others : List (Nested Regex)) : Nested Regex :=
  ⟨others.foldl (fun pattern other => .alt pattern other.value) first.value,
    jointHeight (first.height :: others.map Nested.height)⟩

/-- What a sign of repetition makes of a pattern. -/
def repeated? (sign : Char) (body : Regex) : Option Regex :=
  if sign = '*' then some (.many body)
  else if sign = '+' then some (.oneOrMore body)
  else if sign = '?' then some (.alt body .empty)
  else none

/-- The repetition signs behind a pattern; several of them nest. -/
def repetitions (body : Nested Regex) : List Char → Nested Regex × List Char
  | [] => (body, [])
  | sign :: rest =>
    match repeated? sign body.value with
    | none => (body, sign :: rest)
    | some pattern =>
      match rest with
      | [] => (⟨pattern, body.height + 1⟩, [])
      | c :: tail =>
        if c = '?' then repetitions ⟨pattern, body.height + 1⟩ tail
        else repetitions ⟨pattern, body.height + 1⟩ (c :: tail)

mutual

/-- Alternatives separated by bars. -/
def alternatives? : Nat → List Char → Option (List (Nested Regex) × List Char)
  | 0, _ => none
  | fuel + 1, text => do
    let (parts, rest) ← sequence? fuel text
    match rest with
    | '|' :: rest => do
      let (others, rest) ← alternatives? fuel rest
      return (sequenceOf parts :: others, rest)
    | _ => return ([sequenceOf parts], rest)

/-- Repeated items one after the other, up to a bar, a closing parenthesis or the end. -/
def sequence? : Nat → List Char → Option (List (Nested Regex) × List Char)
  | 0, _ => none
  | fuel + 1, text =>
    match text with
    | [] => some ([], [])
    | c :: rest =>
      if c = '|' || c = ')' then some ([], c :: rest)
      else do
        let (item, rest) ← item? fuel c rest
        let (item, rest) := repetitions item rest
        let (others, rest) ← sequence? fuel rest
        return (item :: others, rest)

/-- A group, a class, an anchor or a single character. -/
def item? : Nat → Char → List Char → Option (Nested Regex × List Char)
  | 0, _, _ => none
  | fuel + 1, c, rest =>
    if c = '(' then do
      let (parts, rest) ← alternatives? fuel rest
      match parts, rest with
      | first :: others, ')' :: rest =>
        let inner := alternationOf first others
        return (⟨inner.value, inner.height + 1⟩, rest)
      | _, _ => none
    else if c = '[' then
      (CharSet.classBehind? rest).map fun cut => (⟨.one cut.1.value, cut.1.height⟩, cut.2)
    else if c = '.' then some (⟨.one .dot, 0⟩, rest)
    else if c = '^' then some (⟨.atStart, 0⟩, rest)
    else if c = '$' then some (⟨.atEnd, 0⟩, rest)
    else if c = '*' || c = '+' || c = '?' || c = '{' then none
    else if c = '\\' then (escapedChar? rest).map fun cut => (⟨.one (.single cut.1), 0⟩, cut.2)
    else some (⟨.one (.single c), 0⟩, rest)

end

/-- How deep the spelling of a pattern may nest. -/
def spellingDepth : Nat := 250

/-- The pattern that a text spells; `none` if it spells none.  Every character of
the text costs the readers at most three calls. -/
def compile? (text : String) : Option Regex :=
  match alternatives? (3 * text.toList.length + 3) text.toList with
  | some (first :: others, []) =>
    let pattern := alternationOf first others
    if pattern.height ≤ spellingDepth then some pattern.value else none
  | _ => none

end Regex

/-- The engine for the patterns that are spelled so. -/
def PatternEngine.basic : PatternEngine where
  compile? text := (Regex.compile? text).map fun pattern => ⟨pattern.occursIn⟩

end MetricQuery
