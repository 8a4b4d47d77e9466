import MetricQuery.ParseError
import MetricQuery.Text.Literal
import MetricQuery.Text.Span

/-!
# Reading from a place in a text

A cursor is a place in a text: what is still to be read and how many bytes have
been read.  A `Reader` reads something at a cursor and says where it stopped, or
fails.

* `past` moves a cursor behind text that was read;
* `takeWhile`, `skipBlank`, `eat?` and `keyword?` read characters and cannot fail;
* `expect`, `quoted` and `commaList` are the readers shared by all parts of the
  grammar.
-/

namespace MetricQuery.Grammar

open Text

/-- A place in a text. -/
structure Cursor where
  /-- What is still to be read. -/
  rest : List Char
  /-- The bytes in front of it. -/
  offset : Nat
  deriving DecidableEq, Repr

/-- Why reading stops.  A malformed text is refused at a byte position; nesting is
refused without one. -/
inductive Failure where
  | malformed (cause : Malformed) (offset : Nat)
  | tooDeep
  deriving DecidableEq, Repr

/-- Reads a value at a cursor and says where it stopped. -/
abbrev Reader (α : Type) := Cursor → Except Failure (α × Cursor)

namespace Cursor

/-- The start of a text. -/
def ofText (text : List Char) : Cursor :=
  ⟨text, 0⟩

/-- The place behind `taken`, where `rest` is still to be read. -/
def past (c : Cursor) (taken rest : List Char) : Cursor :=
  ⟨rest, c.offset + utf8Length taken⟩

/-- The next character. -/
def peek? (c : Cursor) : Option Char :=
  c.rest.head?

/-- The longest run of characters with a property, and the place behind it. -/
def takeWhile (p : Char → Bool) (c : Cursor) : List Char × Cursor :=
  (c.rest.takeWhile p, c.past (c.rest.takeWhile p) (c.rest.dropWhile p))

/-- The place behind the blanks. -/
def skipBlank (c : Cursor) : Cursor :=
  (c.takeWhile isBlank).2

/-- The place behind a character, if it comes next. -/
def eat? (ch : Char) (c : Cursor) : Option Cursor :=
  match c.rest with
  | [] => none
  | d :: rest => if d = ch then some (c.past [d] rest) else none

/-- The place behind a keyword in any case, if it comes next and stands alone: a
blank or an opening parenthesis or brace follows. -/
def keyword? (word : String) (c : Cursor) : Option Cursor :=
  let head := c.rest.take word.toList.length
  let tail := c.rest.drop word.toList.length
  if sameLetters head word.toList then
    match tail with
    | [] => none
    | d :: _ => if isBlank d || d = '(' || d = '{' then some (c.past head tail) else none
  else none

/-- Fails at this place. -/
def fail {α : Type} (c : Cursor) (cause : Malformed) : Except Failure α :=
  .error (.malformed cause c.offset)

/-- Fails because something else is wanted here. -/
def expected {α : Type} (c : Cursor) (wanted : Expectation) : Except Failure α :=
  c.fail (.unexpected wanted c.peek?)

end Cursor

/-- The place behind a character that has to come next. -/
def expect (ch : Char) (c : Cursor) : Except Failure Cursor :=
  match c.eat? ch with
  | some c => .ok c
  | none => c.expected (.char ch)

/-- A string literal with its quotation marks. -/
def quoted : Reader (List Char) := fun c =>
  match literal? c.rest with
  | some (text, rest) => .ok (text, c.past text rest)
  | none => c.fail .unterminatedString

/-- What follows an item of a list: further items, each behind a comma, and the closing
character.  A comma takes a character, so as many rounds suffice as characters are
left. -/
def moreItems {α : Type} (item : Reader α) (close : Char) : Nat → Reader (List α)
  | 0, c => do
    let c ← expect close c.skipBlank
    return ([], c)
  | rounds + 1, c =>
    match c.skipBlank.eat? ',' with
    | none => do
      let c ← expect close c.skipBlank
      return ([], c)
    | some c => do
      let (x, c) ← item c.skipBlank
      let (xs, c) ← moreItems item close rounds c
      return (x :: xs, c)

/-- One item or more, separated by commas and closed by a character. -/
def commaList {α : Type} (item : Reader α) (close : Char) : Reader (List α) := fun c => do
  let (x, c) ← item c.skipBlank
  let (xs, c) ← moreItems item close c.rest.length c
  return (x :: xs, c)

end MetricQuery.Grammar
