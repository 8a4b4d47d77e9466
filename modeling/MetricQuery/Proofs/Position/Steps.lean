import MetricQuery.Grammar.Cursor
import MetricQuery.Window.Pattern

/-!
# Steps by byte positions

A second way to read a text, which never holds what is still to be read: it knows the text, a
byte position in it and how many levels are open, and cuts out of the text what it looks at.
Such a cut can miss, because its ends lie behind the text, the wrong way round or inside of a
character; so can a jump to another position, and a level can be left that was never entered.
Then the step is `stuck`, which no failure is.

* `Steps`: a step, from a place to a value and a new place.
* `sliceFrom`, `slice` and `seek`: the checked cuts and jumps; everything else is made of them.
* `peek`, `bump`, `eat`, `takeWhile`, `keyword`: the steps over characters.
* `level`: what is read inside of a level.
* `quoted`, `expect` and `commaList`: the steps shared by all parts of the grammar.
-/

namespace MetricQuery.Position

open Text Grammar

/-- Where a step starts and ends. -/
structure Place where
  /-- The bytes in front of it. -/
  position : Nat
  /-- The levels that are open. -/
  depth : Nat
  deriving DecidableEq, Repr

/-- What is read, and what limits the reading. -/
structure Source where
  text : List Char
  /-- How many levels may be open. -/
  maxDepth : Nat
  pattern : WindowPattern

/-- From a place, a value and a new place, or a failure; nothing if the step is stuck. -/
abbrev Steps := StateT Place (ExceptT Failure Option)

variable {α : Type}

def stuck : Steps α :=
  fun _ => none

/-- The value, if there is one. -/
def orStuck : Option α → Steps α
  | some a => pure a
  | none => stuck

def position : Steps Nat :=
  return (← get).position

def failAt (cause : Malformed) (offset : Nat) : Steps α :=
  throw (.malformed cause offset)

section

variable (src : Source)

/-! ## Cuts and jumps -/

/-- The text from a position on. -/
def sliceFrom (start : Nat) : Steps (List Char) :=
  orStuck ((splitAtByte? start src.text).map Prod.snd)

/-- The text between two positions. -/
def slice (start stop : Nat) : Steps (List Char) :=
  orStuck ((Span.mk start stop).slice? src.text)

/-- On to a position, or back to it. -/
def seek (target : Nat) : Steps Unit := do
  let _ ← sliceFrom src target
  modify fun place => { place with position := target }

/-- Further on, by so many bytes. -/
def advance (bytes : Nat) : Steps Unit := do
  seek src ((← position) + bytes)

/-- What is still to be read. -/
def rest : Steps (List Char) := do
  sliceFrom src (← position)

/-! ## Characters -/

def peek : Steps (Option Char) :=
  return (← rest src).head?

/-- The next character, which is read. -/
def bump : Steps (Option Char) := do
  match ← peek src with
  | none => return none
  | some c => do
    advance src c.utf8Size
    return some c

def eat (ch : Char) : Steps Bool := do
  if (← peek src) = some ch then do
    let _ ← bump src
    return true
  else return false

/-- More rounds than any loop over the text takes. -/
def Source.rounds : Nat :=
  src.text.length + 1

/-- Behind the characters with a property. -/
def skipWhile (p : Char → Bool) : Nat → Steps Unit
  | 0 => stuck
  | rounds + 1 => do
    match ← peek src with
    | none => return ()
    | some c =>
      if p c then do
        advance src c.utf8Size
        skipWhile p rounds
      else return ()

def skipBlank : Steps Unit :=
  skipWhile src isBlank src.rounds

/-- The longest run of characters with a property, cut out of the text. -/
def takeWhile (p : Char → Bool) : Steps (List Char) := do
  let start ← position
  skipWhile src p src.rounds
  slice src start (← position)

/-- A keyword in any case with a blank, an opening parenthesis or a brace behind it.  As many bytes
as the keyword has are looked at, if they end between two characters. -/
def keyword (word : String) : Steps Bool := do
  let rest ← rest src
  match splitAtByte? word.utf8ByteSize rest with
  | none => return false
  | some (head, _) =>
    if sameLetters head word.toList then do
      let tail ← orStuck ((splitAtByte? word.utf8ByteSize rest).map Prod.snd)
      if tail.head?.any fun c => isBlank c || c = '(' || c = '\x7b' then do
        advance src word.utf8ByteSize
        return true
      else return false
    else return false

/-- Fails because something else is wanted here. -/
def expected (wanted : Expectation) : Steps α := do
  let found ← peek src
  failAt (.unexpected wanted found) (← position)

def expect (ch : Char) : Steps Unit := do
  if ← eat src ch then return ()
  else expected src (.char ch)

/-! ## Levels -/

def enter : Steps Unit := do
  let place ← get
  set { place with depth := place.depth + 1 }
  if place.depth + 1 > src.maxDepth then throw .tooDeep

def leave : Steps Unit := do
  let place ← get
  match place.depth with
  | 0 => stuck
  | depth + 1 => set { place with depth }

/-- What is read one level further down. -/
def level (inner : Steps α) : Steps α := do
  enter src
  let x ← inner
  leave
  return x

/-! ## Literals and lists -/

/-- Behind the mark that closes the literal that starts at a position. -/
def closeLiteral (start : Nat) (mark : Char) : Nat → Steps Unit
  | 0 => stuck
  | rounds + 1 => do
    match ← bump src with
    | none => failAt .unterminatedString start
    | some c =>
      if c = '\\' then do
        let _ ← bump src
        closeLiteral start mark rounds
      else if c = mark then return ()
      else closeLiteral start mark rounds

/-- A string literal with its marks, the first of which comes next. -/
def quoted : Steps (List Char) := do
  let start ← position
  match ← bump src with
  | none => failAt (.other "expected string literal, found end of input") start
  | some mark => do
    closeLiteral src start mark src.rounds
    slice src start (← position)

/-- Further items, each behind a comma, and the closing character. -/
def moreItems (item : Steps α) (close : Char) : Nat → Steps (List α)
  | 0 => stuck
  | rounds + 1 => do
    skipBlank src
    if ← eat src ',' then do
      skipBlank src
      let x ← item
      let xs ← moreItems item close rounds
      return x :: xs
    else do
      expect src close
      return []

/-- One item or more, separated by commas and closed by a character. -/
def commaList (item : Steps α) (close : Char) : Steps (List α) := do
  skipBlank src
  let x ← item
  let xs ← moreItems src item close src.rounds
  return x :: xs

end

end MetricQuery.Position
