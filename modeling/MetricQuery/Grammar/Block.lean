import MetricQuery.Expr
import MetricQuery.Grammar.Cursor

/-!
# Reading a filter block

```text
items     := NOT* operand (separator NOT* operand)*
operand   := condition | '(' items ')'
separator := ',' | AND | OR | AND NOT | OR NOT
condition := ['!'] key (':' value | '!:' value | ':~' value | [NOT] IN '(' values ')')
```

`blockItems` reads a list up to its closing character, which stays unread.  Every
list, the outermost one included, takes one of the levels it is given.
-/

namespace MetricQuery.Grammar

open Text

/-- A value: a string literal or a run of value characters. -/
def value : Reader String := fun c =>
  if c.peek?.any isQuote then do
    let (text, c) ← quoted c
    return (String.ofList text, c)
  else
    match c.takeWhile isValueChar with
    | ([], _) => c.expected .filterValue
    | (text, c) => .ok (String.ofList text, c)

/-- Values in parentheses; there may be none. -/
def valueList : Reader (List String) := fun c => do
  let c ← expect '(' c.skipBlank
  let c := c.skipBlank
  match c.eat? ')' with
  | some c => return ([], c)
  | none => commaList value ')' c

/-- A comparator made of punctuation marks, and the place behind it, if one comes
next. -/
def comparisonMark? (c : Cursor) : Option (Comparator × Cursor) :=
  match c.rest with
  | '!' :: ':' :: rest => some (.notColon, c.past ['!', ':'] rest)
  | ':' :: '~' :: rest => some (.regex, c.past [':', '~'] rest)
  | ':' :: rest => some (.colon, c.past [':'] rest)
  | _ => none

/-- The comparators `IN` and `NOT IN`.  The key is named in the error. -/
def comparisonWord (key : String) : Reader Comparator := fun c =>
  let c := c.skipBlank
  match c.keyword? "NOT" with
  | some c =>
    match c.skipBlank.keyword? "IN" with
    | some c => .ok (.noneOf, c)
    | none => c.skipBlank.expected .inAfterNot
  | none =>
    match c.keyword? "IN" with
    | some c => .ok (.oneOf, c)
    | none => c.expected (.comparator key)

/-- What follows a key: a mark and one value, or a word and a list. -/
def comparison (key : String) : Reader (Comparator × Comparand) := fun c =>
  match comparisonMark? c with
  | some (comparator, c) => do
    let (text, c) ← value c
    return ((comparator, .single text), c)
  | none => do
    let (comparator, c) ← comparisonWord key c
    let (texts, c) ← valueList c
    return ((comparator, .list texts), c)

/-- One test of a key. -/
def condition : Reader Condition := fun start => do
  let (negative, c) :=
    match start.eat? '!' with
    | some c => (true, c)
    | none => (false, start)
  match c.takeWhile isKeyChar with
  | ([], c) => c.expected .filterKey
  | (key, c) => do
    let key := String.ofList key
    let ((comparator, comparand), c) ← comparison key c
    return (⟨negative, key, comparator, comparand, ⟨start.offset, c.offset⟩⟩, c)

/-- The place behind a `NOT`, unless that is a key in front of `IN`. -/
def eatNot? (c : Cursor) : Option Cursor :=
  match c.keyword? "NOT" with
  | none => none
  | some c => if (c.skipBlank.keyword? "IN").isSome then none else some c

/-- The number of `NOT`s that come next, and the place behind them and their blanks.
As many rounds suffice as characters are left. -/
def leadingNots : Nat → Cursor → Nat × Cursor
  | 0, c => (0, c)
  | rounds + 1, c =>
    match eatNot? c with
    | none => (0, c)
    | some c =>
      let (count, c) := leadingNots rounds c.skipBlank
      (count + 1, c)

/-- An operand with the `NOT`s in front of it, as items.  Lists in parentheses are
left to `nested`, which does not read the closing parenthesis. -/
def operand (nested : Reader (List BlockItem)) : Reader (List BlockItem) := fun c => do
  let c := c.skipBlank
  let (count, c) := leadingNots c.rest.length c
  let nots := List.replicate count (BlockItem.separator .not)
  match c.eat? '(' with
  | some c => do
    let (items, c) ← nested c
    let c ← expect ')' c.skipBlank
    return (nots ++ [.grouped items], c)
  | none => do
    let (test, c) ← condition c
    return (nots ++ [.condition test], c)

/-- A keyword that joins operands, alone or with a `NOT` behind it. -/
def joiner (plain negated : Separator) (c : Cursor) : Separator × Cursor :=
  let c := c.skipBlank
  match c.keyword? "NOT" with
  | some c => (negated, c)
  | none => (plain, c)

/-- What stands between two operands. -/
def separator (close : Char) : Reader Separator := fun c =>
  match c.eat? ',' with
  | some c => .ok (.comma, c)
  | none =>
    match c.keyword? "AND" with
    | some c => .ok (joiner .and .andNot c)
    | none =>
      match c.keyword? "OR" with
      | some c => .ok (joiner .or .orNot c)
      | none => c.expected (.separator close)

/-- What follows an operand: separators and operands up to the closing character, which
is not read.  A separator takes a character, so as many rounds suffice as characters
are left. -/
def moreOperands (nested : Reader (List BlockItem)) (close : Char) :
    Nat → Reader (List BlockItem)
  | 0, c => c.skipBlank.expected (.separator close)
  | rounds + 1, c =>
    let c := c.skipBlank
    if c.peek? = some close then .ok ([], c)
    else do
      let (sep, c) ← separator close c
      let (items, c) ← operand nested c
      let (more, c) ← moreOperands nested close rounds c
      return (.separator sep :: (items ++ more), c)

/-- The items of a list up to its closing character, which is not read.  The list
takes one of the levels. -/
def blockItems : Nat → Char → Reader (List BlockItem)
  | 0, _ => fun _ => .error .tooDeep
  | levels + 1, close => fun c => do
    let nested := blockItems levels ')'
    let (items, c) ← operand nested c
    let (more, c) ← moreOperands nested close c.rest.length c
    return (items ++ more, c)

end MetricQuery.Grammar
