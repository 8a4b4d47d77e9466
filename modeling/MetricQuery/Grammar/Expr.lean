import MetricQuery.Grammar.Block
import MetricQuery.Grammar.Suffix
import MetricQuery.Limits

/-!
# Reading an expression

```text
expression := product (('+' | '-') product)*
product    := term (('*' | '/') term)*
term       := number | literal | '(' expression ')' | metric | call
metric     := [aggregator[(window)]:]name '{' ('*' | items) '}' suffix
call       := identifier '(' [expression (',' expression)*] ')'
```

`parse` reads a whole text under limits, with an engine for the pattern of the time windows.
An expression, the arguments of a call and every filter list take one level of nesting each.
-/

namespace MetricQuery.Grammar

open Text

/-! ## Operators -/

/-- Further operands and the operators in front of them, joined to the left.  An
operator takes a character, so as many rounds suffice as characters are left. -/
def chainFrom (operand : Reader Expr) (operator? : Char → Option Operator) :
    Nat → Expr → Reader Expr
  | 0, left, c => .ok (left, c.skipBlank)
  | rounds + 1, left, c =>
    let c := c.skipBlank
    match c.rest with
    | [] => .ok (left, c)
    | ch :: rest =>
      match operator? ch with
      | none => .ok (left, c)
      | some op => do
        let (right, c) ← operand (c.past [ch] rest)
        chainFrom operand operator? rounds (.join op left right) c

/-- Operands joined by operators of one rank, to the left. -/
def chain (operand : Reader Expr) (operator? : Char → Option Operator) : Reader Expr :=
  fun c => do
    let (left, c) ← operand c
    chainFrom operand operator? c.rest.length left c

/-! ## Metric queries -/

def metricName : Reader String := fun c =>
  match c.takeWhile isMetricChar with
  | ([], c) => c.expected .metricName
  | (name, c) => .ok (String.ofList name, c)

/-- What stands between the braces of a filter block: an asterisk or a list. -/
def blockBody (items : Reader (List BlockItem)) : Reader (List BlockItem) := fun c =>
  let c := c.skipBlank
  match c.eat? '*' with
  | some c => .ok ([.wildcard], c)
  | none => items c

/-- A metric query from its opening brace on; it starts at byte `start`. -/
def metricTail (items : Reader (List BlockItem)) (start : Nat)
    (aggregator window : Option String) (metric : String) : Reader Expr := fun c => do
  let opened ← expect '{' c
  let (block, c) ← blockBody items opened
  let c := c.skipBlank
  let blockSpan : Span := ⟨opened.offset, c.offset⟩
  let c ← expect '}' c
  let (groupBy, c) ← groupTags c
  let (functions, c) ← functionCalls c
  return (.metric ⟨aggregator, window, metric, block, blockSpan, groupBy, functions,
    ⟨start, c.offset⟩⟩, c)

/-- At an opening parenthesis: the window in `(window):` and the place behind the
colon, or nothing if what follows is a call.  It is a window if a colon follows the
first closing parenthesis and no other one opens before that. -/
def timeWindow? (pattern : WindowPattern) (c : Cursor) :
    Except Failure (Option (String × Cursor)) :=
  let inner := c.rest.tail.takeWhile (· ≠ ')')
  match c.rest.tail.dropWhile (· ≠ ')') with
  | close :: colon :: rest =>
    if colon ≠ ':' || inner.contains '(' then .ok none
    else
      let window := trim inner
      if pattern.occursIn window then
        .ok (some (String.ofList window,
          c.past (c.rest.take 1 ++ inner ++ [close, colon]) rest))
      else .error (.malformed (.timeWindow (String.ofList window)) (c.offset + 1))
  | _ => .ok none

/-! ## Terms -/

/-- A call from its opening parenthesis on; its name starts at byte `start`. -/
def callTail (arguments : Reader (List Expr)) (start : Nat) (name : List Char) :
    Reader Expr := fun c =>
  if !isIdentifier name then
    .error (.malformed (.functionName (String.ofList name)) start)
  else do
    let c ← expect '(' c
    let (args, c) ← arguments c
    return (.call (String.ofList name) args ⟨start, c.offset⟩, c)

/-- A metric query behind its aggregator, which has to be an identifier. -/
def aggregated (items : Reader (List BlockItem)) (start : Nat) (aggregator : List Char)
    (window : Option String) : Reader Expr := fun c =>
  if !isIdentifier aggregator then
    .error (.malformed (.aggregator (String.ofList aggregator)) start)
  else do
    let (metric, c) ← metricName c
    metricTail items start (some (String.ofList aggregator)) window metric c

/-- A word with nothing behind it that would go on with it, from byte `start` on.  Only
among arguments may an identifier stand alone. -/
def bareWord (inArguments : Bool) (start : Nat) (word : List Char) : Reader Expr := fun c =>
  if inArguments && isIdentifier word then
    .ok (.word (String.ofList word) ⟨start, c.offset⟩, c)
  else c.expected (.filterBlock (String.ofList word))

/-- A term that starts with a word: a metric query, a call or, among arguments, a
bare word. -/
def wordTerm (pattern : WindowPattern) (items : Reader (List BlockItem))
    (arguments : Reader (List Expr)) (inArguments : Bool) : Reader Expr := fun start =>
  let (word, c) := start.takeWhile isMetricChar
  match c.rest with
  | [] => bareWord inArguments start.offset word c
  | ch :: rest =>
    if ch = '{' then metricTail items start.offset none none (String.ofList word) c
    else if ch = ':' then aggregated items start.offset word none (c.past [ch] rest)
    else if ch = '(' then do
      match ← timeWindow? pattern c with
      | some (window, c) => aggregated items start.offset word (some window) c
      | none => callTail arguments start.offset word c
    else bareWord inArguments start.offset word c

/-- Does a number come next: a digit, or a minus sign in front of one? -/
def startsNumber : List Char → Bool
  | [] => false
  | c :: rest => c.isDigit || (c = '-' && rest.head?.any Char.isDigit)

/-- The first character of a number, then digits and dots. -/
def number : Reader Expr := fun start =>
  let sign := start.rest.take 1
  let (digits, c) :=
    (start.past sign (start.rest.drop 1)).takeWhile fun ch => ch.isDigit || ch = '.'
  .ok (.number (String.ofList (sign ++ digits)) ⟨start.offset, c.offset⟩, c)

/-- An expression in parentheses, the first of which is next. -/
def parenthesised (inner : Reader Expr) : Reader Expr := fun start => do
  let c ← expect '(' start
  let (expr, c) ← inner c
  let c ← expect ')' c.skipBlank
  return (.paren expr ⟨start.offset, c.offset⟩, c)

/-- One operand of an expression. -/
def term (pattern : WindowPattern) (items : Reader (List BlockItem)) (inner : Reader Expr)
    (arguments : Reader (List Expr)) (inArguments : Bool) : Reader Expr := fun c =>
  let c := c.skipBlank
  match c.rest with
  | [] => c.expected .term
  | ch :: _ =>
    if ch = '(' then parenthesised inner c
    else if isQuote ch then do
      let (text, next) ← quoted c
      return (.literal (String.ofList text) ⟨c.offset, next.offset⟩, next)
    else if startsNumber c.rest then number c
    else if isWordStart ch then wordTerm pattern items arguments inArguments c
    else c.expected .term

/-! ## Expressions -/

/-- The arguments of a call and its closing parenthesis; there may be none. -/
def argumentList (argument : Reader Expr) : Reader (List Expr) := fun c =>
  let c := c.skipBlank
  match c.eat? ')' with
  | some c => .ok ([], c)
  | none => commaList argument ')' c

mutual

/-- An expression that may nest `levels` deep, itself included. -/
def expression (pattern : WindowPattern) : Nat → Bool → Reader Expr
  | 0, _ => fun _ => .error .tooDeep
  | levels + 1, inArguments =>
    chain
      (chain
        (term pattern (blockItems levels '}') (expression pattern levels inArguments)
          (callArguments pattern levels) inArguments)
        Operator.multiplicative?)
      Operator.additive?

/-- The arguments of a call that may nest `levels` deep, the list included. -/
def callArguments (pattern : WindowPattern) : Nat → Reader (List Expr)
  | 0 => fun _ => .error .tooDeep
  | levels + 1 => argumentList (expression pattern levels true)

end

/-- An expression and nothing behind it but blanks. -/
def wholeExpression (pattern : WindowPattern) (levels : Nat) (text : List Char) :
    Except Failure Expr := do
  let (expr, c) ← expression pattern levels false (.ofText text)
  let c := c.skipBlank
  match c.rest with
  | [] => return expr
  | _ :: _ => c.expected .endOfText

end MetricQuery.Grammar

namespace MetricQuery

/-- The expression that a text spells under some limits.  What their window pattern means is up
to the engine. -/
def parse (text : String) (limits : Limits := {}) (engine : PatternEngine := .basic) :
    Except ParseError Expr :=
  match limits.window? engine with
  | .error cause => .error (.badLimits cause)
  | .ok pattern =>
    if text.utf8ByteSize > limits.maxLength then
      .error (.tooLong text.utf8ByteSize limits.maxLength)
    else
      match Grammar.wholeExpression pattern limits.maxDepth text.toList with
      | .ok expr => .ok expr
      | .error .tooDeep => .error (.tooDeep limits.maxDepth)
      | .error (.malformed cause offset) => .error (.malformed cause offset)

end MetricQuery
