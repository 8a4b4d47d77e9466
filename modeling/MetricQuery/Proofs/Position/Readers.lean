import MetricQuery.Grammar.Expr
import MetricQuery.Proofs.Position.Steps

/-!
# Reading by byte positions

The grammar as steps over a source: each of these reads what the function of the same name in
`Grammar` reads, but goes through the text by positions, opens and leaves levels, and takes
names, values, windows and arguments as cuts out of the text.

* `blockItems`: a filter list up to its closing character.
* `groupTags` and `functionCalls`: what follows a filter block.
* `expression`: an expression.
* `parse`: a whole text under limits; nothing, if a step is stuck.
-/

namespace MetricQuery.Position

open Text Grammar

section

variable (src : Source)

/-! ## Filter blocks -/

def value : Steps String := do
  if (← peek src).any isQuote then
    return String.ofList (← quoted src)
  else do
    let text ← takeWhile src isValueChar
    if text.isEmpty then expected src .filterValue
    else return String.ofList text

def valueList : Steps (List String) := do
  skipBlank src
  expect src '('
  skipBlank src
  if ← eat src ')' then return []
  else commaList src (value src) ')'

/-- The comparators made of two marks are two bytes long. -/
def comparisonMark : Steps (Option Comparator) := do
  let rest ← rest src
  if ['!', ':'].isPrefixOf rest then do
    advance src 2
    return some .notColon
  else if [':', '~'].isPrefixOf rest then do
    advance src 2
    return some .regex
  else if ← eat src ':' then return some .colon
  else return none

def comparisonWord (key : String) : Steps Comparator := do
  skipBlank src
  if ← keyword src "NOT" then do
    skipBlank src
    if ← keyword src "IN" then return .noneOf
    else expected src .inAfterNot
  else if ← keyword src "IN" then return .oneOf
  else expected src (.comparator key)

def comparison (key : String) : Steps (Comparator × Comparand) := do
  match ← comparisonMark src with
  | some comparator => return (comparator, .single (← value src))
  | none => do
    let comparator ← comparisonWord src key
    return (comparator, .list (← valueList src))

def condition : Steps Condition := do
  let start ← position
  let negative ← eat src '!'
  let key ← takeWhile src isKeyChar
  if key.isEmpty then expected src .filterKey
  else do
    let (comparator, comparand) ← comparison src (String.ofList key)
    return ⟨negative, String.ofList key, comparator, comparand, ⟨start, ← position⟩⟩

/-- A `NOT` with the blanks behind it; in front of `IN` it is a key, and the step goes back. -/
def eatNot : Steps Bool := do
  let start ← position
  if ← keyword src "NOT" then do
    skipBlank src
    if ← keyword src "IN" then do
      seek src start
      return false
    else return true
  else return false

def leadingNots : Nat → Steps Nat
  | 0 => stuck
  | rounds + 1 => do
    if ← eatNot src then do
      skipBlank src
      return (← leadingNots rounds) + 1
    else return 0

def operand (nested : Steps (List BlockItem)) : Steps (List BlockItem) := do
  skipBlank src
  let count ← leadingNots src src.rounds
  let nots := List.replicate count (BlockItem.separator .not)
  if ← eat src '(' then do
    let items ← nested
    skipBlank src
    expect src ')'
    return nots ++ [.grouped items]
  else return nots ++ [.condition (← condition src)]

def joiner (plain negated : Separator) : Steps Separator := do
  skipBlank src
  if ← keyword src "NOT" then return negated
  else return plain

def separator (close : Char) : Steps Separator := do
  if ← eat src ',' then return .comma
  else if ← keyword src "AND" then joiner src .and .andNot
  else if ← keyword src "OR" then joiner src .or .orNot
  else expected src (.separator close)

def moreOperands (nested : Steps (List BlockItem)) (close : Char) : Nat → Steps (List BlockItem)
  | 0 => stuck
  | rounds + 1 => do
    skipBlank src
    if (← peek src) = some close then return []
    else do
      let sep ← separator src close
      let items ← operand src nested
      let more ← moreOperands nested close rounds
      return .separator sep :: (items ++ more)

/-- The lists in a list are read by the same steps, as often as `nesting` says; a level further down
the limit is reached before that. -/
def blockItems : Nat → Char → Steps (List BlockItem)
  | 0, _ => stuck
  | nesting + 1, close => level src do
    let nested := blockItems nesting ')'
    let items ← operand src nested
    let more ← moreOperands src nested close src.rounds
    return items ++ more

/-! ## Tags and calls -/

def groupTag : Steps String := do
  let text ← takeWhile src isTagChar
  if text.isEmpty then expected src .groupTag
  else return String.ofList text

/-- Without a `by` the step goes back to in front of the blanks. -/
def groupTags : Steps (List String) := do
  let before ← position
  skipBlank src
  if ← keyword src "by" then do
    skipBlank src
    expect src '\x7b'
    commaList src (groupTag src) '\x7d'
  else do
    seek src before
    return []

/-- On to what ends an argument; `depth` parentheses of the argument are open. -/
def skipArgument (opened : Nat) : Nat → Nat → Steps Unit
  | 0, _ => stuck
  | rounds + 1, depth => do
    match ← peek src with
    | none => failAt .unclosedCall opened
    | some ch =>
      if isQuote ch then do
        let _ ← quoted src
        skipArgument opened rounds depth
      else if ch = ')' && depth = 0 || ch = ',' && depth = 0 then return ()
      else do
        let _ ← bump src
        skipArgument opened rounds
          (if ch = '(' then depth + 1 else if ch = ')' then depth - 1 else depth)

/-- The arguments up to and with the closing parenthesis, each of them a trimmed cut.  Only a
single one may be empty, which then is none. -/
def argumentsFrom (opened : Nat) : Nat → Bool → Steps (List String)
  | 0, _ => stuck
  | rounds + 1, isFirst => do
    let start ← position
    skipArgument src opened src.rounds 0
    let text := trim (← slice src start (← position))
    if (← peek src) = some ',' then
      if text.isEmpty then expected src .functionArgument
      else do
        let _ ← bump src
        return String.ofList text :: (← argumentsFrom opened rounds false)
    else if text.isEmpty && !isFirst then expected src .functionArgument
    else do
      expect src ')'
      return if text.isEmpty then [] else [String.ofList text]

/-- The opening parenthesis, one byte back, is named in errors. -/
def rawArguments : Steps (List String) := do
  match ← position with
  | 0 => stuck
  | opened + 1 => argumentsFrom src opened src.rounds true

def functionCall : Steps FunctionCall := do
  let name ← takeWhile src isWordChar
  if name.isEmpty then expected src .functionName
  else do
    expect src '('
    return ⟨String.ofList name, ← rawArguments src⟩

def functionCalls : Nat → Steps (List FunctionCall)
  | 0 => stuck
  | rounds + 1 => do
    if ← eat src '.' then do
      let call ← functionCall src
      return call :: (← functionCalls rounds)
    else return []

/-! ## Metric queries -/

def metricName : Steps String := do
  let name ← takeWhile src isMetricChar
  if name.isEmpty then expected src .metricName
  else return String.ofList name

def blockBody (items : Steps (List BlockItem)) : Steps (List BlockItem) := do
  skipBlank src
  if ← eat src '*' then return [.wildcard]
  else items

def metricTail (items : Steps (List BlockItem)) (start : Nat) (aggregator window : Option String)
    (metric : String) : Steps Expr := do
  expect src '\x7b'
  let opened ← position
  let block ← blockBody src items
  skipBlank src
  let closed ← position
  expect src '\x7d'
  let groupBy ← groupTags src
  let functions ← functionCalls src src.rounds
  return .metric ⟨aggregator, window, metric, block, ⟨opened, closed⟩, groupBy, functions,
    ⟨start, ← position⟩⟩

/-- The bytes in front of the first such character. -/
def findByte? (ch : Char) (text : List Char) : Option Nat :=
  if text.contains ch then some (utf8Length (text.takeWhile (· ≠ ch))) else none

/-- At an opening parenthesis: the window between it and the first closing one, if a colon stands
behind that and no other one opens before.  The positions are those in what is still to be
read. -/
def timeWindow : Steps (Option String) := do
  let rest ← rest src
  match findByte? ')' rest with
  | none => return none
  | some closed => do
    let inner ← orStuck ((Span.mk 1 closed).slice? rest)
    if inner.contains '(' then return none
    else do
      let behind ← orStuck ((splitAtByte? (closed + 1) rest).map Prod.snd)
      if behind.head? ≠ some ':' then return none
      else do
        let window := trim inner
        if src.pattern.occursIn window then do
          advance src (closed + 2)
          return some (String.ofList window)
        else failAt (.timeWindow (String.ofList window)) ((← position) + 1)

/-! ## Terms -/

def callTail (arguments : Steps (List Expr)) (start : Nat) (name : List Char) : Steps Expr := do
  if !isIdentifier name then failAt (.functionName (String.ofList name)) start
  else do
    expect src '('
    let args ← arguments
    return .call (String.ofList name) args ⟨start, ← position⟩

def aggregated (items : Steps (List BlockItem)) (start : Nat) (aggregator : List Char)
    (window : Option String) : Steps Expr := do
  if !isIdentifier aggregator then failAt (.aggregator (String.ofList aggregator)) start
  else do
    let metric ← metricName src
    metricTail src items start (some (String.ofList aggregator)) window metric

def bareWord (inArguments : Bool) (start : Nat) (word : List Char) : Steps Expr := do
  if inArguments && isIdentifier word then
    return .word (String.ofList word) ⟨start, ← position⟩
  else expected src (.filterBlock (String.ofList word))

def wordTerm (items : Steps (List BlockItem)) (arguments : Steps (List Expr))
    (inArguments : Bool) : Steps Expr := do
  let start ← position
  let word ← takeWhile src isMetricChar
  match ← peek src with
  | none => bareWord src inArguments start word
  | some ch =>
    if ch = '\x7b' then metricTail src items start none none (String.ofList word)
    else if ch = ':' then do
      let _ ← bump src
      aggregated src items start word none
    else if ch = '(' then do
      match ← timeWindow src with
      | some window => aggregated src items start word (some window)
      | none => callTail src arguments start word
    else bareWord src inArguments start word

def number : Steps Expr := do
  let start ← position
  let _ ← bump src
  let _ ← takeWhile src fun ch => ch.isDigit || ch = '.'
  let stop ← position
  return .number (String.ofList (← slice src start stop)) ⟨start, stop⟩

def parenthesised (inner : Steps Expr) : Steps Expr := do
  let start ← position
  expect src '('
  let expr ← inner
  skipBlank src
  expect src ')'
  return .paren expr ⟨start, ← position⟩

def term (items : Steps (List BlockItem)) (inner : Steps Expr) (arguments : Steps (List Expr))
    (inArguments : Bool) : Steps Expr := do
  skipBlank src
  let start ← position
  let rest ← rest src
  match rest with
  | [] => expected src .term
  | ch :: _ =>
    if ch = '(' then parenthesised src inner
    else if isQuote ch then do
      let text ← quoted src
      return .literal (String.ofList text) ⟨start, ← position⟩
    else if startsNumber rest then number src
    else if isWordStart ch then wordTerm src items arguments inArguments
    else expected src .term

/-! ## Expressions -/

def chainFrom (operand : Steps Expr) (operator? : Char → Option Operator) :
    Nat → Expr → Steps Expr
  | 0, _ => stuck
  | rounds + 1, left => do
    skipBlank src
    match (← peek src).bind operator? with
    | none => return left
    | some op => do
      let _ ← bump src
      let right ← operand
      chainFrom operand operator? rounds (.join op left right)

def chain (operand : Steps Expr) (operator? : Char → Option Operator) : Steps Expr := do
  let left ← operand
  chainFrom src operand operator? src.rounds left

def argumentList (argument : Steps Expr) : Steps (List Expr) := do
  skipBlank src
  if ← eat src ')' then return []
  else commaList src argument ')'

mutual

def expression : Nat → Bool → Steps Expr
  | 0, _ => stuck
  | nesting + 1, inArguments => level src
    (chain src
      (chain src
        (term src (blockItems src nesting '\x7d') (expression nesting inArguments)
          (callArguments nesting) inArguments)
        Operator.multiplicative?)
      Operator.additive?)

def callArguments : Nat → Steps (List Expr)
  | 0 => stuck
  | nesting + 1 => level src (argumentList src (expression nesting true))

end

def wholeExpression : Steps Expr := do
  let expr ← expression src (src.maxDepth + 1) false
  skipBlank src
  if (← position) < utf8Length src.text then expected src .endOfText
  else return expr

end

/-- The expression that a text spells under some limits; nothing if a step is stuck. -/
def parse (text : String) (limits : Limits) (engine : PatternEngine) :
    Option (Except ParseError Expr) :=
  match limits.window? engine with
  | .error cause => some (.error (.badLimits cause))
  | .ok pattern =>
    if text.utf8ByteSize > limits.maxLength then
      some (.error (.tooLong text.utf8ByteSize limits.maxLength))
    else
      match wholeExpression ⟨text.toList, limits.maxDepth, pattern⟩ ⟨0, 0⟩ with
      | none => none
      | some (.ok (expr, _)) => some (.ok expr)
      | some (.error .tooDeep) => some (.error (.tooDeep limits.maxDepth))
      | some (.error (.malformed cause offset)) => some (.error (.malformed cause offset))

end MetricQuery.Position
