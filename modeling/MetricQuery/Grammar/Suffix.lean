import MetricQuery.Expr
import MetricQuery.Grammar.Cursor

/-!
# Reading what follows a filter block

A metric query goes on with its group-by tags, `by {tag, tag}`, and with function
calls, `.name(arguments)`.  The arguments of such a call are kept as text: a comma
or a closing parenthesis ends an argument unless it is inside a string literal or
inside parentheses of the argument itself.
-/

namespace MetricQuery.Grammar

open Text

/-- A group-by tag. -/
def groupTag : Reader String := fun c =>
  match c.takeWhile isTagChar with
  | ([], c) => c.expected .groupTag
  | (text, c) => .ok (String.ofList text, c)

/-- The group-by tags, if there are any.  Without them nothing is read, blanks
included. -/
def groupTags : Reader (List String) := fun c =>
  match c.skipBlank.keyword? "by" with
  | none => .ok ([], c)
  | some c => do
    let c ← expect '{' c.skipBlank
    commaList groupTag '}' c

/-- The text of an argument up to the comma or the parenthesis that ends it, which
stays unread; `depth` parentheses of the argument are open.  The call's own
parenthesis stands at `opened`. -/
def rawArgument (opened depth : Nat) (c : Cursor) : Except Failure (List Char × Cursor) :=
  match _hrest : c.rest with
  | [] => .error (.malformed .unclosedCall opened)
  | ch :: tail =>
    if isQuote ch then
      match _hlit : literal? c.rest with
      | none => c.fail .unterminatedString
      | some (text, rest) => do
        let (more, c) ← rawArgument opened depth (c.past text rest)
        return (text ++ more, c)
    else if ch = ')' && depth = 0 || ch = ',' && depth = 0 then .ok ([], c)
    else do
      let inside := if ch = '(' then depth + 1 else if ch = ')' then depth - 1 else depth
      let (more, c) ← rawArgument opened inside (c.past [ch] tail)
      return (ch :: more, c)
termination_by c.rest.length
decreasing_by
  · exact length_of_literal? _hlit
  · simp [Cursor.past, _hrest]

/-- One argument or more, trimmed, and the closing parenthesis.  None of them may be
empty.  A comma takes a character, so as many rounds suffice as characters are left. -/
def someArguments (opened : Nat) : Nat → Reader (List String)
  | 0, _ => .error (.malformed .unclosedCall opened)
  | rounds + 1, c => do
    let (raw, c) ← rawArgument opened 0 c
    let text := trim raw
    if text.isEmpty then c.expected .functionArgument
    else
      match c.eat? ',' with
      | some c => do
        let (more, c) ← someArguments opened rounds c
        return (String.ofList text :: more, c)
      | none => do
        let c ← expect ')' c
        return ([String.ofList text], c)

/-- The arguments of a call whose opening parenthesis, at `opened`, is behind the
cursor: none, if only blanks stand in front of the closing one. -/
def rawArguments (opened : Nat) : Reader (List String) := fun c => do
  let (raw, next) ← rawArgument opened 0 c
  match (trim raw).isEmpty, next.eat? ')' with
  | true, some c => return ([], c)
  | _, _ => someArguments opened c.rest.length c

/-- One call behind its dot. -/
def functionCall : Reader FunctionCall := fun c =>
  match c.takeWhile isWordChar with
  | ([], c) => c.expected .functionName
  | (name, c) => do
    let inside ← expect '(' c
    let (arguments, c) ← rawArguments c.offset inside
    return (⟨String.ofList name, arguments⟩, c)

/-- The calls that follow, each behind a dot.  As many rounds suffice as characters are
left. -/
def moreCalls : Nat → Reader (List FunctionCall)
  | 0, c => .ok ([], c)
  | rounds + 1, c =>
    match c.eat? '.' with
    | none => .ok ([], c)
    | some c => do
      let (call, c) ← functionCall c
      let (more, c) ← moreCalls rounds c
      return (call :: more, c)

/-- All calls that follow. -/
def functionCalls : Reader (List FunctionCall) := fun c =>
  moreCalls c.rest.length c

end MetricQuery.Grammar
