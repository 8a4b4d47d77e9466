import MetricQuery.Json.Number

/-!
# JSON values

The tree of a JSON text.  Two things in a text need not denote a value: a string with
half of a surrogate pair is no text, and a number may be too large.  The tree keeps
both, so that a reader of the tree can pass over what it does not use.

* `Json.render` writes a tree without blanks.
-/

namespace MetricQuery

/-- The tree of a JSON text.  `none` stands for a string that is no text. -/
inductive Json where
  | null
  | bool (value : Bool)
  | number (value : Json.Number)
  | string (value : Option String)
  | array (items : List Json)
  | object (members : List (Option String × Json))
  deriving Inhabited

namespace Json

/-! ## Making values -/

/-- A text. -/
def text (s : String) : Json :=
  .string (some s)

def nat (n : Nat) : Json :=
  .number (.ofNat n)

/-- The texts of a list. -/
def texts (ss : List String) : Json :=
  .array (ss.map text)

/-- A text or null. -/
def optional (s : Option String) : Json :=
  match s with
  | some s => text s
  | none => .null

/-- An object with the given members in order. -/
def record (members : List (String × Json)) : Json :=
  .object (members.map fun member => (some member.1, member.2))

/-! ## Writing

Each writer puts its characters in front of a text that is given, which keeps the work
in proportion to what is written. -/

/-- A hexadecimal digit. -/
def hexDigit (n : Nat) : Char :=
  "0123456789abcdef".toList.getD n '0'

/-- A character inside quotation marks.  Only quotation marks, backslashes and control
characters have escapes. -/
def writeChar (c : Char) (behind : List Char) : List Char :=
  if c = '"' then '\\' :: '"' :: behind
  else if c = '\\' then '\\' :: '\\' :: behind
  else if c = '\x08' then '\\' :: 'b' :: behind
  else if c = '\t' then '\\' :: 't' :: behind
  else if c = '\n' then '\\' :: 'n' :: behind
  else if c = '\x0c' then '\\' :: 'f' :: behind
  else if c = '\r' then '\\' :: 'r' :: behind
  else if c.toNat < 0x20 then
    '\\' :: 'u' :: '0' :: '0' :: hexDigit (c.toNat / 16) :: hexDigit (c.toNat % 16) :: behind
  else c :: behind

/-- A string in quotation marks.  A string that is no text is written as an escape that
denotes none. -/
def writeString (s : Option String) (behind : List Char) : List Char :=
  match s with
  | some s => '"' :: s.toList.foldr writeChar ('"' :: behind)
  | none => '"' :: '\\' :: 'u' :: 'd' :: '8' :: '0' :: '0' :: '"' :: behind

mutual

/-- The characters of a tree, without blanks. -/
def write : Json → List Char → List Char
  | .null, behind => 'n' :: 'u' :: 'l' :: 'l' :: behind
  | .bool true, behind => 't' :: 'r' :: 'u' :: 'e' :: behind
  | .bool false, behind => 'f' :: 'a' :: 'l' :: 's' :: 'e' :: behind
  | .number n, behind => n.render.toList ++ behind
  | .string s, behind => writeString s behind
  | .array [], behind => '[' :: ']' :: behind
  | .array (item :: items), behind => '[' :: write item (writeItems items behind)
  | .object [], behind => '{' :: '}' :: behind
  | .object ((key, value) :: members), behind =>
    '{' :: writeString key (':' :: write value (writeMembers members behind))

/-- Further items of an array, a comma in front of each, and the closing bracket. -/
def writeItems : List Json → List Char → List Char
  | [], behind => ']' :: behind
  | item :: items, behind => ',' :: write item (writeItems items behind)

/-- Further members of an object, a comma in front of each, and the closing brace. -/
def writeMembers : List (Option String × Json) → List Char → List Char
  | [], behind => '}' :: behind
  | (key, value) :: members, behind =>
    ',' :: writeString key (':' :: write value (writeMembers members behind))

end

/-- The text of a tree. -/
def render (j : Json) : String :=
  String.ofList (j.write [])

end Json

end MetricQuery
