import MetricQuery.Json.Value

/-!
# Reading JSON

`Json.read?` reads a whole text as one value.  The grammar is the strict one: no
comments, no trailing commas, no control characters in strings, no leading zeros.
Depth is not limited here; `Json.isSound` tests what a reader of the tree may ask of
a part of it.
-/

namespace MetricQuery.Json

/-! ## Strings -/

/-- The blanks of JSON. -/
def isBlank (c : Char) : Bool :=
  c = ' ' || c = '\n' || c = '\t' || c = '\r'

def skipBlank (text : List Char) : List Char :=
  text.dropWhile isBlank

/-- What a string is made of: characters, and code units that are written as numbers. -/
inductive Unit16 where
  | char (c : Char)
  | unit (n : Nat)
  deriving DecidableEq, Repr

/-- The value of a hexadecimal digit in either case. -/
def hexValue? (c : Char) : Option Nat :=
  if c.isDigit then some (c.toNat - '0'.toNat)
  else if 'a' ≤ c && c ≤ 'f' then some (c.toNat - 'a'.toNat + 10)
  else if 'A' ≤ c && c ≤ 'F' then some (c.toNat - 'A'.toNat + 10)
  else none

/-- The character behind a backslash, unless it starts a number. -/
def escaped? (c : Char) : Option Char :=
  if c = '"' || c = '\\' || c = '/' then some c
  else if c = 'b' then some '\x08'
  else if c = 'f' then some '\x0c'
  else if c = 'n' then some '\n'
  else if c = 'r' then some '\r'
  else if c = 't' then some '\t'
  else none

/-- The four hexadecimal digits of a code unit. -/
def hexUnit? (a b c d : Char) : Option Nat := do
  let a ← hexValue? a
  let b ← hexValue? b
  let c ← hexValue? c
  let d ← hexValue? d
  return ((a * 16 + b) * 16 + c) * 16 + d

/-- Behind an opening quotation mark: what the string is made of, and the rest behind
the closing one. -/
def units? : List Char → Option (List Unit16 × List Char)
  | [] => none
  | c :: rest =>
    if c = '"' then some ([], rest)
    else if c = '\\' then
      match rest with
      | 'u' :: a :: b :: c :: d :: rest => do
        let n ← hexUnit? a b c d
        (units? rest).map fun cut => (.unit n :: cut.1, cut.2)
      | e :: rest => do
        let ch ← escaped? e
        (units? rest).map fun cut => (.char ch :: cut.1, cut.2)
      | [] => none
    else if c.toNat < 0x20 then none
    else (units? rest).map fun cut => (.char c :: cut.1, cut.2)

def isHighSurrogate (n : Nat) : Bool :=
  0xD800 ≤ n && n < 0xDC00

def isLowSurrogate (n : Nat) : Bool :=
  0xDC00 ≤ n && n < 0xE000

/-- The characters that units stand for.  A high surrogate and a low one behind it are
one character; alone they are none. -/
def chars? : List Unit16 → Option (List Char)
  | [] => some []
  | .char c :: rest => (chars? rest).map (c :: ·)
  | .unit n :: rest =>
    if isHighSurrogate n then
      match rest with
      | .unit k :: rest =>
        if isLowSurrogate k then
          (chars? rest).map
            (Char.ofNat (0x10000 + (n - 0xD800) * 0x400 + (k - 0xDC00)) :: ·)
        else none
      | _ => none
    else if isLowSurrogate n then none
    else (chars? rest).map (Char.ofNat n :: ·)

/-- Behind an opening quotation mark: the string and the rest. -/
def string? (text : List Char) : Option (Option String × List Char) :=
  (units? text).map fun cut => ((chars? cut.1).map String.ofList, cut.2)

/-! ## Numbers -/

/-- Digits in front of a text: none, or the run of them. -/
def digits? (text : List Char) : Option (List Char × List Char) :=
  match text.takeWhile Char.isDigit with
  | [] => none
  | digits => some (digits, text.dropWhile Char.isDigit)

/-- The digits in front of the point; a zero stands alone. -/
def integer? (text : List Char) : Option (List Char × List Char) :=
  match digits? text with
  | some (digits, rest) =>
    if digits.length > 1 && digits.head? = some '0' then none else some (digits, rest)
  | none => none

/-- The digits behind the point, if there is one. -/
def fraction? : List Char → Option (List Char × List Char)
  | '.' :: rest => digits? rest
  | rest => some ([], rest)

/-- The exponent, if there is one. -/
def exponent? : List Char → Option (Option Int × List Char)
  | c :: rest =>
    if c = 'e' || c = 'E' then
      match rest with
      | '-' :: rest =>
        (digits? rest).map fun cut => (some (-(digitsValue cut.1 : Int)), cut.2)
      | '+' :: rest => (digits? rest).map fun cut => (some (digitsValue cut.1 : Int), cut.2)
      | rest => (digits? rest).map fun cut => (some (digitsValue cut.1 : Int), cut.2)
    else some (none, c :: rest)
  | [] => some (none, [])

/-- A number behind its sign. -/
def unsigned? (negative : Bool) (text : List Char) : Option (Number × List Char) := do
  let (whole, rest) ← integer? text
  let (decimals, rest) ← fraction? rest
  let (power, rest) ← exponent? rest
  return (⟨negative, whole, decimals, power⟩, rest)

def number? : List Char → Option (Number × List Char)
  | '-' :: rest => unsigned? true rest
  | text => unsigned? false text

/-! ## Values -/

/-- The three words and the rest behind them. -/
def word? : List Char → Option (Json × List Char)
  | 'n' :: 'u' :: 'l' :: 'l' :: rest => some (.null, rest)
  | 't' :: 'r' :: 'u' :: 'e' :: rest => some (.bool true, rest)
  | 'f' :: 'a' :: 'l' :: 's' :: 'e' :: rest => some (.bool false, rest)
  | _ => none

mutual

/-- A value and the rest.  Every call takes a character or hands on to one that does,
so a `fuel` of twice the length of the text suffices. -/
def value? : Nat → List Char → Option (Json × List Char)
  | 0, _ => none
  | fuel + 1, text =>
    match skipBlank text with
    | [] => none
    | c :: rest =>
      if c = '"' then (string? rest).map fun cut => (.string cut.1, cut.2)
      else if c = '[' then
        match skipBlank rest with
        | ']' :: rest => some (.array [], rest)
        | rest => (items? fuel rest).map fun cut => (.array cut.1, cut.2)
      else if c = '{' then
        match skipBlank rest with
        | '}' :: rest => some (.object [], rest)
        | rest => (members? fuel rest).map fun cut => (.object cut.1, cut.2)
      else if c = '-' || c.isDigit then
        (number? (c :: rest)).map fun cut => (.number cut.1, cut.2)
      else word? (c :: rest)

/-- The items of an array, of which there is one at least, and the rest behind the
closing bracket. -/
def items? : Nat → List Char → Option (List Json × List Char)
  | 0, _ => none
  | fuel + 1, text => do
    let (item, rest) ← value? fuel text
    match skipBlank rest with
    | ',' :: rest => (items? fuel rest).map fun cut => (item :: cut.1, cut.2)
    | ']' :: rest => return ([item], rest)
    | _ => none

/-- The members of an object, of which there is one at least, and the rest behind the
closing brace. -/
def members? : Nat → List Char → Option (List (Option String × Json) × List Char)
  | 0, _ => none
  | fuel + 1, text =>
    match skipBlank text with
    | '"' :: rest => do
      let (key, rest) ← string? rest
      match skipBlank rest with
      | ':' :: rest => do
        let (value, rest) ← value? fuel rest
        match skipBlank rest with
        | ',' :: rest => (members? fuel rest).map fun cut => ((key, value) :: cut.1, cut.2)
        | '}' :: rest => return ([(key, value)], rest)
        | _ => none
      | _ => none
    | _ => none

end

/-- The value that a whole text spells. -/
def read? (text : String) : Option Json :=
  match value? (2 * text.toList.length + 1) text.toList with
  | some (j, rest) => if (skipBlank rest).isEmpty then some j else none
  | none => none

/-! ## Sound values -/

mutual

/-- Are all strings texts and all numbers in range, and do arrays and objects nest at
most `room` deep? -/
def isSound : Nat → Json → Bool
  | _, .null => true
  | _, .bool _ => true
  | _, .number n => n.inRange
  | _, .string s => s.isSome
  | 0, .array _ => false
  | 0, .object _ => false
  | room + 1, .array items => areSound room items
  | room + 1, .object members => areSoundMembers room members

def areSound : Nat → List Json → Bool
  | _, [] => true
  | room, item :: rest => isSound room item && areSound room rest

def areSoundMembers : Nat → List (Option String × Json) → Bool
  | _, [] => true
  | room, (key, value) :: rest => key.isSome && isSound room value && areSoundMembers room rest

end

end MetricQuery.Json
