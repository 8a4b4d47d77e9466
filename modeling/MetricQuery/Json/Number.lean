/-!
# JSON numbers

A number is kept as it is written, since a text may hold numbers that denote nothing in
64 bits.

* `Number.toIndex?` is the natural number that is written;
* `Number.inRange` says whether the number can be read as a binary one.

A number is read as a binary one in few steps.  Its digits are taken as long as they
fit 64 bits; what is left of them counts as zeros.  That natural number and the power of
ten are rounded to 53 binary digits each, and multiplied or divided.  The number is out
of range if the power or the product is; a number near the bound can thus be out of
range although its exact value is not.
-/

namespace MetricQuery.Json

/-- The number that decimal digits spell behind `n`. -/
def digitsValue (digits : List Char) (n : Nat := 0) : Nat :=
  digits.foldl (fun n c => n * 10 + (c.toNat - '0'.toNat)) n

/-- A number as it is written in decimal digits. -/
structure Number where
  negative : Bool
  /-- The digits in front of the point. -/
  whole : List Char
  /-- The digits behind the point. -/
  decimals : List Char
  /-- The exponent. -/
  power : Option Int
  deriving DecidableEq, Repr

/-- The nearest number of at most 53 binary digits; if two are as near, the one that is
even in the last of its digits. -/
def round53 (n : Nat) : Nat :=
  let unit := 1 <<< (n.log2 + 1 - 53)
  let count := n / unit
  let rest := n % unit
  if unit < 2 * rest || (unit = 2 * rest && count % 2 = 1) then (count + 1) * unit
  else count * unit

namespace Number

/-- A natural number. -/
def ofNat (n : Nat) : Number :=
  ⟨false, Nat.toDigits 10 n, [], none⟩

/-- The natural number that is written, if it is one of 64 bits without sign, fraction
and exponent. -/
def toIndex? (n : Number) : Option Nat :=
  if n.negative || !n.decimals.isEmpty || n.power.isSome then none
  else
    let value := digitsValue n.whole
    if value < 1 <<< 64 then some value else none

/-- The number that digits spell behind `n`, as many of them as fit 64 bits, and the
count of those that are left. -/
def fitting (n : Nat) : List Char → Nat × Nat
  | [] => (n, 0)
  | c :: rest =>
    let longer := digitsValue [c] n
    if longer < 1 <<< 64 then fitting longer rest else (n, rest.length + 1)

/-- The digits that count, as a natural number, and the power of ten with it. -/
def scaled (n : Number) : Nat × Int :=
  let (value, left) := fitting 0 n.whole
  let (value, unused) := fitting value n.decimals
  (value, left - (n.decimals.length - unused : Nat) + n.power.getD 0)

/-- The greatest power of ten below the bound. -/
def greatestPower : Nat := 308

/-- The least number that rounds beyond the binary numbers of 64 bits. -/
def bound : Nat :=
  1 <<< 1024 - 1 <<< 970

/-- Can the number be read as a binary number of 64 bits? -/
def inRange (n : Number) : Bool :=
  let (value, power) := n.scaled
  if value = 0 || power < 0 then true
  else
    power ≤ greatestPower && round53 value * round53 (Nat.pow 10 power.toNat) < bound

def render (n : Number) : String :=
  let sign := if n.negative then "-" else ""
  let fraction := if n.decimals.isEmpty then "" else "." ++ String.ofList n.decimals
  let exponent :=
    match n.power with
    | none => ""
    | some power => "e" ++ toString power
  sign ++ String.ofList n.whole ++ fraction ++ exponent

end Number

end MetricQuery.Json
