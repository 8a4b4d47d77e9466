import MetricQuery.Json.Value

/-!
# Records in JSON

A record with named fields is an object, or an array of the fields in order.  In an
object other members are passed over, but no field may occur twice; an array may
leave off fields at its end and has nothing behind the last one.

* `Json.fields?` finds the fields;
* `Json.required?` and `Json.withDefault?` read a field that has to be there and one
  that need not.
-/

namespace MetricQuery.Json

/-- The value of a field in the members of an object: `none` if the field occurs twice,
`some none` if it does not occur. -/
def field? (members : List (Option String × Json)) (name : String) : Option (Option Json) :=
  match members.filter fun member => member.1 = some name with
  | [] => some none
  | [member] => some (some member.2)
  | _ => none

/-- The fields of a record, in the order of their names. -/
def fields? (names : List String) : Json → Option (List (Option Json))
  | .object members =>
    if members.all fun member => member.1.isSome then names.mapM (field? members) else none
  | .array items =>
    if items.length ≤ names.length then
      some (items.map some ++ List.replicate (names.length - items.length) none)
    else none
  | _ => none

/-- A field that has to be there. -/
def required? {α : Type} (read : Json → Option α) (field : Option Json) : Option α :=
  field.bind read

/-- A field with a value for its absence. -/
def withDefault? {α : Type} (default : α) (read : Json → Option α) :
    Option Json → Option α
  | none => some default
  | some j => read j

/-- A text. -/
def toText? : Json → Option String
  | .string s => s
  | _ => none

/-- A text or null. -/
def toOptional? : Json → Option (Option String)
  | .null => some none
  | j => j.toText?.map some

def toBool? : Json → Option Bool
  | .bool b => some b
  | _ => none

/-- A natural number of 64 bits. -/
def toIndex? : Json → Option Nat
  | .number n => n.toIndex?
  | _ => none

/-- A list of values of one kind. -/
def toList? {α : Type} (read : Json → Option α) : Json → Option (List α)
  | .array items => items.mapM read
  | _ => none

/-- A name from a fixed set, as a text or as the only key of an object.  The value under
the key says nothing: it is null or, if `emptyToo`, possibly an empty object. -/
def toName? (emptyToo : Bool) : Json → Option String
  | .string s => s
  | .object [(key, .null)] => key
  | .object [(key, .object [])] => if emptyToo then key else none
  | _ => none

end MetricQuery.Json
