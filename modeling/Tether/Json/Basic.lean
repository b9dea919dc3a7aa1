import Tether.Bytes

namespace Tether

/-- A string of a document. None stands for a string with half a character in it: such a string is
well-formed, but it is no text. -/
abbrev JsonText := Option String

/-- A number as written. -/
structure JsonNumber where
  negative : Bool
  /-- Decimal digits before the point. -/
  whole : List Nat
  /-- Decimal digits after the point; none if there is no point. -/
  fraction : List Nat
  exponent : Option Int
  deriving DecidableEq, Repr

inductive Json where
  | null
  | bool (value : Bool)
  | number (value : JsonNumber)
  | string (text : JsonText)
  | array (items : List Json)
  /-- Fields in the order of the document; names may repeat. -/
  | object (fields : List (JsonText × Json))

namespace JsonNumber

def digitsValue (digits : List Nat) : Nat := digits.foldl (fun total digit => total * 10 + digit) 0

def digitsOf (n : Nat) : List Nat := (Nat.toDigits 10 n).map fun digit => digit.toNat - '0'.toNat

def ofNat (n : Nat) : JsonNumber := ⟨false, digitsOf n, [], none⟩

/-- The natural number that is meant, if it is written without sign, point and exponent. -/
def toNat? (number : JsonNumber) : Option Nat :=
  if number.negative = false ∧ number.fraction = [] ∧ number.exponent = none then
    some (digitsValue number.whole)
  else none

end JsonNumber

namespace Json

/-- A natural number below `limit`. -/
def natBelow? (limit : Nat) : Json → Option Nat
  | .number value => do
    let n ← value.toNat?
    if n < limit then some n else none
  | _ => none

/-- The value of a field that may be missing but must not be repeated. -/
def field? (fields : List (JsonText × Json)) (name : String) : Option (Option Json) :=
  match fields.filter fun field => field.1 == some name with
  | [] => some none
  | [field] => some (some field.2)
  | _ => none

/-- The value of a field that must be there exactly once. -/
def theField? (fields : List (JsonText × Json)) (name : String) : Option Json :=
  match field? fields name with
  | some (some value) => some value
  | _ => none

def named (fields : List (String × Json)) : List (JsonText × Json) :=
  fields.map fun field => (some field.1, field.2)

def namesAreText (fields : List (JsonText × Json)) : Bool := fields.all fun field => field.1.isSome

end Json

end Tether
