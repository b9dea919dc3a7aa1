import Tether.Json.Basic

namespace Tether

/-- The character of a decimal digit. -/
def JsonNumber.digitChar (digit : Nat) : Char := Char.ofNat ('0'.toNat + digit)

/-- A number as it was read. -/
def JsonNumber.render (number : JsonNumber) : List Char :=
  let sign := if number.negative then ['-'] else []
  let whole := number.whole.map JsonNumber.digitChar
  let fraction :=
    if number.fraction = [] then [] else '.' :: number.fraction.map JsonNumber.digitChar
  let exponent :=
    match number.exponent with
    | none => []
    | some e => 'e' :: (if e < 0 then ['-'] else []) ++
        (JsonNumber.digitsOf e.natAbs).map JsonNumber.digitChar
  sign ++ whole ++ fraction ++ exponent

namespace Json

/-- A character inside a string: quotes, backslashes and control characters are escaped. -/
def renderChar (c : Char) : List Char :=
  if c = '"' then ['\\', '"']
  else if c = '\\' then ['\\', '\\']
  else if c.toNat < 32 then
    ['\\', 'u', '0', '0', Bytes.hexDigit (c.toNat / 16), Bytes.hexDigit (c.toNat % 16)]
  else [c]

/-- A string in quotes. A string that is no text is written as half a character. -/
def renderText : JsonText → List Char
  | none => "\"\\ud800\"".toList
  | some text => '"' :: text.toList.flatMap renderChar ++ ['"']

mutual

def renderValue : Json → List Char
  | .null => "null".toList
  | .bool true => "true".toList
  | .bool false => "false".toList
  | .number value => value.render
  | .string text => renderText text
  | .array [] => "[]".toList
  | .array (item :: items) => '[' :: renderValue item ++ renderItems items
  | .object [] => ['\x7b', '\x7d']
  | .object ((name, item) :: fields) =>
    '\x7b' :: renderText name ++ ':' :: renderValue item ++ renderFields fields

/-- The items after the first one, and the closing bracket. -/
def renderItems : List Json → List Char
  | [] => [']']
  | item :: items => ',' :: renderValue item ++ renderItems items

/-- The fields after the first one, and the closing brace. -/
def renderFields : List (JsonText × Json) → List Char
  | [] => ['\x7d']
  | (name, item) :: fields =>
    ',' :: renderText name ++ ':' :: renderValue item ++ renderFields fields

end

def render (value : Json) : String := String.ofList value.renderValue

end Json

end Tether
