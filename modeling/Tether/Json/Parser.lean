import Tether.Json.Basic

/-! The grammar of RFC 8259, strictly: no comments, no trailing commas, no leading zeros, nothing
but blanks around the one value. Numbers may be of any size and values nested to any depth. -/

namespace Tether.Json.Parser

def isBlank (c : Char) : Bool := c == ' ' || c == '\t' || c == '\n' || c == '\r'

def skipBlanks (input : List Char) : List Char := input.dropWhile isBlank

def digit? (c : Char) : Option Nat :=
  if '0' ≤ c ∧ c ≤ '9' then some (c.toNat - '0'.toNat) else none

def hexDigit? (c : Char) : Option Nat :=
  if '0' ≤ c ∧ c ≤ '9' then some (c.toNat - '0'.toNat)
  else if 'a' ≤ c ∧ c ≤ 'f' then some (c.toNat - 'a'.toNat + 10)
  else if 'A' ≤ c ∧ c ≤ 'F' then some (c.toNat - 'A'.toNat + 10)
  else none

def digits : List Char → List Nat × List Char
  | [] => ([], [])
  | c :: rest =>
    match digit? c with
    | some value => (value :: (digits rest).1, (digits rest).2)
    | none => ([], c :: rest)

inductive Piece where
  | char (c : Char)
  | unit (code : Nat)

/-- The character that a one-letter escape stands for. -/
def escape? : Char → Option Char
  | '"' => some '"'
  | '\\' => some '\\'
  | '/' => some '/'
  | 'b' => some '\x08'
  | 'f' => some '\x0c'
  | 'n' => some '\n'
  | 'r' => some '\r'
  | 't' => some '\t'
  | _ => none

/-- The pieces of a string after its opening quote, and the input after the closing one. -/
def pieces : List Char → Option (List Piece × List Char)
  | [] => none
  | '"' :: rest => some ([], rest)
  | '\\' :: 'u' :: a :: b :: c :: d :: rest => do
    let code := (← hexDigit? a) * 4096 + (← hexDigit? b) * 256 + (← hexDigit? c) * 16 +
      (← hexDigit? d)
    let (more, rest) ← pieces rest
    return (.unit code :: more, rest)
  | '\\' :: c :: rest => do
    let meant ← escape? c
    let (more, rest) ← pieces rest
    return (.char meant :: more, rest)
  | c :: rest =>
    if c.toNat < 32 ∨ c = '\\' then none
    else do
      let (more, rest) ← pieces rest
      return (.char c :: more, rest)

/-- The characters of the pieces. Two code units that are the halves of one character are joined;
half a character alone is no character. -/
def joinPieces : List Piece → Option (List Char)
  | [] => some []
  | .char c :: rest => (c :: ·) <$> joinPieces rest
  | .unit code :: rest =>
    if code < 0xd800 ∨ 0xdfff < code then (Char.ofNat code :: ·) <$> joinPieces rest
    else
      match rest with
      | .unit low :: rest =>
        if code < 0xdc00 ∧ 0xdc00 ≤ low ∧ low ≤ 0xdfff then
          (Char.ofNat (0x10000 + (code - 0xd800) * 0x400 + (low - 0xdc00)) :: ·) <$> joinPieces rest
        else none
      | _ => none

/-- A string after its opening quote. -/
def stringTail (input : List Char) : Option (JsonText × List Char) := do
  let (parts, rest) ← pieces input
  return (String.ofList <$> joinPieces parts, rest)

/-- The digits before the point: one zero, or digits that do not start with zero. -/
def wholePart (input : List Char) : Option (List Nat × List Char) :=
  match digits input with
  | ([], _) => none
  | (0 :: _ :: _, _) => none
  | result => some result

def fractionPart : List Char → Option (List Nat × List Char)
  | '.' :: rest =>
    match digits rest with
    | ([], _) => none
    | result => some result
  | input => some ([], input)

def minusSign : List Char → Bool × List Char
  | '-' :: rest => (true, rest)
  | input => (false, input)

/-- Whether there is a minus sign where a plus sign may stand as well, and what follows either. -/
def eitherSign : List Char → Bool × List Char
  | '+' :: rest => (false, rest)
  | input => minusSign input

def exponentDigits (input : List Char) : Option (Int × List Char) :=
  let (negative, input) := eitherSign input
  match digits input with
  | ([], _) => none
  | (value, rest) =>
    let n : Int := JsonNumber.digitsValue value
    some (if negative then -n else n, rest)

/-- An exponent, if there is one. -/
def exponentPart : List Char → Option (Option Int × List Char)
  | 'e' :: rest => (fun result => (some result.1, result.2)) <$> exponentDigits rest
  | 'E' :: rest => (fun result => (some result.1, result.2)) <$> exponentDigits rest
  | input => some (none, input)

def number (input : List Char) : Option (JsonNumber × List Char) := do
  let (negative, input) := minusSign input
  let (whole, input) ← wholePart input
  let (fraction, input) ← fractionPart input
  let (exponent, input) ← exponentPart input
  return (⟨negative, whole, fraction, exponent⟩, input)

mutual

/-- A value, at most `fuel` values deep and long. The input starts with it. -/
def value : (fuel : Nat) → List Char → Option (Json × List Char)
  | 0, _ => none
  | fuel + 1, input =>
    match input with
    | 'n' :: 'u' :: 'l' :: 'l' :: rest => some (.null, rest)
    | 't' :: 'r' :: 'u' :: 'e' :: rest => some (.bool true, rest)
    | 'f' :: 'a' :: 'l' :: 's' :: 'e' :: rest => some (.bool false, rest)
    | '"' :: rest => (fun result => (.string result.1, result.2)) <$> stringTail rest
    | '[' :: rest =>
      match skipBlanks rest with
      | ']' :: rest => some (.array [], rest)
      | rest => (fun result => (.array result.1, result.2)) <$> items fuel rest
    | '{' :: rest =>
      match skipBlanks rest with
      | '}' :: rest => some (.object [], rest)
      | rest => (fun result => (.object result.1, result.2)) <$> fields fuel rest
    | input => (fun result => (.number result.1, result.2)) <$> number input

def items : (fuel : Nat) → List Char → Option (List Json × List Char)
  | 0, _ => none
  | fuel + 1, input => do
    let (item, rest) ← value fuel input
    match skipBlanks rest with
    | ']' :: rest => return ([item], rest)
    | ',' :: rest =>
      let (more, rest) ← items fuel (skipBlanks rest)
      return (item :: more, rest)
    | _ => none

def fields : (fuel : Nat) → List Char → Option (List (JsonText × Json) × List Char)
  | 0, _ => none
  | fuel + 1, input => do
    match input with
    | '"' :: rest =>
      let (name, rest) ← stringTail rest
      match skipBlanks rest with
      | ':' :: rest =>
        let (item, rest) ← value fuel (skipBlanks rest)
        match skipBlanks rest with
        | '}' :: rest => return ([(name, item)], rest)
        | ',' :: rest =>
          let (more, rest) ← fields fuel (skipBlanks rest)
          return ((name, item) :: more, rest)
        | _ => none
      | _ => none
    | _ => none

end

end Parser

/-- The value of a document. Each value takes at least one character of it, so twice its length is
fuel enough. -/
def parse? (document : String) : Option Json := do
  let input := Parser.skipBlanks document.toList
  let (result, rest) ← Parser.value (2 * input.length + 1) input
  if Parser.skipBlanks rest = [] then some result else none

end Tether.Json
