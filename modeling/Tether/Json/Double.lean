import Tether.Binary64
import Tether.Json.Basic

/-! A document's number becomes a double in at most three roundings: its leading digits are taken as
a 64-bit number, that number is rounded to a double, and the double is multiplied or divided by a
power of ten. A double is written with the fewest digits that determine it. -/

namespace Tether.JsonNumber

/-- The digits that fit a 64-bit number together with `total`, and how many of them there are. -/
def fitting (total : Nat) : List Nat → Nat × Nat
  | [] => (total, 0)
  | digit :: rest =>
    if total * 10 + digit < UInt64.size then
      let (result, count) := fitting (total * 10 + digit) rest
      (result, count + 1)
    else (total, 0)

/-- The largest power of ten that is scaled by at once. -/
def largestPower : Nat := 308

def powerOfTen (exponent : Nat) : Binary64 := .ofNat (Nat.pow 10 exponent)

/-- A double times a power of ten. None if the result would be infinite. -/
def scale (value : Binary64) (exponent : Int) : Option Binary64 :=
  if exponent.natAbs ≤ largestPower then
    if 0 ≤ exponent then
      let scaled := value.mul (powerOfTen exponent.natAbs)
      if scaled.isInfinite then none else some scaled
    else some (value.div (powerOfTen exponent.natAbs))
  else if value = Binary64.zero then some value
  else if 0 ≤ exponent then none
  else scale (value.div (powerOfTen largestPower)) (exponent + largestPower)
termination_by exponent.natAbs
decreasing_by simp only [largestPower] at *; omega

/-- The double a number stands for. Whole digits that do not fit 64 bits raise the exponent;
further digits after the point are passed over. None if the number is too large. -/
def toBinary64? (number : JsonNumber) : Option Binary64 := do
  let (leading, wholeCount) := fitting 0 number.whole
  let (significand, fractionCount) := fitting leading number.fraction
  let exponent : Int := (number.whole.length - wholeCount : Nat) - (fractionCount : Int) +
    number.exponent.getD 0
  let magnitude ← scale (.ofNat significand) exponent
  return if number.negative then magnitude.neg else magnitude

/-- How many decimal digits a number has; none for zero. -/
def digitCount (n : Nat) : Nat := if n = 0 then 0 else (digitsOf n).length

/-- The power of ten of the first digit of a positive number of units. -/
def leadingPlace (units : Nat) : Int :=
  if Binary64.oneUnits ≤ units then (digitCount (units / Binary64.oneUnits) : Int) - 1
  else -(digitCount ((Binary64.oneUnits - 1) / units) : Int)

def decimalUnits (coefficient : Nat) (exponent : Int) : Nat × Nat :=
  if 0 ≤ exponent then (coefficient * Nat.pow 10 exponent.toNat * Binary64.oneUnits, 1)
  else (coefficient * Binary64.oneUnits, Nat.pow 10 (-exponent).toNat)

/-- Whether a decimal is nearer to `units` than to any other double. -/
def determines (units coefficient : Nat) (exponent : Int) : Bool :=
  let (numerator, denominator) := decimalUnits coefficient exponent
  Binary64.roundUnits numerator denominator == units

/-- A decimal with the given last place that determines the double: of the two neighbours on that
grid the nearer one, or the only one. -/
def onGrid? (units : Nat) (exponent : Int) : Option Nat :=
  let (numerator, denominator) := decimalUnits 1 exponent
  let below := units * denominator / numerator
  let rest := units * denominator % numerator
  let low := if determines units below exponent then some below else none
  let high := if determines units (below + 1) exponent then some (below + 1) else none
  match low, high with
  | some l, some h =>
    some (if 2 * rest < numerator then l else if numerator < 2 * rest then h
      else if l % 2 = 0 then l else h)
  | some l, none => some l
  | none, high => high

/-- The shortest decimal that determines the double, trying ever more digits; `place` is the power
of ten of the first one tried. -/
def shortest (units : Nat) (place : Int) (attempts : Nat) : Nat × Int :=
  let attempt (count : Nat) : Option (Nat × Int) :=
    (onGrid? units (place - count)).map fun coefficient => (coefficient, place - count)
  ((List.range attempts).findSome? attempt).getD (units, place - attempts)

/-- Seventeen digits always determine a double. -/
def mostDigits : Nat := 17

/-- The layout of a decimal: positional while the point lies within or near the digits, otherwise
with an exponent. There is always a digit after the point or an exponent. -/
def layout (negative : Bool) (coefficient : Nat) (exponent : Int) : JsonNumber :=
  let digits := digitsOf coefficient
  let point : Int := digits.length + exponent
  if 0 ≤ exponent ∧ point ≤ 16 then
    ⟨negative, digits ++ List.replicate exponent.toNat 0, [0], none⟩
  else if 0 < point ∧ point ≤ 16 then
    ⟨negative, digits.take point.toNat, digits.drop point.toNat, none⟩
  else if -5 < point ∧ point ≤ 0 then
    ⟨negative, [0], List.replicate (-point).toNat 0 ++ digits, none⟩
  else ⟨negative, digits.take 1, digits.drop 1, some (point - 1)⟩

/-- Remove zeros from the end of a coefficient into its exponent. -/
def trimZeros (coefficient : Nat) (exponent : Int) : Nat × Int :=
  if coefficient ≠ 0 ∧ coefficient % 10 = 0 then trimZeros (coefficient / 10) (exponent + 1)
  else (coefficient, exponent)
termination_by coefficient
decreasing_by omega

/-- A finite double as a number of a document. -/
def ofBinary64? : Binary64 → Option JsonNumber
  | .finite negative units =>
    if units = 0 then some ⟨negative, [0], [0], none⟩
    else
      let (coefficient, exponent) := shortest units (leadingPlace units) mostDigits
      let (coefficient, exponent) := trimZeros coefficient exponent
      some (layout negative coefficient exponent)
  | _ => none

end Tether.JsonNumber
