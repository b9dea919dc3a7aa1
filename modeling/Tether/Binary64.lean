/-! Every finite double is a whole number of smallest positive doubles, 2^-1074 each. So a double is
held as that number with a sign, and arithmetic is exact arithmetic on natural numbers followed by
one rounding to the nearest double, ties to the even one. -/

namespace Tether

/-- A double. Zero has both signs; there is one value that is not a number. -/
inductive Binary64 where
  | nan
  | infinite (negative : Bool)
  /-- `units` times 2^-1074, negated if `negative`. -/
  | finite (negative : Bool) (units : Nat)
  deriving DecidableEq, Repr

namespace Binary64

/-- The number one, in units. -/
def oneUnits : Nat := 1 <<< 1074

/-- First number of units past the finite doubles. -/
def bound : Nat := 1 <<< 2098

/-- The distance between doubles of the size of `units`. -/
def spacing (units : Nat) : Nat := 1 <<< (units.log2 - 52)

/-- Whether a double of this size exists. -/
def Representable (units : Nat) : Prop := units % spacing units = 0 ∧ units < bound

/-- A quotient rounded to the nearest whole number, a half to the even one. -/
def divideEven (numerator denominator : Nat) : Nat :=
  let quotient := numerator / denominator
  let rest := numerator % denominator
  if 2 * rest < denominator then quotient
  else if denominator < 2 * rest then quotient + 1
  else quotient + quotient % 2

/-- A quotient of units rounded to the nearest representable number of units, leaving aside that
doubles end somewhere. -/
def roundUnits (numerator denominator : Nat) : Nat :=
  let step := spacing (numerator / denominator)
  divideEven numerator (denominator * step) * step

/-- The double nearest to a quotient of units; infinite past the largest finite one. -/
def ofUnits (negative : Bool) (numerator denominator : Nat) : Binary64 :=
  let units := roundUnits numerator denominator
  if units < bound then .finite negative units else .infinite negative

def ofInt (n : Int) : Binary64 := ofUnits (n < 0) (n.natAbs * oneUnits) 1

def ofNat (n : Nat) : Binary64 := ofInt n

/-- The first bit of a full significand, which patterns do not show. -/
def hiddenBit : Nat := 1 <<< 52

/-- The bit of a pattern that shows the sign. -/
def signBit : Nat := 1 <<< 63

def zero : Binary64 := .finite false 0

def one : Binary64 := .finite false oneUnits

/-- The smallest positive double whose significand has full length, 2^-1022. -/
def minPositive : Binary64 := .finite false hiddenBit

/-- The double with this bit pattern: sign, eleven bits of exponent, 52 bits of significand. -/
def ofBits (bits : UInt64) : Binary64 :=
  let negative := bits.toNat >>> 63 = 1
  let exponent := (bits.toNat >>> 52) % 2048
  let significand := bits.toNat % hiddenBit
  if exponent = 2047 then
    if significand = 0 then .infinite negative else .nan
  else if exponent = 0 then .finite negative significand
  else .finite negative ((hiddenBit + significand) <<< (exponent - 1))

/-- The bit pattern of a double. What is not a number has the quiet pattern without sign. -/
def toBits : Binary64 → UInt64
  | .nan => 0x7ff8000000000000
  | .infinite negative => UInt64.ofNat ((if negative then signBit else 0) + 2047 * hiddenBit)
  | .finite negative units =>
    let sign := if negative then signBit else 0
    let shift := units.log2 - 52
    if units < hiddenBit then UInt64.ofNat (sign + units)
    else UInt64.ofNat (sign + shift * hiddenBit + (units >>> shift))

/-- The place of a double on the number line, in units. -/
def position? : Binary64 → Option Int
  | .nan => none
  | .infinite negative => some (if negative then -(bound : Int) else bound)
  | .finite negative units => some (if negative then -(units : Int) else units)

/-- Strictly less. Nothing is less or greater than what is not a number. -/
def lt (left right : Binary64) : Bool :=
  match left.position?, right.position? with
  | some l, some r => l < r
  | _, _ => false

/-- Less or equal; the two zeros are equal. -/
def le (left right : Binary64) : Bool :=
  match left.position?, right.position? with
  | some l, some r => l ≤ r
  | _, _ => false

/-- Neither infinite nor not a number. -/
def isFinite : Binary64 → Bool
  | .finite _ _ => true
  | _ => false

def isInfinite : Binary64 → Bool
  | .infinite _ => true
  | _ => false

/-- The larger of two doubles, or the one that is a number. -/
def max (left right : Binary64) : Binary64 :=
  match left.position?, right.position? with
  | none, _ => right
  | _, none => left
  | some l, some r => if l < r then right else left

/-- The nearest double between two bounds. What is not a number stays so. -/
def clamp (low high value : Binary64) : Binary64 :=
  if value.lt low then low else if high.lt value then high else value

def neg : Binary64 → Binary64
  | .nan => .nan
  | .infinite negative => .infinite !negative
  | .finite negative units => .finite (!negative) units

def mul : Binary64 → Binary64 → Binary64
  | .nan, _ => .nan
  | _, .nan => .nan
  | .infinite s, .infinite t => .infinite (s != t)
  | .infinite s, .finite t units => if units = 0 then .nan else .infinite (s != t)
  | .finite s units, .infinite t => if units = 0 then .nan else .infinite (s != t)
  | .finite s m, .finite t n => ofUnits (s != t) (m * n) oneUnits

def div : Binary64 → Binary64 → Binary64
  | .nan, _ => .nan
  | _, .nan => .nan
  | .infinite _, .infinite _ => .nan
  | .infinite s, .finite t _ => .infinite (s != t)
  | .finite s _, .infinite t => .finite (s != t) 0
  | .finite s m, .finite t n =>
    if n = 0 then
      if m = 0 then .nan else .infinite (s != t)
    else ofUnits (s != t) (m * oneUnits) n

/-- Repeated squaring: `result` times the power of `base`, rounding each product. -/
def powLoop (result base : Binary64) (exponent : Nat) : Binary64 :=
  let result := if exponent % 2 = 1 then result.mul base else result
  if exponent / 2 = 0 then result else powLoop result (base.mul base) (exponent / 2)
termination_by exponent
decreasing_by omega

def pow (base : Binary64) (exponent : Nat) : Binary64 := powLoop one base exponent

/-- The whole part, between 0 and `limit`. What is not a number counts as 0. -/
def truncate (limit : Nat) : Binary64 → Nat
  | .nan => 0
  | .infinite negative => if negative then 0 else limit
  | .finite negative units => if negative then 0 else min (units / oneUnits) limit

/-- The nearest integer, a half away from zero. What is not finite counts as 0. -/
def roundAway : Binary64 → Int
  | .finite negative units =>
    let nearest : Int := ((2 * units + oneUnits) / (2 * oneUnits) : Nat)
    if negative then -nearest else nearest
  | _ => 0

end Binary64

end Tether
