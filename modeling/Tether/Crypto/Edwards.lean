import Tether.Bytes

/-! Points of the twisted Edwards curve -x² + y² = 1 + d·x²·y² over the integers modulo 2^255 - 19,
in extended coordinates (x = X/Z, y = Y/Z, T = X·Y/Z). The addition law has no exceptions on this
curve, so doubling and the neutral element need no cases of their own. -/

namespace Tether.Crypto.Edwards

/-- The field's modulus. -/
def p : Nat := (1 <<< 255) - 19

def order : Nat := (1 <<< 252) + 27742317777372353535851937790883648493

def powMod (m base exponent : Nat) : Nat :=
  if exponent = 0 then 1 % m
  else
    let half := powMod m (base * base % m) (exponent / 2)
    if exponent % 2 = 1 then base * half % m else half
termination_by exponent
decreasing_by omega

/-- The inverse of a field element; zero for zero. -/
def inverse (a : Nat) : Nat := powMod p a (p - 2)

def negate (a : Nat) : Nat := (p - a % p) % p

def sub (a b : Nat) : Nat := (a + negate b) % p

/-- The curve's coefficient, -121665/121666. -/
def d : Nat := 37095705934669439343138083508754565189542113879843219016388785533085940283555

/-- A square root of -1. -/
def rootOfMinusOne : Nat :=
  19681161376707505956807079304988542015446066515923890162744021073123829784752

structure Point where
  x : Nat
  y : Nat
  z : Nat
  t : Nat
  deriving DecidableEq, Repr

namespace Point

def ofAffine (x y : Nat) : Point := ⟨x, y, 1, x * y % p⟩

def zero : Point := ofAffine 0 1

/-- The base point, with y = 4/5 and even x. -/
def base : Point :=
  ofAffine 15112221349535400772501151409588531511454012693041857206046113283949847762202
    46316835694926478169428394003475163141307993866256225615783033603165251855960

def add (left right : Point) : Point :=
  let a := sub left.y left.x * sub right.y right.x % p
  let b := (left.y + left.x) * (right.y + right.x) % p
  let c := 2 * d * (left.t * right.t % p) % p
  let e := 2 * left.z * right.z % p
  let h := sub b a
  let f := sub e c
  let g := (e + c) % p
  let k := (b + a) % p
  ⟨h * f % p, g * k % p, f * g % p, h * k % p⟩

def opposite (point : Point) : Point := ⟨negate point.x, point.y, point.z, negate point.t⟩

/-- A multiple of a point, by doubling. -/
def scale (n : Nat) (point : Point) : Point :=
  if n = 0 then zero
  else
    let half := scale (n / 2) point
    let double := add half half
    if n % 2 = 1 then add double point else double
termination_by n
decreasing_by omega

/-- The y coordinate in 32 bytes, least significant first, with the parity of x in the top bit. -/
def encode (point : Point) : Bytes :=
  let inverseZ := inverse point.z
  let x := point.x * inverseZ % p
  let y := point.y * inverseZ % p
  Bytes.littleEndian 32 (y + (x % 2) * (1 <<< 255))

@[simp] theorem length_encode (point : Point) : (encode point).length = 32 := by
  simp [encode]

end Point

/-- A square root of `u / v`, if there is one. -/
def rootOfRatio? (u v : Nat) : Option Nat :=
  let v3 := v * v % p * v % p
  let v7 := v3 * v3 % p * v % p
  let root := u * v3 % p * powMod p (u * v7 % p) ((p - 5) / 8) % p
  let square := v * (root * root % p) % p
  if square = u then some root
  else if square = negate u then some (root * rootOfMinusOne % p)
  else none

/-- The point with the y coordinate and the parity of x that the bytes give. A y coordinate of `p`
or more is reduced, and a parity of one is accepted for x = 0. -/
def Point.decode? (bytes : Bytes) : Option Point := do
  let n := Bytes.toNatLE bytes
  let y := n % (1 <<< 255) % p
  let parity := n / (1 <<< 255) % 2
  let ySquared := y * y % p
  let root ← rootOfRatio? (sub ySquared 1) ((d * ySquared + 1) % p)
  return ofAffine (if root % 2 = parity then root else negate root) y

end Tether.Crypto.Edwards
