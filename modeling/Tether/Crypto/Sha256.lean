import Tether.Bytes

namespace Tether.Crypto.Sha256

def blockSize : Nat := 64

structure State where
  a : UInt32
  b : UInt32
  c : UInt32
  d : UInt32
  e : UInt32
  f : UInt32
  g : UInt32
  h : UInt32

/-- First 32 fractional bits of the square roots of the first eight primes. -/
def initial : State where
  a := 0x6a09e667
  b := 0xbb67ae85
  c := 0x3c6ef372
  d := 0xa54ff53a
  e := 0x510e527f
  f := 0x9b05688c
  g := 0x1f83d9ab
  h := 0x5be0cd19

/-- First 32 fractional bits of the cube roots of the first 64 primes. -/
def roundConstants : List UInt32 :=
  [
    0x428a2f98, 0x71374491, 0xb5c0fbcf, 0xe9b5dba5,
    0x3956c25b, 0x59f111f1, 0x923f82a4, 0xab1c5ed5,
    0xd807aa98, 0x12835b01, 0x243185be, 0x550c7dc3,
    0x72be5d74, 0x80deb1fe, 0x9bdc06a7, 0xc19bf174,
    0xe49b69c1, 0xefbe4786, 0x0fc19dc6, 0x240ca1cc,
    0x2de92c6f, 0x4a7484aa, 0x5cb0a9dc, 0x76f988da,
    0x983e5152, 0xa831c66d, 0xb00327c8, 0xbf597fc7,
    0xc6e00bf3, 0xd5a79147, 0x06ca6351, 0x14292967,
    0x27b70a85, 0x2e1b2138, 0x4d2c6dfc, 0x53380d13,
    0x650a7354, 0x766a0abb, 0x81c2c92e, 0x92722c85,
    0xa2bfe8a1, 0xa81a664b, 0xc24b8b70, 0xc76c51a3,
    0xd192e819, 0xd6990624, 0xf40e3585, 0x106aa070,
    0x19a4c116, 0x1e376c08, 0x2748774c, 0x34b0bcb5,
    0x391c0cb3, 0x4ed8aa4a, 0x5b9cca4f, 0x682e6ff3,
    0x748f82ee, 0x78a5636f, 0x84c87814, 0x8cc70208,
    0x90befffa, 0xa4506ceb, 0xbef9a3f7, 0xc67178f2]

def rotate (word amount : UInt32) : UInt32 := (word >>> amount) ||| (word <<< (32 - amount))

/-- The word that the schedule adds after sixteen words; the most recent word comes first. -/
def nextWord (recent : List UInt32) : UInt32 :=
  let late := recent.getD 1 0
  let early := recent.getD 14 0
  let small0 := rotate early 7 ^^^ rotate early 18 ^^^ (early >>> 3)
  let small1 := rotate late 17 ^^^ rotate late 19 ^^^ (late >>> 10)
  recent.getD 15 0 + small0 + recent.getD 6 0 + small1

/-- The words of the schedule after the block's own, `count` of them. -/
def expand (recent : List UInt32) : (count : Nat) → List UInt32
  | 0 => []
  | count + 1 =>
    let word := nextWord recent
    word :: expand (word :: recent.take 15) count

/-- One round with a round constant and a word of the schedule. -/
def round (s : State) (constant word : UInt32) : State :=
  let big1 := rotate s.e 6 ^^^ rotate s.e 11 ^^^ rotate s.e 25
  let choice := (s.e &&& s.f) ^^^ (~~~s.e &&& s.g)
  let first := s.h + big1 + choice + constant + word
  let big0 := rotate s.a 2 ^^^ rotate s.a 13 ^^^ rotate s.a 22
  let majority := (s.a &&& s.b) ^^^ (s.a &&& s.c) ^^^ (s.b &&& s.c)
  ⟨first + (big0 + majority), s.a, s.b, s.c, s.d + first, s.e, s.f, s.g⟩

def compress (s : State) (block : Bytes) : State :=
  let words := (Bytes.blocks 4 block).map fun bytes => UInt32.ofNat (Bytes.toNatBE bytes)
  let schedule := words ++ expand words.reverse 48
  let t := (roundConstants.zip schedule).foldl (fun s pair => round s pair.1 pair.2) s
  ⟨s.a + t.a, s.b + t.b, s.c + t.c, s.d + t.d, s.e + t.e, s.f + t.f, s.g + t.g, s.h + t.h⟩

/-- A one bit, zeros and the length in bits, up to a whole number of blocks. -/
def pad (message : Bytes) : Bytes :=
  let gap := (2 * blockSize - 1 - 8 - message.length % blockSize) % blockSize
  message ++ 0x80 :: List.replicate gap 0 ++ Bytes.bigEndian 8 (8 * message.length)

def State.bytes (s : State) : Bytes :=
  [s.a, s.b, s.c, s.d, s.e, s.f, s.g, s.h].flatMap fun word => Bytes.bigEndian 4 word.toNat

def digest (message : Bytes) : Bytes :=
  ((Bytes.blocks blockSize (pad message)).foldl compress initial).bytes

@[simp] theorem length_digest (message : Bytes) : (digest message).length = 32 := by
  simp [digest, State.bytes]

end Tether.Crypto.Sha256
