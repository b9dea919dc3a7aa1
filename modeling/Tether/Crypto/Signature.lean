import Tether.Crypto.Edwards
import Tether.Crypto.Sha512

/-! A signature scheme is what frames are signed with and checked against. The scheme in use is
Ed25519: signing is deterministic; checking compares the expected commitment byte for byte, without
a cofactor, and accepts every key that is the encoding of a point. -/

namespace Tether.Crypto

def publicKeySize : Nat := 32

def privateKeySize : Nat := 32

def signatureSize : Nat := 64

/-- The operations of a signature scheme on raw keys. -/
structure SignatureScheme where
  /-- Whether the bytes are a public key. -/
  isKey : FixedBytes publicKeySize → Bool
  /-- The public key that belongs to a private key. -/
  publicKey : FixedBytes privateKeySize → FixedBytes publicKeySize
  /-- Sign a payload. -/
  sign : FixedBytes privateKeySize → Bytes → FixedBytes signatureSize
  /-- Whether a signature of a payload is right under a public key. -/
  verify : FixedBytes publicKeySize → Bytes → Bytes → Bool

namespace Ed25519

open Edwards

def scalar (message : Bytes) : Nat := Bytes.toNatLE (Sha512.digest message) % order

/-- The secret scalar: the first half of the hashed seed with the lowest three bits and the top bit
cleared and the next bit set. -/
def secretScalar (seed : Bytes) : Nat :=
  let n := Bytes.toNatLE ((Sha512.digest seed).take 32) % (1 <<< 254)
  n - n % 8 + (1 <<< 254)

/-- The second half of the hashed seed, from which commitments are derived. -/
def secretSalt (seed : Bytes) : Bytes := (Sha512.digest seed).drop 32

def publicKey (seed : Bytes) : Bytes := (Point.base.scale (secretScalar seed)).encode

/-- The signature of a payload: a commitment and the answer to its challenge. -/
def sign (seed payload : Bytes) : Bytes :=
  let r := scalar (secretSalt seed ++ payload)
  let commitment := (Point.base.scale r).encode
  let k := scalar (commitment ++ publicKey seed ++ payload)
  commitment ++ Bytes.littleEndian 32 ((r + k * secretScalar seed) % order)

/-- Whether a signature answers its challenge. The answer must be a reduced scalar. -/
def verify (key payload signature : Bytes) : Bool :=
  let commitment := signature.take 32
  let answer := Bytes.toNatLE (signature.drop 32)
  if signature.length ≠ signatureSize ∨ order ≤ answer then false
  else
    match Point.decode? key with
    | none => false
    | some point =>
      let k := scalar (commitment ++ key ++ payload)
      ((Point.base.scale answer).add (point.opposite.scale k)).encode == commitment

@[simp] theorem length_publicKey (seed : Bytes) : (publicKey seed).length = 32 := by
  simp [publicKey]

@[simp] theorem length_sign (seed payload : Bytes) : (sign seed payload).length = 64 := by
  simp [sign]

end Ed25519

def ed25519 : SignatureScheme where
  isKey key := (Edwards.Point.decode? key.val).isSome
  publicKey seed := ⟨Ed25519.publicKey seed.val, Ed25519.length_publicKey _⟩
  sign seed payload := ⟨Ed25519.sign seed.val payload, Ed25519.length_sign _ _⟩
  verify key payload signature := Ed25519.verify key.val payload signature

end Tether.Crypto
