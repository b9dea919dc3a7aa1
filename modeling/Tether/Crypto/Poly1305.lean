import Tether.Bytes

namespace Tether.Crypto.Poly1305

def modulus : Nat := (1 <<< 130) - 5

/-- Clear the bits of the evaluation point that must be zero. -/
def clamp (n : Nat) : Nat := n &&& 0x0ffffffc0ffffffc0ffffffc0fffffff

def coefficient (block : Bytes) : Nat := Bytes.toNatLE block + (1 <<< (8 * block.length))

/-- The polynomial's value at `point`. -/
def evaluate (point : Nat) (message : Bytes) : Nat :=
  (Bytes.blocks 16 message).foldl
    (fun total block => (total + coefficient block) * point % modulus) 0

def tag (key message : Bytes) : Bytes :=
  let point := clamp (Bytes.toNatLE (key.take 16))
  let pad := Bytes.toNatLE (key.drop 16)
  Bytes.littleEndian 16 (evaluate point message + pad)

@[simp] theorem length_tag (key message : Bytes) : (tag key message).length = 16 := by
  simp [tag]

end Tether.Crypto.Poly1305
