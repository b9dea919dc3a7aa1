import Tether.Crypto.Sha256

namespace Tether.Crypto.Hkdf

def mac (key message : Bytes) : Bytes :=
  let short := if key.length > Sha256.blockSize then Sha256.digest key else key
  let block := short ++ List.replicate (Sha256.blockSize - short.length) 0
  let inner := block.map (· ^^^ 0x36)
  let outer := block.map (· ^^^ 0x5c)
  Sha256.digest (outer ++ Sha256.digest (inner ++ message))

/-- Concentrate key material into one pseudorandom key. -/
def extract (salt material : Bytes) : Bytes := mac salt material

/-- Output blocks, each depending on the one before; `index` numbers them from one. -/
def expandBlocks (key info previous : Bytes) (index : UInt8) : (count : Nat) → Bytes
  | 0 => []
  | count + 1 =>
    let block := mac key (previous ++ info ++ [index])
    block ++ expandBlocks key info block (index + 1) count

def expand (key info : Bytes) (length : Nat) : Bytes :=
  (expandBlocks key info [] 1 ((length + 31) / 32)).take length

/-- Derive `length` bytes from key material for a purpose. -/
def derive (material salt info : Bytes) (length : Nat) : Bytes :=
  expand (extract salt material) info length

@[simp] theorem length_mac (key message : Bytes) : (mac key message).length = 32 := by
  simp [mac]

theorem length_expandBlocks (key info previous : Bytes) (index : UInt8) (count : Nat) :
    (expandBlocks key info previous index count).length = 32 * count := by
  induction count generalizing previous index with
  | zero => rfl
  | succ count ih => simp [expandBlocks, ih]; omega

@[simp] theorem length_derive (material salt info : Bytes) (length : Nat) :
    (derive material salt info length).length = length := by
  simp [derive, expand, length_expandBlocks]; omega

end Tether.Crypto.Hkdf
