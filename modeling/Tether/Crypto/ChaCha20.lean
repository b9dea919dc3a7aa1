import Tether.Bytes

namespace Tether.Crypto.ChaCha20

abbrev Block := Vector UInt32 16

def rotate (word amount : UInt32) : UInt32 := (word <<< amount) ||| (word >>> (32 - amount))

def quarterRound (block : Block) (a b c d : Fin 16) : Block :=
  let block := block.set a (block[a] + block[b])
  let block := block.set d (rotate (block[d] ^^^ block[a]) 16)
  let block := block.set c (block[c] + block[d])
  let block := block.set b (rotate (block[b] ^^^ block[c]) 12)
  let block := block.set a (block[a] + block[b])
  let block := block.set d (rotate (block[d] ^^^ block[a]) 8)
  let block := block.set c (block[c] + block[d])
  block.set b (rotate (block[b] ^^^ block[c]) 7)

/-- Mix the columns, then the diagonals. -/
def doubleRound (block : Block) : Block :=
  let block := quarterRound block 0 4 8 12
  let block := quarterRound block 1 5 9 13
  let block := quarterRound block 2 6 10 14
  let block := quarterRound block 3 7 11 15
  let block := quarterRound block 0 5 10 15
  let block := quarterRound block 1 6 11 12
  let block := quarterRound block 2 7 8 13
  quarterRound block 3 4 9 14

/-- Ten double rounds. -/
def mix : (rounds : Nat) → Block → Block
  | 0, block => block
  | rounds + 1, block => mix rounds (doubleRound block)

def words (bytes : Bytes) : List UInt32 :=
  (Bytes.blocks 4 bytes).map fun word => UInt32.ofNat (Bytes.toNatLE word)

/-- The block before mixing: constants, key, counter, nonce. -/
def start (key nonce : Bytes) (counter : UInt32) : Block :=
  let content := [0x61707865, 0x3320646e, 0x79622d32, 0x6b206574] ++ words key ++ [counter] ++
    words nonce
  Vector.ofFn fun i => content.getD i.val 0

/-- The 64 bytes of key stream at a block counter. -/
def keyBlock (key nonce : Bytes) (counter : UInt32) : Bytes :=
  let block := start key nonce counter
  let mixed := mix 10 block
  (Vector.ofFn fun i : Fin 16 => mixed[i] + block[i]).toList.flatMap fun word =>
    Bytes.littleEndian 4 word.toNat

/-- At least `length` bytes of key stream from block 1 on. Block 0 is kept for the authenticator. -/
def keyStream (key nonce : Bytes) (length : Nat) : Bytes :=
  (List.range ((length + 63) / 64)).flatMap fun i => keyBlock key nonce (UInt32.ofNat (i + 1))

def apply (key nonce message : Bytes) : Bytes :=
  Bytes.xor message (keyStream key nonce message.length)

@[simp] theorem length_keyBlock (key nonce : Bytes) (counter : UInt32) :
    (keyBlock key nonce counter).length = 64 := by
  have uniform (word : UInt32) : (Bytes.littleEndian 4 word.toNat).length = 4 := by simp
  rw [keyBlock, Bytes.length_flatMap_uniform _ _ uniform]
  simp

theorem le_length_keyStream (key nonce : Bytes) (length : Nat) :
    length ≤ (keyStream key nonce length).length := by
  rw [keyStream, Bytes.length_flatMap_uniform _ _ fun i =>
    length_keyBlock key nonce (UInt32.ofNat (i + 1))]
  simp; omega

@[simp] theorem length_apply (key nonce message : Bytes) :
    (apply key nonce message).length = message.length := by
  simp [apply, Bytes.xor, le_length_keyStream]

end Tether.Crypto.ChaCha20
