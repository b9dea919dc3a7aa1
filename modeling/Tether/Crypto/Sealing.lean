import Tether.Crypto.ChaCha20
import Tether.Crypto.Poly1305

namespace Tether.Crypto.Sealing

def tagSize : Nat := 16

/-- What the tag covers: the encryption, filled up to whole blocks, and the two lengths. -/
def authenticated (encrypted : Bytes) : Bytes :=
  let gap := (16 - encrypted.length % 16) % 16
  encrypted ++ List.replicate gap 0 ++ Bytes.littleEndian 8 0 ++
    Bytes.littleEndian 8 encrypted.length

def tag (key nonce encrypted : Bytes) : Bytes :=
  Poly1305.tag ((ChaCha20.keyBlock key nonce 0).take 32) (authenticated encrypted)

def close (key nonce message : Bytes) : Bytes :=
  let encrypted := ChaCha20.apply key nonce message
  encrypted ++ tag key nonce encrypted

/-- The message in a sealed form, if its tag is right. -/
def open? (key nonce sealed : Bytes) : Option Bytes :=
  if sealed.length < tagSize then none
  else
    let encrypted := sealed.take (sealed.length - tagSize)
    if sealed.drop (sealed.length - tagSize) = tag key nonce encrypted then
      some (ChaCha20.apply key nonce encrypted)
    else none

end Tether.Crypto.Sealing
