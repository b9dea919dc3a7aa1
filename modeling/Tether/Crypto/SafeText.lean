import Tether.Crypto.Hkdf
import Tether.Crypto.Keys
import Tether.Crypto.Sealing
import Tether.Wire.Codec

/-! A text field travels plain or sealed. Each sealed value has a salt of its own, from which the
key that seals it is derived; so the salt can serve as the nonce as well. -/

namespace Tether.Crypto

def saltSize : Nat := 12

/-- A text sealed under a key derived from a private key and a salt. -/
structure SealedText where
  salt : FixedBytes saltSize
  /-- The encryption followed by its tag. -/
  data : Bytes
  deriving DecidableEq, Repr

namespace SealedText

/-- What the derived keys are for. -/
def purpose : Bytes := Bytes.ofText "deusvent-field-key"

def fieldKey (key : PrivateKey) (salt : FixedBytes saltSize) : Bytes :=
  Hkdf.derive key.bytes.val salt.val purpose 32

/-- Seal a text with a salt. -/
def close (key : PrivateKey) (salt : FixedBytes saltSize) (text : String) : SealedText :=
  ⟨salt, Sealing.close (fieldKey key salt) salt.val (Bytes.ofText text)⟩

/-- The sealed text. Another key, a changed value and bytes that are no text are all refused. -/
def reveal (key : PrivateKey) (value : SealedText) : Except CryptoError String :=
  match (Sealing.open? (fieldKey key value.salt) value.salt.val value.data).bind Bytes.text? with
  | some text => .ok text
  | none => .error .invalidData

end SealedText

/-- A plain or a sealed text. -/
inductive SafeText where
  | plain (text : String)
  | sealed (value : SealedText)
  deriving DecidableEq, Repr

namespace SafeText

def reveal (key : PrivateKey) : SafeText → Except CryptoError String
  | .plain text => .ok text
  | .sealed value => value.reveal key

def isSealed : SafeText → Bool
  | .plain _ => false
  | .sealed _ => true

/-- A plain text follows the byte 0; a sealed one the byte 1, its salt first. -/
def codec : Wire.Codec SafeText where
  write
    | .plain text => Wire.Codec.u8.write 0 ++ Wire.Codec.text.write text
    | .sealed value =>
      Wire.Codec.u8.write 1 ++ value.salt.val ++ (Wire.Codec.sized "ciphertext").write value.data
  read := do
    match ← Wire.Codec.u8.read with
    | 0 => return .plain (← Wire.Codec.text.read)
    | 1 =>
      let salt ← Wire.Reader.bytes saltSize "salt"
      return .sealed ⟨salt, ← (Wire.Codec.sized "ciphertext").read⟩
    | byte => .fail (.safeTextByte byte)

end SafeText

end Tether.Crypto
