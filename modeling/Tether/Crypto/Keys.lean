import Tether.Crypto.Signature

namespace Tether.Crypto

inductive CryptoError where
  /-- A sealed value that this key did not seal, or that was changed. -/
  | invalidData
  /-- Bytes that are no key. -/
  | invalidKey (length : Nat)
  deriving DecidableEq, Repr

def CryptoError.name : CryptoError → String
  | .invalidData => "InvalidData"
  | .invalidKey _ => "InvalidKey"

def CryptoError.message : CryptoError → String
  | .invalidData => "invalid encrypted data"
  | .invalidKey length => "invalid key: expected 32 bytes, got " ++ toString length

/-- Bytes accepted as a public key, kept as given. -/
structure PublicKey where
  bytes : FixedBytes publicKeySize
  deriving DecidableEq, Repr

structure PrivateKey where
  bytes : FixedBytes privateKeySize
  deriving DecidableEq

/-- A private key with its public key. -/
structure KeyPair where
  publicKey : PublicKey
  privateKey : PrivateKey
  deriving DecidableEq

variable (scheme : SignatureScheme)

def PublicKey.ofBytes (bytes : Bytes) : Except CryptoError PublicKey :=
  if h : bytes.length = publicKeySize then
    if scheme.isKey ⟨bytes, h⟩ then .ok ⟨⟨bytes, h⟩⟩ else .error (.invalidKey bytes.length)
  else .error (.invalidKey bytes.length)

def PublicKey.text (key : PublicKey) : String := Bytes.toHex key.bytes.val

def PublicKey.describe (key : PublicKey) : String := "PublicKey(" ++ key.text ++ ")"

/-- Whether a signature of a payload is right. -/
def PublicKey.verify (key : PublicKey) (payload signature : Bytes) : Bool :=
  scheme.verify key.bytes payload signature

/-- Any 32 bytes are a private key. -/
def PrivateKey.ofBytes (bytes : Bytes) : Except CryptoError PrivateKey :=
  if h : bytes.length = privateKeySize then .ok ⟨⟨bytes, h⟩⟩
  else .error (.invalidKey bytes.length)

def PrivateKey.toHex (key : PrivateKey) : String := Bytes.toHex key.bytes.val

def PrivateKey.describe (_ : PrivateKey) : String := "PrivateKey(..)"

def KeyPair.ofPrivate (key : PrivateKey) : KeyPair := ⟨⟨scheme.publicKey key.bytes⟩, key⟩

def KeyPair.sign (keys : KeyPair) (payload : Bytes) : FixedBytes signatureSize :=
  scheme.sign keys.privateKey.bytes payload

def KeyPair.describe (keys : KeyPair) : String :=
  "Keys \x7b public_key: " ++ keys.publicKey.describe ++ ", private_key: " ++
    keys.privateKey.describe ++ " \x7d"

end Tether.Crypto
