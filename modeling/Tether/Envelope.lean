import Tether.Message.Client
import Tether.Message.Server

/-! A frame is a tag of two bytes, a request id of one byte, for signed tags a public key and a
signature, and the payload. The signature covers tag, id and payload: the frame as it would look
unsigned. A signed payload is looked at only after its signature was found right. -/

namespace Tether

open Message (Vocabulary)
open Crypto (CryptoError KeyPair PublicKey SignatureScheme)

/-- Why a message has no frame, or a frame no message. -/
inductive FrameError where
  /-- The bytes are not laid out as their tag demands. -/
  | malformed (cause : Wire.Malformed)
  /-- The tag stands for no message of this direction. -/
  | unknownTag (tag : UInt16)
  /-- The signature is not the key's signature of this frame. -/
  | badSignature
  /-- A message of this tag must be signed, and there is nothing to sign it with. -/
  | missingKeys (tag : UInt16)
  /-- The key in the frame is no key. -/
  | key (cause : CryptoError)
  deriving DecidableEq, Repr

def FrameError.name : FrameError → String
  | .malformed _ => "BadData"
  | .unknownTag _ => "UnknownTag"
  | .badSignature => "BadSignature"
  | .missingKeys _ => "MissingKeys"
  | .key _ => "Key"

def FrameError.message : FrameError → String
  | .malformed cause => "bad data: " ++ cause.message
  | .unknownTag tag => "unknown message tag " ++ toString tag.toNat
  | .badSignature => "signature verification failed"
  | .missingKeys tag =>
    "message tag " ++ toString tag.toNat ++ " must be signed but no keys were supplied"
  | .key cause => "invalid embedded key: " ++ cause.message

structure Envelope (M : Type) where
  tag : UInt16
  requestId : RequestId
  /-- The key whose signature was found right, for a signed frame. -/
  signer : Option PublicKey
  message : M
  deriving DecidableEq, Repr

namespace Envelope

def header (tag : UInt16) (id : RequestId) : Bytes :=
  Wire.Codec.u16.write tag ++ RequestId.codec.write id

/-- What a signature covers. -/
def signedPart (tag : UInt16) (id : RequestId) (payload : Bytes) : Bytes := header tag id ++ payload

variable {M : Type} [Vocabulary M] (scheme : SignatureScheme)

def encode (message : M) (id : RequestId) (keys : Option KeyPair) : Except FrameError Bytes :=
  let tag := Vocabulary.tag message
  let payload := Vocabulary.payload message
  match Vocabulary.lookup M tag with
  | none => .error (.unknownTag tag)
  | some entry =>
    if entry.authenticated then
      match keys with
      | none => .error (.missingKeys tag)
      | some keys =>
        let signature := keys.sign scheme (signedPart tag id payload)
        .ok (header tag id ++ keys.publicKey.bytes.val ++ signature.val ++ payload)
    else .ok (header tag id ++ payload)

/-- Run a reader on the next bytes of a frame. -/
def next {α : Type} (reader : Wire.Reader α) (bytes : Bytes) : Except FrameError (α × Bytes) :=
  match reader.run bytes with
  | (.ok value, rest) => .ok (value, rest)
  | (.error cause, _) => .error (.malformed cause)

/-- The signer of the rest of a frame after its header, and the payload. -/
def authenticate (tag : UInt16) (id : RequestId) (bytes : Bytes) :
    Except FrameError (PublicKey × Bytes) := do
  let (key, bytes) ← next (Wire.Reader.bytes Crypto.publicKeySize "public key") bytes
  let (signature, payload) ← next (Wire.Reader.bytes Crypto.signatureSize "signature") bytes
  let key ← (PublicKey.ofBytes scheme key.val).mapError .key
  if key.verify scheme (signedPart tag id payload) signature.val then .ok (key, payload)
  else .error .badSignature

/-- The message in a frame. -/
def decode (M : Type) [Vocabulary M] (bytes : Bytes) : Except FrameError (Envelope M) := do
  let (tag, bytes) ← next Wire.Codec.u16.read bytes
  match Vocabulary.lookup M tag with
  | none => .error (.unknownTag tag)
  | some entry =>
    let (id, bytes) ← next RequestId.codec.read bytes
    if entry.authenticated then
      let (signer, payload) ← authenticate scheme tag id bytes
      let message ← (entry.payload.runAll payload).mapError .malformed
      return ⟨tag, id, some signer, message⟩
    else
      let message ← (entry.payload.runAll bytes).mapError .malformed
      return ⟨tag, id, none, message⟩

/-- The request id of a frame, without decoding it. A frame too short to have one belongs to no
request. -/
def requestIdOf (bytes : Bytes) : RequestId := ((bytes[2]?).map RequestId.mk).getD .none

/-- The tag of a frame, without decoding it. -/
def tagOf? : Bytes → Option UInt16
  | high :: low :: _ => some (UInt16.ofNat (high.toNat * 256 + low.toNat))
  | _ => none

end Envelope

/-- The fault that answers a frame with an error in it. -/
def FrameError.reply (error : FrameError) (tag : UInt16) (id : RequestId) : Message.Fault where
  code := .serialization
  description := "Data is invalid and cannot be processed"
  context := some error.message
  requestId := id
  messageTag := tag
  recoverable := false

end Tether
