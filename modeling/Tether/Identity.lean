import Tether.Crypto.Keys
import Tether.Store
import Tether.Text.Blank
import Tether.Text.Quoted

/-! The private key is kept in hexadecimal under one key of the store. On the first run a new one is
saved; what is there already is never overwritten, even if it is no key. -/

namespace Tether.Identity

open Crypto (KeyPair PrivateKey SignatureScheme)

/-- The key of the store that holds the private key. -/
def storeKey : String := "identity.private_key"

/-- A stored text that is no private key. -/
inductive Corruption where
  | notHex (cause : Bytes.HexError)
  | notKey (cause : Crypto.CryptoError)
  deriving DecidableEq, Repr

def Corruption.reason : Corruption → String
  | .notHex .oddLength => "Odd number of digits"
  | .notHex (.badDigit byte position) =>
    "Invalid character " ++ Text.quoteByte byte ++ " at position " ++ toString position
  | .notKey cause => cause.message

def Corruption.message (corruption : Corruption) : String :=
  "stored value for " ++ storeKey ++ " is corrupt: " ++ corruption.reason

def readKey (text : String) : Except Corruption PrivateKey := do
  let bytes ← (Bytes.ofHex (Bytes.ofText (Text.trim text))).mapError .notHex
  (PrivateKey.ofBytes bytes).mapError .notKey

variable (scheme : SignatureScheme)

def load (store : Store) : Except Corruption (Option KeyPair) :=
  match store.get? storeKey with
  | none => .ok none
  | some text => (readKey text).map fun key => some (KeyPair.ofPrivate scheme key)

def save (store : Store) (keys : KeyPair) : Store := store.set storeKey keys.privateKey.toHex

/-- The identity in the store; on the first run the one of a fresh private key, which is saved. -/
def loadOrCreate (fresh : PrivateKey) (store : Store) : Except Corruption (KeyPair × Store) := do
  match ← load scheme store with
  | some keys => return (keys, store)
  | none =>
    let keys := KeyPair.ofPrivate scheme fresh
    return (keys, save store keys)

end Tether.Identity
