import Tether.Bytes

/-! Texts under keys, kept in the order of the keys' bytes. Keys with a common beginning stand
together, so listing them needs one pass from the first of them on. -/

namespace Tether

/-- Texts under keys, in the order of the keys. -/
structure Store where
  entries : List (String × String)
  deriving DecidableEq, Repr

namespace Store

def empty : Store := ⟨[]⟩

/-- Whether a key comes before another, byte by byte. -/
def before (left right : String) : Bool := decide (Bytes.ofText left < Bytes.ofText right)

/-- Whether a key begins with a text. -/
def beginsWith (key start : String) : Bool := (Bytes.ofText start).isPrefixOf (Bytes.ofText key)

/-- The text under a key. -/
def get? (store : Store) (key : String) : Option String := store.entries.lookup key

/-- Entries with one put in its place, instead of the one with the same key. -/
def insertEntry (key value : String) : List (String × String) → List (String × String)
  | [] => [(key, value)]
  | entry :: rest =>
    if entry.1 = key then (key, value) :: rest
    else if before key entry.1 then (key, value) :: entry :: rest
    else entry :: insertEntry key value rest

/-- Put a text under a key, instead of what was there. -/
def set (store : Store) (key value : String) : Store := ⟨insertEntry key value store.entries⟩

def remove (store : Store) (key : String) : Store :=
  ⟨store.entries.filter fun entry => entry.1 ≠ key⟩

def size (store : Store) : Nat := store.entries.length

/-- The texts under all keys with a common beginning, in the order of the keys: from the first key
that is not before the beginning up to the first that does not begin with it. -/
def list (store : Store) (start : String) : List String :=
  ((store.entries.dropWhile fun entry => before entry.1 start).takeWhile fun entry =>
    beginsWith entry.1 start).map Prod.snd

end Store

end Tether
