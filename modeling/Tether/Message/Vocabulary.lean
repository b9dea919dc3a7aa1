import Tether.Wire.Codec

namespace Tether.Message

structure Entry (M : Type) where
  tag : UInt16
  name : String
  /-- Whether frames with this tag carry a key and a signature. -/
  authenticated : Bool
  /-- The reader of the payload. -/
  payload : Wire.Reader M

/-- The messages of one direction. -/
class Vocabulary (M : Type) where
  /-- One row per kind of message. -/
  table : List (Entry M)
  /-- The tag of a message. -/
  tag : M → UInt16
  /-- The payload of a message, without header. -/
  payload : M → Bytes

namespace Vocabulary

def lookup (M : Type) [Vocabulary M] (tag : UInt16) : Option (Entry M) :=
  (table (M := M)).find? fun entry => entry.tag == tag

def nameOf (M : Type) [Vocabulary M] (tag : UInt16) : String :=
  ((lookup M tag).map Entry.name).getD "unknown"

end Vocabulary

end Tether.Message
