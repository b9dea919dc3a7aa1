import Tether.Wire.Codec

namespace Tether

structure RequestId where
  byte : UInt8
  deriving DecidableEq, Repr, Inhabited

namespace RequestId

/-- The id of messages that belong to no request. -/
def none : RequestId := ⟨0⟩

def toNat (id : RequestId) : Nat := id.byte.toNat

def text (id : RequestId) : String := "#" ++ toString id.toNat

def codec : Wire.Codec RequestId := Wire.Codec.u8.wrap RequestId.mk RequestId.byte

theorem byte_inj {one other : RequestId} : one.byte = other.byte ↔ one = other := by
  cases one
  cases other
  simp

end RequestId

end Tether
