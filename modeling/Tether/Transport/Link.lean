import Tether.Bytes

namespace Tether.Transport

namespace CloseCode

/-- An orderly end. -/
def normal : UInt16 := 1000

/-- The other side gave no code. -/
def absent : UInt16 := 1005

/-- The connection was lost without a close. -/
def lost : UInt16 := 1006

end CloseCode

/-- How a connection ended. -/
structure CloseFrame where
  code : UInt16
  reason : String
  /-- Whether there was a close handshake. -/
  clean : Bool
  deriving DecidableEq, Repr

namespace CloseFrame

def closed (code : UInt16) (reason : String) : CloseFrame := ⟨code, reason, true⟩

def lost (reason : String) : CloseFrame := ⟨CloseCode.lost, reason, false⟩

/-- Whether the close was meant as an orderly end. -/
def isNormal (frame : CloseFrame) : Bool := frame.code == CloseCode.normal

end CloseFrame

/-- What a connection brings next. -/
inductive Incoming where
  | message (frame : Bytes)
  /-- The end of the connection. -/
  | closed (frame : CloseFrame)
  deriving DecidableEq, Repr

/-- What can go wrong with a connection. -/
inductive TransportError where
  | connectFailed (reason : String)
  | connectionClosed (reason : String)
  | sendFailed (reason : String)
  | receiveFailed (reason : String)
  deriving DecidableEq, Repr

def TransportError.name : TransportError → String
  | .connectFailed _ => "ConnectFailed"
  | .connectionClosed _ => "ConnectionClosed"
  | .sendFailed _ => "SendFailed"
  | .receiveFailed _ => "ReceiveFailed"

def TransportError.message : TransportError → String
  | .connectFailed reason => "connect failed: " ++ reason
  | .connectionClosed reason => "connection closed: " ++ reason
  | .sendFailed reason => "send failed: " ++ reason
  | .receiveFailed reason => "receive failed: " ++ reason

/-- The number of a connection. Each connection has a number of its own. -/
structure ConnectionId where
  number : UInt64
  deriving DecidableEq, Repr, Inhabited

namespace ConnectionId

def text (id : ConnectionId) : String := "conn-" ++ toString id.number.toNat

def next (id : ConnectionId) : ConnectionId := ⟨id.number + 1⟩

def first : ConnectionId := ⟨1⟩

end ConnectionId

end Tether.Transport
