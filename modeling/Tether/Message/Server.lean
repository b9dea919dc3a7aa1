import Tether.Message.RequestId
import Tether.Message.Vocabulary
import Tether.Time.Timestamp

namespace Tether.Message

open Wire (Codec)

inductive Status where
  | ok
  deriving DecidableEq, Repr

def Status.codec : Codec Status where
  write
    | .ok => Codec.u8.write 0
  read := do
    match ← Codec.u8.read with
    | 0 => return .ok
    | byte => .fail (.statusByte byte)

structure ServerStatus where
  timestamp : Time.ServerTimestamp
  status : Status
  deriving DecidableEq, Repr

/-- Clock, then health. -/
def ServerStatus.codec : Codec ServerStatus where
  write value := Time.ServerTimestamp.codec.write value.timestamp ++ Status.codec.write value.status
  read := do
    let timestamp ← Time.ServerTimestamp.codec.read
    let status ← Status.codec.read
    return ⟨timestamp, status⟩

structure Decay where
  startedAt : Time.ServerTimestamp
  length : Time.Duration
  deriving DecidableEq, Repr

/-- Start, then length. -/
def Decay.codec : Codec Decay where
  write value :=
    Time.ServerTimestamp.codec.write value.startedAt ++ Time.Duration.codec.write value.length
  read := do
    let startedAt ← Time.ServerTimestamp.codec.read
    let length ← Time.Duration.codec.read
    return ⟨startedAt, length⟩

inductive FaultCode where
  | authentication
  | serialization
  | invalidData
  | io
  | server
  deriving DecidableEq, Repr

namespace FaultCode

def name : FaultCode → String
  | .authentication => "AuthenticationError"
  | .serialization => "SerializationError"
  | .invalidData => "InvalidData"
  | .io => "IoError"
  | .server => "ServerError"

def all : List FaultCode := [.authentication, .serialization, .invalidData, .io, .server]

def ofName? (name : String) : Option FaultCode := all.find? fun code => code.name == name

def byte : FaultCode → UInt8
  | .authentication => 0
  | .serialization => 1
  | .invalidData => 2
  | .io => 3
  | .server => 4

def codec : Codec FaultCode where
  write code := Codec.u8.write code.byte
  read := do
    match ← Codec.u8.read with
    | 0 => return .authentication
    | 1 => return .serialization
    | 2 => return .invalidData
    | 3 => return .io
    | 4 => return .server
    | byte => .fail (.faultCodeByte byte)

end FaultCode

structure Fault where
  code : FaultCode
  description : String
  context : Option String
  /-- The request at fault, by the server's account. -/
  requestId : RequestId
  /-- The tag of the message at fault. -/
  messageTag : UInt16
  recoverable : Bool
  deriving DecidableEq, Repr

namespace Fault

def text (fault : Fault) : String :=
  "server error " ++ fault.code.name ++ " for tag " ++ toString fault.messageTag.toNat ++ ": " ++
    fault.description

def codec : Codec Fault where
  write fault :=
    FaultCode.codec.write fault.code ++ Codec.text.write fault.description ++
      Codec.text.option.write fault.context ++ RequestId.codec.write fault.requestId ++
      Codec.u16.write fault.messageTag ++ Codec.flag.write fault.recoverable
  read := do
    let code ← FaultCode.codec.read
    let description ← Codec.text.read
    let context ← Codec.text.option.read
    let requestId ← RequestId.codec.read
    let messageTag ← Codec.u16.read
    let recoverable ← Codec.flag.read
    return ⟨code, description, context, requestId, messageTag, recoverable⟩

end Fault

inductive ServerMessage where
  | status (status : ServerStatus)
  | decay (decay : Decay)
  | fault (fault : Fault)
  deriving DecidableEq, Repr

namespace ServerMessage

/-- Health is tag 1, decay tag 2, faults tag 3; none is signed. -/
instance : Vocabulary ServerMessage where
  table :=
    [ ⟨1, "server-status", false, do return .status (← ServerStatus.codec.read)⟩,
      ⟨2, "decay", false, do return .decay (← Decay.codec.read)⟩,
      ⟨3, "server-error", false, do return .fault (← Fault.codec.read)⟩ ]
  tag
    | .status _ => 1
    | .decay _ => 2
    | .fault _ => 3
  payload
    | .status value => ServerStatus.codec.write value
    | .decay value => Decay.codec.write value
    | .fault value => Fault.codec.write value

def tag (message : ServerMessage) : UInt16 := Vocabulary.tag message

end ServerMessage

end Tether.Message
