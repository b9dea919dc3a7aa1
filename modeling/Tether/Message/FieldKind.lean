import Tether.Message.Client
import Tether.Message.Server

namespace Tether.Message

open Wire (Codec)

inductive FieldKind where
  | u8
  | u16
  | u32
  | u64
  | flag
  | text
  | safeText
  | timestamp
  | serverTimestamp
  | duration
  | status
  | faultCode
  | ping
  | decayQuery
  | identity
  | serverStatus
  | decay
  | fault
  | option (kind : FieldKind)
  deriving DecidableEq, Repr

namespace FieldKind

/-- The values of a kind. A ping and a decay question have nothing in their payload. -/
abbrev Value : FieldKind → Type
  | .u8 => UInt8
  | .u16 => UInt16
  | .u32 => UInt32
  | .u64 => UInt64
  | .flag => Bool
  | .text => String
  | .safeText => Crypto.SafeText
  | .timestamp => Time.Timestamp
  | .serverTimestamp => Time.ServerTimestamp
  | .duration => Time.Duration
  | .status => Status
  | .faultCode => FaultCode
  | .ping => Unit
  | .decayQuery => Unit
  | .identity => Crypto.SafeText
  | .serverStatus => ServerStatus
  | .decay => Decay
  | .fault => Fault
  | .option kind => Option kind.Value

def codec : (kind : FieldKind) → Codec kind.Value
  | .u8 => Codec.u8
  | .u16 => Codec.u16
  | .u32 => Codec.u32
  | .u64 => Codec.u64
  | .flag => Codec.flag
  | .text => Codec.text
  | .safeText => Crypto.SafeText.codec
  | .timestamp => Time.Timestamp.codec
  | .serverTimestamp => Time.ServerTimestamp.codec
  | .duration => Time.Duration.codec
  | .status => Status.codec
  | .faultCode => FaultCode.codec
  | .ping => Codec.unit ()
  | .decayQuery => Codec.unit ()
  | .identity => Crypto.SafeText.codec
  | .serverStatus => ServerStatus.codec
  | .decay => Decay.codec
  | .fault => Fault.codec
  | .option kind => Codec.option kind.codec

end FieldKind

/-- A value together with its kind. -/
structure Field where
  kind : FieldKind
  value : kind.Value

def Field.bytes (field : Field) : Bytes := field.kind.codec.write field.value

def Field.read (kind : FieldKind) : Wire.Reader Field := do return ⟨kind, ← kind.codec.read⟩

/-- The encodings of fields in a row. -/
def Field.writeAll (fields : List Field) : Bytes := fields.flatMap Field.bytes

def Field.readAll : List FieldKind → Wire.Reader (List Field)
  | [] => .done []
  | kind :: kinds => do
    let field ← Field.read kind
    let fields ← Field.readAll kinds
    return field :: fields

end Tether.Message
