import Tether.Crypto.SafeText
import Tether.Message.Vocabulary

namespace Tether.Message

open Wire (Codec)

inductive ClientMessage where
  /-- A sign of life and a probe of the server's clock. -/
  | ping
  /-- A question for the player's current decay. -/
  | decayQuery
  /-- The player's display name. -/
  | identity (name : Crypto.SafeText)
  deriving DecidableEq, Repr

namespace ClientMessage

/-- Pings are tag 0, decay questions tag 2, display names tag 3; the last two are signed. -/
instance : Vocabulary ClientMessage where
  table :=
    [ ⟨0, "ping", false, .done .ping⟩,
      ⟨2, "decay-query", true, .done .decayQuery⟩,
      ⟨3, "identity", true, do return .identity (← Crypto.SafeText.codec.read)⟩ ]
  tag
    | .ping => 0
    | .decayQuery => 2
    | .identity _ => 3
  payload
    | .ping => []
    | .decayQuery => []
    | .identity name => Crypto.SafeText.codec.write name

end ClientMessage

end Tether.Message
