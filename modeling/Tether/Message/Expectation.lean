import Tether.Message.Client
import Tether.Message.Server

namespace Tether.Message

/-- What an answer has to be for its request to succeed. -/
inductive Expectation where
  | status
  | decay
  /-- Any message at all. -/
  | anything
  deriving DecidableEq, Repr

/-- Whether an answer is what was expected. -/
def Expectation.admits : Expectation → ServerMessage → Bool
  | .status, .status _ => true
  | .decay, .decay _ => true
  | .anything, _ => true
  | _, _ => false

/-- The answer that a message asks for. -/
def ClientMessage.expectation : ClientMessage → Expectation
  | .ping => .status
  | .decayQuery => .decay
  | .identity _ => .anything

end Tether.Message
