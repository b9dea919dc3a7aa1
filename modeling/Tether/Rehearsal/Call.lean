import Tether.Message.Expectation
import Tether.Session.Core
import Tether.Session.Lifecycle

namespace Tether.Rehearsal

open Message (ClientMessage ServerMessage)
open Session (CallError Outcome)

/-- Something an application asks for. -/
inductive Demand where
  /-- Send a message and wait for its answer. -/
  | request (message : ClientMessage)
  /-- Send a message. -/
  | notify (message : ClientMessage)
  /-- Measure the server's clock. -/
  | syncClock
  /-- Wait for a state. -/
  | waitFor (state : Session.State)
  /-- End the session. -/
  | disconnect
  deriving DecidableEq, Repr

inductive CallResult where
  | answer (message : ServerMessage)
  | finished
  /-- The clock was measured; whether its offset is the largest there is. -/
  | measured (saturated : Bool)
  | failed (cause : CallError)
  /-- The session ended before it reached the state. -/
  | neverReached
  deriving DecidableEq, Repr

/-- How far a call has come. -/
inductive Stage where
  | new
  /-- Its request is under way, and may have ended. -/
  | awaiting (since : Time.Timestamp) (outcome : Option Outcome)
  /-- It waits for a state. -/
  | watching
  | done (result : CallResult)
  /-- The application does not want it any more. -/
  | abandoned
  deriving DecidableEq, Repr

structure Call where
  name : String
  demand : Demand
  stage : Stage
  /-- Whether its result was observed. -/
  observed : Bool
  deriving DecidableEq, Repr

namespace Call

def isRunning (call : Call) : Bool :=
  match call.stage with
  | .new => true
  | .awaiting _ _ => true
  | .watching => true
  | .done _ => false
  | .abandoned => false

def isWatching (call : Call) : Bool := call.stage == .watching

/-- The result to be observed, if there is one. -/
def freshResult? (call : Call) : Option CallResult :=
  match call.stage with
  | .done result => if call.observed then none else some result
  | _ => none

end Call

/-- The result of a request for which this message was sent. -/
def resultOf (message : ClientMessage) : Outcome → Except CallError Session.Reply
  | .reply reply =>
    if message.expectation.admits reply.message then .ok reply
    else .error (.request (.unexpected reply.message.tag))
  | .error cause => .error (.request cause)
  | .dropped => .error (.request .closed)

end Tether.Rehearsal
