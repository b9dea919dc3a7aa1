import Tether.Session.Backoff
import Tether.Transport.Link

namespace Tether.Session

open Transport (CloseFrame)

/-- Where a session stands. -/
inductive State where
  /-- Without connection: at the start, and while a delay runs before the next attempt. -/
  | disconnected
  /-- A connection attempt is under way. -/
  | connecting
  /-- The connection is open. -/
  | connected
  /-- The session is being ended. -/
  | closing
  /-- The session is over. -/
  | closed
  deriving DecidableEq, Repr, Inhabited

namespace State

def all : List State := [.disconnected, .connecting, .connected, .closing, .closed]

def name : State → String
  | .disconnected => "Disconnected"
  | .connecting => "Connecting"
  | .connected => "Connected"
  | .closing => "Closing"
  | .closed => "Closed"

def ofName? (name : String) : Option State := all.find? fun state => state.name == name

end State

/-- Something that happens to a session. -/
inductive Event where
  /-- The application wants a connection. -/
  | connect
  /-- A connection attempt succeeded. -/
  | opened
  /-- An attempt or the connection failed. -/
  | failed (reason : String)
  /-- The connection was closed. -/
  | closed (frame : CloseFrame)
  /-- The delay before the next attempt is over. -/
  | delayElapsed
  /-- The application wants to end the session. -/
  | disconnect
  /-- A frame arrived. -/
  | message (frame : Bytes)
  deriving DecidableEq, Repr

/-- Something to be done after an event. -/
inductive Action where
  /-- Start a connection attempt. -/
  | openTransport
  /-- Send what waits in the outbox. -/
  | flushQueue
  /-- Put requests that were sent but not answered back into the outbox. -/
  | requeueUnanswered
  /-- Start the delay before the next attempt. -/
  | scheduleReconnect (delay : Time.Interval)
  /-- Stop that delay. -/
  | cancelReconnect
  /-- Close the connection. -/
  | closeTransport (code : UInt16) (reason : String)
  /-- Let go of the connection. -/
  | dropTransport
  /-- Hand a frame to whom it concerns. -/
  | dispatch (frame : Bytes)
  /-- Fail all waiting requests and empty the outbox. -/
  | failPending
  deriving DecidableEq, Repr

/-- The machine behind a session. -/
structure Lifecycle where
  state : State
  backoff : Backoff
  /-- Whether unanswered requests are sent again. -/
  resend : Bool
  /-- Failures since a connection was last open, as far as 32 bits count. -/
  failures : UInt32
  deriving DecidableEq, Repr

namespace Lifecycle

/-- The reason given when the application ends a session. -/
def farewell : String := "client disconnect"

/-- A machine at its start. -/
def start (backoff : Backoff) (resend : Bool) : Lifecycle := ⟨.disconnected, backoff, resend, 0⟩

/-- Close the connection for good. -/
def closeForGood : Action := .closeTransport Transport.CloseCode.normal farewell

/-- The delay that is now due. -/
def delay (machine : Lifecycle) : Time.Interval := machine.backoff.delay machine.failures.toNat

/-- The machine without connection after one more failure. -/
def failing (machine : Lifecycle) : Lifecycle :=
  { machine with
    state := .disconnected
    failures := if machine.failures = 0xffffffff then machine.failures else machine.failures + 1 }

/-- What is done when an open connection is lost. -/
def onLoss (machine : Lifecycle) : List Action :=
  .dropTransport :: (if machine.resend then [.requeueUnanswered] else []) ++
    [.scheduleReconnect machine.delay]

/-- The machine after an event, and what is to be done, in order. Events that mean nothing in a
state are passed over. -/
def handle (machine : Lifecycle) (event : Event) : Lifecycle × List Action :=
  match machine.state, event with
  | .disconnected, .connect => ({ machine with state := .connecting }, [.openTransport])
  | .disconnected, .delayElapsed => ({ machine with state := .connecting }, [.openTransport])
  | .disconnected, .disconnect =>
    ({ machine with state := .closed }, [.cancelReconnect, .failPending])
  | .connecting, .opened =>
    ({ machine with state := .connected, failures := 0 }, [.flushQueue])
  | .connecting, .failed _ =>
    (machine.failing, [.dropTransport, .scheduleReconnect machine.delay])
  | .connecting, .closed _ =>
    (machine.failing, [.dropTransport, .scheduleReconnect machine.delay])
  | .connecting, .disconnect =>
    ({ machine with state := .closing }, [.cancelReconnect, .failPending])
  | .connected, .message frame => (machine, [.dispatch frame])
  | .connected, .closed frame =>
    if frame.isNormal then ({ machine with state := .closed }, [.dropTransport, .failPending])
    else (machine.failing, machine.onLoss)
  | .connected, .failed _ => (machine.failing, machine.onLoss)
  | .connected, .disconnect =>
    ({ machine with state := .closing }, [.cancelReconnect, closeForGood, .failPending])
  | .closing, .opened => (machine, [closeForGood])
  | .closing, .closed _ => ({ machine with state := .closed }, [.dropTransport])
  | .closing, .failed _ => ({ machine with state := .closed }, [.dropTransport])
  | _, _ => (machine, [])

/-- The machine after events in a row, and the actions of each. -/
def run (machine : Lifecycle) : List Event → Lifecycle × List (List Action)
  | [] => (machine, [])
  | event :: events =>
    let (next, actions) := machine.handle event
    let (last, more) := run next events
    (last, actions :: more)

end Lifecycle

end Tether.Session
