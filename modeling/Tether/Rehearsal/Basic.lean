import Tether.Rehearsal.Call
import Tether.Rehearsal.World
import Tether.Session.ServerClock

/-! A session with calls upon it, in virtual time. Time stands still until everything that can run
has run: tasks are served in the order in which they were woken, each until it has to wait. Those
that wait for a state see the state of the moment in which they are served. -/

namespace Tether

open Rehearsal (Call Task World)
open Session (Outcome Runner ServerClock Settings Signing)
open Time (Instant Timestamp)

namespace Rehearsal

/-- Who waits for an answer. -/
inductive Caller where
  | call (index : Nat)
  | clockSync
  deriving DecidableEq, Repr

inductive Command where
  | flush
  | disconnect
  deriving DecidableEq, Repr

/-- How far the regular measurements have come. -/
inductive ClockSync where
  /-- There are none, or none any more. -/
  | off
  /-- Waiting for a connection. -/
  | watching
  /-- Its ping is under way, and may have been answered. -/
  | awaiting (since : Timestamp) (outcome : Option Outcome)
  | sleeping (due : Instant)
  deriving DecidableEq, Repr

end Rehearsal

open Rehearsal (Caller ClockSync Command)

/-- A session in rehearsal. -/
structure Rehearsal where
  settings : Settings
  signing : Signing
  runner : Runner Caller World
  /-- Whether the session has begun. -/
  begun : Bool
  /-- Whether the session has ended and nothing of it runs any more. -/
  ended : Bool
  /-- Commands that the session has not handled. -/
  commands : List Command
  /-- Whether more commands may come. -/
  commandsOpen : Bool
  /-- When to look for requests that have waited long enough. -/
  sweepAt : Instant
  /-- Virtual time. -/
  now : Instant
  calls : List Call
  /-- Whether the application holds the session, apart from calls that run. -/
  held : Bool
  clock : ServerClock
  clockSync : ClockSync
  /-- What each subscriber has not read. -/
  subscribers : List (List Message.ServerMessage)

namespace Rehearsal

/-- The wall clock when the steady clock started, in milliseconds since 1970. -/
def epoch : Nat := 1700000000000

/-- The steady clock at the start of a rehearsal: it has been running for a day. -/
def uptime : Instant := ⟨86400 * Time.nanosPerSecond⟩

def time (rehearsal : Rehearsal) : Timestamp :=
  ⟨UInt64.ofNat (epoch + rehearsal.now.nanos / 1000000)⟩

def outside (rehearsal : Rehearsal) : Session.Surroundings World :=
  ⟨World.carrier, rehearsal.signing, rehearsal.now, rehearsal.time⟩

def onWorld (rehearsal : Rehearsal) (change : World → World) : Rehearsal :=
  { rehearsal with runner := { rehearsal.runner with world := change rehearsal.runner.world } }

/-- Put a task in line. -/
def wake (rehearsal : Rehearsal) (task : Task) : Rehearsal :=
  rehearsal.onWorld fun world => world.wake task

def onCall (rehearsal : Rehearsal) (index : Nat) (change : Call → Call) : Rehearsal :=
  { rehearsal with calls := rehearsal.calls.modify index change }

/-- Whether anyone holds the session: the application, or a call that runs. -/
def isHeld (rehearsal : Rehearsal) : Bool := rehearsal.held || rehearsal.calls.any Call.isRunning

/-- Put the session in line if no one holds it any more. -/
def noticeRelease (rehearsal : Rehearsal) : Rehearsal :=
  if rehearsal.isHeld then rehearsal else rehearsal.wake .session

def command (rehearsal : Rehearsal) (command : Command) : Rehearsal :=
  if rehearsal.ended then rehearsal
  else { rehearsal with commands := rehearsal.commands ++ [command] }.wake .session

def withCore (rehearsal : Rehearsal) (core : Session.Core Caller) : Rehearsal :=
  { rehearsal with runner := { rehearsal.runner with core } }

end Rehearsal

end Tether
