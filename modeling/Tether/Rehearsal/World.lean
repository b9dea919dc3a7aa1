import Tether.Session.Runner
import Tether.Transport.Loopback

/-! Peers behind a loopback, a gate that can hold connection attempts back, and failures on demand.
Whatever has something to do stands in a line of tasks and is served in order. -/

namespace Tether.Rehearsal

open Session (Carrier TransportEvent)
open Transport (ConnectionId Duplex Loopback TransportError)

/-- Something that runs until it has to wait. -/
inductive Task where
  | session
  /-- A connection attempt. -/
  | attempt (number : Nat)
  /-- Reporting what arrives on a connection. -/
  | reader (line : Nat)
  /-- A call of the application. -/
  | call (index : Nat)
  /-- Regular measurements of the server's clock. -/
  | clockSync
  deriving DecidableEq, Repr

/-- The other side of the loopback, as the script plays it. -/
structure Peer where
  /-- The number of its connection. -/
  line : Nat
  /-- Whether the script has ended it; then it reports nothing more. -/
  retired : Bool
  /-- Whether it has reported that the client let go. -/
  abandoned : Bool
  deriving DecidableEq, Repr

/-- Everything outside the session. -/
structure World where
  network : Loopback
  /-- The peers met so far. -/
  peers : List Peer
  /-- How many attempts may still pass the gate, if there is one. -/
  permits : Option Nat
  /-- Attempts that have not passed the gate. -/
  attempts : List Nat
  /-- How many attempts were ever made. -/
  attemptCount : Nat
  /-- Connections whose arrivals are being reported. -/
  readers : List Nat
  /-- Of these, the ones whose next look fails. -/
  failing : List Nat
  sendBroken : Bool
  closeBroken : Bool
  /-- Reports that the session has not handled. -/
  events : List TransportEvent
  /-- Tasks that have something to do. -/
  ready : List Task

namespace World

/-- A world before the session begins. -/
def fresh (permits : Option Nat) (refusals : Nat) : World where
  network := Loopback.fresh.refuse refusals
  peers := []
  permits := permits
  attempts := []
  attemptCount := 0
  readers := []
  failing := []
  sendBroken := false
  closeBroken := false
  events := []
  ready := []

def idOf (line : Nat) : ConnectionId := ⟨UInt64.ofNat (line + 1)⟩

def lineOf (id : ConnectionId) : Nat := id.number.toNat - 1

/-- Put a task in line, unless it stands there already. -/
def wake (world : World) (task : Task) : World :=
  if task ∈ world.ready then world else { world with ready := world.ready ++ [task] }

/-- Put a connection's reader in line, if it has one. -/
def wakeReader (world : World) (line : Nat) : World :=
  if line ∈ world.readers then world.wake (.reader line) else world

def report (world : World) (event : TransportEvent) : World :=
  { world with events := world.events ++ [event] }.wake .session

/-- Let go of the client's end of a connection. -/
def dropLine (world : World) (line : Nat) : World :=
  { world with network := world.network.update line Duplex.dropClient }

/-- What the session can do to the world. -/
def carrier : Carrier World where
  dial world :=
    let number := world.attemptCount
    { world with attemptCount := number + 1, attempts := world.attempts ++ [number] }.wake
      (.attempt number)
  listen id world :=
    { world with readers := world.readers ++ [lineOf id] }.wake (.reader (lineOf id))
  send id frame world :=
    if world.sendBroken then (some (.sendFailed "broken"), world)
    else
      match world.network.line? (lineOf id) with
      | none => (some (.connectionClosed "unknown connection"), world)
      | some line =>
        let (failure, line) := line.send frame
        (failure, { world with network := world.network.update (lineOf id) fun _ => line })
  close id code reason world :=
    if world.closeBroken then (some (.sendFailed "broken"), world)
    else
      let network := world.network.update (lineOf id) fun line => line.close code reason
      (none, { world with network }.wakeReader (lineOf id))
  letGo id world :=
    let world := world.dropLine (lineOf id)
    { world with readers := world.readers.filter (· ≠ lineOf id) }

/-- Run a connection attempt: wait at the gate, then connect. What opens for a session that is over
is let go at once. -/
def runAttempt (sessionOver : Bool) (number : Nat) (world : World) : World :=
  if number ∉ world.attempts ∨ world.permits = some 0 then world
  else
    let world :=
      { world with
        permits := world.permits.map (· - 1), attempts := world.attempts.filter (· ≠ number) }
    let (result, network) := world.network.connect
    let world := { world with network }
    match result with
    | .ok line =>
      if sessionOver then world.dropLine line else world.report (.opened (idOf line))
    | .error failure => if sessionOver then world else world.report (.refused failure.message)

/-- Report what arrived on a connection, up to its end. A look that is to fail does so only if there
is nothing to find. -/
def runReader (line : Nat) : (patience : Nat) → World → World
  | 0, world => world
  | patience + 1, world =>
    let fails := line ∈ world.failing
    let world := { world with failing := world.failing.filter (· ≠ line) }
    let ended := { world with readers := world.readers.filter (· ≠ line) }
    if line ∉ world.readers then world
    else
      match world.network.line? line with
      | none => ended
      | some duplex =>
        match duplex.receive with
        | (none, _) =>
          if fails then
            ended.report (.failed (idOf line) (TransportError.receiveFailed "broken").message)
          else world
        | (some (.message frame), duplex) =>
          let network := world.network.update line fun _ => duplex
          runReader line patience ({ world with network }.report (.message (idOf line) frame))
        | (some (.closed frame), _) => ended.report (.closed (idOf line) frame)

def openGate (world : World) (count : Nat) : World :=
  let world := { world with permits := world.permits.map (· + count) }
  world.attempts.foldl (fun world number => world.wake (.attempt number)) world

/-- The connection of a peer that the script has not ended. -/
def lineOfPeer? (world : World) (peer : Nat) : Option Nat :=
  world.peers[peer]?.bind fun entry => if entry.retired then none else some entry.line

/-- Do something with a peer's connection, and let its reader look. -/
def withPeer (world : World) (peer : Nat) (change : Duplex → Duplex) : World :=
  match world.lineOfPeer? peer with
  | none => world
  | some line => { world with network := world.network.update line change }.wakeReader line

def dropListener (world : World) : World :=
  let network := world.network.dropListener
  world.network.waiting.foldl wakeReader { world with network }

/-- The script ends a peer. -/
def retire (world : World) (peer : Nat) : World :=
  { world with peers := world.peers.modify peer fun entry => { entry with retired := true } }

/-- Send a frame from a peer so many times; how many of them someone can still read. -/
def peerSend (world : World) (peer : Nat) (frame : Bytes) : (count : Nat) → Nat × World
  | 0 => (0, world)
  | count + 1 =>
    match (world.lineOfPeer? peer).bind world.network.line? with
    | none => (0, world)
    | some line =>
      let (delivered, line) := line.peerSend frame
      let (more, world) := peerSend (world.withPeer peer fun _ => line) peer frame count
      ((if delivered then 1 else 0) + more, world)

end World

end Tether.Rehearsal
