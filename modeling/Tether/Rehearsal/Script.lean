import Tether.Rehearsal.Observation

namespace Tether.Rehearsal

inductive Act where
  /-- The application makes a call so many times, under these names. -/
  | call (names : List String) (demand : Demand)
  /-- The application gives up its latest call of a name. -/
  | abandon (name : String)
  /-- The application begins to listen. -/
  | subscribe
  /-- A peer sends a frame so many times. -/
  | send (peer : Nat) (frame : Bytes) (count : Nat)
  /-- A peer closes its connection. -/
  | close (peer : Nat) (code : UInt16) (reason : String)
  /-- A peer vanishes. -/
  | vanish (peer : Nat)
  /-- The next connection attempts are refused. -/
  | refuse (count : Nat)
  /-- No one listens for connections any more. -/
  | dropListener
  /-- Sending fails, or works again. -/
  | breakSend (broken : Bool)
  /-- Closing fails, or works again. -/
  | breakClose (broken : Bool)
  /-- Waiting for what arrives fails once. -/
  | breakReceive
  /-- Connection attempts pass the gate. -/
  | openGate (count : Nat)
  /-- The application lets go of the session. -/
  | release
  /-- Time passes. -/
  | advance (millis : Nat)
  /-- Acts without anything happening in between. -/
  | together (acts : List Act)

/-- The longest time that passes at once. -/
def tick : Nat := 10

/-- Let time pass in ticks, and everything happen after each. -/
def passTime (rehearsal : Rehearsal) (millis : Nat) : Rehearsal :=
  if millis = 0 then rehearsal
  else
    let span := min millis tick
    let rehearsal := { rehearsal with now := rehearsal.now.plus (.ofMillis span) }
    passTime ((rehearsal.wake .session).wake .clockSync).settle (millis - span)
termination_by millis
decreasing_by simp only [tick]; omega

def makeCall (rehearsal : Rehearsal) (name : String) (demand : Demand) : Rehearsal :=
  let index := rehearsal.calls.length
  let call : Call := ⟨name, demand, .new, false⟩
  { rehearsal with calls := rehearsal.calls ++ [call] }.wake (.call index)

/-- The place of the latest call of a name. -/
def latest? (calls : List Call) (name : String) : Option Nat :=
  ((calls.zipIdx.filter fun entry => entry.1.name = name).getLast?).map Prod.snd

/-- Give up the call at a place, if it still runs. -/
def abandonCall (rehearsal : Rehearsal) (index : Nat) : Rehearsal :=
  if rehearsal.calls[index]?.any Call.isRunning then
    let core := rehearsal.runner.core
    let registry := core.registry.abandon (.call index)
    ((rehearsal.withCore { core with registry }).onCall index fun call =>
      { call with stage := .abandoned }).noticeRelease
  else rehearsal

mutual

/-- The rehearsal after an act, before anything follows from it, and how many sends of peers someone
could still read. -/
def act (rehearsal : Rehearsal) : Act → Rehearsal × Option Nat
  | .call names demand =>
    (names.foldl (fun rehearsal name => makeCall rehearsal name demand) rehearsal, none)
  | .abandon name =>
    (((latest? rehearsal.calls name).map (abandonCall rehearsal)).getD rehearsal, none)
  | .subscribe => ({ rehearsal with subscribers := rehearsal.subscribers ++ [[]] }, none)
  | .send peer frame count =>
    let (delivered, world) := rehearsal.runner.world.peerSend peer frame count
    (rehearsal.onWorld fun _ => world, some delivered)
  | .close peer code reason =>
    (rehearsal.onWorld fun world =>
      (world.withPeer peer fun line => line.peerClose code reason).retire peer, none)
  | .vanish peer =>
    (rehearsal.onWorld fun world =>
      (world.withPeer peer fun line => line.dropPeer).retire peer, none)
  | .refuse count =>
    (rehearsal.onWorld fun world => { world with network := world.network.refuse count }, none)
  | .dropListener => (rehearsal.onWorld World.dropListener, none)
  | .breakSend broken => (rehearsal.onWorld fun world => { world with sendBroken := broken }, none)
  | .breakClose broken =>
    (rehearsal.onWorld fun world => { world with closeBroken := broken }, none)
  | .breakReceive =>
    (rehearsal.onWorld fun world =>
      world.readers.foldl World.wakeReader { world with failing := world.readers }, none)
  | .openGate count => (rehearsal.onWorld fun world => world.openGate count, none)
  | .release => ({ rehearsal with held := false }.noticeRelease, none)
  | .advance millis => (passTime rehearsal millis, none)
  | .together acts => actAll rehearsal none acts

/-- The rehearsal after acts, before anything follows from them; of several counts of sends the
last. -/
def actAll (rehearsal : Rehearsal) (delivered : Option Nat) : List Act → Rehearsal × Option Nat
  | [] => (rehearsal, delivered)
  | first :: rest =>
    let (rehearsal, count) := act rehearsal first
    actAll rehearsal (count.orElse fun _ => delivered) rest

end

def play (rehearsal : Rehearsal) (next : Act) : Observation × Rehearsal :=
  let (rehearsal, delivered) := act rehearsal next
  observe rehearsal.settle delivered

def playAll (rehearsal : Rehearsal) : List Act → List Observation
  | [] => []
  | next :: rest =>
    let (observation, rehearsal) := play rehearsal next
    observation :: playAll rehearsal rest

/-- What can be observed of a script from the start of the session on. -/
def observations (rehearsal : Rehearsal) (acts : List Act) : List Observation :=
  let (observation, rehearsal) := observe rehearsal none
  observation :: playAll rehearsal acts

end Tether.Rehearsal
