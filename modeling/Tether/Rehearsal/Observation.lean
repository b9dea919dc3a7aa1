import Tether.Rehearsal.Settle

namespace Tether.Rehearsal

open Message (ServerMessage)
open Transport (ClientFrame)

/-- What a peer saw of its client. -/
inductive Sight where
  | message (frame : Bytes)
  | close (code : UInt16) (reason : String)
  /-- The client let go of the connection. -/
  | gone
  deriving DecidableEq, Repr

/-- What a subscriber heard. -/
inductive Heard where
  | message (message : ServerMessage)
  /-- So many messages were lost, because too many waited. -/
  | missed (count : Nat)
  deriving DecidableEq, Repr

/-- What an application that holds the session can see of it. -/
structure View where
  state : Session.State
  /-- Requests that wait. -/
  pending : Nat
  /-- Frames that wait. -/
  queued : Nat
  clock : Session.ServerClock

/-- What could be observed of an act. -/
structure Observation where
  /-- How many sends of peers someone could still read, if peers sent. -/
  delivered : Option Nat
  /-- Peers that connected. -/
  accepted : List Nat
  /-- What peers saw. -/
  sights : List (Nat × Sight)
  /-- Calls that ended. -/
  done : List (String × CallResult)
  /-- What subscribers heard. -/
  heard : List (Nat × Heard)
  view : Option View

/-- Messages that a subscriber can have waiting before the oldest are lost. -/
def subscriberCapacity : Nat := 64

def meetPeers (world : World) : List Nat × World :=
  let fresh := world.network.waiting
  let known := world.peers.length
  (List.range' known fresh.length, { world with
    network := { world.network with waiting := [] }
    peers := world.peers ++ fresh.map fun line => ⟨line, false, false⟩ })

def sightOf : ClientFrame → Sight
  | .message frame => .message frame
  | .close code reason => .close code reason

/-- What a peer sees that it has not reported. -/
def lookAtPeer (world : World) (index : Nat) (peer : Peer) : List (Nat × Sight) × World :=
  match world.network.line? peer.line with
  | none => ([], world)
  | some line =>
    if peer.retired then ([], world)
    else
      let gone := line.clientGone && !peer.abandoned
      let sights := line.toPeer.map sightOf ++ if gone then [.gone] else []
      (sights.map fun sight => (index, sight), { world with
        network := world.network.update peer.line fun line => { line with toPeer := [] }
        peers := world.peers.set index { peer with abandoned := peer.abandoned || gone } })

/-- What all peers see that they have not reported. -/
def lookAtPeers (world : World) : List (Nat × Sight) × World :=
  world.peers.zipIdx.foldl (fun (sights, world) (peer, index) =>
    let (more, world) := lookAtPeer world index peer
    (sights ++ more, world)) ([], world)

/-- What a subscriber hears of the messages that waited for it. -/
def hear (unread : List ServerMessage) : List Heard :=
  let lost := unread.length - subscriberCapacity
  (if lost = 0 then [] else [.missed lost]) ++ (unread.drop lost).map Heard.message

/-- What can be observed now; it counts as observed afterwards. -/
def observe (rehearsal : Rehearsal) (delivered : Option Nat) : Observation × Rehearsal :=
  let (accepted, world) := meetPeers rehearsal.runner.world
  let (sights, world) := lookAtPeers world
  let core := rehearsal.runner.core
  let view : View :=
    ⟨rehearsal.runner.published, core.registry.size, core.outbox.size, rehearsal.clock⟩
  let observation : Observation := {
    delivered
    accepted
    sights
    done := rehearsal.calls.filterMap fun call =>
      call.freshResult?.map fun result => (call.name, result)
    heard := rehearsal.subscribers.zipIdx.flatMap fun (unread, index) =>
      (hear unread).map fun heard => (index, heard)
    view := if rehearsal.held then some view else none }
  (observation, { rehearsal.onWorld fun _ => world with
    calls := rehearsal.calls.map fun call =>
      { call with observed := call.observed || call.freshResult?.isSome }
    subscribers := rehearsal.subscribers.map fun _ => [] })

end Tether.Rehearsal
