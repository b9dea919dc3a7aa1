import Tether.Transport.Link

/-! Two queues between a client and its peer. Either end may close or vanish while the other still
has something to read. A close by the client overrides what the client has not read; a close or loss
by the peer is met only after it. -/

namespace Tether.Transport

/-- What a client puts on a connection. -/
inductive ClientFrame where
  | message (frame : Bytes)
  /-- The client closes the connection. -/
  | close (code : UInt16) (reason : String)
  deriving DecidableEq, Repr

structure Duplex where
  /-- Sent by the client and not read by the peer. -/
  toPeer : List ClientFrame
  /-- Sent by the peer and not read by the client. -/
  toClient : List Incoming
  /-- The first close by the client. -/
  localClose : Option CloseFrame
  /-- Whether the client has let go of its end. -/
  clientGone : Bool
  /-- Whether the peer has let go of its end. -/
  peerGone : Bool
  deriving DecidableEq, Repr

/-- What the peer finds when it looks for a frame. -/
inductive PeerRead where
  | frame (frame : ClientFrame)
  /-- Nothing yet. -/
  | pending
  /-- Nothing any more. -/
  | ended
  deriving DecidableEq, Repr

namespace Duplex

def fresh : Duplex := ⟨[], [], none, false, false⟩

def send (line : Duplex) (frame : Bytes) : Option TransportError × Duplex :=
  if line.localClose.isSome then (some (.connectionClosed "closed locally"), line)
  else if line.peerGone then (some (.connectionClosed "peer dropped"), line)
  else (none, { line with toPeer := line.toPeer ++ [.message frame] })

/-- Look for what arrived. None if there is nothing yet. -/
def receive (line : Duplex) : Option Incoming × Duplex :=
  match line.localClose with
  | some frame => (some (.closed frame), line)
  | none =>
    match line.toClient with
    | incoming :: rest => (some incoming, { line with toClient := rest })
    | [] => (if line.peerGone then some (.closed (.lost "peer dropped")) else none, line)

/-- Close the connection. Only the first close counts. -/
def close (line : Duplex) (code : UInt16) (reason : String) : Duplex :=
  if line.localClose.isSome then line
  else { line with
    toPeer := if line.peerGone then line.toPeer else line.toPeer ++ [.close code reason]
    localClose := some (.closed code reason) }

def dropClient (line : Duplex) : Duplex := { line with clientGone := true, toClient := [] }

/-- Send a message. False if there is no one to read it. -/
def peerSend (line : Duplex) (frame : Bytes) : Bool × Duplex :=
  if line.clientGone then (false, line)
  else (true, { line with toClient := line.toClient ++ [.message frame] })

def dropPeer (line : Duplex) : Duplex := { line with peerGone := true, toPeer := [] }

/-- Close the connection and let go of the peer's end. -/
def peerClose (line : Duplex) (code : UInt16) (reason : String) : Duplex :=
  let line := line.dropPeer
  if line.clientGone then line
  else { line with toClient := line.toClient ++ [.closed (.closed code reason)] }

/-- The reason of a peer that ends a connection in good order. -/
def peerFarewell : String := "bye"

def peerRead (line : Duplex) : PeerRead × Duplex :=
  match line.toPeer with
  | frame :: rest => (.frame frame, { line with toPeer := rest })
  | [] => (if line.clientGone then .ended else .pending, line)

end Duplex

end Tether.Transport
