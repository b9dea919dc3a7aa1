import Tether.Transport.Duplex

namespace Tether.Transport

/-- A connector, its listener and the connections between them. -/
structure Loopback where
  lines : List Duplex
  /-- Connections whose peers the listener has not met yet. -/
  waiting : List Nat
  /-- How many of the next attempts fail. -/
  refusals : Nat
  /-- Whether there is a listener. -/
  listening : Bool
  /-- Whether there is a connector. -/
  connecting : Bool
  deriving DecidableEq, Repr

/-- What a listener finds when it looks for a peer. -/
inductive Accepted where
  /-- The peer of the connection with this number. -/
  | peer (line : Nat)
  | pending
  | ended
  deriving DecidableEq, Repr

namespace Loopback

def fresh : Loopback := ⟨[], [], 0, true, true⟩

def line? (loopback : Loopback) (number : Nat) : Option Duplex := loopback.lines[number]?

def update (loopback : Loopback) (number : Nat) (change : Duplex → Duplex) : Loopback :=
  { loopback with lines := loopback.lines.modify number change }

def refuse (loopback : Loopback) (count : Nat) : Loopback := { loopback with refusals := count }

/-- Open a connection. A refusal is used up before anything else is looked at. -/
def connect (loopback : Loopback) : Except TransportError Nat × Loopback :=
  if 0 < loopback.refusals then
    (.error (.connectFailed "memory connection refused"),
      { loopback with refusals := loopback.refusals - 1 })
  else if loopback.listening then
    let number := loopback.lines.length
    (.ok number, { loopback with
      lines := loopback.lines ++ [.fresh], waiting := loopback.waiting ++ [number] })
  else (.error (.connectFailed "memory listener dropped"), loopback)

/-- Meet the next peer. -/
def accept (loopback : Loopback) : Accepted × Loopback :=
  match loopback.waiting with
  | number :: rest => (.peer number, { loopback with waiting := rest })
  | [] => (if loopback.connecting then .pending else .ended, loopback)

/-- Let go of the listener, and with it of the peers it has not met. -/
def dropListener (loopback : Loopback) : Loopback :=
  let loopback := loopback.waiting.foldl (fun loopback number => loopback.update number .dropPeer)
    loopback
  { loopback with waiting := [], listening := false }

def dropConnector (loopback : Loopback) : Loopback := { loopback with connecting := false }

end Loopback

end Tether.Transport
