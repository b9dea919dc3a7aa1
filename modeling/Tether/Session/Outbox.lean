import Tether.Session.Error
import Tether.Transport.Link

/-! Frames wait here for a connection, first come, first sent. A flush takes out a frame only after
the connection took it. A frame leaves unsent if its request is swept, or when the session ends. -/

namespace Tether.Session

open Transport (TransportError)

/-- A frame that waits to be sent. -/
structure QueuedFrame where
  /-- The id in the frame, or the id of no request. -/
  id : RequestId
  bytes : Bytes
  deriving DecidableEq, Repr

/-- Frames in the order in which they are to be sent. -/
structure Outbox where
  /-- How many frames may wait before more are refused. -/
  capacity : Nat
  frames : List QueuedFrame
  deriving DecidableEq, Repr

/-- How far a flush came. -/
structure Flushed where
  /-- Frames that were written. -/
  written : Nat
  /-- The failure that stopped it. -/
  failure : Option TransportError
  deriving DecidableEq, Repr

namespace Outbox

def empty (capacity : Nat) : Outbox := ⟨capacity, []⟩

def size (outbox : Outbox) : Nat := outbox.frames.length

/-- Let a frame wait behind the others. -/
def enqueue (outbox : Outbox) (frame : QueuedFrame) : Except SessionError Outbox :=
  if outbox.capacity ≤ outbox.size then .error .queueFull
  else .ok { outbox with frames := outbox.frames ++ [frame] }

/-- Put frames before the others, however many there are. -/
def requeue (outbox : Outbox) (frames : List QueuedFrame) : Outbox :=
  { outbox with frames := frames ++ outbox.frames }

/-- Take out all frames of an id. -/
def remove (outbox : Outbox) (id : RequestId) : Outbox :=
  { outbox with frames := outbox.frames.filter fun frame => frame.id ≠ id }

def clear (outbox : Outbox) : Outbox := { outbox with frames := [] }

variable {σ : Type}

/-- Send frames in order until one fails; `note` is told of each frame after it was taken and before
the next is sent. Returns the frames that are left. -/
def sendFrames (send : Bytes → σ → Option TransportError × σ) (note : QueuedFrame → σ → σ) :
    List QueuedFrame → σ → Flushed × List QueuedFrame × σ
  | [], world => (⟨0, none⟩, [], world)
  | frame :: frames, world =>
    match send frame.bytes world with
    | (some failure, world) => (⟨0, some failure⟩, frame :: frames, world)
    | (none, world) =>
      let (flushed, left, world) := sendFrames send note frames (note frame world)
      ({ flushed with written := flushed.written + 1 }, left, world)

/-- Send what waits over a connection. Without one nothing happens. -/
def flush (connection : Option (Bytes → σ → Option TransportError × σ))
    (note : QueuedFrame → σ → σ) (outbox : Outbox) (world : σ) : Flushed × Outbox × σ :=
  match connection with
  | none => (⟨0, none⟩, outbox, world)
  | some send =>
    let (flushed, left, world) := sendFrames send note outbox.frames world
    (flushed, { outbox with frames := left }, world)

end Outbox

end Tether.Session
