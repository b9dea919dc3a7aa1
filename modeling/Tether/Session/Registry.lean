import Tether.Session.Error
import Tether.Session.IdSet
import Tether.Time.Interval

/-! A request takes one of 255 ids and waits under it until an answer, an error, its deadline or the
end of the session. Ids are handed out in a circle, so a freed id comes up again as late as possible
and a late answer seldom meets a new request.

A caller is named by a token. Whatever completes a request says so by a delivery to its caller,
unless that caller has given up. -/

namespace Tether.Session

open Message (ServerMessage)
open Time (Instant Timestamp)

/-- An answer, with the time at which its request was last sent. -/
structure Reply where
  message : ServerMessage
  sentAt : Option Timestamp
  deriving DecidableEq, Repr

/-- How a request ends. -/
inductive Outcome where
  | reply (reply : Reply)
  | error (cause : RequestError)
  /-- It is given up without a word. -/
  | dropped
  deriving DecidableEq, Repr

structure Delivery (κ : Type) where
  caller : κ
  outcome : Outcome
  deriving DecidableEq, Repr

/-- A request that waits. -/
structure Pending (κ : Type) where
  id : RequestId
  tag : UInt16
  deadline : Option Instant
  caller : κ
  /-- Whether the caller still wants to know. -/
  awaited : Bool
  /-- The frame, kept to be sent again. -/
  frame : Bytes
  /-- When the frame was written to the connection in use. -/
  sentAt : Option Timestamp
  deriving DecidableEq, Repr

namespace Pending

variable {κ : Type}

/-- Tell the caller, if it still wants to know. -/
def deliver (request : Pending κ) (outcome : Outcome) : List (Delivery κ) :=
  if request.awaited then [⟨request.caller, outcome⟩] else []

/-- Whether the request has waited long enough: its deadline has come or its caller is gone. -/
def isStale (now : Instant) (request : Pending κ) : Bool :=
  !request.awaited || request.deadline.any fun deadline => deadline.nanos ≤ now.nanos

end Pending

/-- Who waits for which answer. -/
structure Registry (κ : Type) where
  /-- The ids that are taken. -/
  inUse : IdSet
  /-- The last id handed out. -/
  cursor : UInt8
  /-- The requests that wait, in the order of their registration. -/
  pending : List (Pending κ)

namespace Registry

variable {κ : Type}

/-- No requests; the first id will be 1. -/
def empty : Registry κ := ⟨.empty, 0, []⟩

def find? (registry : Registry κ) (id : RequestId) : Option (Pending κ) :=
  registry.pending.find? fun request => request.id == id

def isPending (registry : Registry κ) (id : RequestId) : Bool := (registry.find? id).isSome

/-- The tag of the request under an id. -/
def tagOf? (registry : Registry κ) (id : RequestId) : Option UInt16 :=
  (registry.find? id).map Pending.tag

def size (registry : Registry κ) : Nat := registry.pending.length

/-- The first free id among the next `steps` ones after the cursor, in a circle. Zero is no id. -/
def nextFree (inUse : IdSet) (cursor : UInt8) : (steps : Nat) → Option RequestId
  | 0 => none
  | steps + 1 =>
    let id : RequestId := ⟨cursor + 1⟩
    if id ≠ .none ∧ id ∉ inUse then some id else nextFree inUse (cursor + 1) steps

/-- Take a free id. If there is none, one turn of the circle ends where it began. -/
def allocate (registry : Registry κ) : Except SessionError (RequestId × Registry κ) :=
  match nextFree registry.inUse registry.cursor 256 with
  | some id => .ok (id, { registry with inUse := registry.inUse.insert id, cursor := id.byte })
  | none => .error .idsExhausted

/-- Let a caller wait under an id that was taken for it. -/
def register (registry : Registry κ) (id : RequestId) (tag : UInt16) (deadline : Option Instant)
    (caller : κ) (frame : Bytes) : Except SessionError (Registry κ) :=
  if id = .none ∨ id ∉ registry.inUse then .error (.notAllocated id)
  else if registry.isPending id then .error (.alreadyPending id)
  else .ok { registry with
    pending := registry.pending ++ [⟨id, tag, deadline, caller, true, frame, none⟩] }

/-- The registry without an id and what waits under it. -/
def free (registry : Registry κ) (id : RequestId) : Registry κ :=
  { registry with
    inUse := registry.inUse.erase id
    pending := registry.pending.filter fun request => request.id ≠ id }

/-- End the request under an id, if one waits. -/
def settle? (registry : Registry κ) (id : RequestId) (outcome : Pending κ → Outcome) :
    Option (Registry κ × List (Delivery κ)) :=
  (registry.find? id).map fun request => (registry.free id, request.deliver (outcome request))

/-- Give an id back, whether or not a request waits under it. -/
def release (registry : Registry κ) (id : RequestId) : Registry κ × List (Delivery κ) :=
  (registry.settle? id fun _ => .dropped).getD (registry.free id, [])

def resolve? (registry : Registry κ) (id : RequestId) (message : ServerMessage) :
    Option (Registry κ × List (Delivery κ)) :=
  registry.settle? id fun request => .reply ⟨message, request.sentAt⟩

def reject? (registry : Registry κ) (id : RequestId) (cause : RequestError) :
    Option (Registry κ × List (Delivery κ)) :=
  registry.settle? id fun _ => .error cause

def rejectAll (registry : Registry κ) (cause : RequestError) : Registry κ × List (Delivery κ) :=
  (registry.pending.foldl (fun registry request => registry.free request.id) registry,
    registry.pending.flatMap fun request => request.deliver (.error cause))

/-- The ids of requests that have waited long enough. -/
def staleIds (registry : Registry κ) (now : Instant) : List RequestId :=
  (registry.pending.filter (Pending.isStale now)).map Pending.id

/-- End the requests that have waited long enough. Callers that still wait are told of a time-out of
their own request. -/
def expire (registry : Registry κ) (now : Instant) : Registry κ × List (Delivery κ) :=
  ((registry.staleIds now).foldl free registry,
    (registry.pending.filter (Pending.isStale now)).flatMap fun request =>
      request.deliver (.error (.timeout request.id)))

/-- A caller gives up. Its request stays until it ends or is swept. -/
def abandon [DecidableEq κ] (registry : Registry κ) (caller : κ) : Registry κ :=
  { registry with
    pending := registry.pending.map fun request =>
      if request.caller = caller then { request with awaited := false } else request }

/-- The frame under an id was written to a connection. -/
def markSent (registry : Registry κ) (id : RequestId) (time : Timestamp) : Registry κ :=
  { registry with
    pending := registry.pending.map fun request =>
      if request.id = id then { request with sentAt := some time } else request }

/-- The frames that were sent and not answered, in the order of registration. -/
def unanswered (registry : Registry κ) : List (RequestId × Bytes) :=
  (registry.pending.filter fun request => request.sentAt.isSome).map fun request =>
    (request.id, request.frame)

/-- Count all requests as not sent. -/
def markUnsent (registry : Registry κ) : Registry κ :=
  { registry with pending := registry.pending.map fun request => { request with sentAt := none } }

end Registry

end Tether.Session
