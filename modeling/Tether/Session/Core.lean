import Tether.Session.Outbox
import Tether.Session.Registry
import Tether.Session.Settings

/-! The registry of requests and the outbox change together: a request is registered and its frame
queued in one step, and whatever frees an id by time also takes its frame out. Callers and the
session take turns on these books; each function here is one turn. -/

namespace Tether.Session

open Crypto (KeyPair SignatureScheme)
open Message (ClientMessage ServerMessage Vocabulary)
open Time (Instant Timestamp)

/-- What a session signs with. -/
structure Signing where
  scheme : SignatureScheme
  keys : Option KeyPair

structure Core (κ : Type) where
  registry : Registry κ
  outbox : Outbox
  /-- Whether the session has been torn down. -/
  closed : Bool

/-- The deadline of a request made now: none without a time-out. Fails if the steady clock cannot
show it. -/
def Settings.deadline? (settings : Settings) (now : Instant) : Option (Option Instant) :=
  match settings.requestTimeout with
  | none => some none
  | some timeout => some <$> now.plus? timeout

namespace Core

variable {κ : Type} (signing : Signing)

def empty (capacity : Nat) : Core κ := ⟨.empty, .empty capacity, false⟩

/-- Let a caller wait under an id that was taken for it, and queue its frame. -/
def enlist (core : Core κ) (id : RequestId) (deadline : Option Instant) (message : ClientMessage)
    (caller : κ) : Except CallError (Core κ) := do
  let frame ← (Envelope.encode signing.scheme message id signing.keys).mapError .frame
  let tag := Vocabulary.tag message
  let registry ← (core.registry.register id tag deadline caller frame).mapError .session
  let outbox ← (core.outbox.enqueue ⟨id, frame⟩).mapError .session
  return { core with registry, outbox }

/-- Let a caller wait for the answer to a message, and queue its frame. A call that fails gives back
the id it took; the search for the next one goes on after it all the same. A call whose deadline the
clock cannot show breaks off at once, with its id still taken. -/
def submit (settings : Settings) (now : Instant) (core : Core κ) (message : ClientMessage)
    (caller : κ) : Except CallError Unit × Core κ :=
  if core.closed then (.error (.session .closed), core)
  else
    match core.registry.allocate with
    | .error cause => (.error (.session cause), core)
    | .ok (id, registry) =>
      let taken := { core with registry }
      match settings.deadline? now with
      | none => (.error .deadline, taken)
      | some deadline =>
        match taken.enlist signing id deadline message caller with
        | .error cause => (.error cause, { core with registry := registry.free id })
        | .ok core => (.ok (), core)

/-- Queue the frame of a message that expects no answer. -/
def notify (core : Core κ) (message : ClientMessage) : Except CallError (Core κ) := do
  let frame ← (Envelope.encode signing.scheme message .none signing.keys).mapError .frame
  if core.closed then throw (.session .closed)
  let outbox ← (core.outbox.enqueue ⟨.none, frame⟩).mapError .session
  return { core with outbox }

/-- Put what was sent and not answered before everything in the outbox. -/
def requeueUnanswered (core : Core κ) : Core κ :=
  let frames := core.registry.unanswered.map fun entry => ⟨entry.1, entry.2⟩
  { core with registry := core.registry.markUnsent, outbox := core.outbox.requeue frames }

/-- End the requests that have waited long enough and take their frames out. -/
def sweep (core : Core κ) (now : Instant) : Core κ × List (Delivery κ) :=
  let stale := core.registry.staleIds now
  let (registry, deliveries) := core.registry.expire now
  ({ core with registry, outbox := stale.foldl Outbox.remove core.outbox }, deliveries)

/-- Fail everything that waits, for good. -/
def failPending (core : Core κ) : Core κ × List (Delivery κ) :=
  let (registry, deliveries) := core.registry.rejectAll .closed
  (⟨registry, core.outbox.clear, true⟩, deliveries)

/-- What became of a frame from the server. -/
structure Dispatched (κ : Type) where
  core : Core κ
  deliveries : List (Delivery κ)
  /-- A message for everyone who listens. -/
  heard : Option ServerMessage

/-- The books after a request ended, or the same books if none did. -/
def settled (core : Core κ) (result : Option (Registry κ × List (Delivery κ))) : Dispatched κ :=
  match result with
  | some (registry, deliveries) => ⟨{ core with registry }, deliveries, none⟩
  | none => ⟨core, [], none⟩

/-- Hand a frame from the server to whom it concerns: to everyone if it belongs to no request, to
the request under its id otherwise. A frame that concerns no one is dropped. -/
def dispatch (core : Core κ) (frame : Bytes) : Dispatched κ :=
  let id := Envelope.requestIdOf frame
  let decoded := Envelope.decode signing.scheme ServerMessage frame
  if id = .none then
    match decoded with
    | .ok envelope => ⟨core, [], some envelope.message⟩
    | .error _ => ⟨core, [], none⟩
  else
    match decoded with
    | .ok ⟨_, _, _, .fault fault⟩ => core.settled (core.registry.reject? id (.server fault))
    | .ok envelope => core.settled (core.registry.resolve? id envelope.message)
    | .error cause => core.settled (core.registry.reject? id (.decode cause))

/-- Send what waits over a connection, and note the time at each request that was sent. -/
def flush {σ : Type} (core : Core κ) (send : Bytes → σ → Option Transport.TransportError × σ)
    (time : Timestamp) (world : σ) : Flushed × Core κ × σ :=
  let sendWith (bytes : Bytes) (state : Registry κ × σ) :=
    let (failure, world) := send bytes state.2
    (failure, (state.1, world))
  let note (frame : QueuedFrame) (state : Registry κ × σ) :=
    (state.1.markSent frame.id time, state.2)
  let (flushed, outbox, registry, world) :=
    core.outbox.flush (some sendWith) note (core.registry, world)
  (flushed, { core with registry, outbox }, world)

end Core

end Tether.Session
