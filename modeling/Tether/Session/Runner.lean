import Tether.Session.Core
import Tether.Session.Lifecycle

/-! A runner holds a session's books, its lifecycle and the one connection it uses, and carries out
what the lifecycle asks for. It reaches connections through a carrier only, whose sends and closes
may succeed or fail in any way. Each function here is one step between two waits. -/

namespace Tether.Session

open Message (ServerMessage)
open Time (Instant Timestamp)
open Transport (CloseFrame ConnectionId TransportError)

/-- What a session needs of the world `σ` that its connections are part of. -/
structure Carrier (σ : Type) where
  /-- Start a connection attempt. Its result comes later, as a transport event. -/
  dial : σ → σ
  /-- Start to report what arrives on a connection. -/
  listen : ConnectionId → σ → σ
  /-- Send a frame. -/
  send : ConnectionId → Bytes → σ → Option TransportError × σ
  /-- Close a connection. -/
  close : ConnectionId → UInt16 → String → σ → Option TransportError × σ
  /-- Let go of a connection and stop to report what arrives on it. -/
  letGo : ConnectionId → σ → σ

/-- What attempts and connections report. -/
inductive TransportEvent where
  | opened (id : ConnectionId)
  | refused (reason : String)
  | message (id : ConnectionId) (frame : Bytes)
  | closed (id : ConnectionId) (frame : CloseFrame)
  | failed (id : ConnectionId) (reason : String)
  deriving DecidableEq, Repr

/-- What the session does for others. -/
inductive News (κ : Type) where
  /-- A request ended. -/
  | delivery (delivery : Delivery κ)
  /-- A message for everyone who listens. -/
  | heard (message : ServerMessage)
  /-- The session has reached another state. -/
  | state (state : State)
  deriving DecidableEq, Repr

/-- A session with the world it runs in. -/
structure Runner (κ σ : Type) where
  core : Core κ
  lifecycle : Lifecycle
  /-- The connection in use. -/
  connection : Option ConnectionId
  /-- When the delay before the next attempt is over. -/
  reconnectAt : Option Instant
  /-- The state that others know of. -/
  published : State
  /-- Whether the session has broken off: its next attempt would be due past the range of the steady
  clock. -/
  stranded : Bool
  world : σ

/-- What a step takes from outside. -/
structure Surroundings (σ : Type) where
  carrier : Carrier σ
  signing : Signing
  /-- The steady clock. -/
  now : Instant
  /-- The local wall clock. -/
  time : Timestamp

namespace Runner

variable {κ σ : Type}

def start (settings : Settings) (world : σ) : Runner κ σ where
  core := .empty settings.maxQueuedMessages.toNat
  lifecycle := .start settings.reconnect settings.resendUnanswered
  connection := none
  reconnectAt := none
  published := .disconnected
  stranded := false
  world := world

/-- What a step leaves: the session, and news in the order in which they came up. -/
structure Step (κ σ : Type) where
  runner : Runner κ σ
  news : List (News κ)

variable (outside : Surroundings σ)

/-- Let go of the connection in use. -/
def dropTransport (runner : Runner κ σ) : Runner κ σ :=
  match runner.connection with
  | none => runner
  | some id => { runner with connection := none, world := outside.carrier.letGo id runner.world }

/-- Send what waits, if the connection is open. A failed send is an event. -/
def flush (runner : Runner κ σ) : Runner κ σ × Option Event :=
  match runner.lifecycle.state, runner.connection with
  | .connected, some id =>
    let (flushed, core, world) :=
      runner.core.flush (outside.carrier.send id) outside.time runner.world
    ({ runner with core, world }, flushed.failure.map fun failure => .failed failure.message)
  | _, _ => (runner, none)

/-- Close the connection in use. Without one the session counts as closed; a failed close is an
event. -/
def close (runner : Runner κ σ) (code : UInt16) (reason : String) : Runner κ σ × Option Event :=
  match runner.connection with
  | none => (runner, some (.closed (.closed code reason)))
  | some id =>
    let (failure, world) := outside.carrier.close id code reason runner.world
    ({ runner with world }, failure.map fun failure => .failed failure.message)

/-- What an action leaves. -/
structure Effect (κ σ : Type) where
  runner : Runner κ σ
  news : List (News κ)
  /-- An event that the action itself brought about. -/
  followUp : Option Event

/-- Carry out an action. A delay past the range of the steady clock breaks the session off; the
lifecycle asks for a delay last, so that nothing else is left to do. -/
def perform (runner : Runner κ σ) : Action → Effect κ σ
  | .openTransport => ⟨{ runner with world := outside.carrier.dial runner.world }, [], none⟩
  | .flushQueue =>
    let (runner, followUp) := runner.flush outside
    ⟨runner, [], followUp⟩
  | .requeueUnanswered => ⟨{ runner with core := runner.core.requeueUnanswered }, [], none⟩
  | .scheduleReconnect delay =>
    match outside.now.plus? delay with
    | some due => ⟨{ runner with reconnectAt := some due }, [], none⟩
    | none => ⟨{ runner with stranded := true }, [], none⟩
  | .cancelReconnect => ⟨{ runner with reconnectAt := none }, [], none⟩
  | .closeTransport code reason =>
    let (runner, followUp) := runner.close outside code reason
    ⟨runner, [], followUp⟩
  | .dropTransport => ⟨runner.dropTransport outside, [], none⟩
  | .dispatch frame =>
    let result := runner.core.dispatch outside.signing frame
    ⟨{ runner with core := result.core },
      result.deliveries.map News.delivery ++ result.heard.toList.map News.heard, none⟩
  | .failPending =>
    let (core, deliveries) := runner.core.failPending
    ⟨{ runner with core }, deliveries.map News.delivery, none⟩

/-- Carry out actions in order, collecting the events they bring about. -/
def performAll (runner : Runner κ σ) : List Action → Step κ σ × List Event
  | [] => (⟨runner, []⟩, [])
  | action :: actions =>
    let effect := runner.perform outside action
    let (step, followUps) := performAll effect.runner actions
    (⟨step.runner, effect.news ++ step.news⟩, effect.followUp.toList ++ followUps)

/-- Handle at most `limit` events, those that come up on the way after those that wait. Returns the
events that are left. -/
def drain (limit : Nat) (runner : Runner κ σ) (events : List Event) : Step κ σ × List Event :=
  match limit, events with
  | 0, events => (⟨runner, []⟩, events)
  | _, [] => (⟨runner, []⟩, [])
  | limit + 1, event :: events =>
    let (lifecycle, actions) := runner.lifecycle.handle event
    let (step, followUps) := performAll outside { runner with lifecycle } actions
    let (last, left) := drain limit step.runner (events ++ followUps)
    (⟨last.runner, step.news ++ last.news⟩, left)

/-- An event and the one it may bring about: failures and closes bring about nothing more. -/
def eventsPerStep : Nat := 2

/-- Let others know of the state. A session that broke off lets no one know. -/
def publish (runner : Runner κ σ) : Step κ σ :=
  let state := runner.lifecycle.state
  if runner.stranded ∨ runner.published = state then ⟨runner, []⟩
  else ⟨{ runner with published := state }, [.state state]⟩

/-- Handle an event with everything it brings about, then let others know of the state. -/
def process (runner : Runner κ σ) (event : Event) : Step κ σ :=
  let (step, _) := drain outside eventsPerStep runner [event]
  let last := step.runner.publish
  ⟨last.runner, step.news ++ last.news⟩

def isCurrent (runner : Runner κ σ) (id : ConnectionId) : Bool := runner.connection == some id

/-- Handle what an attempt or a connection reports. Reports of connections no longer in use are
passed over. -/
def onTransport (runner : Runner κ σ) : TransportEvent → Step κ σ
  | .opened id =>
    let runner := runner.dropTransport outside
    process outside
      { runner with connection := some id, world := outside.carrier.listen id runner.world } .opened
  | .refused reason => process outside runner (.failed reason)
  | .message id frame =>
    if runner.isCurrent id then process outside runner (.message frame) else ⟨runner, []⟩
  | .closed id frame =>
    if runner.isCurrent id then process outside runner (.closed frame) else ⟨runner, []⟩
  | .failed id reason =>
    if runner.isCurrent id then process outside runner (.failed reason) else ⟨runner, []⟩

/-- Something a session waits for. -/
inductive Input where
  /-- The session begins. -/
  | begin
  /-- Frames were queued. -/
  | flush
  /-- The application ends the session. -/
  | disconnect
  /-- An attempt or a connection reports something. -/
  | transport (event : TransportEvent)
  /-- The delay before the next attempt is over. -/
  | delayElapsed
  /-- It is time to look for requests that have waited long enough. -/
  | sweep
  deriving DecidableEq, Repr

/-- One step of a session that has not broken off. -/
def respond (runner : Runner κ σ) : Input → Step κ σ
  | .begin => process outside runner .connect
  | .flush =>
    match runner.flush outside with
    | (runner, none) => ⟨runner, []⟩
    | (runner, some event) => process outside runner event
  | .disconnect => process outside runner .disconnect
  | .transport event => onTransport outside runner event
  | .delayElapsed => process outside { runner with reconnectAt := none } .delayElapsed
  | .sweep =>
    let (core, deliveries) := runner.core.sweep outside.now
    ⟨{ runner with core }, deliveries.map News.delivery⟩

/-- One step. A session that broke off takes none. -/
def step (runner : Runner κ σ) (input : Input) : Step κ σ :=
  if runner.stranded then ⟨runner, []⟩ else respond outside runner input

/-- Whether the session waits for nothing any more: it is closed, or it broke off. -/
def isOver (runner : Runner κ σ) : Bool := runner.lifecycle.state == .closed || runner.stranded

end Runner

end Tether.Session
