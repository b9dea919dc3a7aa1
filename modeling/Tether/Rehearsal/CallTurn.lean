import Tether.Rehearsal.Basic

namespace Tether.Rehearsal

open Session (CallError Outcome)
open Time (Timestamp)

def complete (rehearsal : Rehearsal) (index : Nat) (result : CallResult) : Rehearsal :=
  (rehearsal.onCall index fun call => { call with stage := .done result }).noticeRelease

def submit (rehearsal : Rehearsal) (message : Message.ClientMessage) (caller : Caller) :
    Except CallError Unit × Rehearsal :=
  let (result, core) :=
    rehearsal.runner.core.submit rehearsal.signing rehearsal.settings rehearsal.now message caller
  (result, rehearsal.withCore core)

def submitCall (rehearsal : Rehearsal) (index : Nat) (message : Message.ClientMessage) :
    Rehearsal :=
  match rehearsal.submit message (.call index) with
  | (.error cause, rehearsal) => rehearsal.complete index (.failed cause)
  | (.ok (), rehearsal) =>
    (rehearsal.onCall index fun call =>
      { call with stage := .awaiting rehearsal.time none }).command .flush

/-- Take a measurement of the server's clock into account, if the answer is one. -/
def measure (rehearsal : Rehearsal) (since : Timestamp) (reply : Session.Reply) : Rehearsal :=
  match reply.message with
  | .status status =>
    let (_, clock) :=
      rehearsal.clock.adjust status.timestamp (reply.sentAt.getD since) rehearsal.time
    { rehearsal with clock }
  | _ => rehearsal

/-- Look whether the awaited state is there. -/
def watch (rehearsal : Rehearsal) (index : Nat) (state : Session.State) : Rehearsal :=
  let current := rehearsal.runner.published
  if current = state then rehearsal.complete index .finished
  else if current = .closed ∨ rehearsal.ended then rehearsal.complete index .neverReached
  else rehearsal.onCall index fun call => { call with stage := .watching }

def watchEnd (rehearsal : Rehearsal) (index : Nat) : Rehearsal :=
  let current := rehearsal.runner.published
  if current = .closing ∨ current = .closed ∨ rehearsal.ended then
    rehearsal.complete index .finished
  else rehearsal.onCall index fun call => { call with stage := .watching }

/-- Serve a call that has not begun. -/
def beginCall (rehearsal : Rehearsal) (index : Nat) : Demand → Rehearsal
  | .request message => rehearsal.submitCall index message
  | .notify message =>
    match rehearsal.runner.core.notify rehearsal.signing message with
    | .error cause => rehearsal.complete index (.failed cause)
    | .ok core => ((rehearsal.withCore core).command .flush).complete index .finished
  | .syncClock => rehearsal.submitCall index .ping
  | .waitFor state => rehearsal.watch index state
  | .disconnect => (rehearsal.command .disconnect).watchEnd index

/-- Serve a call whose request has ended. -/
def endCall (rehearsal : Rehearsal) (index : Nat) (since : Timestamp) (outcome : Outcome) :
    Demand → Rehearsal
  | .request message =>
    match resultOf message outcome with
    | .ok reply => rehearsal.complete index (.answer reply.message)
    | .error cause => rehearsal.complete index (.failed cause)
  | .syncClock =>
    match resultOf .ping outcome with
    | .ok reply =>
      let rehearsal := rehearsal.measure since reply
      rehearsal.complete index (.measured rehearsal.clock.isSaturated)
    | .error cause => rehearsal.complete index (.failed cause)
  | _ => rehearsal

def runCall (rehearsal : Rehearsal) (index : Nat) : Rehearsal :=
  match rehearsal.calls[index]? with
  | none => rehearsal
  | some call =>
    match call.stage, call.demand with
    | .new, demand => rehearsal.beginCall index demand
    | .awaiting since (some outcome), demand => rehearsal.endCall index since outcome demand
    | .watching, .waitFor state => rehearsal.watch index state
    | .watching, .disconnect => rehearsal.watchEnd index
    | _, _ => rehearsal

/-- Sleep until the next measurement. -/
def sleep (rehearsal : Rehearsal) : Rehearsal :=
  match rehearsal.settings.clockSyncInterval with
  | none => { rehearsal with clockSync := .off }
  | some interval => { rehearsal with clockSync := .sleeping (rehearsal.now.plus interval) }

/-- Begin a measurement once there is a connection; give up with the session or its last holder. -/
def beginSync (rehearsal : Rehearsal) : Rehearsal :=
  match rehearsal.runner.published with
  | .connected =>
    if !rehearsal.isHeld then { rehearsal with clockSync := .off }
    else
      match rehearsal.submit .ping .clockSync with
      | (.error .deadline, rehearsal) => { rehearsal with clockSync := .off }
      | (.error _, rehearsal) => (rehearsal.command .flush).sleep
      | (.ok (), rehearsal) =>
        { rehearsal with clockSync := .awaiting rehearsal.time none }.command .flush
  | .closed => { rehearsal with clockSync := .off }
  | _ => if rehearsal.ended then { rehearsal with clockSync := .off } else rehearsal

def runClockSync (rehearsal : Rehearsal) : Rehearsal :=
  match rehearsal.clockSync with
  | .watching => rehearsal.beginSync
  | .awaiting since (some outcome) =>
    match resultOf .ping outcome with
    | .ok reply => (rehearsal.measure since reply).sleep
    | .error _ => rehearsal.sleep
  | .sleeping due =>
    if due.nanos ≤ rehearsal.now.nanos then { rehearsal with clockSync := .watching }.beginSync
    else rehearsal
  | _ => rehearsal

end Tether.Rehearsal
