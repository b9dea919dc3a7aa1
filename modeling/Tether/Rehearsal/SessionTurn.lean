import Tether.Rehearsal.Basic

namespace Tether.Rehearsal

open Session (Delivery News Runner)
open Time (Instant)

/-- A bound on the tasks served between two moments. A script that keeps a session busy for longer
without letting time pass is cut short. -/
def patience : Nat := 1000000

/-- Let an outcome reach its caller. -/
def deliver (rehearsal : Rehearsal) (delivery : Delivery Caller) : Rehearsal :=
  match delivery.caller with
  | .call index =>
    (rehearsal.onCall index fun call =>
      match call.stage with
      | .awaiting since _ => { call with stage := .awaiting since (some delivery.outcome) }
      | _ => call).wake (.call index)
  | .clockSync =>
    match rehearsal.clockSync with
    | .awaiting since _ =>
      { rehearsal with clockSync := .awaiting since (some delivery.outcome) }.wake .clockSync
    | _ => rehearsal

/-- Put in line everyone who waits for a state. -/
def wakeWatchers (rehearsal : Rehearsal) : Rehearsal :=
  let watching := (rehearsal.calls.zipIdx.filter fun entry => entry.1.isWatching).map Prod.snd
  let rehearsal := watching.foldl (fun rehearsal index => rehearsal.wake (.call index)) rehearsal
  if rehearsal.clockSync = .watching then rehearsal.wake .clockSync else rehearsal

/-- Pass on what the session did. -/
def announce (rehearsal : Rehearsal) : News Caller → Rehearsal
  | .delivery delivery => rehearsal.deliver delivery
  | .heard message =>
    { rehearsal with subscribers := rehearsal.subscribers.map fun unread => unread ++ [message] }
  | .state _ => rehearsal.wakeWatchers

/-- Let the session take one step. -/
def stepSession (rehearsal : Rehearsal) (input : Runner.Input) : Rehearsal :=
  let step := rehearsal.runner.step rehearsal.outside input
  step.news.foldl announce { rehearsal with runner := step.runner }

/-- The end of the session: it lets go of its connection and of those that opened meanwhile. -/
def finish (rehearsal : Rehearsal) : Rehearsal :=
  let rehearsal := { rehearsal with
    runner := rehearsal.runner.dropTransport rehearsal.outside
    ended := true, commands := [], commandsOpen := false }
  let rehearsal := rehearsal.onWorld fun world =>
    let world := world.events.foldl (fun world event =>
      match event with
      | .opened id => world.dropLine (World.lineOf id)
      | _ => world) world
    { world with events := [] }
  rehearsal.wakeWatchers

/-- How late a sweep may be and still keep the rhythm. -/
def sweepTolerance : Time.Interval := .ofMillis 5

/-- The sweep after the one that is due: the next in rhythm, or an interval from now if the session
is too late for the rhythm. Sweeps in rhythm that are due as well would find nothing more. -/
def nextSweep (rehearsal : Rehearsal) : Instant :=
  let interval := rehearsal.settings.sweepInterval
  let late := rehearsal.now.nanos - rehearsal.sweepAt.nanos
  if sweepTolerance.nanos < late then rehearsal.now.plus interval
  else rehearsal.sweepAt.plus (.ofNanos ((late / interval.nanos + 1) * interval.nanos))

/-- Serve the session: commands first, then reports, then what is due. -/
def runSession : (patience : Nat) → Rehearsal → Rehearsal
  | 0, rehearsal => rehearsal
  | patience + 1, rehearsal =>
    if rehearsal.ended then rehearsal
    else if !rehearsal.begun then
      runSession patience ({ rehearsal with begun := true, sweepAt := rehearsal.now }.stepSession
        .begin)
    else if rehearsal.runner.isOver then rehearsal.finish
    else
      match rehearsal.commands, rehearsal.runner.world.events with
      | .flush :: commands, _ =>
        runSession patience ({ rehearsal with commands }.stepSession .flush)
      | .disconnect :: commands, _ =>
        runSession patience ({ rehearsal with commands }.stepSession .disconnect)
      | [], events =>
        if rehearsal.commandsOpen && !rehearsal.isHeld then
          runSession patience ({ rehearsal with commandsOpen := false }.stepSession .disconnect)
        else
          match events with
          | event :: events =>
            let rehearsal := rehearsal.onWorld fun world => { world with events }
            runSession patience (rehearsal.stepSession (.transport event))
          | [] =>
            if rehearsal.runner.reconnectAt.any fun due => due.nanos ≤ rehearsal.now.nanos then
              runSession patience (rehearsal.stepSession .delayElapsed)
            else if rehearsal.sweepAt.nanos ≤ rehearsal.now.nanos then
              let sweepAt := rehearsal.nextSweep
              runSession patience ({ rehearsal with sweepAt }.stepSession .sweep)
            else rehearsal

end Tether.Rehearsal
