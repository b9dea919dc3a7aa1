import Tether.Rehearsal.CallTurn
import Tether.Rehearsal.SessionTurn

namespace Tether.Rehearsal

open Session (Settings Signing)

def run (rehearsal : Rehearsal) : Task → Rehearsal
  | .session => runSession patience rehearsal
  | .attempt number =>
    rehearsal.onWorld fun world => world.runAttempt rehearsal.ended number
  | .reader line => rehearsal.onWorld fun world => world.runReader line patience
  | .call index => rehearsal.runCall index
  | .clockSync => rehearsal.runClockSync

/-- Serve tasks in line until none is left. -/
def settleWithin : (patience : Nat) → Rehearsal → Rehearsal
  | 0, rehearsal => rehearsal
  | patience + 1, rehearsal =>
    match rehearsal.runner.world.ready with
    | [] => rehearsal
    | task :: ready =>
      settleWithin patience ((rehearsal.onWorld fun world => { world with ready }).run task)

/-- Let everything happen that can happen without time passing. -/
def settle (rehearsal : Rehearsal) : Rehearsal := settleWithin patience rehearsal

def start (settings : Settings) (signing : Signing) (permits : Option Nat) (refusals : Nat) :
    Rehearsal :=
  let rehearsal : Rehearsal := {
    settings
    signing
    runner := .start settings (World.fresh permits refusals)
    begun := false
    ended := false
    commands := []
    commandsOpen := true
    sweepAt := uptime
    now := uptime
    calls := []
    held := true
    clock := .new settings.clockSmoothing
    clockSync := if settings.clockSyncInterval.isSome then .watching else .off
    subscribers := [] }
  ((rehearsal.wake .session).wake .clockSync).settle

end Tether.Rehearsal
