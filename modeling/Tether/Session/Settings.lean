import Tether.Session.Backoff

namespace Tether.Session

open Time (Interval)

/-- What a session can be told. -/
structure Settings where
  /-- The delay before another connection attempt. -/
  reconnect : Backoff
  /-- How long a request waits for its answer; without bound if absent. -/
  requestTimeout : Option Interval
  /-- How often waiting requests are looked over. -/
  sweepInterval : Interval
  /-- Whether requests that a lost connection left without answer are sent again. -/
  resendUnanswered : Bool
  /-- The pause between measurements of the server's clock; none are made if absent. -/
  clockSyncInterval : Option Interval
  /-- The weight of a new measurement; a measurement replaces the offset if absent. -/
  clockSmoothing : Option Binary64
  /-- How many frames may wait to be sent. -/
  maxQueuedMessages : UInt64
  deriving DecidableEq, Repr

namespace Settings

def standard : Settings where
  reconnect := .standard
  requestTimeout := some (.ofSeconds 30)
  sweepInterval := .ofSeconds 1
  resendUnanswered := true
  clockSyncInterval := some (.ofSeconds 60)
  clockSmoothing := none
  maxQueuedMessages := 1024

instance : Inhabited Settings := ⟨standard⟩

/-- A setting that no session can run with. -/
inductive Flaw where
  | sweepInterval
  | clockSyncInterval
  | maxQueuedMessages
  | clockSmoothing
  | multiplier
  deriving DecidableEq, Repr

def Flaw.field : Flaw → String
  | .sweepInterval => "sweep_interval"
  | .clockSyncInterval => "clock_sync_interval"
  | .maxQueuedMessages => "max_queued_messages"
  | .clockSmoothing => "clock_smoothing"
  | .multiplier => "reconnect.multiplier"

def Flaw.reason : Flaw → String
  | .sweepInterval => "must be non-zero"
  | .clockSyncInterval => "must be non-zero"
  | .maxQueuedMessages => "must be at least 1"
  | .clockSmoothing => "must be in (0, 1]"
  | .multiplier => "must be finite and at least 1"

def Flaw.message (flaw : Flaw) : String :=
  "invalid config value for " ++ flaw.field ++ ": " ++ flaw.reason

/-- Whether a weight is in (0, 1]. -/
def isWeight (weight : Binary64) : Bool := Binary64.zero.lt weight && weight.le .one

/-- Whether a policy lets delays grow, if at all, by a finite factor of at least one. -/
def isGrowing : Backoff → Bool
  | .fixed _ => true
  | .exponential _ _ multiplier => multiplier.isFinite && !multiplier.lt .one

/-- The first flaw, in a fixed order of the settings. -/
def flaw? (settings : Settings) : Option Flaw :=
  if settings.sweepInterval.nanos = 0 then some .sweepInterval
  else if settings.clockSyncInterval.any fun interval => interval.nanos = 0 then
    some .clockSyncInterval
  else if settings.maxQueuedMessages = 0 then some .maxQueuedMessages
  else if settings.clockSmoothing.any fun weight => !isWeight weight then some .clockSmoothing
  else if !isGrowing settings.reconnect then some .multiplier
  else none

end Settings

end Tether.Session
