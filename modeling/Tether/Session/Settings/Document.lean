import Tether.Json.Double
import Tether.Json.Parser
import Tether.Session.Settings

namespace Tether.Session

open Time (Interval)

namespace Settings

/-- Fields in the order of a list without names. -/
def fieldNames : List String :=
  ["reconnect", "request_timeout", "sweep_interval", "resend_unanswered", "clock_sync_interval",
    "clock_smoothing", "max_queued_messages"]

def readFlag : Json → Option Bool
  | .bool value => some value
  | _ => none

def readCount (value : Json) : Option UInt64 := UInt64.ofNat <$> value.natBelow? UInt64.size

def readDouble : Json → Option Binary64
  | .number value => value.toBinary64?
  | _ => none

def readOptional {α : Type} (read : Json → Option α) : Json → Option (Option α)
  | .null => some none
  | value => some <$> read value

/-- An interval: seconds and nanoseconds, by name or in this order, and nothing else. Nanoseconds of
a second or more are carried over. -/
def readInterval : Json → Option Interval
  | .object fields => do
    if fields.length ≠ 2 then none
    let seconds ← (← Json.theField? fields "secs").natBelow? UInt64.size
    let nanos ← (← Json.theField? fields "nanos").natBelow? UInt32.size
    Interval.ofParts? seconds nanos
  | .array [seconds, nanos] => do
    Interval.ofParts? (← seconds.natBelow? UInt64.size) (← nanos.natBelow? UInt32.size)
  | _ => none

/-- The values of the named fields, all of which must be there: by name among others, or in this
order and nothing else. -/
def readFields (names : List String) : Json → Option (List Json)
  | .object fields =>
    if Json.namesAreText fields then names.mapM (Json.theField? fields) else none
  | .array items => if items.length = names.length then some items else none
  | _ => none

/-- A waiting policy: one field that names the kind and holds its parts. -/
def readBackoff : Json → Option Backoff
  | .object [(some "Fixed", parts)] => do
    match ← readFields ["delay"] parts with
    | [delay] => return .fixed (← readInterval delay)
    | _ => none
  | .object [(some "Exponential", parts)] => do
    match ← readFields ["initial", "max", "multiplier"] parts with
    | [initial, ceiling, multiplier] =>
      return .exponential (← readInterval initial) (← readInterval ceiling)
        (← readDouble multiplier)
    | _ => none
  | _ => none

/-- A field that is read if it is there and has its standard value otherwise. -/
def readOr {α : Type} (read : Json → Option α) (standard : α) : Option Json → Option α
  | none => some standard
  | some value => read value

/-- Settings from the values of their fields. -/
def ofValues (value : String → Option (Option Json)) : Option Settings := do
  return {
    reconnect := ← readOr readBackoff standard.reconnect (← value "reconnect")
    requestTimeout :=
      ← readOr (readOptional readInterval) standard.requestTimeout (← value "request_timeout")
    sweepInterval := ← readOr readInterval standard.sweepInterval (← value "sweep_interval")
    resendUnanswered := ← readOr readFlag standard.resendUnanswered (← value "resend_unanswered")
    clockSyncInterval :=
      ← readOr (readOptional readInterval) standard.clockSyncInterval
        (← value "clock_sync_interval")
    clockSmoothing :=
      ← readOr (readOptional readDouble) standard.clockSmoothing (← value "clock_smoothing")
    maxQueuedMessages :=
      ← readOr readCount standard.maxQueuedMessages (← value "max_queued_messages") }

/-- The settings that a document's value gives. -/
def ofJson : Json → Option Settings
  | .object fields =>
    if Json.namesAreText fields then ofValues (Json.field? fields) else none
  | .array items =>
    if fieldNames.length < items.length then none
    else ofValues fun name => some ((fieldNames.zip items).lookup name)
  | _ => none

def parse? (document : String) : Option Settings := do ofJson (← Json.parse? document)

/-- Why a document gives no settings. -/
inductive DocumentError where
  /-- It is not well-formed, or a field has a value of another kind. -/
  | unreadable
  | flawed (flaw : Flaw)
  deriving DecidableEq, Repr

/-- The valid settings of a document. -/
def load (document : String) : Except DocumentError Settings :=
  match parse? document with
  | none => .error .unreadable
  | some settings =>
    match settings.flaw? with
    | some flaw => .error (.flawed flaw)
    | none => .ok settings

/-- An interval as a value. -/
def writeInterval (interval : Interval) : Json :=
  .object [(some "secs", .number (.ofNat interval.seconds)),
    (some "nanos", .number (.ofNat interval.subsecond))]

def writeCount (count : UInt64) : Json := .number (.ofNat count.toNat)

def writeDouble (value : Binary64) : Json :=
  ((JsonNumber.ofBinary64? value).map Json.number).getD .null

def writeOptional {α : Type} (write : α → Json) : Option α → Json
  | none => .null
  | some value => write value

/-- A waiting policy as a value. -/
def writeBackoff : Backoff → Json
  | .fixed delay => .object [(some "Fixed", .object [(some "delay", writeInterval delay)])]
  | .exponential initial ceiling multiplier =>
    .object [(some "Exponential", .object
      [(some "initial", writeInterval initial), (some "max", writeInterval ceiling),
        (some "multiplier", writeDouble multiplier)])]

/-- All settings with their names, in order. -/
def entries (settings : Settings) : List (String × Json) :=
  [ ("reconnect", writeBackoff settings.reconnect),
    ("request_timeout", writeOptional writeInterval settings.requestTimeout),
    ("sweep_interval", writeInterval settings.sweepInterval),
    ("resend_unanswered", .bool settings.resendUnanswered),
    ("clock_sync_interval", writeOptional writeInterval settings.clockSyncInterval),
    ("clock_smoothing", writeOptional writeDouble settings.clockSmoothing),
    ("max_queued_messages", writeCount settings.maxQueuedMessages) ]

/-- All settings as a value. -/
def toJson (settings : Settings) : Json := .object (Json.named settings.entries)

end Settings

end Tether.Session
