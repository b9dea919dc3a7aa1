/-! Settings and timers count nanoseconds. An interval holds at most 2^64 - 1 whole seconds; an
instant of the steady clock at most 2^63 - 1. Adding an interval to an instant can therefore leave
the clock's range, and `Instant.plus?` says so. -/

namespace Tether.Time

def nanosPerSecond : Nat := 1000000000

/-- A length of time in nanoseconds. -/
structure Interval where
  nanos : Nat
  seconds_lt : nanos < UInt64.size * nanosPerSecond
  deriving DecidableEq, Repr

namespace Interval

/-- So many nanoseconds, or the longest interval if that is too long. -/
def ofNanos (nanos : Nat) : Interval where
  nanos := min nanos (UInt64.size * nanosPerSecond - 1)
  seconds_lt := by simp only [UInt64.size, nanosPerSecond]; omega

def ofMillis (millis : Nat) : Interval := ofNanos (millis * 1000000)

def ofSeconds (seconds : Nat) : Interval := ofNanos (seconds * nanosPerSecond)

/-- Seconds and further nanoseconds, which may be a second or more. None if the whole seconds do
not fit 64 bits. -/
def ofParts? (seconds nanos : Nat) : Option Interval :=
  if h : seconds * nanosPerSecond + nanos < UInt64.size * nanosPerSecond then
    some ⟨seconds * nanosPerSecond + nanos, h⟩
  else none

def seconds (interval : Interval) : Nat := interval.nanos / nanosPerSecond

/-- The nanoseconds after the whole seconds. -/
def subsecond (interval : Interval) : Nat := interval.nanos % nanosPerSecond

def zero : Interval := ⟨0, by simp only [UInt64.size, nanosPerSecond]; omega⟩

end Interval

/-- A reading of the steady clock, in nanoseconds since its start. -/
structure Instant where
  nanos : Nat
  deriving DecidableEq, Repr, Inhabited

namespace Instant

/-- First nanosecond past the clock's range. -/
def bound : Nat := (1 <<< 63) * nanosPerSecond

/-- The instant after the interval, if the clock can show it. -/
def plus? (instant : Instant) (interval : Interval) : Option Instant :=
  if instant.nanos + interval.nanos < bound then some ⟨instant.nanos + interval.nanos⟩ else none

/-- The instant after the interval, or the last one of the clock. -/
def plus (instant : Instant) (interval : Interval) : Instant :=
  ⟨min (instant.nanos + interval.nanos) (bound - 1)⟩

end Instant

end Tether.Time
