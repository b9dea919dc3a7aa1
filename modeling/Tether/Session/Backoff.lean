import Tether.Binary64
import Tether.Time.Interval

namespace Tether.Session

inductive Backoff where
  /-- The same delay before every attempt. -/
  | fixed (delay : Time.Interval)
  /-- The delay grows by a factor with every attempt, up to a ceiling. -/
  | exponential (initial ceiling : Time.Interval) (multiplier : Binary64)
  deriving DecidableEq, Repr

namespace Backoff

/-- Further attempts do not change the delay. -/
def lastGrowth : Nat := 64

/-- Nanoseconds that a product of doubles can stand for. -/
def wordLimit : Nat := UInt64.size - 1

/-- The delay before an attempt; attempts count from zero. The growth is computed in doubles. A
multiplier below one, or one that is not a number, counts as one. -/
def delay (policy : Backoff) (attempt : Nat) : Time.Interval :=
  match policy with
  | .fixed delay => delay
  | .exponential initial ceiling multiplier =>
    let growth := (multiplier.max .one).pow (min attempt lastGrowth)
    let scaled := (Binary64.ofNat initial.nanos).mul growth
    if scaled.isFinite && scaled.lt (Binary64.ofNat ceiling.nanos) then
      .ofNanos (scaled.truncate wordLimit)
    else ceiling

/-- Three tenths of a second, always. -/
def standard : Backoff := .fixed (.ofMillis 300)

end Backoff

end Tether.Session
