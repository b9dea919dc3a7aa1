import Tether.Binary64
import Tether.Time.Timestamp

/-! A round trip measures how far the server's clock is ahead of the local one: the server read its
clock half a round trip after the question left. With smoothing a measurement moves the offset only
by a share of the difference. If the local clock jumps during a round trip, that measurement is off
until the next one. -/

namespace Tether.Session

open Time (Timestamp ServerTimestamp)

/-- What is known of the server's clock. -/
structure ServerClock where
  /-- Milliseconds that the server is ahead. -/
  offset : Int
  /-- Whether anything was measured yet. -/
  synced : Bool
  /-- The weight of a measurement. -/
  smoothing : Option Binary64
  deriving DecidableEq, Repr

namespace ServerClock

def saturate (n : Int) : Int := max Int64.minValue.toInt (min n Int64.maxValue.toInt)

/-- A clock without smoothing and without measurement. -/
def plain : ServerClock := ⟨0, false, none⟩

/-- A clock without measurement; a weight is brought between the smallest normal double and one. -/
def new (smoothing : Option Binary64) : ServerClock :=
  ⟨0, false, smoothing.map (Binary64.clamp .minPositive .one)⟩

/-- The offset that a round trip measures. -/
def estimate (server : ServerTimestamp) (sent received : Timestamp) : Int :=
  let start : Int := sent.millis.toNat
  let oneWay := ((received.millis.toNat : Int) - start).tdiv 2
  saturate (server.millis.toNat - (start + oneWay))

/-- An offset after a share of the way to a measurement. The share is computed in doubles and
rounded to the nearest integer, a half away from zero. -/
def approach (weight : Binary64) (offset measured : Int) : Int :=
  saturate (offset + (weight.mul (.ofInt (measured - offset))).roundAway)

/-- Replace the offset by what a change makes of it, and tell what it was before. -/
def exchange (clock : ServerClock) (change : Int → Int) : Int × ServerClock :=
  (clock.offset, { clock with offset := change clock.offset })

/-- Take a measurement into account, and tell the offset that it led to. The first one replaces the
offset. -/
def adjust (clock : ServerClock) (server : ServerTimestamp) (sent received : Timestamp) :
    Int × ServerClock :=
  let measured := estimate server sent received
  let replaced := (measured, { clock with offset := measured, synced := true })
  match clock.smoothing with
  | some weight =>
    if clock.synced then
      -- The offset that others see next is told by doing the change again.
      let (before, next) := clock.exchange fun offset => approach weight offset measured
      (approach weight before measured, next)
    else replaced
  | none => replaced

/-- The server's time at a local moment. -/
def timeAt (clock : ServerClock) (moment : Timestamp) : Timestamp := moment.shift clock.offset

/-- Whether the offset is the largest there is. -/
def isSaturated (clock : ServerClock) : Bool := clock.offset == Int64.maxValue.toInt

end ServerClock

end Tether.Session
