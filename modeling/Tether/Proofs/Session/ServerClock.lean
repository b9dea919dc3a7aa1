import Tether.Proofs.Binary64
import Tether.Session.ServerClock

/-! A measurement is off by half of its round trip at most, and no smoothing makes an offset worse.
Both hold up to the ends of every range that is passed on the way: of what is between two moments,
of an offset, of a double, and of the clock. -/

namespace Tether.Session

open Time (ServerTimestamp Timestamp)

namespace ServerClock

/-- Whether 64 bits with a sign hold an offset. -/
def Fits (offset : Int) : Prop :=
  Int64.minValue.toInt ≤ offset ∧ offset ≤ Int64.maxValue.toInt

instance (offset : Int) : Decidable (Fits offset) := inferInstanceAs (Decidable (_ ∧ _))

theorem natAbs_saturate_sub_le (value : Int) {target : Int} (fits : Fits target) :
    (saturate value - target).natAbs ≤ (value - target).natAbs := by
  obtain ⟨low, high⟩ := fits
  unfold saturate
  omega

theorem fits_saturate (value : Int) : Fits (saturate value) := by
  have ends : Int64.minValue.toInt ≤ Int64.maxValue.toInt := by decide
  unfold Fits saturate
  omega

theorem toNat_millis_shift (moment : Timestamp) (millis : Int) :
    (moment.shift millis).millis.toNat =
      min (moment.millis.toNat + millis).toNat (UInt64.size - 1) :=
  UInt64.toNat_ofNat_of_lt' ((Nat.min_le_right _ _).trans_lt (by decide))

theorem natAbs_shift_sub_le (moment : Timestamp) (millis : Int) {target : Int} (low : 0 ≤ target)
    (high : target < UInt64.size) :
    (((moment.shift millis).millis.toNat : Int) - target).natAbs ≤
      (moment.millis.toNat + millis - target).natAbs := by
  rw [toNat_millis_shift]
  generalize UInt64.size = size at *
  omega

/-- The offset that a measurement leads to. -/
def following (clock : ServerClock) (measured : Int) : Int :=
  match clock.smoothing with
  | some weight => if clock.synced then approach weight clock.offset measured else measured
  | none => measured

theorem adjust_eq (clock : ServerClock) (server : ServerTimestamp) (sent received : Timestamp) :
    clock.adjust server sent received =
      (clock.following (estimate server sent received),
        { clock with
          offset := clock.following (estimate server sent received)
          synced := true }) := by
  obtain ⟨offset, synced, smoothing⟩ := clock
  cases smoothing with
  | none => rfl
  | some weight => cases synced <;> rfl

theorem following_of_replaces {clock : ServerClock}
    (replaces : clock.smoothing = none ∨ clock.synced = false) (measured : Int) :
    clock.following measured = measured := by
  unfold following
  rcases replaces with plain | first
  · rw [plain]
  · cases clock.smoothing with
    | none => rfl
    | some weight => simp only [first, Bool.false_eq_true, ↓reduceIte]

/-- The way back counts as long as the way there, so what is measured is off by half the
difference. -/
theorem estimate_eq {ahead : Int} {there back : Nat} {server : ServerTimestamp}
    {sent received : Timestamp}
    (asked : (server.millis.toNat : Int) = sent.millis.toNat + there + ahead)
    (answered : received.millis.toNat = sent.millis.toNat + there + back) :
    estimate server sent received = saturate (ahead + (there - ((there + back) / 2 : Nat))) := by
  have trip : (received.millis.toNat : Int) - sent.millis.toNat = ((there + back : Nat) : Int) := by
    omega
  have half : ((there + back : Nat) : Int).tdiv 2 = ((there + back) / 2 : Nat) := rfl
  unfold estimate
  dsimp only
  rw [trip, half, asked]
  congr 1
  omega

/-- Say that the server's clock is ahead by a number of milliseconds that 64 bits hold, that a
question takes some time to it and the answer takes some time back. Then a clock that is set by this
round trip shows the server's time up to half of both times together, rounded up, at any moment at
which the server's clock can show it; and exactly, if both times are the same. -/
theorem measured_time_is_close (clock : ServerClock)
    (replaces : clock.smoothing = none ∨ clock.synced = false)
    (ahead : Int) (fits : Fits ahead) (there back : Nat)
    (server : ServerTimestamp) (sent received moment : Timestamp)
    (asked : (server.millis.toNat : Int) = sent.millis.toNat + there + ahead)
    (answered : received.millis.toNat = sent.millis.toNat + there + back)
    (low : 0 ≤ moment.millis.toNat + ahead) (high : moment.millis.toNat + ahead < UInt64.size) :
    let shown := ((clock.adjust server sent received).2.timeAt moment).millis.toNat
    (shown - (moment.millis.toNat + ahead)).natAbs ≤ (there + back + 1) / 2 ∧
      (there = back → shown = moment.millis.toNat + ahead) := by
  intro shown
  have set : (clock.adjust server sent received).2.offset =
      saturate (ahead + (there - ((there + back) / 2 : Nat))) := by
    rw [adjust_eq, ← estimate_eq asked answered]
    exact following_of_replaces replaces _
  have off : (shown - (moment.millis.toNat + ahead)).natAbs ≤
      ((there : Int) - ((there + back) / 2 : Nat)).natAbs := by
    calc (shown - (moment.millis.toNat + ahead)).natAbs
      _ ≤ (moment.millis.toNat + (clock.adjust server sent received).2.offset -
            (moment.millis.toNat + ahead)).natAbs := natAbs_shift_sub_le moment _ low high
      _ = (saturate (ahead + (there - ((there + back) / 2 : Nat))) - ahead).natAbs := by
        rw [set, Int.add_sub_add_left]
      _ ≤ (ahead + (there - ((there + back) / 2 : Nat)) - ahead).natAbs :=
        natAbs_saturate_sub_le _ fits
      _ = ((there : Int) - ((there + back) / 2 : Nat)).natAbs := by rw [add_sub_cancel_left]
  refine ⟨off.trans (by omega), ?_⟩
  rintro rfl
  omega

/-- The server's clock is as far behind as 64 bits can say, and the question takes all the time: the
bound is reached. -/
theorem measured_time_is_close_behind :
    let shown := ((plain.adjust ⟨3⟩ ⟨9223372036854775808⟩ ⟨9223372036854775811⟩).2.timeAt
      ⟨9223372036854775808⟩).millis.toNat
    Fits (-9223372036854775808) ∧ shown = 2 ∧
      (shown - ((9223372036854775808 : Int) + -9223372036854775808)).natAbs ≤ (3 + 0 + 1) / 2 := by
  intro shown
  have fits : Fits (-9223372036854775808) := by decide
  have close := measured_time_is_close plain (Or.inl rfl) (-9223372036854775808) fits 3 0 ⟨3⟩
    ⟨9223372036854775808⟩ ⟨9223372036854775811⟩ ⟨9223372036854775808⟩ (by decide) (by decide)
    (by decide) (by decide)
  exact ⟨fits, by decide, close.1⟩

/-- A round trip: what the server's clock showed, and when the question left and the answer came. -/
structure Trip where
  server : ServerTimestamp
  sent : Timestamp
  received : Timestamp

def afterTrip (clock : ServerClock) (trip : Trip) : ServerClock :=
  (clock.adjust trip.server trip.sent trip.received).2

def after (clock : ServerClock) (trips : List Trip) : ServerClock := trips.foldl afterTrip clock

/-- What holds of a clock that was ever made: 64 bits hold its offset, and its weight is a share. -/
structure Sane (clock : ServerClock) : Prop where
  fits : Fits clock.offset
  share : ∀ weight, clock.smoothing = some weight → weight.IsShare

theorem sane_new (smoothing : Option Binary64) : (new smoothing).Sane := by
  have zero : Fits 0 := by decide
  refine ⟨zero, ?_⟩
  intro weight chosen
  obtain ⟨given, _, rfl⟩ := Option.map_eq_some_iff.mp chosen
  exact Binary64.isShare_clamp given

variable {clock : ServerClock} {measured : Int}

theorem fits_following (clock : ServerClock) (fits : Fits measured) :
    Fits (clock.following measured) := by
  unfold following approach
  split
  · split
    · exact fits_saturate _
    · exact fits
  · exact fits

/-- A share of the way to a measurement never leads past it by more than was to go. -/
theorem Sane.following_le (sane : clock.Sane) (fits : Fits measured) :
    (clock.following measured - measured).natAbs ≤ (clock.offset - measured).natAbs := by
  unfold following
  split
  · rename_i weight chosen
    split
    · have small : (measured - clock.offset).natAbs ≤ 2 ^ 64 := by
        have low : Int64.minValue.toInt = -2 ^ 63 := rfl
        have high : Int64.maxValue.toInt = 2 ^ 63 - 1 := rfl
        obtain ⟨_, _⟩ := sane.fits
        obtain ⟨_, _⟩ := fits
        omega
      have nearer := Binary64.natAbs_sub_share_le (sane.share weight chosen) small
      have kept := natAbs_saturate_sub_le (clock.offset +
        (weight.mul (.ofInt (measured - clock.offset))).roundAway) fits
      unfold approach
      omega
    · omega
  · omega

theorem Sane.afterTrip (sane : clock.Sane) (trip : Trip) : (clock.afterTrip trip).Sane := by
  rw [ServerClock.afterTrip, adjust_eq]
  exact ⟨clock.fits_following (fits_saturate _), sane.share⟩

theorem Sane.after (sane : clock.Sane) (trips : List Trip) : (clock.after trips).Sane := by
  induction trips generalizing clock with
  | nil => exact sane
  | cons trip trips ih => exact ih (sane.afterTrip trip)

theorem smoothing_after (clock : ServerClock) (trips : List Trip) :
    (clock.after trips).smoothing = clock.smoothing := by
  induction trips generalizing clock with
  | nil => rfl
  | cons trip trips ih =>
    have kept : (clock.afterTrip trip).smoothing = clock.smoothing := by rw [afterTrip, adjust_eq]
    exact (ih _).trans kept

/-- However a clock smooths, be its weight negative, infinite or not a number, and whatever was
measured before: no measurement leaves the offset further from what was measured than it was. The
first one replaces it, as each one does without smoothing. What is told is the offset from then on,
and 64 bits hold it. -/
theorem smoothing_never_strays (smoothing : Option Binary64) (trips : List Trip)
    (server : ServerTimestamp) (sent received : Timestamp) :
    let clock := (new smoothing).after trips
    let measured := estimate server sent received
    let next := clock.adjust server sent received
    (next.2.offset - measured).natAbs ≤ (clock.offset - measured).natAbs ∧
      (smoothing = none ∨ trips = [] → next.2.offset = measured) ∧
      next.1 = next.2.offset ∧ Fits next.2.offset := by
  intro clock measured next
  have sane : clock.Sane := (sane_new smoothing).after trips
  have fits : Fits measured := fits_saturate _
  have comes : next = (clock.following measured,
      { clock with offset := clock.following measured, synced := true }) :=
    clock.adjust_eq server sent received
  rw [comes]
  refine ⟨sane.following_le fits, ?_, rfl, clock.fits_following fits⟩
  intro replaces
  refine following_of_replaces ?_ measured
  rcases replaces with rfl | rfl
  · exact Or.inl (smoothing_after _ trips)
  · exact Or.inr rfl

/-- A difference past 2^53 is rounded, and even the whole of it leaves the offset one short. -/
theorem smoothing_never_strays_rounded :
    let clock := (new (some .one)).after [⟨⟨0⟩, ⟨0⟩, ⟨0⟩⟩]
    let next := clock.adjust ⟨9007199254740993⟩ ⟨0⟩ ⟨0⟩
    estimate ⟨9007199254740993⟩ ⟨0⟩ ⟨0⟩ = 9007199254740993 ∧ next.2.offset = 9007199254740992 ∧
      (next.2.offset - 9007199254740993).natAbs ≤ (clock.offset - 9007199254740993).natAbs := by
  intro clock next
  have nearer := smoothing_never_strays (some .one) [⟨⟨0⟩, ⟨0⟩, ⟨0⟩⟩] ⟨9007199254740993⟩ ⟨0⟩ ⟨0⟩
  exact ⟨by decide, by decide +kernel, nearer.1⟩

end ServerClock

end Tether.Session
