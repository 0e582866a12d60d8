import PulseSequencer.Channel

/-!
# Schedules

The pulses booked on one output of a device, in the order of their starts. A booking is accepted
if it overlaps none of its neighbours: the first one that does not start before it, and the last
one that does.

* `Booking`: a pulse that lasts.
* `Booking.clash?`, `Booking.insert`: the booking in the way of another, and the bookings with one
  more.
* `Schedule`: an output with its bookings; `Schedule.insertAll` takes all of some bookings or
  none.
-/

namespace PulseSequencer

/-- A pulse that lasts. -/
structure Booking extends Pulse where
  length_pos : 0 < length
  deriving DecidableEq

namespace Booking

/-- The booking from `start` to `stop`. -/
def between (start stop : Nat) : Except Misuse Booking :=
  if h : start < stop then .ok ⟨⟨start, stop - start⟩, Nat.sub_pos_of_lt h⟩
  else .error (.emptyPulse start stop)

/-- The text of a booking. -/
def text (b : Booking) : String := s!"PulseBook({b.start}-{b.stop} ns)"

/-- The order of bookings: by their starts alone. -/
def order (a b : Booking) : Ordering := compare a.start b.start

/-- The bookings that start before `b`, of some in order. -/
def before (b : Booking) (booked : List Booking) : List Booking :=
  booked.takeWhile fun other => other.start < b.start

/-- The bookings that do not start before `b`, of some in order. -/
def behind (b : Booking) (booked : List Booking) : List Booking :=
  booked.dropWhile fun other => other.start < b.start

/-- The neighbour of `b` that overlaps it, the one behind it first. -/
def clash? (b : Booking) (booked : List Booking) : Option Booking :=
  ((b.behind booked).head?.filter fun next => next.start < b.stop).or
    ((b.before booked).getLast?.filter fun previous => b.start < previous.stop)

/-- The bookings with `b` in its place, unless it overlaps one of them. -/
def insert (flags : Flags) (b : Booking) (booked : List Booking) : Except Error (List Booking) :=
  match b.clash? booked with
  | some other => .error (.overlappingPulses flags b.start b.stop other.start other.stop)
  | none => .ok (b.before booked ++ b :: b.behind booked)

/-- The bookings with some more, one after the other. -/
def insertAll (flags : Flags) (bs booked : List Booking) : Except Error (List Booking) :=
  bs.foldlM (fun booked b => b.insert flags booked) booked

theorem before_append_behind (b : Booking) (booked : List Booking) :
    b.before booked ++ b.behind booked = booked := List.takeWhile_append_dropWhile

theorem stop_between {start stop : Nat} {b : Booking} (h : between start stop = .ok b) :
    b.start = start ∧ b.stop = stop := by
  unfold between at h
  split at h
  · next before =>
    cases h
    exact ⟨rfl, Nat.add_sub_cancel' (Nat.le_of_lt before)⟩
  · cases h

end Booking

/-- An output and what is booked on it. -/
structure Schedule where
  number : Nat
  bookings : List Booking := []
  deriving DecidableEq

namespace Schedule

variable (s : Schedule)

/-- The word in which the output alone is high. -/
def flags : Flags := Flags.output s.number

/-- Whether something is booked. -/
def isEdited : Bool := !s.bookings.isEmpty

/-- The end of the last booking. -/
def lastStop : Nat := (s.bookings.getLast?.map (·.stop)).getD 0

/-- The schedule with nothing booked. -/
def clear : Schedule := { s with bookings := [] }

/-- The schedule with all of some bookings, unless one of them overlaps another. -/
def insertAll (bs : List Booking) : Except Error Schedule :=
  return { s with bookings := ← Booking.insertAll s.flags bs s.bookings }

/-- The channel with the pulses of a schedule. -/
def toChannel : Channel := ⟨s.flags, s.bookings.map (·.toPulse)⟩

end Schedule

end PulseSequencer
