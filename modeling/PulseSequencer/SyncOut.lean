import PulseSequencer.Action
import PulseSequencer.Channel

/-!
# Sync out

A channel with a clock of its own, half of each period high. The program is made to end with a
period: the pulses that end with the last edge are drawn out to the end of the last period that is
needed.

* `syncPeriod`: the period of a frequency, of which a half must not be below the board's clock.
* `withSyncOut`: some channels and their sync channel.
-/

namespace PulseSequencer

variable (A : Arithmetic)

/-- The period in ns of `frequency` MHz: half of it takes at least one period of the clock. -/
def syncPeriod (frequency : Number) (clock : Nat) : Except Error Number :=
  let period := A.div (.finite 1000) frequency
  if frequency.positive?.isNone || (A.div period (.finite 2)).below (A.ofNat clock) then
    .error (.invalidParameter .syncOutFrequency frequency)
  else .ok period

/-- A pulse that ends at `stop` drawn out to end at `newStop`. -/
def Pulse.drawOut (stop newStop : Nat) (p : Pulse) : Pulse :=
  if p.stop = stop then { p with length := newStop - p.start } else p

/-- A channel with its pulses that end at `stop` drawn out to end at `newStop`. -/
def Channel.drawOut (stop newStop : Nat) (c : Channel) : Channel :=
  { c with pulses := c.pulses.map (Pulse.drawOut stop newStop) }

/-- The channel that puts out `count` periods of a clock from time zero on. -/
def Channel.clockOut (number count : Nat) (period : Number) (clock : Nat) :
    Except Error Channel :=
  Channel.ofTimes A number ((List.range count).map fun k => A.mul (A.ofNat k) period)
    (List.replicate count (A.mul (.finite (1 / 2)) period)) clock

/-- Some channels, and behind them a clock of `frequency` MHz on output `number` for as many
periods as the channels need. -/
def withSyncOut (channels : List Channel) (number : Nat) (frequency : Number) (clock : Nat) :
    Logged (List Channel) := do
  let period ← syncPeriod A frequency clock
  let duration := lastEdge channels
  let count := (A.div (A.ofNat duration) period).ceilWord
  let rounded ← roundToClock A (A.mul (A.ofNat count) period) clock
  let adjusted := max rounded duration
  Logged.note (.syncEndMoved frequency duration adjusted)
  let sync ← Channel.clockOut A number count period clock
  return channels.map (Channel.drawOut duration adjusted) ++ [sync]

end PulseSequencer
