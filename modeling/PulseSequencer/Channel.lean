import PulseSequencer.Clock

/-!
# Channels

A channel is a list of pulses on the outputs of one flags word, in any order. Pulses are half-open
intervals of ns: one that starts where another stops touches it and does not overlap it.

* `Channel.clash?`: two overlapping pulses that stand side by side once the pulses are sorted.
* `Channel.ofTimes`: a channel for one output from times that are rounded to the clock.
* `lastEdge`: the end of the latest pulse of some channels.
-/

namespace PulseSequencer

/-- A pulse: high from `start` on, for `length`. -/
structure Pulse where
  start : Nat
  length : Nat
  deriving DecidableEq, Inhabited

namespace Pulse

/-- The first time at which a pulse is over. -/
def stop (p : Pulse) : Nat := p.start + p.length

theorem start_le_stop (p : Pulse) : p.start ≤ p.stop := Nat.le_add_right _ _

/-- Whether a pulse lasts at `time`. -/
def lasts (p : Pulse) (time : Nat) : Bool := p.start ≤ time && time < p.stop

/-- The order by start, then by stop. -/
def upTo (p q : Pulse) : Bool := p.start < q.start || (p.start = q.start && p.stop ≤ q.stop)

/-- The first two neighbours of which the second starts before the first is over. -/
def firstClash : List Pulse → Option (Pulse × Pulse)
  | p :: q :: rest => if q.start < p.stop then some (p, q) else firstClash (q :: rest)
  | [_] => none
  | [] => none

end Pulse

/-- The largest of some times, zero if there are none. -/
def latest (times : List Nat) : Nat := times.foldr max 0

@[simp] theorem latest_nil : latest [] = 0 := rfl

@[simp] theorem latest_cons (t : Nat) (times : List Nat) :
    latest (t :: times) = max t (latest times) := rfl

theorem le_latest {t : Nat} {times : List Nat} (h : t ∈ times) : t ≤ latest times := by
  induction times with
  | nil => cases h
  | cons a times ih =>
    rcases List.mem_cons.mp h with rfl | h
    · exact Nat.le_max_left _ _
    · exact Nat.le_trans (ih h) (Nat.le_max_right _ _)

/-- Pulses on the outputs of a flags word. -/
structure Channel where
  flags : Flags
  pulses : List Pulse
  deriving DecidableEq, Inhabited

namespace Channel

/-- The output of a channel: the lowest one of its flags. -/
def number (c : Channel) : Nat := c.flags.lowest

/-- The end of the latest pulse. -/
def lastStop (c : Channel) : Nat := latest (c.pulses.map Pulse.stop)

/-- The summary of a channel. -/
def text (c : Channel) : String :=
  s!"Channel {c.number} (flags: " ++ c.flags.text Flags.maxOutputs ++
    s!", #pulses: {c.pulses.length})"

/-- Two overlapping pulses, if there are any: the first neighbours in order that overlap. -/
def clash? (c : Channel) : Option (Pulse × Pulse) :=
  Pulse.firstClash (c.pulses.mergeSort Pulse.upTo)

/-- Refuses a channel with overlapping pulses. -/
def checkOverlaps (c : Channel) : Except Error Unit :=
  match c.clash? with
  | none => .ok ()
  | some (p, q) => .error (.overlappingPulses c.flags p.start p.stop q.start q.stop)

theorem checkOverlaps_eq_ok {c : Channel} {u : Unit} :
    c.checkOverlaps = .ok u ↔ c.clash? = none := by
  unfold checkOverlaps
  cases c.clash? <;> simp

/-- The channel with pulses from the starts and lengths of two lists. -/
def ofLists (flags : Flags) (starts lengths : List Nat) : Except Misuse Channel :=
  if starts.length = lengths.length then .ok ⟨flags, List.zipWith Pulse.mk starts lengths⟩
  else .error (.pulseCounts flags starts.length lengths.length)

/-- The channel of output `number` with pulses of the given starts and lengths, each rounded to the
clock. -/
def ofTimes (A : Arithmetic) (number : Nat) (starts lengths : List Number) (clock : Nat) :
    Except Error Channel := do
  ensure (starts.length = lengths.length) (.pulseCountMismatch starts.length lengths.length)
  ensure (number < Flags.maxOutputs) (.channelOutOfRange number Flags.maxOutputs)
  ensure (0 < clock) (.invalidClock .zeroPeriod)
  let starts ← starts.mapM (roundToClock A · clock)
  let lengths ← lengths.mapM (roundToClock A · clock)
  let channel := ⟨Flags.output number, List.zipWith Pulse.mk starts lengths⟩
  channel.checkOverlaps
  return channel

end Channel

/-- The end of the latest pulse of some channels. -/
def lastEdge (channels : List Channel) : Nat := latest (channels.map Channel.lastStop)

end PulseSequencer
