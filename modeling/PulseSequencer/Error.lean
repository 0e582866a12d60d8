import PulseSequencer.Flags
import PulseSequencer.Number.Decimal
import PulseSequencer.Text.Quoted

/-!
# Errors

* `Error`: why a request is refused, with what its text names.
* `BoardFault`: why a clock period and a short pulse bit make no board.
* `Misuse`: a precondition that the caller of an unchecked constructor has broken.
* `ensure`: refuse unless a condition holds.
-/

namespace PulseSequencer

/-- Why a clock period cannot be used or found. -/
inductive ClockFault where
  | zeroPeriod
  | notPositive (frequency : Number)
  | tooFast (frequency : Number)
  deriving DecidableEq

/-- A parameter that is a number and has a range. -/
inductive Parameter where
  | duration
  | syncOutFrequency
  | frequency
  | dutyCycle
  deriving DecidableEq

/-- Why a request is refused. -/
inductive Error where
  | emptyProgram
  | branchOutOfRange (target size : Nat)
  | channelOutOfRange (number limit : Nat)
  | pulseCountMismatch (starts lengths : Nat)
  | invalidTime (time : Number)
  | overlappingPulses (flags : Flags) (start stop otherStart otherStop : Nat)
  | programTooShort (total lastEdge : Nat)
  | invalidClock (fault : ClockFault)
  | invalidShortPulseBit (bit : Nat)
  | invalidName (name : String)
  | duplicateDevice (device : String)
  | unknownDevice (device : String)
  | duplicateChannel (device channel : String)
  | duplicateOutput (device channel : String) (number : Nat)
  | unknownChannel (device channel : String)
  | notCompiled (device : String)
  | invalidParameter (parameter : Parameter) (value : Number)
  | driver (message : String)
  deriving DecidableEq

/-- The text of a clock fault. -/
def ClockFault.message : ClockFault → String
  | zeroPeriod => "clock period must be at least 1 ns"
  | notPositive frequency => "clock frequency " ++ frequency.text ++ " Hz must be positive"
  | tooFast frequency => "clock frequency " ++ frequency.text ++ " Hz has a period below 1 ns"

/-- The name of a parameter. -/
def Parameter.name : Parameter → String
  | duration => "duration_ns"
  | syncOutFrequency => "sync_out_mhz"
  | frequency => "frequency_hz"
  | dutyCycle => "duty_cycle_percent"

namespace Error

/-- The text of an error. -/
def message : Error → String
  | emptyProgram =>
    "Cannot make an empty pulse program continuous: there is no last instruction to branch from"
  | branchOutOfRange target size =>
    s!"Branch target {target} is out of range for a program of {size} instructions"
  | channelOutOfRange number limit =>
    s!"Channel number {number} is out of range, the board provides channels 0..{limit}"
  | pulseCountMismatch starts lengths => s!"Got {starts} start times but {lengths} pulse lengths"
  | invalidTime time =>
    "Invalid time value " ++ time.text ++ " ns: times must be finite and non-negative"
  | overlappingPulses flags start stop otherStart otherStop =>
    s!"Pulse {start}-{stop} ns overlaps with pulse {otherStart}-{otherStop} ns" ++
      " on channel with flags 0b" ++ flags.text Flags.maxOutputs
  | programTooShort total lastEdge =>
    s!"Requested program length {total} ns is shorter than the last pulse edge at {lastEdge} ns"
  | invalidClock fault => "Invalid clock: " ++ fault.message
  | invalidShortPulseBit bit =>
    s!"Short pulse bit {bit} leaves no room for the 3-bit short pulse field in a 32-bit flags word"
  | invalidName name =>
    "Invalid name " ++ Text.quote name ++
      ": expecting a letter or underscore followed by letters, digits or underscores"
  | duplicateDevice device => s!"Device {device} already registered"
  | unknownDevice device => s!"There is no device {device} registered"
  | duplicateChannel device channel => s!"Device {device} already has a channel {channel}"
  | duplicateOutput device channel number =>
    s!"Physical channel {number} of device {device} is already registered as {channel}"
  | unknownChannel device channel => s!"Device {device} does not have channel {channel}"
  | notCompiled device => s!"Device {device} is not compiled"
  | invalidParameter parameter value => "Invalid " ++ parameter.name ++ ": " ++ value.text
  | driver text => s!"Pulse blaster driver error: {text}"

end Error

/-- Why a clock period and a short pulse bit make no board. -/
inductive BoardFault where
  | zeroClock
  | noRoom (bit : Nat)
  deriving DecidableEq

/-- A board fault as the reason to refuse a request. -/
def BoardFault.toError : BoardFault → Error
  | zeroClock => .invalidClock .zeroPeriod
  | noRoom bit => .invalidShortPulseBit bit

/-- A broken precondition of an operation that does not answer with an `Error`. -/
inductive Misuse where
  | pulseCounts (flags : Flags) (starts lengths : Nat)
  | emptyPulse (start stop : Nat)
  | stepCounts (lengths updates : Nat)
  | board (fault : BoardFault)
  | zeroTick
  deriving DecidableEq

/-- The text of a broken precondition. -/
def Misuse.message : Misuse → String
  | pulseCounts flags starts lengths =>
    "Channel with flags 0b" ++ flags.text 1 ++
      s!" got {starts} start times but {lengths} pulse lengths"
  | emptyPulse start stop => s!"Pulse end {stop} should be strictly greater than start {start}"
  | stepCounts lengths updates => s!"Got {lengths} instruction lengths but {updates} update flags"
  | board .zeroClock => "Clock period must be at least 1 ns"
  | board (.noRoom bit) => s!"Short pulse field at bit {bit} does not fit {wordBits}-bit flags"
  | zeroTick => "Replay tick must be at least 1 ns"

/-- Refuses with `e` unless `p` holds. -/
def ensure (p : Prop) [Decidable p] (e : Error) : Except Error Unit :=
  if p then .ok () else .error e

@[simp] theorem ensure_eq_ok {p : Prop} [Decidable p] {e : Error} {u : Unit} :
    ensure p e = .ok u ↔ p := by
  unfold ensure
  split <;> simp_all

@[simp] theorem ensure_eq_error {p : Prop} [Decidable p] {e e' : Error} :
    ensure p e = .error e' ↔ ¬ p ∧ e = e' := by
  unfold ensure
  split <;> simp_all

/-- A sequence of two steps has a value when both have. -/
theorem bind_eq_ok {α β : Type} {x : Except Error α} {f : α → Except Error β} {b : β} :
    x >>= f = .ok b ↔ ∃ a, x = .ok a ∧ f a = .ok b := by
  cases x with
  | error e => simp [bind, Except.bind]
  | ok a => simp [bind, Except.bind]

end PulseSequencer
