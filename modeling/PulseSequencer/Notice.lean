import PulseSequencer.Instruction
import PulseSequencer.Number.Decimal

/-!
# Notices

What the library reports besides its answers, with a severity and a text.
-/

namespace PulseSequencer

/-- How much a notice matters. -/
inductive Severity where
  | warning
  | info
  | debug
  deriving DecidableEq

/-- A report of the library. -/
inductive Notice where
  | shortPulsesEncoded
  | shortInstructionsLeft
  | pulseLost (instruction : Instruction) (clock : Nat)
  | compiled (channels instructions : Nat)
  | listingLine (line : String)
  | syncEndMoved (frequency : Number) (duration adjusted : Nat)
  | syncEditsIgnored (device channel : String)
  | dutyCycleTooShort (dutyCycle period : Number)
  | deviceCompiled (device : String) (instructions duration : Nat)
  | written (instructions : Nat)
  | started
  deriving DecidableEq

namespace Notice

/-- The severity of a notice. -/
def severity : Notice → Severity
  | shortPulsesEncoded => .warning
  | shortInstructionsLeft => .warning
  | pulseLost _ _ => .warning
  | compiled _ _ => .info
  | listingLine _ => .debug
  | syncEndMoved _ _ _ => .debug
  | syncEditsIgnored _ _ => .warning
  | dutyCycleTooShort _ _ => .warning
  | deviceCompiled _ _ _ => .info
  | written _ => .debug
  | started => .info

/-- The text of a notice. -/
def message : Notice → String
  | shortPulsesEncoded =>
    "Applied short pulse feature. This might affect the pulse program duration."
  | shortInstructionsLeft =>
    "Pulse program contains instructions shorter than the minimum instruction length"
  | pulseLost instruction clock =>
    "Instruction " ++ instruction.text ++
      s!" is shorter than one clock period of {clock} ns and is encoded as no short pulse"
  | compiled channels instructions =>
    s!"Compiled {channels} channels into {instructions} instructions"
  | listingLine line => line
  | syncEndMoved frequency duration adjusted =>
    "Sync out at " ++ frequency.text ++
      s!" MHz: program end moved from {duration} ns to {adjusted} ns"
  | syncEditsIgnored device channel =>
    s!"Pulses edited on sync out channel {device}/{channel} are ignored"
  | dutyCycleTooShort dutyCycle period =>
    "PWM duty cycle " ++ dutyCycle.text ++ " % of " ++ period.text ++
      " ns is shorter than the clock period, channels stay low"
  | deviceCompiled device instructions duration =>
    s!"Device {device}: compiled {instructions} instructions, {duration} ns"
  | written instructions => s!"Wrote {instructions} instructions"
  | started => "Programmed pulse blaster and started"

end Notice

end PulseSequencer
