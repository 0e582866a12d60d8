import PulseSequencer.Device.Compile
import PulseSequencer.Device.Edit
import PulseSequencer.Loader

/-!
# Experiments

The devices of an experiment, addressed by name and kept in the order in which they were added.
What is done to one device leaves the others alone; compiling goes through all of them in order, up
to the first that fails.
-/

namespace PulseSequencer

/-- Devices with different names, in order. -/
abbrev Experiment := List Device

namespace Experiment

/-- Adds a device under a name not taken so far. -/
def addDevice (A : Arithmetic) (name : String) (frequency : Number) (bit : Nat) :
    Action Experiment Unit := do
  let devices ← Action.get
  ensure (¬ devices.any (·.name = name)) (.duplicateDevice name)
  let d ← Device.create A name frequency bit
  Action.modify fun devices : Experiment => devices ++ [d]

/-- The device called `name`. -/
def device (e : Experiment) (name : String) : Except Error Device :=
  match e.find? (·.name = name) with
  | some d => .ok d
  | none => .error (.unknownDevice name)

/-- An action on the device called `name`. -/
def onDevice {α : Type} (name : String) (act : Action Device α) : Action Experiment α :=
  Action.onFirst (fun d : Device => d.name = name) (.unknownDevice name) act

/-- The longest duration of a program of the experiment. -/
def totalRunTime (e : Experiment) : Nat :=
  latest (e.filterMap fun d => d.program.map Program.duration)

/-- The end of the last pulse booked. -/
def lastStop (e : Experiment) : Nat := latest (e.map Device.lastStop)

/-- Compiles all devices and answers with the longest duration. -/
def compile (A : Arithmetic) (loop : Option Nat) : Action Experiment Nat := do
  Action.forEach (do let _ ← Device.compile A loop)
  Action.read totalRunTime

/-- Whether some device is edited. -/
def isEdited (e : Experiment) : Bool := e.any Device.isEdited

/-- Whether some device has a program. -/
def isCompiled (e : Experiment) : Bool := e.any Device.isCompiled

/-- Whether all devices have fresh programs. -/
def isFresh (e : Experiment) : Bool := e.all Device.isFresh

/-- Forgets a device's program and clears its edits. -/
def clearDevice : Action Device Unit := do
  Device.clearProgram
  Device.clearEdits

/-- Forgets all programs and clears all edits. -/
def clearEdits : Action Experiment Unit := Action.forEach clearDevice

/-- Forgets all programs. -/
def clearPrograms : Action Experiment Unit := Action.forEach Device.clearProgram

/-- Loads the program of a device through its driver. -/
def load {σ : Type} (e : Experiment) (name : String) (driver : Driver σ) (start : Bool) :
    Action σ Unit := do
  let d ← e.device name
  let p ← d.compiled
  PulseSequencer.load driver p start

end Experiment

end PulseSequencer
