import PulseSequencer.Compilation
import PulseSequencer.Schedule
import PulseSequencer.SyncOut
import PulseSequencer.Table
import PulseSequencer.Text.Identifier

/-!
# Devices

A device is a board with named channels. Pulses are booked on the channels; compiling turns all of
them into a program, which the device keeps. The program is fresh until the next edit.

Operations are actions on the device. Each settles what it will write before it writes: an
operation that fails leaves the device as it was.
-/

namespace PulseSequencer

/-- A channel that puts out a clock of `frequency` MHz. -/
structure SyncOut where
  channel : String
  frequency : Number
  deriving DecidableEq

/-- A board with named channels, the time that its program stays low after the last pulse, the
channel of its sync clock, and the program of its last compilation. -/
structure Device where
  name : String
  board : Board
  padding : Nat := 0
  syncOut : Option SyncOut := none
  channels : Table String Schedule := []
  program : Option Program := none
  fresh : Bool := false
  deriving DecidableEq

namespace Device

/-- The device called `name` with a clock of `frequency` Hz and a short pulse field at `bit`. -/
def create (A : Arithmetic) (name : String) (frequency : Number) (bit : Nat) :
    Except Error Device := do
  Text.checkName name
  let period ← clockPeriod A frequency
  let board ← (Board.of period bit).mapError BoardFault.toError
  return { name, board }

variable (d : Device)

/-- The channel called `name`. -/
def channel (name : String) : Except Error Schedule :=
  match d.channels.get? name with
  | some schedule => .ok schedule
  | none => .error (.unknownChannel d.name name)

/-- The names of the outputs. -/
def outputNames : Table Nat String :=
  Table.ofList (d.channels.map fun (name, schedule) => (schedule.number, name))

/-- The number that the outputs of a device stay below. -/
def outputLimit : Nat := min d.board.bit Flags.maxOutputs

/-- Whether pulses are booked on some channel. -/
def isEdited : Bool := d.channels.any fun (_, schedule) => schedule.isEdited

/-- Whether the device has a program. -/
def isCompiled : Bool := d.program.isSome

/-- Whether the device has a program and has not been edited since. -/
def isFresh : Bool := d.isCompiled && d.fresh

/-- The end of the last pulse booked. -/
def lastStop : Nat := latest (d.channels.map fun (_, schedule) => schedule.lastStop)

/-- The program of the last compilation. -/
def compiled : Except Error Program :=
  match d.program with
  | some p => .ok p
  | none => .error (.notCompiled d.name)

/-- The duration of the program. -/
def runTime : Except Error Nat := return (← d.compiled).duration

end Device

end PulseSequencer
