import PulseSequencer.Device.Basic
import PulseSequencer.Diagram
import PulseSequencer.Program.Listing

/-!
# Compiling devices

The channels of a device go to the compiler with what is booked on them, the sync clock in the
place of the bookings of its channel. A device loops to an instruction or runs once; its short
instructions are always encoded.
-/

namespace PulseSequencer

namespace Device

/-- The channels with their bookings, without the one of the sync clock. -/
def bookedChannels (d : Device) : List Channel :=
  (d.channels.filter fun (name, _) => d.syncOut.map SyncOut.channel ≠ some name).map
    fun (_, schedule) => schedule.toChannel

/-- The channels that go to the compiler, that of the sync clock as the last. -/
def pulseChannels (A : Arithmetic) (d : Device) : Logged (List Channel) := do
  match d.syncOut with
  | some sync =>
    let schedule ← d.channel sync.channel
    if schedule.isEdited then Logged.note (.syncEditsIgnored d.name sync.channel)
    withSyncOut A d.bookedChannels schedule.number sync.frequency d.board.clock
  | none => return d.bookedChannels

/-- What a device asks of the compiler; `loop` is the instruction to branch back to, if any. -/
def config (d : Device) (loop : Option Nat) : Config where
  extent := .padding d.padding
  loop := loop
  clock := d.board.clock
  bit := d.board.bit
  mode := .encode

/-- The program of a device as it is edited now. -/
def assemble (A : Arithmetic) (d : Device) (loop : Option Nat) : Logged Program := do
  let channels ← d.pulseChannels A
  PulseSequencer.compile channels (d.config loop)

/-- Compiles a device and keeps the program. Answers with its duration. -/
def compile (A : Arithmetic) (loop : Option Nat) : Action Device Nat := do
  let d ← Action.get
  let p ← d.assemble A loop
  (Logged.note (.deviceCompiled d.name p.length p.duration) : Logged Unit)
  Action.modify fun d => { d with program := some p, fresh := true }
  return p.duration

variable (d : Device)

/-- The listing of the program. -/
def listing : Except Error String := return (← d.compiled).listing

/-- The diagram of the program, its lines called as the channels are. -/
def diagram : Except Error (Table String (List Vertex)) :=
  return { clock := d.board.clock, bit := d.board.bit : Style }.lines d.outputNames (← d.compiled)

end Device

end PulseSequencer
