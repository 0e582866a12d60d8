import PulseSequencer.Device.Basic

/-!
# Editing devices

Registering channels, booking pulses and setting up what is generated. Times are in ns and are
rounded to the clock of the board.
-/

namespace PulseSequencer

namespace Device

/-- Registers a channel on output `number`, under a name and an output not taken so far. -/
def addChannel (name : String) (number : Nat) : Action Device Unit := do
  Text.checkName name
  let d ← Action.get
  ensure (number < d.outputLimit) (.channelOutOfRange number d.outputLimit)
  ensure (d.channels.get? name = none) (.duplicateChannel d.name name)
  match d.channels.find? fun (_, schedule) => schedule.number = number with
  | some (other, _) => liftM (Except.error (Error.duplicateOutput d.name other number) :
      Except Error Unit)
  | none => Action.modify fun d => { d with channels := d.channels.put name { number } }

variable (A : Arithmetic)

/-- A time rounded to the clock of the device. -/
def ticks (d : Device) (time : Number) : Except Error Nat := roundToClock A time d.board.clock

/-- The booking from `time` on for `duration`: it must last at least a clock period after
rounding, and end within a 64-bit word. -/
def booking (d : Device) (time duration : Number) : Except Error Booking := do
  let start ← d.ticks A time
  let length ← d.ticks A duration
  if length_pos : 0 < length then
    ensure (start + length ≤ maxWord) (.invalidTime (A.add time duration))
    return ⟨⟨start, length⟩, length_pos⟩
  else .error (.invalidParameter .duration duration)

/-- The device with all of some bookings on one of its channels. -/
def book (d : Device) (name : String) (bs : List Booking) : Except Error Device := do
  let schedule ← (← d.channel name).insertAll bs
  return { d with channels := d.channels.put name schedule, fresh := false }

/-- Books some pulses on a channel, all of them or none. -/
def bookAll (name : String) (bs : List Booking) : Action Device Unit := do
  let d ← Action.get
  let edited ← d.book name bs
  Action.modify fun _ => edited

/-- Sets a channel high from `time` on for `duration`. -/
def high (name : String) (time duration : Number) : Action Device Unit := do
  let d ← Action.get
  let b ← d.booking A time duration
  bookAll name [b]

/-- Sets a channel high at some times for as many durations, for all of them or for none. -/
def pulseTrain (name : String) (starts lengths : List Number) : Action Device Unit := do
  ensure (starts.length = lengths.length) (.pulseCountMismatch starts.length lengths.length)
  let d ← Action.get
  let bs ← (starts.zip lengths).mapM fun (time, duration) => d.booking A time duration
  bookAll name bs

/-- Sets the time that all outputs stay low after the last pulse. -/
def setPadding (time : Number) : Action Device Unit := do
  let d ← Action.get
  let padding ← d.ticks A time
  Action.modify fun d => { d with padding, fresh := false }

/-- Makes a channel put out a clock of `frequency` MHz. What is booked on it is ignored from then
on. -/
def addSyncOut (name : String) (frequency : Number) : Action Device Unit := do
  let d ← Action.get
  let _ ← d.channel name
  let _ ← syncPeriod A frequency d.board.clock
  Action.modify fun d => { d with syncOut := some ⟨name, frequency⟩, fresh := false }

/-- The device with `b` booked on each of some channels. -/
def bookOnEach (d : Device) (names : List String) (b : Booking) : Except Error Device :=
  names.foldlM (fun d name => d.book name [b]) d

/-- Whether `x` is a percentage: a number from 0 to 100. -/
def isPercentage (x : Number) : Bool :=
  match x.nonneg? with
  | some q => q ≤ 100
  | none => false

/-- Makes some channels repeat a pulse at `frequency` Hz, once the program loops: they are high from
time zero on for `dutyCycle` percent of the period, and the padding is what is left of it. A pulse
that rounds to nothing is left out. -/
def pulseWidth (names : List String) (frequency dutyCycle : Number) : Action Device Unit := do
  ensure frequency.positive?.isSome (.invalidParameter .frequency frequency)
  ensure (isPercentage dutyCycle) (.invalidParameter .dutyCycle dutyCycle)
  let d ← Action.get
  let period := A.div (.finite 1000000000) frequency
  let up := A.mul (A.div dutyCycle (.finite 100)) period
  let padding ← d.ticks A (A.sub period up)
  names.forM fun name => do
    let _ ← d.channel name
  let length ← d.ticks A up
  let edited ← if 0 < length then do
      let b ← d.booking A (.finite 0) up
      d.bookOnEach names b
    else do
      Logged.note (.dutyCycleTooShort dutyCycle period)
      pure d
  Action.modify fun _ => { edited with padding, fresh := false }

/-- Clears all channels and the sync clock. The padding stays. -/
def clearEdits : Action Device Unit :=
  Action.modify fun d => { d with
    channels := d.channels.map fun (name, schedule) => (name, schedule.clear)
    syncOut := none
    fresh := false }

/-- Forgets the program. -/
def clearProgram : Action Device Unit :=
  Action.modify fun d => { d with program := none, fresh := false }

end Device

end PulseSequencer
