import PulseSequencer.Action
import PulseSequencer.Program.Listing

/-!
# Loading boards

A program is written to a board through its driver, by calls in a fixed order. The first call that
fails ends it.

* `Call`, `Driver`: what a driver is asked for, and a driver with a state.
* `load`: the calls that write a program, and those that start it.
* `Recorder`: a driver that keeps the calls it was given and may fail at one of them.
-/

namespace PulseSequencer

/-- A call to the driver of a board. The length of an instruction is handed over as a number. -/
inductive Call where
  | close
  | init
  | startProgramming
  | writeInstruction (flags : Flags) (opcode data : Nat) (length : Number)
  | stopProgramming
  | start
  deriving DecidableEq

/-- A driver of a board: how each call acts on its state. -/
abbrev Driver (σ : Type) := Call → Action σ Unit

/-- The call that writes an instruction. -/
def Instruction.toCall (i : Instruction) : Call :=
  .writeInstruction i.flags i.opcode.code i.data (Arithmetic.binary64.ofNat i.length)

variable {σ : Type}

/-- Writes a program to a board that is opened anew for it. -/
def write (driver : Driver σ) (p : Program) : Action σ Unit := do
  driver .close
  driver .init
  driver .startProgramming
  (Logged.noteAll (p.listingLines.map .listingLine) : Logged Unit)
  p.forM fun i => driver i.toCall
  driver .stopProgramming
  (Logged.note (.written p.length) : Logged Unit)

/-- Writes a program to a board and, if asked to, starts it. A started program goes on when the
board is closed. -/
def load (driver : Driver σ) (p : Program) (start : Bool) : Action σ Unit := do
  write driver p
  if start then
    driver .start
    driver .close
    (Logged.note .started : Logged Unit)

/-- The calls given to a driver, and the one that is to fail, by its number and error. -/
structure Recorder where
  calls : List Call := []
  failure : Option (Nat × Error) := none
  deriving DecidableEq

namespace Recorder

/-- The error of the next call, if it is the one to fail. -/
def nextFailure? (r : Recorder) : Option Error :=
  match r.failure with
  | some (k, e) => if k = r.calls.length then some e else none
  | none => none

/-- Keeps each call, up to the one that fails. -/
def driver : Driver Recorder := fun call r =>
  match r.nextFailure? with
  | some e => (⟨.error e, []⟩, r)
  | none => (pure (), { r with calls := r.calls ++ [call] })

end Recorder

end PulseSequencer
