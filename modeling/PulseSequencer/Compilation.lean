import PulseSequencer.Action
import PulseSequencer.Program.Listing
import PulseSequencer.ShortPulse
import PulseSequencer.Timeline

/-!
# Compilation

From channels to the program that a board is loaded with. The channels are checked one by one, for
their output first and their pulses second; their edges become a program; its end becomes a branch
where a loop is asked for; and what is too short for the board becomes a short pulse.

* `Config`: what is asked for. Unlike a `Board` it may make no sense.
* `Config.layOut`: the program before short pulses.
* `compile`: the whole way, with its notices.
-/

namespace PulseSequencer

/-- How the end of a program is given: by the time behind the last edge, or by its duration. -/
inductive Extent where
  | padding (time : Nat)
  | total (time : Nat)
  deriving DecidableEq

/-- The time behind the last edge. -/
def Extent.paddingAfter (lastEdge : Nat) : Extent → Except Error Nat
  | padding time => .ok time
  | total time =>
    if lastEdge ≤ time then .ok (time - lastEdge) else .error (.programTooShort time lastEdge)

/-- What happens to instructions that are too short for the board. -/
inductive ShortPulseMode where
  | encode
  | leave
  deriving DecidableEq

/-- What is asked of a compilation: the extent of the program, the instruction to branch back to
from its end, if any, and the clock period and short pulse bit of the board. -/
structure Config where
  extent : Extent := .padding 0
  loop : Option Nat := some 0
  clock : Nat := 2
  bit : Nat := 21
  mode : ShortPulseMode := .encode
  deriving DecidableEq

namespace Config

/-- The board of a configuration. -/
def board (config : Config) : Except Error Board :=
  (Board.of config.clock config.bit).mapError BoardFault.toError

/-- Refuses a channel whose output is not below the short pulse field, or whose pulses overlap. -/
def check (config : Config) (channel : Channel) : Except Error Unit := do
  ensure (channel.number < config.bit) (.channelOutOfRange channel.number config.bit)
  channel.checkOverlaps

/-- The program with its end turned into a branch where a loop is asked for; there is nothing to
turn in an empty program. -/
def close (config : Config) (p : Program) : Except Error Program :=
  match config.loop with
  | some target => if p = [] then .ok [] else p.loopTo target
  | none => .ok p

/-- The program of some channels before any short pulse is encoded. -/
def layOut (config : Config) (channels : List Channel) : Except Error Program := do
  channels.forM config.check
  let padding ← config.extent.paddingAfter (lastEdge channels)
  config.close (Program.ofSteps (steps channels padding))

end Config

/-- The program with short pulses encoded, and a notice for each pulse that is lost. -/
def Program.encodeNoting (board : Board) (p : Program) : Logged Program := do
  Logged.noteAll ((ShortPulse.lost board p).map (.pulseLost · board.clock))
  return p.encodeShort board

/-- The program with its too short instructions treated as the configuration says. -/
def Config.treatShort (config : Config) (board : Board) (p : Program) : Logged Program :=
  if ShortPulse.hasShort board.clock p then
    match config.mode with
    | .encode => do
      Logged.note .shortPulsesEncoded
      p.encodeNoting board
    | .leave => do
      Logged.note .shortInstructionsLeft
      return p
  else return p

/-- Lists a program in notices, line by line. -/
def Program.noteListing (p : Program) : Logged Unit :=
  Logged.noteAll (p.listingLines.map .listingLine)

/-- The program of some channels. Without channels and padding it is empty. -/
def compile (channels : List Channel) (config : Config) : Logged Program := do
  let board ← config.board
  let laidOut ← config.layOut channels
  if laidOut = [] then return []
  let p ← config.treatShort board laidOut
  Logged.note (.compiled channels.length p.length)
  p.noteListing
  return p

end PulseSequencer
