import PulseSequencer.Experiment

/-!
# Demonstration

A program without arguments: it sets up a board of 500 MHz with three channels, books pulses on two
of them, compiles them into a loop, and prints the listing, the duration and the timing diagram.
-/

namespace PulseSequencer

namespace Demonstration

/-- The name of the board. -/
def boardName : String := "PB_ESR_PRO"

/-- The edits of the board. -/
def edits : Action Device Unit := do
  Device.addChannel "aom" 0
  Device.addChannel "laser" 1
  Device.addChannel "sync" 2
  Device.high .binary64 "aom" (.finite 6) (.finite 10)
  Device.pulseTrain .binary64 "laser" [.finite 2, .finite 16] [.finite 8, .finite 14]
  Device.setPadding .binary64 (.finite 22)

/-- Sets up an experiment with the board and compiles it. -/
def experiment : Action Experiment Nat := do
  Experiment.addDevice .binary64 boardName (.finite 500000000) 21
  Experiment.onDevice boardName edits
  Experiment.compile .binary64 (some 0)

/-- A line of the diagram: the name of a channel, the times of its corners and their levels. -/
def lineText (name : String) (vertices : List Vertex) : String :=
  let list (xs : List Nat) : String := "[" ++ ", ".intercalate (xs.map toString) ++ "]"
  name ++ ": " ++ list (vertices.map Vertex.time) ++ " " ++ list (vertices.map Vertex.level)

/-- The lines that are printed. -/
def report : Except Error (List String) := do
  let (outcome, devices) := experiment []
  let duration ← outcome.result
  let d ← Experiment.device devices boardName
  let lines := (← d.diagram).map fun (name, vertices) => lineText name vertices
  return (← d.listing) :: s!"total: {duration} ns" :: lines

end Demonstration

end PulseSequencer

/-- Prints the demonstration. -/
def main : IO UInt32 := do
  match PulseSequencer.Demonstration.report with
  | .ok lines =>
    for line in lines do IO.println line
    return 0
  | .error e =>
    IO.eprintln e.message
    return 1
