import PulseSequencer.ShortPulse
import PulseSequencer.Table

/-!
# Timing diagrams

For each output that a program uses, the corners of a line that is low or high as the board drives
the output. An instruction with a short pulse has its outputs high for the periods of the pulse
only. A line begins low at time zero and ends with the program.
-/

namespace PulseSequencer

/-- A corner of a line. -/
structure Vertex where
  time : Nat
  level : Nat
  deriving DecidableEq, Inhabited

/-- The levels of a diagram, and the clock period and short pulse bit to read a program with. -/
structure Style where
  low : Nat := 0
  high : Nat := 1
  clock : Nat := 2
  bit : Nat := 21
  deriving DecidableEq

namespace Style

variable (s : Style)

/-- The corners of a line that goes from low to high. -/
def rise (time : Nat) : List Vertex := [⟨time, s.low⟩, ⟨time, s.high⟩]

/-- The corners of a line that goes from high to low. -/
def fall (time : Nat) : List Vertex := [⟨time, s.high⟩, ⟨time, s.low⟩]

/-- The corners that instruction `i`, which begins at `time`, adds to the line of output `n`, which
stands at `level`. A short pulse that fills its instruction is left high for the next one to end. -/
def corners (n level time : Nat) (i : Instruction) : List Vertex :=
  let periods := ShortPulse.periods i.flags s.bit
  let pulseStop := time + s.clock * periods
  let ends := pulseStop < time + i.length
  match i.flags.isHigh n, (level = s.high : Bool) with
  | true, true => if 0 < periods ∧ ends then s.fall pulseStop else []
  | true, false =>
    if 0 < periods then
      s.rise time ++ ⟨pulseStop, s.high⟩ :: if ends then [⟨pulseStop, s.low⟩] else []
    else s.rise time
  | false, true => s.fall time
  | false, false => []

/-- The corners behind `last` of the line of output `n`, along a program that begins at `time`. -/
def cornersFrom (n : Nat) (last : Vertex) (time : Nat) : Program → List Vertex
  | [] => if last.time = time then [] else [⟨time, last.level⟩]
  | i :: rest =>
    let added := s.corners n last.level time i
    added ++ cornersFrom n (added.getLastD last) (time + i.length) rest

/-- The line of output `n`. -/
def line (n : Nat) (p : Program) : List Vertex := ⟨0, s.low⟩ :: s.cornersFrom n ⟨0, s.low⟩ 0 p

/-- The lines of the outputs that a program uses, by name. An output without a name is called by its
number; of outputs with the same name the last one has the line. -/
def lines (names : Table Nat String) (p : Program) : Table String (List Vertex) :=
  Table.ofList <| (p.outputsUsed s.bit).map fun n =>
    ((names.get? n).getD s!"chan_{n}", s.line n p)

end Style

end PulseSequencer
