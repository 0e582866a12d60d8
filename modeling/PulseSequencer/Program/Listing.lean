import PulseSequencer.Program.Basic

/-!
# Listings

A program in text: a line for each instruction, headed by its index, which is what a branch names.
-/

namespace PulseSequencer

namespace Program

/-- The line of instruction number `k`. -/
def lineText (k : Nat) (i : Instruction) : String := Text.aligned 4 k ++ ": " ++ i.text

/-- The lines of a program. -/
def listingLines (p : Program) : List String := p.zipIdx.map fun (i, k) => lineText k i

/-- The text of a program, its lines set apart by line feeds. -/
def listing (p : Program) : String := "\n".intercalate p.listingLines

@[simp] theorem length_listingLines (p : Program) : p.listingLines.length = p.length := by
  simp [listingLines]

end Program

end PulseSequencer
