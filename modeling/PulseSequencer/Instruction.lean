import PulseSequencer.Flags

/-!
# Instructions

An instruction holds the outputs at its flags for its length and then hands on to the next one as
its opcode says. `Instruction.text` is its line in a listing.
-/

namespace PulseSequencer

/-- What the sequencer does at the end of an instruction. -/
inductive Opcode where
  | proceed
  | stop
  | loop
  | endLoop
  | call
  | ret
  | branch
  | longDelay
  | wait
  deriving DecidableEq, Inhabited

namespace Opcode

/-- The value that stands for an opcode in the instruction memory. -/
def code : Opcode → Nat
  | proceed => 0
  | stop => 1
  | loop => 2
  | endLoop => 3
  | call => 4
  | ret => 5
  | branch => 6
  | longDelay => 7
  | wait => 8

/-- The opcode that a value in the instruction memory stands for. -/
def ofCode? : Nat → Option Opcode
  | 0 => some proceed
  | 1 => some stop
  | 2 => some loop
  | 3 => some endLoop
  | 4 => some call
  | 5 => some ret
  | 6 => some branch
  | 7 => some longDelay
  | 8 => some wait
  | _ => none

/-- The name of an opcode in listings. -/
def text : Opcode → String
  | proceed => "CONTINUE"
  | stop => "STOP"
  | loop => "LOOP"
  | endLoop => "END_LOOP"
  | call => "JSR"
  | ret => "RTS"
  | branch => "BRANCH"
  | longDelay => "LONG_DELAY"
  | wait => "WAIT"

@[simp] theorem ofCode?_code (o : Opcode) : ofCode? o.code = some o := by cases o <;> rfl

theorem ofCode?_eq_some {n : Nat} {o : Opcode} : ofCode? n = some o ↔ n = o.code := by
  constructor
  · intro h
    unfold ofCode? at h
    split at h <;> first | contradiction | (cases h; rfl)
  · rintro rfl
    exact ofCode?_code o

end Opcode

/-- One instruction: `flags` drive the outputs for `length` ns, then `opcode` with its argument
`data` (the index of an instruction, for a branch) chooses what follows. -/
structure Instruction where
  flags : Flags
  opcode : Opcode
  data : Nat
  length : Nat
  deriving DecidableEq, Inhabited

namespace Instruction

/-- An instruction that hands on to the one behind it. -/
def proceed (flags : Flags) (length : Nat) : Instruction := ⟨flags, .proceed, 0, length⟩

/-- The line of an instruction. -/
def text (i : Instruction) : String :=
  "[" ++ i.flags.text Flags.maxOutputs ++ ", " ++ i.opcode.text ++ s!", {i.data}, {i.length} ns]"

end Instruction

end PulseSequencer
