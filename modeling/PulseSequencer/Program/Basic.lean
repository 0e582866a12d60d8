import PulseSequencer.Instruction
import PulseSequencer.Error

/-!
# Programs

A program is a list of instructions that run one behind the other. Here are its duration, the
outputs it uses, and the loop that makes it run for ever: the last instruction branches back.
-/

namespace PulseSequencer

/-- A list of instructions, indexed from zero. -/
abbrev Program := List Instruction

namespace Program

/-- The time that one pass through all instructions takes. -/
def duration (p : Program) : Nat := p.foldr (fun i total => i.length + total) 0

/-- The word of all outputs that are high in some instruction. -/
def usedFlags (p : Program) : Flags := p.foldr (fun i flags => i.flags ||| flags) 0

/-- The outputs below `limit` that are high in some instruction, in ascending order. -/
def outputsUsed (p : Program) (limit : Nat) : List Nat :=
  (List.range (min limit wordBits)).filter p.usedFlags.isHigh

/-- `i` with its end turned into a branch to instruction `target`. -/
def branchingTo (target : Nat) (i : Instruction) : Instruction :=
  { i with opcode := .branch, data := target }

/-- The program whose last instruction branches to instruction `target`. -/
def loopTo (p : Program) (target : Nat) : Except Error Program :=
  match p.getLast? with
  | none => .error .emptyProgram
  | some last =>
    if target < p.length then .ok (p.dropLast ++ [branchingTo target last])
    else .error (.branchOutOfRange target p.length)

@[simp] theorem duration_nil : duration [] = 0 := rfl

@[simp] theorem duration_cons (i : Instruction) (p : Program) :
    duration (i :: p) = i.length + duration p := rfl

@[simp] theorem duration_append (p q : Program) :
    duration (p ++ q) = duration p + duration q := by
  induction p with
  | nil => simp
  | cons i p ih => simp [ih, Nat.add_assoc]

theorem isHigh_usedFlags {p : Program} {n : Nat} :
    p.usedFlags.isHigh n ↔ ∃ i ∈ p, i.flags.isHigh n := by
  induction p with
  | nil => simp [usedFlags, Flags.isHigh]
  | cons i p ih =>
    have step : usedFlags (i :: p) = i.flags ||| usedFlags p := rfl
    simp [step, ih]

theorem mem_outputsUsed {p : Program} {limit n : Nat} :
    n ∈ p.outputsUsed limit ↔ n < limit ∧ n < wordBits ∧ ∃ i ∈ p, i.flags.isHigh n := by
  rw [outputsUsed, List.mem_filter, List.mem_range, Nat.lt_min, isHigh_usedFlags, and_assoc]

theorem loopTo_eq_ok {p q : Program} {target : Nat} :
    p.loopTo target = .ok q ↔
      ∃ body last, p = body ++ [last] ∧ target < p.length ∧
        q = body ++ [branchingTo target last] := by
  unfold loopTo
  rcases List.eq_nil_or_concat p with rfl | ⟨body, last, rfl⟩
  · simp
  · simp only [List.concat_eq_append, List.getLast?_append, List.getLast?_singleton,
      Option.some_or, List.dropLast_concat]
    split
    · constructor
      · intro h
        cases h
        exact ⟨body, last, rfl, by assumption, rfl⟩
      · rintro ⟨body', last', same, -, rfl⟩
        obtain ⟨rfl, h⟩ := List.append_inj' same rfl
        simp_all
    · constructor
      · intro h
        cases h
      · rintro ⟨-, -, -, inside, -⟩
        contradiction

end Program

end PulseSequencer
