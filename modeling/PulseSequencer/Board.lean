import PulseSequencer.Error

/-!
# Boards

What a program has to know of the board it runs on: the period of its clock in ns, and the bit of
the flags word where the short pulse field begins. The outputs are the bits below it.
-/

namespace PulseSequencer

/-- The number of bits of the short pulse field. -/
abbrev fieldBits : Nat := 3

/-- A board: its clock runs, and its short pulse field lies within the flags word. -/
structure Board where
  clock : Nat
  bit : Nat
  clock_pos : 0 < clock
  field_fits : bit + fieldBits ≤ wordBits
  deriving DecidableEq

/-- The board with this clock period and short pulse bit. -/
def Board.of (clock bit : Nat) : Except BoardFault Board :=
  if clock_pos : 0 < clock then
    if field_fits : bit + fieldBits ≤ wordBits then .ok ⟨clock, bit, clock_pos, field_fits⟩
    else .error (.noRoom bit)
  else .error .zeroClock

theorem Board.of_eq_ok {clock bit : Nat} {b : Board} :
    Board.of clock bit = .ok b ↔ b.clock = clock ∧ b.bit = bit := by
  constructor
  · intro h
    unfold Board.of at h
    split at h
    · split at h
      · cases h
        exact ⟨rfl, rfl⟩
      · cases h
    · cases h
  · rintro ⟨rfl, rfl⟩
    simp [Board.of, b.clock_pos, b.field_fits]

end PulseSequencer
