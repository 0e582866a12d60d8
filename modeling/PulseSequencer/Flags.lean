import PulseSequencer.Text.Columns

/-!
# Flags words

The state of a board's outputs is a word of 32 bits; bit `n` is output `n`. Toggling outputs is
exclusive or.
-/

namespace PulseSequencer

/-- The number of bits of a flags word. -/
abbrev wordBits : Nat := 32

/-- A flags word: output `n` is high when bit `n` is set. -/
abbrev Flags := BitVec wordBits

namespace Flags

/-- The number of outputs a board provides at most. -/
def maxOutputs : Nat := 24

/-- The word in which output `n` alone is high. -/
def output (n : Nat) : Flags := (1 : Flags) <<< n

/-- Whether output `n` is high. -/
def isHigh (flags : Flags) (n : Nat) : Bool := flags.getLsbD n

/-- The lowest output that is high, `wordBits` when all are low. -/
def lowest (flags : Flags) : Nat := ((List.range wordBits).find? flags.isHigh).getD wordBits

/-- The bits of the word, most significant first, filled up with zeros to `width`. -/
def text (flags : Flags) (width : Nat) : String := Text.binary width flags.toNat

theorem isHigh_output (n m : Nat) : (output n).isHigh m = (decide (m < wordBits) && n == m) := by
  simp only [isHigh, output, BitVec.getLsbD_shiftLeft]
  grind

@[simp] theorem isHigh_xor (a b : Flags) (n : Nat) :
    (a ^^^ b).isHigh n = (a.isHigh n ^^ b.isHigh n) := BitVec.getLsbD_xor

@[simp] theorem isHigh_or (a b : Flags) (n : Nat) :
    (a ||| b).isHigh n = (a.isHigh n || b.isHigh n) := BitVec.getLsbD_or

/-- Output `n` is the lowest one that is high; when all are low, `n` is `wordBits`. -/
def Lowest (flags : Flags) (n : Nat) : Prop :=
  (flags.isHigh n = true ∨ n = wordBits) ∧ ∀ m < n, flags.isHigh m = false

instance (flags : Flags) (n : Nat) : Decidable (flags.Lowest n) :=
  inferInstanceAs (Decidable (_ ∧ _))

theorem lt_wordBits {flags : Flags} {n : Nat} (h : flags.isHigh n = true) : n < wordBits :=
  BitVec.lt_of_getLsbD h

/-- A word has only one lowest output. -/
theorem Lowest.le {flags : Flags} {n k : Nat} (hn : flags.Lowest n) (hk : flags.Lowest k) :
    n ≤ k := by
  refine Nat.not_lt.mp fun hlt => ?_
  rcases hk.1 with hhigh | rfl
  · exact Bool.false_ne_true ((hn.2 k hlt).symm.trans hhigh)
  · rcases hn.1 with hhigh | rfl
    · exact Nat.lt_asymm hlt (lt_wordBits hhigh)
    · exact Nat.lt_irrefl _ hlt

theorem lowest_lowest (flags : Flags) : flags.Lowest flags.lowest := by
  unfold lowest
  cases h : (List.range wordBits).find? flags.isHigh with
  | none =>
    rw [List.find?_eq_none] at h
    exact ⟨Or.inr rfl, fun m hm => Bool.eq_false_iff.mpr (h m (List.mem_range.mpr hm))⟩
  | some k =>
    obtain ⟨hhigh, -, hbelow⟩ := List.find?_range_eq_some.mp h
    exact ⟨Or.inl hhigh, fun m hm => by simpa using hbelow m hm⟩

/-- **The lowest output**, by the bits of the word. -/
theorem lowest_eq_iff {flags : Flags} {n : Nat} : flags.lowest = n ↔ flags.Lowest n := by
  have hlowest := lowest_lowest flags
  exact ⟨fun h => h ▸ hlowest, fun h => Nat.le_antisymm (hlowest.le h) (h.le hlowest)⟩

theorem lowest_output {n : Nat} (h : n < wordBits) : (output n).lowest = n := by
  refine lowest_eq_iff.mpr ⟨Or.inl ?_, fun m hm => ?_⟩
  · simp [isHigh_output, h]
  · simp [isHigh_output, Nat.ne_of_gt hm]

end Flags

end PulseSequencer
