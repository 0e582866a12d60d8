import Mathlib.Tactic
import PulseSequencer.ShortPulse

/-!
# Waveforms

What a board puts out, ns by ns. An instruction whose short pulse field holds `N > 0` drives its
outputs for `N` clock periods and is low for the rest; with an empty field it drives them
throughout. The outputs are the bits below the field.

* `Flags.below`: the outputs of a flags word.
* `Instruction.onTime`, `Instruction.wave`, `Program.wave`: the decoded waveform.
* `Instruction.Plain`: an instruction as the front end lays it out, with an empty field and a
  length of whole periods.

Results:
* `periods_eq`, `toNat_or_field`: the short pulse field in arithmetic.
* `periods_or_field`, `below_or_field`: a count of at most seven put into an empty field reads back,
  and the outputs below it are what they were.
* `isHigh_below`, `length_wave`: which outputs a word drives, and how long an instruction lasts.
* `wave_of_plain`: a plain instruction drives its flags throughout.
-/

namespace PulseSequencer

open ShortPulse

/-! ## The short pulse field -/

namespace Flags

/-- The outputs of a flags word: its bits below `bit`. -/
def below (flags : Flags) (bit : Nat) : Flags := (flags.setWidth bit).setWidth wordBits

theorem isHigh_below (flags : Flags) (bit n : Nat) :
    (flags.below bit).isHigh n = (decide (n < bit) && flags.isHigh n) := by
  unfold below isHigh
  rw [BitVec.getLsbD_setWidth, BitVec.getLsbD_setWidth]
  by_cases hn : n < wordBits
  · simp [hn]
  · rw [BitVec.getLsbD_of_ge flags n (Nat.not_lt.mp hn)]
    simp

/-- A word without bits from `bit` on is all outputs. -/
theorem below_of_lt {flags : Flags} {bit : Nat} (h : flags.toNat < 2 ^ bit) :
    flags.below bit = flags := by
  apply BitVec.eq_of_toNat_eq
  unfold below
  rw [BitVec.toNat_setWidth, BitVec.toNat_setWidth, Nat.mod_eq_of_lt h, Nat.mod_eq_of_lt flags.isLt]

end Flags

theorem periods_eq (flags : Flags) (bit : Nat) :
    periods flags bit = flags.toNat / 2 ^ bit % 8 := by
  unfold periods
  rw [BitVec.toNat_and, BitVec.toNat_ushiftRight, Nat.shiftRight_eq_div_pow]
  exact Nat.and_two_pow_sub_one_eq_mod _ 3

theorem periods_of_lt {flags : Flags} {bit : Nat} (h : flags.toNat < 2 ^ bit) :
    periods flags bit = 0 := by
  rw [periods_eq, Nat.div_eq_of_lt h]

/-- The word with `n` in its empty field, as a number: `n` does not run out of the word. -/
theorem toNat_or_field {flags : Flags} {bit n : Nat} (h : flags.toNat < 2 ^ bit) (hn : n < 8)
    (hfits : bit + fieldBits ≤ wordBits) :
    (flags ||| (BitVec.ofNat wordBits n <<< bit)).toNat = 2 ^ bit * n + flags.toNat := by
  have hspan : n * 2 ^ bit < 2 ^ wordBits := by
    calc n * 2 ^ bit < 2 ^ 3 * 2 ^ bit := Nat.mul_lt_mul_of_pos_right hn (Nat.two_pow_pos bit)
      _ = 2 ^ (bit + fieldBits) := by rw [Nat.pow_add, Nat.mul_comm]
      _ ≤ 2 ^ wordBits := Nat.pow_le_pow_right (by omega) hfits
  have hn' : n < 2 ^ wordBits := by unfold wordBits; omega
  rw [BitVec.toNat_or, BitVec.toNat_shiftLeft, BitVec.toNat_ofNat, Nat.mod_eq_of_lt hn',
    Nat.shiftLeft_eq, Nat.mod_eq_of_lt hspan, Nat.mul_comm, Nat.or_comm,
    Nat.two_pow_add_eq_or_of_lt h]

/-- A count put into an empty field reads back. -/
theorem periods_or_field {flags : Flags} {bit n : Nat} (h : flags.toNat < 2 ^ bit) (hn : n < 8)
    (hfits : bit + fieldBits ≤ wordBits) :
    periods (flags ||| (BitVec.ofNat wordBits n <<< bit)) bit = n := by
  rw [periods_eq, toNat_or_field h hn hfits, Nat.mul_add_div (Nat.two_pow_pos bit),
    Nat.div_eq_of_lt h, Nat.add_zero, Nat.mod_eq_of_lt hn]

/-- A count put into an empty field leaves the outputs as they were. -/
theorem below_or_field {flags : Flags} {bit n : Nat} (h : flags.toNat < 2 ^ bit) (hn : n < 8)
    (hfits : bit + fieldBits ≤ wordBits) :
    (flags ||| (BitVec.ofNat wordBits n <<< bit)).below bit = flags := by
  apply BitVec.eq_of_toNat_eq
  unfold Flags.below
  rw [BitVec.toNat_setWidth, BitVec.toNat_setWidth, toNat_or_field h hn hfits,
    Nat.mul_add_mod, Nat.mod_eq_of_lt h, Nat.mod_eq_of_lt flags.isLt]

/-! ## Decoding -/

/-- All outputs low for `time`. -/
def low (time : Nat) : List Flags := List.replicate time 0

theorem low_append_low (s t : Nat) : low s ++ low t = low (s + t) :=
  List.replicate_append_replicate

variable (b : Board)

namespace Instruction

/-- The time for which an instruction drives its outputs: as many clock periods as its field holds,
and its whole length when the field is empty. -/
def onTime (i : Instruction) : Nat :=
  if periods i.flags b.bit = 0 then i.length else periods i.flags b.bit * b.clock

/-- What a board puts out during an instruction, ns by ns. -/
def wave (i : Instruction) : List Flags :=
  List.replicate (min (i.onTime b) i.length) (i.flags.below b.bit) ++ low (i.length - i.onTime b)

/-- An instruction with an empty field that lasts for some whole clock periods. -/
structure Plain (i : Instruction) : Prop where
  flags_lt : i.flags.toNat < 2 ^ b.bit
  length_pos : 0 < i.length
  clock_dvd : b.clock ∣ i.length

instance (i : Instruction) : Decidable (i.Plain b) :=
  decidable_of_iff (i.flags.toNat < 2 ^ b.bit ∧ 0 < i.length ∧ b.clock ∣ i.length)
    ⟨fun ⟨hf, hl, hc⟩ => ⟨hf, hl, hc⟩, fun ⟨hf, hl, hc⟩ => ⟨hf, hl, hc⟩⟩

end Instruction

/-- What a board puts out during one pass through a program, ns by ns. -/
def Program.wave (p : Program) : List Flags := p.flatMap fun i => i.wave b

variable {b}

theorem length_wave (i : Instruction) : (i.wave b).length = i.length := by
  unfold Instruction.wave low
  rw [List.length_append, List.length_replicate, List.length_replicate]
  omega

/-- A plain instruction drives its flags throughout. -/
theorem wave_of_plain {i : Instruction} (h : i.Plain b) :
    i.wave b = List.replicate i.length i.flags := by
  have hon : i.onTime b = i.length := if_pos (periods_of_lt h.flags_lt)
  unfold Instruction.wave
  rw [hon, Nat.min_self, Nat.sub_self, Flags.below_of_lt h.flags_lt]
  exact List.append_nil _

namespace Program

@[simp] theorem wave_nil : wave b [] = [] := rfl

@[simp] theorem wave_cons (i : Instruction) (p : Program) :
    wave b (i :: p) = i.wave b ++ wave b p := rfl

@[simp] theorem wave_append (p q : Program) : wave b (p ++ q) = wave b p ++ wave b q :=
  List.flatMap_append

/-- All-low instructions put out low for as long as they last. -/
theorem wave_of_low {p : Program} (h : ∀ i ∈ p, i.Plain b ∧ i.flags = 0) :
    wave b p = low p.duration := by
  induction p with
  | nil => rfl
  | cons i p ih =>
    obtain ⟨hplain, hlow⟩ := h i List.mem_cons_self
    rw [wave_cons, wave_of_plain hplain, hlow, ih fun j hj => h j (List.mem_cons_of_mem i hj),
      duration_cons]
    exact low_append_low _ _

end Program

end PulseSequencer
