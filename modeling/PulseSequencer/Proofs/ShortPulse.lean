import PulseSequencer.Proofs.Groups
import PulseSequencer.Proofs.Waveform

/-!
# Short pulses keep the waveform

Encoding the short pulses of a plain program keeps what a board puts out, but for low time: every
group becomes one instruction that drives the flags of its head for exactly the length of the head,
and is then low for as long as the absorbed instructions last and until the least length is reached.

* `Group.Formed`: what a group of plain instructions is: its members are plain, the absorbed ones
  are all low, and only a short head absorbs (`takes_iff`, `formed_groups`).
* `Group.extra`: the low time that a group is stretched by.

Results:
* `wave_instruction`, `wave_instruction_eq_members`: the waveform of a group's instruction, by its
  head and member by member.
* **`encodeShort_drives_groups`**: the encoded program, group by group and as a whole.
-/

namespace PulseSequencer

namespace ShortPulse

variable {b : Board}

/-! ## Groups of plain instructions -/

/-- The low time that a group is stretched by to reach the least length. -/
def Group.extra (b : Board) (g : Group) : Nat := minLength b.clock - Program.duration g.members

/-- A group of plain instructions: what is absorbed is all low, and only a short head absorbs. -/
structure Group.Formed (b : Board) (g : Group) : Prop where
  head : g.head.Plain b
  absorbed : ∀ i ∈ g.absorbed, i.Plain b ∧ i.flags = 0
  short : g.absorbed ≠ [] → g.head.length ≤ minLength b.clock

/-- A short plain instruction lasts for one to five clock periods. -/
theorem periods_of_short {i : Instruction} (h : i.Plain b) (hs : i.length ≤ minLength b.clock) :
    0 < i.length / b.clock ∧ i.length / b.clock ≤ minPeriods := by
  refine ⟨Nat.div_pos (Nat.le_of_dvd h.length_pos h.clock_dvd) b.clock_pos, ?_⟩
  exact Nat.div_le_of_le_mul (by rw [Nat.mul_comm]; exact hs)

/-- The field of a group's instruction: the periods of a short head, else empty. -/
theorem periods_groupFlags {g : Group} (h : g.head.Plain b) :
    periods (g.flags b) b.bit =
      if g.head.length ≤ minLength b.clock then g.head.length / b.clock else 0 := by
  unfold Group.flags
  by_cases hs : g.head.length ≤ minLength b.clock
  · have hfew := (periods_of_short h hs).2
    rw [if_pos hs, if_pos hs]
    exact periods_or_field h.flags_lt (by unfold minPeriods at hfew; omega) b.field_fits
  · rw [if_neg hs, if_neg hs]
    exact periods_of_lt h.flags_lt

/-- The outputs of a group's instruction are those of its head. -/
theorem below_groupFlags {g : Group} (h : g.head.Plain b) :
    (g.flags b).below b.bit = g.head.flags := by
  unfold Group.flags
  by_cases hs : g.head.length ≤ minLength b.clock
  · have hfew := (periods_of_short h hs).2
    rw [if_pos hs]
    exact below_or_field h.flags_lt (by unfold minPeriods at hfew; omega) b.field_fits
  · rw [if_neg hs]
    exact Flags.below_of_lt h.flags_lt

/-- A group takes in an all-low instruction when its head is short. -/
theorem takes_iff {g : Group} (h : g.head.Plain b) (i : Instruction) :
    g.takes b i = true ↔ i.flags = 0 ∧ g.head.length ≤ minLength b.clock := by
  unfold Group.takes
  rw [Bool.and_eq_true, decide_eq_true_eq, decide_eq_true_eq, periods_groupFlags h]
  refine and_congr Iff.rfl ?_
  by_cases hs : g.head.length ≤ minLength b.clock
  · simp [hs, (periods_of_short h hs).1]
  · simp [hs]

/-- All groups of a plain program are formed. -/
theorem formed_groups {p : Program} (hp : ∀ i ∈ p, i.Plain b) :
    ∀ g ∈ groups b p, g.Formed b := by
  intro g hg
  have hsplit := splits_groups (b := b) p
  have hplain : ∀ i ∈ g.members, i.Plain b := fun i hi =>
    hp i (hsplit.members ▸ List.mem_flatMap.mpr ⟨g, hg, hi⟩)
  have hhead : g.head.Plain b := hplain g.head List.mem_cons_self
  have htaken : ∀ i ∈ g.absorbed, i.flags = 0 ∧ g.head.length ≤ minLength b.clock := fun i hi =>
    (takes_iff hhead i).mp (hsplit.absorbed g hg i hi)
  refine ⟨hhead, fun i hi => ⟨hplain i (List.mem_cons_of_mem _ hi), (htaken i hi).1⟩, fun hne => ?_⟩
  obtain ⟨i, hi⟩ := List.exists_mem_of_ne_nil _ hne
  exact (htaken i hi).2

/-! ## The waveform of a group -/

/-- A group's instruction lasts as long as its members, and for the time it is stretched by. -/
theorem length_instruction_eq (g : Group) :
    (g.instruction b).length = g.head.length + (Program.duration g.absorbed + g.extra b) := by
  have hsplit : Program.duration g.members = g.head.length + Program.duration g.absorbed := rfl
  unfold Group.extra
  rw [length_instruction, hsplit]
  omega

/-- **A group's instruction drives its outputs for the length of the head.** -/
theorem onTime_instruction {g : Group} (hg : g.Formed b) :
    (g.instruction b).onTime b = g.head.length := by
  unfold Instruction.onTime
  rw [flags_instruction, periods_groupFlags hg.head]
  by_cases hs : g.head.length ≤ minLength b.clock
  · rw [if_pos hs, if_neg (periods_of_short hg.head hs).1.ne']
    exact Nat.div_mul_cancel hg.head.clock_dvd
  · have hnil : g.absorbed = [] := not_not.mp fun h => hs (hg.short h)
    rw [if_neg hs, if_pos rfl, length_instruction_eq, Group.extra, Group.members, hnil]
    simp only [Program.duration_cons, Program.duration_nil]
    omega

/-- **The waveform of a group**: the flags of its head for the length of the head, then low for as
long as the absorbed instructions last and for the time it is stretched by. -/
theorem wave_instruction {g : Group} (hg : g.Formed b) :
    (g.instruction b).wave b = List.replicate g.head.length g.head.flags ++
      low (Program.duration g.absorbed + g.extra b) := by
  have hlen := length_instruction_eq (b := b) g
  unfold Instruction.wave
  rw [onTime_instruction hg, flags_instruction, below_groupFlags hg.head, hlen,
    Nat.min_eq_left (Nat.le_add_right _ _), Nat.add_sub_cancel_left]

/-- The same, member by member. -/
theorem wave_instruction_eq_members {g : Group} (hg : g.Formed b) :
    (g.instruction b).wave b = Program.wave b g.members ++ low (g.extra b) := by
  rw [wave_instruction hg, Group.members, Program.wave_cons, wave_of_plain hg.head,
    Program.wave_of_low hg.absorbed, List.append_assoc, low_append_low]

/-- Renumbering branches changes nothing that is put out. -/
theorem wave_retarget (cover : List Nat) (i : Instruction) :
    (retarget cover i).wave b = i.wave b := by
  unfold retarget
  split <;> rfl

theorem wave_encodeShort (p : Program) :
    Program.wave b (p.encodeShort b) =
      (groups b p).flatMap fun g => (g.instruction b).wave b := by
  rw [encodeShort_eq, Program.wave, List.flatMap_map]
  simp only [wave_retarget]

end ShortPulse

open ShortPulse

/-- **Short pulses keep the waveform.** A program of plain instructions falls, in order, into groups
of a head and all-low instructions behind it, one for each instruction of the encoded program. That
instruction drives the flags of the head for exactly the length of the head and is low for as long
as the rest of the group lasts, and until the least length is reached. So as a whole the encoded
program puts out what the program does, with low time put in behind its groups. -/
theorem encodeShort_drives_groups (b : Board) (p : Program) (hp : ∀ i ∈ p, i.Plain b) :
    ∃ gs : List Group, gs.flatMap Group.members = p ∧
      (∀ g ∈ gs, ∀ i ∈ g.absorbed, i.flags = 0) ∧
      List.Forall₂ (fun g i => i.wave b = List.replicate g.head.length g.head.flags ++
          low (Program.duration g.absorbed + (minLength b.clock - Program.duration g.members)))
        gs (p.encodeShort b) ∧
      Program.wave b (p.encodeShort b) =
        gs.flatMap fun g => Program.wave b g.members ++
          low (minLength b.clock - Program.duration g.members) := by
  have hformed := formed_groups hp
  refine ⟨groups b p, flatMap_members_groups b p,
    fun g hg i hi => ((hformed g hg).absorbed i hi).2, ?_, ?_⟩
  · rw [encodeShort_eq, List.forall₂_map_right_iff, List.forall₂_same]
    intro g hg
    rw [wave_retarget]
    exact wave_instruction (hformed g hg)
  · rw [wave_encodeShort]
    refine List.flatMap_congr fun g hg => ?_
    exact wave_instruction_eq_members (hformed g hg)

/-- Two all-low instructions, the second of them short, are absorbed into a pulse of one period,
and a long one stays as it is. -/
theorem absorbing_pulse_drives_groups :
    ∃ b : Board, ∃ p : Program, (∀ i ∈ p, i.Plain b) ∧
      p = [.proceed 1 2, .proceed 0 4, .proceed 0 2, .proceed 2 12] ∧
      p.encodeShort b = [.proceed (1 ||| 1 <<< 21) 10, .proceed 2 12] ∧
      ∃ gs : List Group, gs.flatMap Group.members = p ∧
        Program.wave b (p.encodeShort b) =
          gs.flatMap fun g => Program.wave b g.members ++
            low (minLength b.clock - Program.duration g.members) := by
  let b : Board := ⟨2, 21, by decide, by decide⟩
  let p : Program := [.proceed 1 2, .proceed 0 4, .proceed 0 2, .proceed 2 12]
  have hp : ∀ i ∈ p, i.Plain b := by decide
  obtain ⟨gs, hgs, -, -, hwave⟩ := encodeShort_drives_groups b p hp
  exact ⟨b, p, hp, rfl, by decide, gs, hgs, hwave⟩

end PulseSequencer
