import Mathlib.Tactic
import PulseSequencer.ShortPulse

/-!
# Encoding, group by group

Encoding goes through a program from the front and changes the last instruction put out as long as
it absorbs what is next. So a program falls into groups, each of an instruction and what it absorbs,
and each group becomes one instruction. That it is stretched again and again does not show in the
end: it lasts as long as its group, and not below the least length.

* `Group`: an instruction and what it absorbs, with the instruction that is made of them.
* `groups`, `cover`: the groups of a program, and the group that holds each of its instructions.
* `Encoding.ofGroups`: an encoding that has gone through some groups.

Results:
* `push_ofGroups`, `absorb_ofGroups`: what a step does, and which one it does (`absorbs_ofGroups`).
* `foldl_step`: any further instructions.
* **`encode_eq`**: a program has become its groups.
* `encodeShort_eq`, `lost_eq`: the same with the branches, and the pulses that are lost.
-/

namespace PulseSequencer

namespace ShortPulse

/-! ## Groups -/

/-- An instruction and the all-low ones behind it that become part of it. -/
structure Group where
  head : Instruction
  absorbed : List Instruction
  deriving DecidableEq

namespace Group

/-- The instructions of a group. -/
def members (g : Group) : List Instruction := g.head :: g.absorbed

/-- The flags of a group's instruction: a short head has its length in the field. -/
def flags (b : Board) (g : Group) : Flags :=
  if g.head.length ≤ minLength b.clock then
    g.head.flags ||| (BitVec.ofNat wordBits (g.head.length / b.clock) <<< b.bit)
  else g.head.flags

/-- Whether a group takes in `i`: an all-low instruction behind a short pulse. -/
def takes (b : Board) (g : Group) (i : Instruction) : Bool :=
  i.flags = 0 && 0 < periods (g.flags b) b.bit

/-- The group with `i` as its last instruction. -/
def absorb (g : Group) (i : Instruction) : Group := { g with absorbed := g.absorbed ++ [i] }

/-- The member whose opcode a group keeps: the last absorbed one that does not merely proceed,
else the head. -/
def control (g : Group) : Instruction :=
  (g.absorbed.filter (·.opcode ≠ .proceed)).getLast?.getD g.head

/-- The instruction of a group: it lasts as long as its members together, and not below the least
length. -/
def instruction (b : Board) (g : Group) : Instruction where
  flags := g.flags b
  opcode := g.control.opcode
  data := g.control.data
  length := max (Program.duration g.members) (minLength b.clock)

end Group

/-- The groups of a program of which `g` is the first so far. -/
def groupsFrom (b : Board) (g : Group) : Program → List Group
  | [] => [g]
  | i :: rest =>
    if g.takes b i then groupsFrom b (g.absorb i) rest else g :: groupsFrom b ⟨i, []⟩ rest

/-- The groups of a program, in order. -/
def groups (b : Board) : Program → List Group
  | [] => []
  | i :: rest => groupsFrom b ⟨i, []⟩ rest

/-- For each instruction of the groups in order, the number of the group that holds it. -/
def cover (gs : List Group) : List Nat :=
  gs.zipIdx.flatMap fun (g, k) => List.replicate g.members.length k

variable {b : Board} {g : Group} {gs : List Group} {i : Instruction} {p : Program}

theorem flatMap_members_groupsFrom (b : Board) (g : Group) (p : Program) :
    (groupsFrom b g p).flatMap Group.members = g.members ++ p := by
  induction p generalizing g with
  | nil => simp [groupsFrom]
  | cons i rest ih =>
    unfold groupsFrom
    split
    · simp [ih, Group.absorb, Group.members]
    · simp [ih, Group.members]

/-- Grouping loses no instruction and keeps their order. -/
theorem flatMap_members_groups (b : Board) (p : Program) :
    (groups b p).flatMap Group.members = p := by
  cases p with
  | nil => rfl
  | cons i rest => exact flatMap_members_groupsFrom b ⟨i, []⟩ rest

theorem cover_concat (gs : List Group) (g : Group) :
    cover (gs ++ [g]) = cover gs ++ List.replicate g.members.length gs.length := by
  simp [cover, List.zipIdx_append]

/-! ## What a step does -/

/-- The encoding that has gone through some groups. -/
def Encoding.ofGroups (b : Board) (gs : List Group) : Encoding where
  instructions := (gs.map (Group.instruction b)).toArray
  spans := (gs.map fun g => Program.duration g.members).toArray
  index := (cover gs).toArray
  lost := ((gs.map Group.head).filter fun i => i.length < b.clock).toArray

/-- An instruction put out by itself is a group by itself. -/
theorem instruction_single (b : Board) (i : Instruction) :
    Group.instruction b ⟨i, []⟩ = shorten b i := by
  have hduration : Program.duration [i] = i.length := Nat.add_zero _
  unfold Group.instruction Group.members Group.flags shorten
  rw [hduration]
  by_cases hshort : i.length ≤ minLength b.clock
  · rw [if_pos hshort, if_pos hshort, Nat.max_eq_right hshort]
    rfl
  · rw [if_neg hshort, if_neg hshort, Nat.max_eq_left (Nat.le_of_not_le hshort)]
    rfl

theorem duration_absorb (g : Group) (i : Instruction) :
    Program.duration (g.absorb i).members = Program.duration g.members + i.length := by
  simp [Group.absorb, Group.members, Nat.add_assoc]

/-- The opcode of a group is that of `i` if `i` does more than proceed, and else what it was. -/
theorem control_absorb (g : Group) (i : Instruction) :
    (g.absorb i).control = if i.opcode = .proceed then g.control else i := by
  unfold Group.absorb Group.control
  rw [List.filter_append]
  by_cases hproceed : i.opcode = .proceed <;> simp [hproceed]

/-- **Absorbing one instruction more** makes of a group's instruction that of the larger group. The
length is that of all members, stretched once: `takeIn` does not see the length that `g` had been
stretched to. -/
theorem instruction_absorb (b : Board) (g : Group) (i : Instruction) :
    (g.absorb i).instruction b =
      takeIn b (Program.duration g.members + i.length) i (g.instruction b) := by
  unfold Group.instruction takeIn
  rw [control_absorb, duration_absorb]
  split <;> rfl

theorem absorbs_ofGroups (gs : List Group) (g : Group) (i : Instruction) :
    (Encoding.ofGroups b (gs ++ [g])).absorbs b i = g.takes b i := by
  unfold Encoding.absorbs Encoding.ofGroups
  rw [List.back?_toArray, List.map_append, List.map_singleton, List.getLast?_concat]
  rfl

/-- Changing the last image is changing the last element. -/
theorem modify_map_concat {α β : Type} {f : α → β} {change : β → β} {x y : α}
    (h : change (f x) = f y) (l : List α) :
    ((l ++ [x]).map f).modify l.length change = (l ++ [y]).map f := by
  induction l with
  | nil => exact congrArg ([·]) h
  | cons z l ih => exact congrArg (f z :: ·) ih

/-- **A step that absorbs** makes the last group larger. -/
theorem absorb_ofGroups (gs : List Group) (g : Group) (i : Instruction) :
    (Encoding.ofGroups b (gs ++ [g])).absorb b i = Encoding.ofGroups b (gs ++ [g.absorb i]) := by
  have hlast : ((gs ++ [g]).map (Group.instruction b)).length - 1 = gs.length := by simp
  have hspans : ((gs ++ [g]).map fun g => Program.duration g.members).modify gs.length
      (· + i.length) = (gs ++ [g.absorb i]).map fun g => Program.duration g.members :=
    modify_map_concat (duration_absorb g i).symm gs
  have hspan : ((gs ++ [g.absorb i]).map fun g => Program.duration g.members).getLast?.getD 0 =
      Program.duration g.members + i.length := by
    rw [List.map_append, List.map_singleton, List.getLast?_concat, Option.getD_some,
      duration_absorb]
  have hinstructions := modify_map_concat (instruction_absorb b g i).symm gs
  have hindex : cover (gs ++ [g]) ++ [gs.length] = cover (gs ++ [g.absorb i]) := by
    have hmembers : (g.absorb i).members.length = g.members.length + 1 := by
      simp [Group.absorb, Group.members]
    rw [cover_concat, cover_concat, hmembers, List.replicate_succ', List.append_assoc]
  have hheads : (gs ++ [g]).map Group.head = (gs ++ [g.absorb i]).map Group.head := by
    rw [List.map_append, List.map_append]
    rfl
  simp only [Encoding.absorb, Encoding.ofGroups, List.size_toArray, List.modify_toArray,
    List.push_toArray, List.back?_toArray, hlast, hspans, hspan, hinstructions, hindex, hheads]

/-- **A step that puts out an instruction** begins a group. -/
theorem push_ofGroups (gs : List Group) (i : Instruction) :
    (Encoding.ofGroups b gs).push b i = Encoding.ofGroups b (gs ++ [⟨i, []⟩]) := by
  have hempty : (i.length ≤ minLength b.clock ∧ i.length / b.clock = 0) ↔ i.length < b.clock := by
    rw [Nat.div_eq_zero_iff_lt b.clock_pos]
    unfold minLength minPeriods
    omega
  have hlost : (gs.map Group.head ++ [i]).filter (fun i => i.length < b.clock) =
      if i.length < b.clock then
        ((gs.map Group.head).filter fun i => i.length < b.clock) ++ [i]
      else (gs.map Group.head).filter fun i => i.length < b.clock := by
    rw [List.filter_append]
    by_cases h : i.length < b.clock <;> simp [h]
  simp only [Encoding.push, Encoding.ofGroups, hempty, hlost, cover_concat, List.map_append,
    List.map_singleton, List.length_map, List.size_toArray, List.push_toArray, instruction_single]
  split <;> rfl

/-! ## What they do together -/

/-- **The run**: any further instructions join the open group `g` or begin groups behind it. -/
theorem foldl_step (gs : List Group) (g : Group) (p : Program) :
    p.foldl (Encoding.step b) (Encoding.ofGroups b (gs ++ [g])) =
      Encoding.ofGroups b (gs ++ groupsFrom b g p) := by
  induction p generalizing gs g with
  | nil => rfl
  | cons i p ih =>
    rw [List.foldl_cons, Encoding.step, absorbs_ofGroups, groupsFrom]
    by_cases ht : g.takes b i = true
    · rw [if_pos ht, if_pos ht, absorb_ofGroups, ih]
    · rw [if_neg ht, if_neg ht, push_ofGroups, ih, List.append_assoc, List.singleton_append]

/-- **A program has become its groups** when it has been gone through. -/
theorem encode_eq (b : Board) (p : Program) : encode b p = Encoding.ofGroups b (groups b p) := by
  cases p with
  | nil => rfl
  | cons i p =>
    have hfirst : Encoding.step b {} i = Encoding.ofGroups b ([] ++ [⟨i, []⟩]) :=
      (if_neg (by simp [Encoding.absorbs])).trans (push_ofGroups [] i)
    rw [encode, List.foldl_cons, hfirst, foldl_step]
    rfl

theorem lost_eq (b : Board) (p : Program) :
    lost b p = ((groups b p).map Group.head).filter fun i => i.length < b.clock := by
  rw [lost, encode_eq]
  rfl

end ShortPulse

open ShortPulse

/-- **Every group becomes an instruction**, with the target of a branch replaced by the number of
the group that holds it. -/
theorem encodeShort_eq (b : Board) (p : Program) :
    p.encodeShort b =
      (groups b p).map fun g => retarget (cover (groups b p)) (g.instruction b) := by
  rw [Program.encodeShort, encode_eq]
  exact List.map_map

theorem mem_encodeShort {b : Board} {p : Program} {i : Instruction} :
    i ∈ p.encodeShort b ↔
      ∃ g ∈ groups b p, retarget (cover (groups b p)) (g.instruction b) = i := by
  rw [encodeShort_eq, List.mem_map]

end PulseSequencer
