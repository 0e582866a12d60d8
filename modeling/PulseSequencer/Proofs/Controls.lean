import PulseSequencer.Proofs.Loop

/-!
# Opcodes that are absorbed

An instruction that is absorbed into a short pulse hands its opcode on, unless it merely proceeds.
But a group becomes one instruction, which has one opcode: of the opcodes in a group that do more
than proceed the last one is kept, and the others are dropped, be it that of the head or of another
absorbed instruction.

* `Program.controls`: the opcodes of a program that do more than proceed.

Results:
* `flatMap_eq_iff_of_sublist`: pieces of some lists make up the lists when they are the whole lists.
* `controls_instruction`, `controls_encodeShort`: what a group keeps, and an encoded program.
* **`encodeShort_keeps_controls_iff`**: a program keeps its control flow if no group holds two such
  opcodes.
* **`absorbed_wait_dropped`**: a program that does not.
-/

namespace PulseSequencer

open ShortPulse

/-! ## Pieces of lists -/

/-- A piece of each of some lists, one behind the other, make up all of the lists only if they are
the whole lists. -/
theorem flatMap_eq_iff_of_sublist {α β : Type} {f g : α → List β} {l : List α}
    (h : ∀ a ∈ l, (f a).Sublist (g a)) : l.flatMap f = l.flatMap g ↔ ∀ a ∈ l, f a = g a := by
  refine ⟨fun heq => ?_, List.flatMap_congr⟩
  induction l with
  | nil => exact fun a ha => absurd ha List.not_mem_nil
  | cons a l ih =>
    obtain ⟨ha, hl⟩ := List.forall_mem_cons.mp h
    have hrest := (List.Sublist.flatMap_right l hl).length_le
    have hlength := congrArg List.length heq
    rw [List.flatMap_cons, List.flatMap_cons, List.length_append, List.length_append] at hlength
    have hfirst : f a = g a := ha.eq_of_length (le_antisymm ha.length_le (by omega))
    rw [List.flatMap_cons, List.flatMap_cons, hfirst] at heq
    exact List.forall_mem_cons.mpr ⟨hfirst, ih hl (List.append_cancel_left heq)⟩

/-- The last element of a list is a piece of it. -/
theorem getLast?_toList_sublist {α : Type} (l : List α) : l.getLast?.toList.Sublist l := by
  rcases List.eq_nil_or_concat l with rfl | ⟨front, last, rfl⟩
  · exact List.Sublist.refl _
  · simp

/-- It is all of it when there is no second one. -/
theorem getLast?_toList_eq_iff {α : Type} (l : List α) : l.getLast?.toList = l ↔ l.length ≤ 1 := by
  constructor
  · intro h
    rw [← h]
    exact Option.length_toList_le
  · intro h
    rcases Nat.le_one_iff_eq_zero_or_eq_one.mp h with hnone | hone
    · rw [List.length_eq_zero_iff.mp hnone]
      rfl
    · obtain ⟨a, rfl⟩ := List.length_eq_one_iff.mp hone
      rfl

/-! ## Opcodes -/

namespace Program

/-- The opcodes of a program that do more than proceed, in order. -/
def controls (p : Program) : List Opcode := (p.map (·.opcode)).filter (· ≠ .proceed)

theorem controls_append (p q : Program) : controls (p ++ q) = controls p ++ controls q := by
  unfold controls
  rw [List.map_append, List.filter_append]

theorem controls_flatMap {α : Type} (f : α → Program) (l : List α) :
    controls (l.flatMap f) = l.flatMap fun a => controls (f a) := by
  unfold controls
  rw [List.map_flatMap, List.filter_flatMap]

end Program

namespace ShortPulse

variable {b : Board}

/-- **A group keeps the last of its opcodes** that do more than proceed. -/
theorem controls_instruction (g : Group) :
    Program.controls [g.instruction b] = (Program.controls g.members).getLast?.toList := by
  have hmembers : Program.controls g.members = Program.controls [g.head] ++
      (g.absorbed.filter (·.opcode ≠ .proceed)).map (·.opcode) := by
    rw [Group.members, ← List.singleton_append, Program.controls_append]
    unfold Program.controls
    rw [List.filter_map (l := g.absorbed)]
    rfl
  have hkept : Program.controls [g.instruction b] = Program.controls [g.control] := rfl
  rw [hkept, hmembers, Group.control]
  rcases List.eq_nil_or_concat (g.absorbed.filter (·.opcode ≠ .proceed)) with
    hnone | ⟨front, last, h⟩
  · -- nothing that is absorbed does more than proceed, so the head has its way
    rw [hnone]
    by_cases hhead : g.head.opcode = .proceed <;> simp [Program.controls, hhead]
  · have hlast : last ∈ g.absorbed.filter (·.opcode ≠ .proceed) := by
      rw [h, List.concat_eq_append]
      exact List.mem_concat_self
    have hne : last.opcode ≠ .proceed := of_decide_eq_true (List.mem_filter.mp hlast).2
    rw [h]
    simp [Program.controls, hne]

end ShortPulse

theorem controls_encodeShort (b : Board) (p : Program) :
    (p.encodeShort b).controls =
      (groups b p).flatMap fun g => (Program.controls g.members).getLast?.toList := by
  have hkept : ∀ g : Group, Program.controls [retarget (cover (groups b p)) (g.instruction b)] =
      (Program.controls g.members).getLast?.toList := by
    intro g
    rw [← controls_instruction (b := b) g]
    unfold Program.controls
    rw [List.map_singleton, List.map_singleton, opcode_retarget]
  rw [encodeShort_eq, List.map_eq_flatMap, Program.controls_flatMap]
  exact List.flatMap_congr fun g _ => hkept g

/-- **What encoding keeps of the control flow.** The groups of a program (`Splits`) each keep the
last of their opcodes that do more than proceed. So encoding makes up none and leaves them in order,
and it keeps all of them exactly if no group holds two: neither a head and an instruction that it
absorbs, nor two that are absorbed. -/
theorem encodeShort_keeps_controls_iff (b : Board) (p : Program) :
    ∃ gs : List Group, Splits b p gs ∧
      (p.encodeShort b).controls =
        gs.flatMap (fun g => (Program.controls g.members).getLast?.toList) ∧
      (p.encodeShort b).controls.Sublist p.controls ∧
      ((p.encodeShort b).controls = p.controls ↔
        ∀ g ∈ gs, (Program.controls g.members).length ≤ 1) := by
  have hall : p.controls = (groups b p).flatMap fun g => Program.controls g.members := by
    rw [← Program.controls_flatMap, flatMap_members_groups]
  have hpieces : ∀ g ∈ groups b p,
      ((Program.controls g.members).getLast?.toList).Sublist (Program.controls g.members) :=
    fun g _ => getLast?_toList_sublist _
  have hkept := controls_encodeShort b p
  refine ⟨groups b p, splits_groups p, hkept, ?_, ?_⟩
  · rw [hkept, hall]
    exact List.Sublist.flatMap_right _ hpieces
  · rw [hkept, hall, flatMap_eq_iff_of_sublist hpieces]
    simp only [getLast?_toList_eq_iff]

/-- A short pulse, and behind it two all-low instructions of which one waits and one branches. -/
def pulseThenWait : Program := [.proceed 1 2, ⟨0, .wait, 0, 4⟩, ⟨0, .branch, 0, 30⟩]

/-- **An opcode that is dropped.** Both all-low instructions are absorbed into the pulse, which then
branches without a wait. -/
theorem absorbed_wait_dropped :
    pulseThenWait.controls = [.wait, .branch] ∧
      pulseThenWait.encodeShort ⟨2, 21, by decide, by decide⟩ =
        [⟨1 ||| 1 <<< 21, .branch, 0, 36⟩] ∧
      ¬ ∀ (b : Board) (p : Program), (p.encodeShort b).controls = p.controls := by
  refine ⟨by decide, by decide, fun hkeeps => ?_⟩
  exact absurd (hkeeps ⟨2, 21, by decide, by decide⟩ pulseThenWait) (by decide)

end PulseSequencer
