import PulseSequencer.Proofs.Encoding

/-!
# The groups of a program

Encoding short pulses cuts a program into groups and makes an instruction of each. That holds of any
instructions: with anything in the short pulse field, with any opcode, off the clock, of no length
at all.

* `Splits`: a program cut into groups of which each takes in what it can.

Results:
* `splits_groups`, `Splits.eq_groups`: the groups of a program are the only such cut.
* `length_groups_le`, `le_duration_instructions`, `duration_instructions_le`: how many groups there
  are, and how long their instructions last.
* **`encodeShort_shape`**: the encoded program, whatever is encoded.
-/

namespace PulseSequencer

namespace ShortPulse

variable {b : Board} {g : Group} {gs : List Group} {p : Program}

/-! ## Cutting a program -/

/-- A program cut into groups: a group takes in all that it holds behind its head, and it does not
take in the head of the next one. -/
structure Splits (b : Board) (p : Program) (gs : List Group) : Prop where
  members : gs.flatMap Group.members = p
  absorbed : ∀ g ∈ gs, ∀ i ∈ g.absorbed, g.takes b i = true
  heads : gs.IsChain fun g g' => g.takes b g'.head = false

/-- The first group keeps its head. -/
theorem groupsFrom_eq_cons (g : Group) (p : Program) :
    ∃ first rest, groupsFrom b g p = first :: rest ∧ first.head = g.head := by
  induction p generalizing g with
  | nil => exact ⟨g, [], rfl, rfl⟩
  | cons i p ih =>
    unfold groupsFrom
    by_cases ht : g.takes b i = true
    · rw [if_pos ht]
      exact ih (g.absorb i)
    · rw [if_neg ht]
      exact ⟨g, _, rfl, rfl⟩

/-- Groups hold what they take in. That depends on the head of a group alone, so the first one may
have absorbed something already. -/
theorem absorbed_groupsFrom (hg : ∀ i ∈ g.absorbed, g.takes b i = true) (p : Program) :
    ∀ g' ∈ groupsFrom b g p, ∀ i ∈ g'.absorbed, g'.takes b i = true := by
  induction p generalizing g with
  | nil => exact fun g' hg' => List.mem_singleton.mp hg' ▸ hg
  | cons i p ih =>
    unfold groupsFrom
    by_cases ht : g.takes b i = true
    · rw [if_pos ht]
      refine ih fun j hj => ?_
      rcases List.mem_append.mp hj with hj | hj
      · exact hg j hj
      · exact List.mem_singleton.mp hj ▸ ht
    · rw [if_neg ht]
      exact List.forall_mem_cons.mpr ⟨hg, ih fun _ hj => absurd hj List.not_mem_nil⟩

/-- No group would take in the head of the next one. -/
theorem isChain_groupsFrom (g : Group) (p : Program) :
    List.IsChain (fun g g' => g.takes b g'.head = false) (groupsFrom b g p) := by
  induction p generalizing g with
  | nil => exact List.isChain_singleton g
  | cons i p ih =>
    unfold groupsFrom
    by_cases ht : g.takes b i = true
    · rw [if_pos ht]
      exact ih (g.absorb i)
    · rw [if_neg ht]
      have hrest := ih ⟨i, []⟩
      obtain ⟨first, rest, heq, hhead⟩ := groupsFrom_eq_cons (b := b) ⟨i, []⟩ p
      rw [heq] at hrest ⊢
      refine List.isChain_cons_cons.mpr ⟨?_, hrest⟩
      rw [hhead]
      exact Bool.eq_false_iff.mpr ht

/-- **The groups of a program split it.** -/
theorem splits_groups (p : Program) : Splits b p (groups b p) where
  members := flatMap_members_groups b p
  absorbed := by
    cases p with
    | nil => exact fun _ hg => absurd hg List.not_mem_nil
    | cons i p =>
      exact absorbed_groupsFrom (g := ⟨i, []⟩) (fun _ hj => absurd hj List.not_mem_nil) p
  heads := by
    cases p with
    | nil => exact List.isChain_nil
    | cons i p => exact isChain_groupsFrom ⟨i, []⟩ p

/-- A group goes on with all that it takes in. -/
theorem groupsFrom_append {taken : List Instruction} (h : ∀ i ∈ taken, g.takes b i = true)
    (p : Program) :
    groupsFrom b g (taken ++ p) = groupsFrom b ⟨g.head, g.absorbed ++ taken⟩ p := by
  induction taken generalizing g with
  | nil => rw [List.nil_append, List.append_nil]
  | cons i taken ih =>
    obtain ⟨hi, htaken⟩ := List.forall_mem_cons.mp h
    have hrest := ih (g := g.absorb i) htaken
    rw [List.cons_append, groupsFrom, if_pos hi, hrest]
    simp only [Group.absorb, List.append_assoc, List.singleton_append]

/-- **There is no other split.** -/
theorem Splits.eq_groups (h : Splits b p gs) : gs = groups b p := by
  obtain ⟨rfl, habsorbed, hheads⟩ := h
  induction gs with
  | nil => rfl
  | cons g gs ih =>
    obtain ⟨hg, hgs⟩ := List.forall_mem_cons.mp habsorbed
    have hfirst : groups b ((g :: gs).flatMap Group.members) =
        groupsFrom b g (gs.flatMap Group.members) := groupsFrom_append (g := ⟨g.head, []⟩) hg _
    rw [hfirst]
    cases gs with
    | nil => rfl
    | cons g' gs =>
      obtain ⟨hnot, hrest⟩ := List.isChain_cons_cons.mp hheads
      have hstop : groupsFrom b g ((g' :: gs).flatMap Group.members) =
          g :: groups b ((g' :: gs).flatMap Group.members) :=
        if_neg (Bool.eq_false_iff.mp hnot)
      rw [hstop, ← ih hgs hrest]

/-! ## The instructions of groups -/

@[simp] theorem flags_instruction (g : Group) : (g.instruction b).flags = g.flags b := rfl

@[simp] theorem length_instruction (g : Group) :
    (g.instruction b).length = max (Program.duration g.members) (minLength b.clock) := rfl

@[simp] theorem flags_retarget (cover : List Nat) (i : Instruction) :
    (retarget cover i).flags = i.flags := by
  unfold retarget
  split <;> rfl

@[simp] theorem length_retarget (cover : List Nat) (i : Instruction) :
    (retarget cover i).length = i.length := by
  unfold retarget
  split <;> rfl

theorem length_encodeShort (p : Program) :
    (p.encodeShort b).length = (groups b p).length := by
  rw [encodeShort_eq]
  exact List.length_map _

theorem length_groups_le (p : Program) : (groups b p).length ≤ p.length := by
  have hone : ∀ gs : List Group, gs.length ≤ (gs.flatMap Group.members).length := by
    intro gs
    induction gs with
    | nil => exact le_rfl
    | cons g gs ih =>
      rw [List.flatMap_cons, List.length_append, List.length_cons]
      have hmember : 0 < g.members.length := Nat.succ_pos _
      omega
  exact (hone _).trans_eq (congrArg List.length (flatMap_members_groups b p))

/-- The field does not reach the outputs. -/
theorem isHigh_groupFlags (g : Group) {n : Nat} (hn : n < b.bit) :
    (g.flags b).isHigh n = g.head.flags.isHigh n := by
  unfold Group.flags
  split
  · rw [Flags.isHigh_or]
    simp [Flags.isHigh, hn]
  · rfl

/-! ## How long they last -/

/-- The members of a group whose head is not short last for longer than an instruction has to. -/
theorem length_instruction_le (g : Group) :
    (g.instruction b).length ≤ Program.duration g.members +
      if g.head.length ≤ minLength b.clock then minLength b.clock else 0 := by
  have hhead : g.head.length ≤ Program.duration g.members := Nat.le_add_right _ _
  rw [length_instruction]
  split <;> omega

theorem le_duration_instructions (gs : List Group) :
    Program.duration (gs.flatMap Group.members) ≤
      Program.duration (gs.map fun g => g.instruction b) := by
  induction gs with
  | nil => exact le_rfl
  | cons g gs ih =>
    rw [List.flatMap_cons, List.map_cons, Program.duration_append, Program.duration_cons]
    exact Nat.add_le_add (Nat.le_max_left _ _) ih

theorem duration_instructions_le (gs : List Group) :
    Program.duration (gs.map fun g => g.instruction b) ≤
      Program.duration (gs.flatMap Group.members) +
        minLength b.clock * gs.countP fun g => g.head.length ≤ minLength b.clock := by
  induction gs with
  | nil => exact le_rfl
  | cons g gs ih =>
    have hg := length_instruction_le (b := b) g
    rw [List.flatMap_cons, List.map_cons, Program.duration_append, Program.duration_cons,
      List.countP_cons, Nat.mul_add]
    by_cases hs : g.head.length ≤ minLength b.clock
    · simp only [hs, if_true, decide_true, Nat.mul_one] at hg ⊢
      omega
    · simp only [hs, if_false, decide_false, Bool.false_eq_true, Nat.mul_zero] at hg ⊢
      omega

end ShortPulse

open ShortPulse

theorem duration_encodeShort (b : Board) (p : Program) :
    (p.encodeShort b).duration = Program.duration ((groups b p).map fun g => g.instruction b) := by
  have hsum : ∀ (cover : List Nat) (gs : List Group),
      Program.duration (gs.map fun g => retarget cover (g.instruction b)) =
        Program.duration (gs.map fun g => g.instruction b) := by
    intro cover gs
    induction gs with
    | nil => rfl
    | cons g gs ih => simp only [List.map_cons, Program.duration_cons, length_retarget, ih]
  rw [encodeShort_eq]
  exact hsum _ _

/-- The outputs that are used are those of the heads. -/
theorem outputsUsed_encodeShort (b : Board) (p : Program) :
    (p.encodeShort b).outputsUsed b.bit = p.outputsUsed b.bit := by
  unfold Program.outputsUsed
  refine List.filter_congr fun n hn => ?_
  have hbit : n < b.bit := Nat.lt_of_lt_of_le (List.mem_range.mp hn) (Nat.min_le_left _ _)
  have hsplit := splits_groups (b := b) p
  rw [Bool.eq_iff_iff, Program.isHigh_usedFlags, Program.isHigh_usedFlags]
  constructor
  · rintro ⟨i, hi, hhigh⟩
    obtain ⟨g, hg, rfl⟩ := mem_encodeShort.mp hi
    rw [flags_retarget, flags_instruction, isHigh_groupFlags g hbit] at hhigh
    exact ⟨g.head, hsplit.members ▸ List.mem_flatMap.mpr ⟨g, hg, List.mem_cons_self⟩, hhigh⟩
  · rintro ⟨i, hi, hhigh⟩
    obtain ⟨g, hg, hi⟩ := List.mem_flatMap.mp (hsplit.members.symm ▸ hi)
    refine ⟨_, mem_encodeShort.mpr ⟨g, hg, rfl⟩, ?_⟩
    rw [flags_retarget, flags_instruction, isHigh_groupFlags g hbit]
    rcases List.mem_cons.mp hi with rfl | hi
    · exact hhigh
    · have hlow := (Bool.and_eq_true_iff.mp (hsplit.absorbed g hg i hi)).1
      rw [of_decide_eq_true hlow] at hhigh
      simp [Flags.isHigh] at hhigh

/-- **What encoding does to any program.** Its instructions fall, in order, into groups, one for
each instruction of the encoded program, and they do so in one way only: an instruction joins the
group before it exactly when it is all low and the field of that group's instruction is not empty.
That instruction has the flags of the head of its group, with the whole clock periods of a short
head put into the field, and it lasts for as long as the group does, but not below five clock
periods. So encoding adds no instruction, uses the same outputs, and makes the program longer by at
most five clock periods for each group with a short head. -/
theorem encodeShort_shape (b : Board) (p : Program) :
    ∃ gs : List Group, Splits b p gs ∧ (∀ gs', Splits b p gs' → gs' = gs) ∧
      List.Forall₂ (fun g i =>
          (∀ j, g.takes b j = true ↔ j.flags = 0 ∧ 0 < periods i.flags b.bit) ∧
            i.flags = (if g.head.length ≤ 5 * b.clock then
              g.head.flags ||| (BitVec.ofNat wordBits (g.head.length / b.clock) <<< b.bit)
              else g.head.flags) ∧
            i.length = max (Program.duration g.members) (5 * b.clock))
        gs (p.encodeShort b) ∧
      (p.encodeShort b).length ≤ p.length ∧
      (∀ i ∈ p.encodeShort b, 5 * b.clock ≤ i.length) ∧
      (p.encodeShort b).outputsUsed b.bit = p.outputsUsed b.bit ∧
      p.duration ≤ (p.encodeShort b).duration ∧
      (p.encodeShort b).duration ≤
        p.duration + 5 * b.clock * gs.countP fun g => g.head.length ≤ 5 * b.clock := by
  have hmembers := flatMap_members_groups b p
  refine ⟨groups b p, splits_groups p, fun _ h => h.eq_groups, ?_, ?_, fun i hi => ?_,
    outputsUsed_encodeShort b p, ?_, ?_⟩
  · rw [encodeShort_eq, List.forall₂_map_right_iff, List.forall₂_same]
    intro g _
    rw [flags_retarget, length_retarget, flags_instruction]
    refine ⟨fun j => ?_, rfl, rfl⟩
    unfold Group.takes
    rw [Bool.and_eq_true, decide_eq_true_eq, decide_eq_true_eq]
  · rw [length_encodeShort]
    exact length_groups_le p
  · obtain ⟨g, -, rfl⟩ := mem_encodeShort.mp hi
    rw [length_retarget]
    exact Nat.le_max_right _ _
  · have hle := le_duration_instructions (b := b) (groups b p)
    rwa [hmembers, ← duration_encodeShort] at hle
  · have hle := duration_instructions_le (b := b) (groups b p)
    rwa [hmembers, ← duration_encodeShort] at hle

/-- An instruction with something in its field absorbs however long it is, one of no length is
absorbed as any other, and a pulse below a clock period is lost. -/
example :
    Program.encodeShort ⟨2, 21, by decide, by decide⟩
        [.proceed (1 ||| 3 <<< 21) 100, .proceed 0 0, .proceed 0 3, .proceed 2 1, .proceed 0 4] =
      [.proceed (1 ||| 3 <<< 21) 103, .proceed 2 10, .proceed (2 <<< 21) 10] := by
  decide

end PulseSequencer
