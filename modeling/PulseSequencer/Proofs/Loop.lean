import PulseSequencer.Proofs.OnClock
import PulseSequencer.Proofs.Passes
import PulseSequencer.Proofs.ShortPulse

/-!
# Loops and short pulses

Encoding short pulses renumbers a branch to the instruction of the group that holds its target. A
group is entered at its head, so an encoded program runs as the program does that loops to the head
of that group: to the last instruction up to the target that is not absorbed into a short pulse.

* `Program.Absorbed`: an all-low instruction that a short one leads to through all-low ones.
* `Program.EntersAt`: the instruction at which a loop is entered.

Results:
* `cover_split`: the group that holds an instruction.
* `loopsTo_encodeShort`: an encoded program loops to the group that holds the target.
* `not_absorbed_head`, `absorbed_of_mem`: the heads of groups are the instructions not absorbed.
* `stretched_passes_encodeShort`: any number of passes through an encoded program.
* **`encoded_loop_enters_at_head`**: what a compilation loops to, with short pulses and without.
* **`encoded_loop_replays_head`**: a loop to an absorbed instruction plays what the program without
  short pulses does not.
-/

namespace PulseSequencer

open ShortPulse

/-- Instruction `n` is all low, and an instruction of at most five clock periods leads to it through
all-low instructions only. -/
def Program.Absorbed (clock : Nat) (p : Program) (n : Nat) : Prop :=
  ∃ h, h < n ∧ (∃ i, p[h]? = some i ∧ i.length ≤ minLength clock) ∧
    ∀ m, h < m → m ≤ n → ∃ i, p[m]? = some i ∧ i.flags = 0

/-- Instruction `entry` is the last one up to `target` that is not absorbed. -/
structure Program.EntersAt (clock : Nat) (p : Program) (target entry : Nat) : Prop where
  le_target : entry ≤ target
  not_absorbed : ¬ p.Absorbed clock entry
  absorbed_behind : ∀ m, entry < m → m ≤ target → p.Absorbed clock m

/-- An instruction that is not absorbed is entered itself. -/
theorem Program.EntersAt.eq_target {clock target entry : Nat} {p : Program}
    (h : p.EntersAt clock target entry) (hnot : ¬ p.Absorbed clock target) : entry = target :=
  (Nat.lt_or_eq_of_le h.le_target).resolve_left fun hlt =>
    hnot (h.absorbed_behind target hlt le_rfl)

namespace ShortPulse

variable {b : Board}

/-! ## The group that holds an instruction -/

/-- An instruction of some groups is a member of one of them, and is covered by its number. -/
theorem cover_split_from (n : Nat) : ∀ {gs : List Group} {t : Nat},
    t < (gs.flatMap Group.members).length →
      ∃ pre g post, gs = pre ++ g :: post ∧
        ((gs.zipIdx n).flatMap fun (g, k) => List.replicate g.members.length k)[t]? =
          some (n + pre.length) ∧
        (pre.flatMap Group.members).length ≤ t ∧
        t < (pre.flatMap Group.members).length + g.members.length
  | [], _, ht => absurd ht (Nat.not_lt_zero _)
  | g :: gs, t, ht => by
    rw [List.flatMap_cons, List.length_append] at ht
    rw [List.zipIdx_cons, List.flatMap_cons]
    by_cases hin : t < g.members.length
    · refine ⟨[], g, gs, rfl, ?_, Nat.zero_le _, ?_⟩
      · rw [List.getElem?_append_left (by rw [List.length_replicate]; exact hin)]
        simp [hin]
      · simpa using hin
    · have hrest : t - g.members.length < (gs.flatMap Group.members).length := by omega
      obtain ⟨pre, g', post, rfl, hcover, hle, hlt⟩ := cover_split_from (n + 1) hrest
      refine ⟨g :: pre, g', post, rfl, ?_, ?_, ?_⟩
      · rw [List.getElem?_append_right (by rw [List.length_replicate]; omega),
          List.length_replicate, hcover, List.length_cons]
        congr 1
        omega
      · rw [List.flatMap_cons, List.length_append]
        omega
      · rw [List.flatMap_cons, List.length_append]
        omega

/-- **The group that holds instruction `t`** is the one that covers it. -/
theorem cover_split {gs : List Group} {t : Nat} (ht : t < (gs.flatMap Group.members).length) :
    ∃ pre g post, gs = pre ++ g :: post ∧ (cover gs)[t]? = some pre.length ∧
      (pre.flatMap Group.members).length ≤ t ∧
      t < (pre.flatMap Group.members).length + g.members.length := by
  simpa [cover] using cover_split_from 0 ht

/-! ## Control flow -/

/-- A group with the last instruction of the program keeps its opcode. -/
theorem control_of_branch {g : Group} {ms : List Instruction} {last : Instruction}
    (hmem : g.members = ms ++ [last]) (hms : ∀ i ∈ ms, i.opcode = .proceed)
    (hlast : last.opcode = .branch) : g.control = last := by
  obtain ⟨head, absorbed⟩ := g
  unfold Group.members at hmem
  rcases List.eq_nil_or_concat absorbed with rfl | ⟨abs, a, rfl⟩
  · cases ms with
    | nil => exact (List.cons.inj hmem).1
    | cons m ms => exact absurd (List.cons.inj hmem).2 (by simp)
  · rw [List.concat_eq_append, ← List.cons_append] at hmem
    obtain ⟨rfl, hlasts⟩ := List.append_inj' hmem rfl
    obtain rfl := (List.cons.inj hlasts).1
    have hnone : (abs.filter fun i => decide (i.opcode ≠ .proceed)) = [] := by
      rw [List.filter_eq_nil_iff]
      intro i hi
      simp [hms i (List.mem_cons_of_mem head hi)]
    unfold Group.control
    simp only [List.concat_eq_append, List.filter_append, hnone]
    simp [hlast]

/-- The opcode of a group is that of a member. -/
theorem control_mem (g : Group) : g.control ∈ g.members := by
  unfold Group.control
  cases h : (g.absorbed.filter (·.opcode ≠ .proceed)).getLast? with
  | none => exact List.mem_cons_self
  | some i => exact List.mem_cons_of_mem _ (List.mem_of_mem_filter (List.mem_of_getLast? h))

theorem members_ne_nil (g : Group) : g.members ≠ [] := List.cons_ne_nil _ _

theorem opcode_retarget (cover : List Nat) (i : Instruction) :
    (retarget cover i).opcode = i.opcode := by
  unfold retarget
  split <;> rfl

/-- The last group of a program ends with its last instruction, and branches as that does. -/
theorem groups_append_branch {body : Program} {last : Instruction}
    (hbody : ∀ i ∈ body, i.opcode = .proceed) (hlast : last.opcode = .branch) :
    ∃ gs g, groups b (body ++ [last]) = gs ++ [g] ∧
      (∀ g₁ ∈ gs, g₁.control.opcode = .proceed) ∧ g.control = last := by
  have hmembers := flatMap_members_groups b (body ++ [last])
  rcases List.eq_nil_or_concat (groups b (body ++ [last])) with hnil | ⟨gs, g, hconcat⟩
  · rw [hnil] at hmembers
    exact absurd hmembers (by simp)
  rw [List.concat_eq_append] at hconcat
  obtain ⟨ms, m, hm⟩ := (List.eq_nil_or_concat g.members).resolve_left (members_ne_nil g)
  rw [List.concat_eq_append] at hm
  rw [hconcat, List.flatMap_append, List.flatMap_singleton, hm, ← List.append_assoc] at hmembers
  obtain ⟨hsplit, hend⟩ := List.append_inj' hmembers rfl
  obtain rfl := (List.cons.inj hend).1
  refine ⟨gs, g, hconcat, fun g₁ hg₁ => hbody _ ?_,
    control_of_branch hm (fun i hi => hbody i ?_) hlast⟩
  · exact hsplit ▸ List.mem_append_left _ (List.mem_flatMap.mpr ⟨g₁, hg₁, control_mem g₁⟩)
  · exact hsplit ▸ List.mem_append_right _ hi

/-- **An encoded program loops to the group that holds the target.** -/
theorem loopsTo_encodeShort {body : Program} {last : Instruction} {k : Nat}
    (hbody : ∀ i ∈ body, i.opcode = .proceed) (hlast : last.opcode = .branch)
    (hcover : (cover (groups b (body ++ [last])))[last.data]? = some k)
    (hk : k < (groups b (body ++ [last])).length) :
    Program.LoopsTo (Program.encodeShort b (body ++ [last])) k := by
  obtain ⟨gs, g, hgs, hproceed, hcontrol⟩ := groups_append_branch (b := b) hbody hlast
  have hencoded : Program.encodeShort b (body ++ [last]) =
      (gs.map fun g₁ => retarget (cover (gs ++ [g])) (g₁.instruction b)) ++
        [retarget (cover (gs ++ [g])) (g.instruction b)] := by
    rw [encodeShort_eq, hgs, List.map_append, List.map_singleton]
  have hbranch : (g.instruction b).opcode = .branch := by
    show g.control.opcode = .branch
    rw [hcontrol, hlast]
  have hdata : (g.instruction b).data = last.data := by
    show g.control.data = last.data
    rw [hcontrol]
  refine ⟨_, _, hencoded, fun i hi => ?_, ?_, ?_, ?_⟩
  · obtain ⟨g₁, hg₁, rfl⟩ := List.mem_map.mp hi
    rw [opcode_retarget]
    show g₁.control.opcode ≠ .branch
    rw [hproceed g₁ hg₁]
    exact Opcode.noConfusion
  · rw [opcode_retarget, hbranch]
  · rw [hgs] at hcover
    rw [retarget, if_pos hbranch, hdata, hcover]
    rfl
  · rw [length_encodeShort]
    exact hk

/-! ## Heads and what they absorb -/

theorem getElem?_members (pre post : List Group) (g : Group) {j : Nat}
    (hj : j < g.members.length) :
    ((pre ++ g :: post).flatMap Group.members)[(pre.flatMap Group.members).length + j]? =
      g.members[j]? := by
  rw [List.flatMap_append, List.flatMap_cons,
    List.getElem?_append_right (Nat.le_add_right _ _), Nat.add_sub_cancel_left,
    List.getElem?_append_left hj]

/-- The head of a group is not absorbed: going back, there are long all-low groups of one
instruction up to one that is not all low, or to the beginning. -/
theorem not_absorbed_head {pre post : List Group} {g : Group}
    (hformed : ∀ g₁ ∈ pre ++ g :: post, g₁.Formed b)
    (hchain : List.IsChain (fun g g' => g.takes b g'.head = false) (pre ++ g :: post)) :
    ¬ Program.Absorbed b.clock ((pre ++ g :: post).flatMap Group.members)
      (pre.flatMap Group.members).length := by
  induction pre using List.reverseRecOn generalizing g post with
  | nil => exact fun ⟨h, hlt, _⟩ => Nat.not_lt_zero h hlt
  | append_singleton pre g₀ ih =>
    rw [List.append_assoc, List.singleton_append] at hformed hchain ⊢
    have hg₀ : g₀.Formed b := hformed g₀ (by simp)
    have htakes : g₀.takes b g.head = false :=
      (List.isChain_cons_cons.mp (List.isChain_append.mp hchain).2.1).1
    rintro ⟨h, hlt, ⟨i, hi, hshort⟩, hlows⟩
    -- the head of `g` is all low, so the group before it does not absorb
    have hlow : g.head.flags = 0 := by
      obtain ⟨j, hj, hflags⟩ := hlows _ hlt le_rfl
      have hat := getElem?_members (pre ++ [g₀]) post g (Nat.succ_pos _)
      rw [List.append_assoc, List.singleton_append, Nat.add_zero, hj] at hat
      rw [← Option.some.inj hat]
      exact hflags
    have hlong : ¬ g₀.head.length ≤ minLength b.clock := fun hs =>
      Bool.false_ne_true (htakes.symm.trans ((takes_iff hg₀.head _).mpr ⟨hlow, hs⟩))
    have hsingle : g₀.members = [g₀.head] := by
      unfold Group.members
      rw [not_not.mp fun hne => hlong (hg₀.short hne)]
    have hlen : ((pre ++ [g₀]).flatMap Group.members).length =
        (pre.flatMap Group.members).length + 1 := by
      rw [List.flatMap_append, List.flatMap_singleton, hsingle, List.length_append,
        List.length_singleton]
    rw [hlen] at hlt hlows
    rcases Nat.lt_succ_iff_lt_or_eq.mp hlt with hlt | rfl
    · exact ih hformed hchain
        ⟨h, hlt, ⟨i, hi, hshort⟩, fun m hm hle => hlows m hm (Nat.le_succ_of_le hle)⟩
    · have hat := getElem?_members pre (g :: post) g₀ (Nat.succ_pos _)
      rw [Nat.add_zero, hi] at hat
      rw [Option.some.inj hat] at hshort
      exact hlong hshort

/-- What a group holds behind its head is absorbed. -/
theorem absorbed_of_mem {pre post : List Group} {g : Group} (hg : g.Formed b) {t : Nat}
    (hlt : (pre.flatMap Group.members).length < t)
    (ht : t < (pre.flatMap Group.members).length + g.members.length) :
    Program.Absorbed b.clock ((pre ++ g :: post).flatMap Group.members) t := by
  have hlen : g.members.length = g.absorbed.length + 1 := rfl
  have hne : g.absorbed ≠ [] := by
    intro hnil
    rw [hlen, hnil, List.length_nil] at ht
    omega
  refine ⟨_, hlt, ⟨g.head, ?_, hg.short hne⟩, fun m hm hmt => ?_⟩
  · exact getElem?_members pre post g (Nat.succ_pos _)
  · obtain ⟨j, rfl⟩ := Nat.exists_eq_add_of_lt hm
    have hj : j < g.absorbed.length := by omega
    refine ⟨g.absorbed[j], ?_, (hg.absorbed _ (List.getElem_mem hj)).2⟩
    rw [Nat.add_assoc, getElem?_members _ _ _ (by omega), Group.members, List.getElem?_cons_succ,
      List.getElem?_eq_getElem hj]

/-! ## Passes through an encoded program -/

/-- A group puts out what its members do, with low time behind a short last one. -/
theorem stretched_instruction {g : Group} (hg : g.Formed b) :
    Stretched b g.members ((g.instruction b).wave b) := by
  rw [wave_instruction_eq_members hg]
  refine Stretched.of_extra (members_ne_nil g) fun hextra i hi => ?_
  have hle : i.length ≤ Program.duration g.members := Program.length_le_duration hi
  unfold Group.extra at hextra
  omega

theorem stretched_groups (cover : List Nat) {gs : List Group} (hgs : ∀ g ∈ gs, g.Formed b) :
    Stretched b (gs.flatMap Group.members)
      (Program.wave b (gs.map fun g => retarget cover (g.instruction b))) := by
  induction gs with
  | nil => exact Stretched.nil
  | cons g gs ih =>
    rw [List.flatMap_cons, List.map_cons, Program.wave_cons, wave_retarget]
    exact (stretched_instruction (hgs g List.mem_cons_self)).append
      (ih fun g₁ hg₁ => hgs g₁ (List.mem_cons_of_mem g hg₁))

/-- **The run**: any number of passes that begin at the heads of two groups and go on at the head
of the group that holds the target. -/
theorem stretched_passes_encodeShort {p moved : Program} {pre post : List Group} {g : Group}
    (hp : ∀ i ∈ p, i.Plain b) (hgs : groups b p = pre ++ g :: post)
    (hsame : Program.stretches moved = Program.stretches p)
    (hmoved : Program.LoopsTo moved (pre.flatMap Group.members).length)
    (hencoded : Program.LoopsTo (p.encodeShort b) pre.length) (k : Nat) :
    ∀ (pre' : List Group) (g' : Group) (post' : List Group), groups b p = pre' ++ g' :: post' →
      Stretched b (Program.passes moved k (pre'.flatMap Group.members).length)
        (Program.wave b (Program.passes (p.encodeShort b) k pre'.length)) := by
  have hformed := formed_groups hp
  induction k with
  | zero => exact fun _ _ _ _ => Stretched.nil
  | succ k ih =>
    intro pre' g' post' hgs'
    have hmembers : p = (pre'.flatMap Group.members) ++ (g' :: post').flatMap Group.members := by
      rw [← List.flatMap_append, ← hgs', flatMap_members_groups]
    have hlength : moved.length = p.length := by
      have h := congrArg List.length hsame
      rwa [Program.length_stretches, Program.length_stretches] at h
    have hinside : (pre'.flatMap Group.members).length < moved.length := by
      have hne : 0 < g'.members.length := Nat.succ_pos _
      rw [hlength, hmembers, List.length_append, List.flatMap_cons, List.length_append]
      omega
    have hinside' : pre'.length < (p.encodeShort b).length := by
      rw [length_encodeShort, hgs', List.length_append, List.length_cons]
      omega
    rw [Program.passes_succ hmoved hinside, Program.passes_succ hencoded hinside',
      Program.wave_append]
    refine Stretched.append ?_ (ih pre g post hgs)
    have hdrop : (p.encodeShort b).drop pre'.length =
        (g' :: post').map fun g => retarget (cover (groups b p)) (g.instruction b) := by
      rw [encodeShort_eq, ← List.map_drop, hgs', List.drop_left]
    rw [hdrop]
    refine (stretched_groups _ fun g₁ hg₁ => hformed g₁ ?_).of_stretches ?_
    · rw [hgs']
      exact List.mem_append_right _ hg₁
    · rw [Program.stretches_drop, hsame, ← Program.stretches_drop]
      conv_rhs => rw [hmembers]
      rw [List.drop_left]

theorem loopsTo_branchingTo {body : Program} (hbody : ∀ i ∈ body, i.opcode = .proceed)
    (last : Instruction) {entry : Nat} (h : entry < (body ++ [last]).length) :
    Program.LoopsTo (body ++ [Program.branchingTo entry last]) entry := by
  refine ⟨body, _, rfl, fun i hi => ?_, rfl, rfl, ?_⟩
  · rw [hbody i hi]
    exact Opcode.noConfusion
  · rw [List.length_append] at h ⊢
    exact h

/-- An encoded program that loops runs as the program that loops to where the target is entered. -/
theorem stretched_passes_of_branch {body : Program} {last : Instruction} {target : Nat}
    (hp : ∀ i ∈ body ++ [Program.branchingTo target last], i.Plain b)
    (hbody : ∀ i ∈ body, i.opcode = .proceed) (ht : target < (body ++ [last]).length) :
    ∃ entry, Program.EntersAt b.clock (body ++ [Program.branchingTo target last]) target entry ∧
      ∀ k, Stretched b (Program.passes (body ++ [Program.branchingTo entry last]) k 0)
        (Program.wave b (Program.passes
          (Program.encodeShort b (body ++ [Program.branchingTo target last])) k 0)) := by
  have hformed := formed_groups hp
  have hmembers := flatMap_members_groups b (body ++ [Program.branchingTo target last])
  have hinside : target <
      ((groups b (body ++ [Program.branchingTo target last])).flatMap Group.members).length := by
    rw [hmembers, List.length_append]
    rwa [List.length_append] at ht
  obtain ⟨pre, g, post, hgs, hcover, hle, hlt⟩ := cover_split hinside
  have hencoded := loopsTo_encodeShort hbody rfl hcover (by simp [hgs])
  rw [hgs] at hformed hmembers
  refine ⟨(pre.flatMap Group.members).length, ⟨hle, ?_, fun m hm hmt => ?_⟩, fun k => ?_⟩
  · rw [← hmembers]
    exact not_absorbed_head hformed (hgs ▸ (splits_groups _).heads)
  · rw [← hmembers]
    exact absorbed_of_mem (hformed g (by simp)) hm (by omega)
  · have hmoved := loopsTo_branchingTo hbody last (Nat.lt_of_le_of_lt hle ht)
    have hsame : Program.stretches
        (body ++ [Program.branchingTo (pre.flatMap Group.members).length last]) =
          Program.stretches (body ++ [Program.branchingTo target last]) := by
      rw [stretches_branchingTo, stretches_branchingTo]
    have hrun := stretched_passes_encodeShort hp hgs hsame hmoved hencoded k
    -- the first pass begins with the first group, whichever that is
    cases pre with
    | nil => exact hrun [] g post hgs
    | cons g₀ pre => exact hrun [] g₀ (pre ++ g :: post) hgs

end ShortPulse

/-! ## Compilations -/

/-- What is absorbed is behind a short instruction. -/
theorem Program.Absorbed.hasShort {clock n : Nat} {p : Program} (h : p.Absorbed clock n) :
    hasShort clock p = true := by
  obtain ⟨m, -, ⟨i, hi, hshort⟩, -⟩ := h
  exact List.any_eq_true.mpr ⟨i, List.mem_of_getElem? hi, decide_eq_true hshort⟩

/-- **A loop is entered at the head of the group that holds its target.** Take channels with
different outputs whose times and padding are whole clock periods, and a loop to an instruction
that is accepted without short pulses. Then the program with short pulses compiles too, and for any
number of passes it puts out what the program without them does that loops to the last instruction
up to the target that is not absorbed into a short pulse, with low time put in behind instructions
of at most five clock periods. Where the target itself is not absorbed, that is the program without
short pulses as it stands. -/
theorem encoded_loop_enters_at_head {channels : List Channel} {config : Config} {b : Board}
    {target : Nat} {plain : Program} (hsep : Separate channels)
    (hclock : OnClock config.clock channels)
    (hpad : ∀ padding, config.extent.paddingAfter (lastEdge channels) = .ok padding →
      config.clock ∣ padding)
    (hb : config.board = .ok b) (hloop : config.loop = some target)
    (h : (compile channels { config with mode := .leave }).result = .ok plain) :
    ∃ encoded entry moved,
      (compile channels { config with mode := .encode }).result = .ok encoded ∧
      plain.EntersAt b.clock target entry ∧
      (compile channels { config with mode := .leave, loop := some entry }).result = .ok moved ∧
      (∀ k, Stretched b (moved.passes k 0) (Program.wave b (encoded.passes k 0))) ∧
      (¬ plain.Absorbed b.clock target →
        ∀ k, Stretched b (plain.passes k 0) (Program.wave b (encoded.passes k 0))) := by
  have hboard : ∀ loop mode, { config with loop, mode }.board = .ok b := fun _ _ => hb
  have hlaid := (compile_leave_eq_ok rfl (hboard config.loop .leave)).mp h
  have hencoded : (compile channels { config with mode := .encode }).result =
      .ok (if hasShort b.clock plain then plain.encodeShort b else plain) :=
    compile_eq_ok.mpr ⟨b, plain, hb, hlaid, by simp only [and_true]⟩
  by_cases hshort : hasShort b.clock plain = true
  · rw [if_pos hshort] at hencoded
    have hplain := plain_layOut hsep hclock hpad hb hlaid
    have hne : plain ≠ [] := fun hnil => by simp [hnil, hasShort_nil] at hshort
    obtain ⟨body, last, rfl, ht, hbody, hmoved⟩ := Config.layOut_of_loop hloop hlaid hne
    obtain ⟨entry, hentry, hrun⟩ := stretched_passes_of_branch hplain hbody ht
    have hlaid' := hmoved entry (Nat.lt_of_le_of_lt hentry.le_target ht)
    refine ⟨_, entry, _, hencoded, hentry,
      (compile_leave_eq_ok rfl (hboard (some entry) .leave)).mpr hlaid', hrun, fun hnot k => ?_⟩
    obtain rfl := hentry.eq_target hnot
    exact hrun k
  · rw [if_neg hshort] at hencoded
    have hnot : ∀ n, ¬ plain.Absorbed b.clock n := fun n h => hshort h.hasShort
    refine ⟨_, target, plain, hencoded, ⟨le_rfl, hnot target, fun m hm hmt => by omega⟩, ?_,
      fun k => Stretched.refl _, fun _ k => Stretched.refl _⟩
    rw [← hloop]
    exact h

/-- A pulse of one clock period, absorbed low time behind it, and a long pulse. -/
def pulseThenLow : List Channel := [⟨Flags.output 0, [⟨0, 1⟩, ⟨7, 6⟩]⟩]

/-- A loop to instruction 1, which `pulseThenLow` has in the low time behind the first pulse. -/
def loopToLow : Config := { extent := .padding 6, loop := some 1, clock := 1 }

theorem separate_pulseThenLow : Separate pulseThenLow :=
  ⟨by simpa [pulseThenLow] using ⟨0, by decide, rfl⟩, by decide⟩

theorem onClock_pulseThenLow : OnClock loopToLow.clock pulseThenLow := fun _ _ _ _ =>
  ⟨Nat.one_dvd _, Nat.one_dvd _⟩

theorem compile_pulseThenLow_leave :
    (compile pulseThenLow { loopToLow with mode := .leave }).result =
      .ok [.proceed 1 1, .proceed 0 6, .proceed 1 6, ⟨0, .branch, 1, 6⟩] := by
  cbv

theorem compile_pulseThenLow_encode :
    (compile pulseThenLow { loopToLow with mode := .encode }).result =
      .ok [.proceed (1 ||| 1 <<< 21) 7, .proceed 1 6, ⟨0, .branch, 0, 6⟩] := by
  cbv

/-- The loop to the absorbed instruction is entered at the first pulse. -/
theorem loop_to_low_enters_at_pulse :
    ∃ b moved, Separate pulseThenLow ∧ OnClock loopToLow.clock pulseThenLow ∧
      loopToLow.board = .ok b ∧ loopToLow.loop = some 1 ∧
      (compile pulseThenLow { loopToLow with mode := .leave }).result =
        .ok [.proceed 1 1, .proceed 0 6, .proceed 1 6, ⟨0, .branch, 1, 6⟩] ∧
      (compile pulseThenLow { loopToLow with mode := .leave, loop := some 0 }).result =
        .ok moved ∧
      ∀ k, Stretched b (Program.passes moved k 0)
        (Program.wave b (Program.passes
          [.proceed (1 ||| 1 <<< 21) 7, .proceed 1 6, ⟨0, .branch, 0, 6⟩] k 0)) := by
  have hb : loopToLow.board = .ok ⟨1, 21, by decide, by decide⟩ := rfl
  obtain ⟨encoded, entry, moved, hencoded, hentry, hmoved, hrun, -⟩ :=
    encoded_loop_enters_at_head separate_pulseThenLow onClock_pulseThenLow
      (fun _ _ => Nat.one_dvd _) hb rfl compile_pulseThenLow_leave
  obtain rfl := Except.ok.inj (hencoded.symm.trans compile_pulseThenLow_encode)
  have habsorbed : Program.Absorbed 1
      [.proceed 1 1, .proceed 0 6, .proceed 1 6, ⟨0, .branch, 1, 6⟩] 1 := by
    refine ⟨0, Nat.one_pos, ⟨_, rfl, by decide⟩, fun m hm hle => ?_⟩
    obtain rfl : m = 1 := Nat.le_antisymm hle hm
    exact ⟨_, rfl, rfl⟩
  have hne : entry ≠ 1 := fun h => hentry.not_absorbed (h ▸ habsorbed)
  obtain rfl : entry = 0 := by
    have hle := hentry.le_target
    omega
  exact ⟨_, moved, separate_pulseThenLow, onClock_pulseThenLow, hb, rfl,
    compile_pulseThenLow_leave, hmoved, hrun⟩

/-- **A loop to an absorbed instruction plays the head of its group again**, which the program
without short pulses does not: the first pulse of `pulseThenLow` returns in the second pass. -/
theorem encoded_loop_replays_head :
    ¬ ∀ (channels : List Channel) (config : Config) (b : Board) (target : Nat)
        (plain encoded : Program), Separate channels → OnClock config.clock channels →
      (∀ padding, config.extent.paddingAfter (lastEdge channels) = .ok padding →
        config.clock ∣ padding) →
      config.board = .ok b → config.loop = some target →
      (compile channels { config with mode := .leave }).result = .ok plain →
      (compile channels { config with mode := .encode }).result = .ok encoded →
      ∀ k, Stretched b (plain.passes k 0) (Program.wave b (encoded.passes k 0)) := by
  intro hclaim
  have hrun := hclaim pulseThenLow loopToLow ⟨1, 21, by decide, by decide⟩ 1 _ _
    separate_pulseThenLow onClock_pulseThenLow (fun _ _ => Nat.one_dvd _) rfl rfl
    compile_pulseThenLow_leave compile_pulseThenLow_encode 2
  exact absurd hrun.countP_ne_zero (by decide)

end PulseSequencer
