import PulseSequencer.Proofs.LongInstructions
import PulseSequencer.Proofs.Loop

/-!
# The control flow of compiled programs

What follows the instructions of a compiled program. Only the last one may branch, and it branches
to the instruction that holds the target it was laid out with, whether the target is absorbed into a
short pulse, or the branch is, or both.

* `Config.MadeOf`: which instructions laid out make one instruction of the program.

Results:
* `layOut_control`: the program before short pulses.
* `control_encodeShort`: encoding makes up no opcode, and no data but those of branches.
* `MadeOf.loopsTo`: the branch goes to what holds the target.
* **`compile_control_flow`**: the compiled program.
-/

namespace PulseSequencer

open ShortPulse

/-- Every instruction of an encoded program has its opcode from one that was there before, and its
data too unless it branches. -/
theorem ShortPulse.control_encodeShort {b : Board} {p : Program} {i : Instruction}
    (hi : i ∈ p.encodeShort b) :
    ∃ j ∈ p, i.opcode = j.opcode ∧ (i.opcode ≠ .branch → i.data = j.data) := by
  obtain ⟨g, hg, rfl⟩ := mem_encodeShort.mp hi
  refine ⟨g.control, ?_, opcode_retarget _ _, fun hne => ?_⟩
  · exact flatMap_members_groups b p ▸ List.mem_flatMap.mpr ⟨g, hg, control_mem g⟩
  · rw [opcode_retarget] at hne
    rw [retarget, if_neg hne]
    rfl

namespace Config

variable {config : Config} {b : Board} {laidOut p : Program} {gs : List Group}

/-! ## The program laid out -/

/-- The instructions laid out proceed, up to the last one of a loop, which branches to the
target. -/
theorem layOut_control {channels : List Channel} (h : config.layOut channels = .ok p) :
    (config.loop = none → ∀ i ∈ p, i.opcode = .proceed ∧ i.data = 0) ∧
      ∀ target, config.loop = some target → p ≠ [] → ∃ body last,
        p = body ++ [Program.branchingTo target last] ∧ target < p.length ∧
          ∀ i ∈ body, i.opcode = .proceed ∧ i.data = 0 := by
  obtain ⟨-, padding, -, hclose⟩ := layOut_eq_ok.mp h
  have hproceed : ∀ i ∈ Program.ofSteps (steps channels padding),
      i.opcode = .proceed ∧ i.data = 0 := fun i hi => by
    rw [eq_proceed_of_mem_ofStepsFrom i hi]
    exact ⟨rfl, rfl⟩
  refine ⟨fun hloop => ?_, fun target hloop hne => ?_⟩
  · rw [(close_eq_ok_of_none hloop).mp hclose]
    exact hproceed
  · rcases (close_eq_ok_of_some hloop).mp hclose with ⟨-, hnil⟩ | ⟨body, last, hp, ht, rfl⟩
    · exact absurd hnil hne
    · rw [hp] at ht hproceed
      rw [List.length_append] at ht
      refine ⟨body, last, rfl, ?_, fun i hi => hproceed i (List.mem_append_left _ hi)⟩
      rwa [List.length_append]

/-! ## The program compiled -/

/-- The groups `gs` of the program laid out each make one instruction of the program `p`. Where no
short pulses are encoded, every instruction is a group by itself. -/
def MadeOf (config : Config) (b : Board) (laidOut : Program) (gs : List Group) (p : Program) :
    Prop :=
  if hasShort b.clock laidOut ∧ config.mode = .encode then
    p = laidOut.encodeShort b ∧ Splits b laidOut gs
  else p = laidOut ∧ gs = laidOut.map fun i => ⟨i, []⟩

theorem exists_madeOf {channels : List Channel} (h : (compile channels config).result = .ok p) :
    ∃ b laidOut gs, config.board = .ok b ∧ config.layOut channels = .ok laidOut ∧
      config.MadeOf b laidOut gs p := by
  obtain ⟨b, laidOut, hb, hlaid, rfl⟩ := compile_eq_ok.mp h
  unfold MadeOf
  by_cases hencode : hasShort b.clock laidOut ∧ config.mode = .encode
  · refine ⟨b, laidOut, groups b laidOut, hb, hlaid, ?_⟩
    rw [if_pos hencode, if_pos hencode]
    exact ⟨rfl, splits_groups laidOut⟩
  · refine ⟨b, laidOut, laidOut.map fun i => ⟨i, []⟩, hb, hlaid, ?_⟩
    rw [if_neg hencode, if_neg hencode]
    exact ⟨rfl, rfl⟩

/-- The instructions of a program are encoded groups or groups of one instruction. -/
theorem MadeOf.cases (h : config.MadeOf b laidOut gs p) :
    (p = laidOut.encodeShort b ∧ gs = groups b laidOut) ∨
      (p = laidOut ∧ gs = laidOut.map fun i => ⟨i, []⟩) := by
  unfold MadeOf at h
  split at h
  · exact Or.inl ⟨h.1, h.2.eq_groups⟩
  · exact Or.inr h

theorem MadeOf.members (h : config.MadeOf b laidOut gs p) :
    gs.flatMap Group.members = laidOut := by
  rcases h.cases with ⟨-, rfl⟩ | ⟨-, rfl⟩
  · exact flatMap_members_groups b laidOut
  · rw [List.flatMap_map]
    exact List.flatMap_singleton' laidOut

theorem MadeOf.length_eq (h : config.MadeOf b laidOut gs p) : gs.length = p.length := by
  rcases h.cases with ⟨rfl, rfl⟩ | ⟨rfl, rfl⟩
  · exact (length_encodeShort laidOut).symm
  · exact List.length_map _

theorem MadeOf.control (h : config.MadeOf b laidOut gs p) {i : Instruction} (hi : i ∈ p) :
    ∃ j ∈ laidOut, i.opcode = j.opcode ∧ (i.opcode ≠ .branch → i.data = j.data) := by
  rcases h.cases with ⟨rfl, -⟩ | ⟨rfl, -⟩
  · exact control_encodeShort hi
  · exact ⟨i, hi, rfl, fun _ => rfl⟩

/-- **A loop goes to the instruction that holds its target.** -/
theorem MadeOf.loopsTo {body : Program} {last : Instruction} {k : Nat}
    (h : config.MadeOf b (body ++ [last]) gs p) (hbody : ∀ i ∈ body, i.opcode = .proceed)
    (hlast : last.opcode = .branch) (hcover : (cover gs)[last.data]? = some k)
    (hk : k < gs.length) : p.LoopsTo k := by
  rcases h.cases with ⟨rfl, rfl⟩ | ⟨rfl, rfl⟩
  · exact loopsTo_encodeShort hbody hlast hcover hk
  · rw [cover_single] at hcover
    obtain ⟨_, htarget⟩ := List.getElem?_eq_some_iff.mp hcover
    rw [List.getElem_range] at htarget
    rw [List.length_map] at hk
    refine ⟨body, last, rfl, fun i hi => ?_, hlast, htarget, hk⟩
    rw [hbody i hi]
    exact Opcode.noConfusion

end Config

/-- **The control flow of a compiled program** that is not empty. Without a loop all instructions
proceed. With one the last instruction, and no other, branches: to the one made of the group that
holds the target, which is there. -/
theorem compile_control_flow {channels : List Channel} {config : Config} {p : Program}
    (h : (compile channels config).result = .ok p) (hne : p ≠ []) :
    (config.loop = none → ∀ i ∈ p, i.opcode = .proceed ∧ i.data = 0) ∧
      ∀ target, config.loop = some target → ∃ body last, p = body ++ [last] ∧
        (∀ i ∈ body, i.opcode = .proceed ∧ i.data = 0) ∧ last.opcode = .branch ∧
        last.data < p.length ∧
        ∃ b laidOut gs pre g post, config.board = .ok b ∧ config.layOut channels = .ok laidOut ∧
          config.MadeOf b laidOut gs p ∧ gs.length = p.length ∧ gs = pre ++ g :: post ∧
          last.data = pre.length ∧ (pre.flatMap Group.members).length ≤ target ∧
          target < (pre.flatMap Group.members).length + g.members.length := by
  obtain ⟨b, laidOut, gs, hb, hlaid, hmade⟩ := Config.exists_madeOf h
  obtain ⟨hnone, hsome⟩ := Config.layOut_control hlaid
  have hlength := hmade.length_eq
  refine ⟨fun hloop i hi => ?_, fun target hloop => ?_⟩
  · obtain ⟨j, hj, hopcode, hdata⟩ := hmade.control hi
    obtain ⟨hproceed, hzero⟩ := hnone hloop j hj
    have hi' : i.opcode = .proceed := hopcode.trans hproceed
    exact ⟨hi', (hdata (by rw [hi']; exact Opcode.noConfusion)).trans hzero⟩
  · have hlaidOut : laidOut ≠ [] := fun hnil => by
      have hmembers := hmade.members
      rw [hnil, List.flatMap_eq_nil_iff] at hmembers
      obtain ⟨g, hg⟩ := List.exists_mem_of_length_pos
        (hlength ▸ List.length_pos_of_ne_nil hne : 0 < gs.length)
      exact members_ne_nil g (hmembers g hg)
    obtain ⟨body, last, rfl, ht, hbody⟩ := hsome target hloop hlaidOut
    obtain ⟨pre, g, post, hgs, hcover, hle, hlt⟩ := cover_split (hmade.members.symm ▸ ht)
    obtain ⟨body', last', hp, hnot, hbranch, hdata, hinside⟩ :=
      hmade.loopsTo (fun i hi => (hbody i hi).1) rfl hcover (by simp [hgs])
    refine ⟨body', last', hp, fun i hi => ?_, hbranch, hdata ▸ hinside, b, _, gs, pre, g, post, hb,
      hlaid, hmade, hlength, hgs, hdata, hle, hlt⟩
    -- what does not branch comes from the body
    obtain ⟨j, hj, hopcode, hsame⟩ := hmade.control (hp ▸ List.mem_append_left _ hi)
    rcases List.mem_append.mp hj with hj | hj
    · obtain ⟨hproceed, hzero⟩ := hbody j hj
      exact ⟨hopcode.trans hproceed, (hsame (hnot i hi)).trans hzero⟩
    · obtain rfl := List.mem_singleton.mp hj
      exact absurd hopcode (hnot i hi)

/-- Two pulses of one clock period that absorb what is behind them. -/
def twoPulses : List Channel := [⟨Flags.output 0, [⟨0, 1⟩, ⟨7, 1⟩]⟩]

/-- The end of the second pulse is absorbed, with the branch, and so is the target, behind the
first. -/
theorem absorbed_branch_to_absorbed :
    (compile twoPulses { extent := .padding 6, loop := some 1, clock := 1 }).result =
        .ok [.proceed (1 ||| 1 <<< 21) 7, ⟨1 ||| 1 <<< 21, .branch, 0, 7⟩] ∧
      ∃ (pre : List Group) (g : Group), 0 = pre.length ∧
        (pre.flatMap Group.members).length ≤ 1 ∧
        1 < (pre.flatMap Group.members).length + g.members.length := by
  have h : (compile twoPulses { extent := .padding 6, loop := some 1, clock := 1 }).result =
      .ok [.proceed (1 ||| 1 <<< 21) 7, ⟨1 ||| 1 <<< 21, .branch, 0, 7⟩] := by cbv
  obtain ⟨-, hloop⟩ := compile_control_flow h (List.cons_ne_nil _ _)
  obtain ⟨body, last, hp, -, -, -, _, _, _, pre, g, _, -, -, -, -, -, hdata, hle, hlt⟩ := hloop 1 rfl
  obtain rfl := Option.some.inj ((congrArg List.getLast? hp).trans List.getLast?_concat)
  exact ⟨h, pre, g, hdata, hle, hlt⟩

end PulseSequencer
