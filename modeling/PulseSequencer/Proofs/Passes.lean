import PulseSequencer.Proofs.Stages
import PulseSequencer.Proofs.Waveform

/-!
# Running a looped program

A looped program runs in passes: the first from instruction 0, and each later one from where the
one before branched to.

* `Program.pass`, `Program.passes`: the instructions that a board runs through.
* `Program.LoopsTo`: a program whose last instruction, and no other, branches.
* `Stretched`: what some instructions put out, with low time behind those of at most five periods.

Results:
* `passes_succ`: a pass through a looped program runs to its end and goes on at the target.
* `Stretched.countP_ne_zero`: low time put in neither loses a pulse nor plays one again.
-/

namespace PulseSequencer

open ShortPulse

/-! ## Running in passes -/

namespace Program

/-- The instructions that one pass runs through, up to the first that branches, and where that
one branches to. -/
def pass : Program → List Instruction × Option Nat
  | [] => ([], none)
  | i :: rest =>
    if i.opcode = .branch then ([i], some i.data) else (i :: (pass rest).1, (pass rest).2)

/-- The instructions that `k` passes run through: the first begins with instruction `start`, and
each later one where the one before branched to. -/
def passes (p : Program) : Nat → Nat → List Instruction
  | 0, _ => []
  | k + 1, start =>
    (pass (p.drop start)).1 ++
      match (pass (p.drop start)).2 with
      | some target => p.passes k target
      | none => []

/-- A program whose last instruction branches to instruction `target`, and no other branches. -/
def LoopsTo (p : Program) (target : Nat) : Prop :=
  ∃ body last, p = body ++ [last] ∧ (∀ i ∈ body, i.opcode ≠ .branch) ∧
    last.opcode = .branch ∧ last.data = target ∧ target < p.length

theorem pass_append_branch {body : Program} {last : Instruction}
    (hbody : ∀ i ∈ body, i.opcode ≠ .branch) (hlast : last.opcode = .branch) :
    pass (body ++ [last]) = (body ++ [last], some last.data) := by
  induction body with
  | nil => simp [pass, hlast]
  | cons i body ih =>
    rw [List.cons_append, pass, if_neg (hbody i List.mem_cons_self),
      ih fun j hj => hbody j (List.mem_cons_of_mem i hj)]

theorem pass_drop {p : Program} {target : Nat} (h : p.LoopsTo target) {start : Nat}
    (hs : start < p.length) : pass (p.drop start) = (p.drop start, some target) := by
  obtain ⟨body, last, rfl, hbody, hlast, rfl, -⟩ := h
  have hle : start ≤ body.length := by
    rw [List.length_append, List.length_singleton] at hs
    omega
  rw [List.drop_append_of_le_length hle]
  exact pass_append_branch (fun i hi => hbody i (List.mem_of_mem_drop hi)) hlast

/-- A pass through a looped program runs to its end, and the next one begins at the target. -/
theorem passes_succ {p : Program} {target : Nat} (h : p.LoopsTo target) {start : Nat}
    (hs : start < p.length) (k : Nat) :
    p.passes (k + 1) start = p.drop start ++ p.passes k target := by
  rw [passes, pass_drop h hs]

end Program

/-! ## Low time behind short instructions -/

/-- The waveform is what the instructions put out one behind the other, with low time put in
directly behind some of those that last for at most five clock periods. -/
inductive Stretched (b : Board) : List Instruction → List Flags → Prop where
  | nil : Stretched b [] []
  | cons (i : Instruction) (extra : Nat) {is : List Instruction} {w : List Flags}
      (hshort : 0 < extra → i.length ≤ minLength b.clock) (h : Stretched b is w) :
      Stretched b (i :: is) (i.wave b ++ low extra ++ w)

namespace Stretched

variable {b : Board}

theorem append {is js : List Instruction} {w v : List Flags} (hi : Stretched b is w)
    (hj : Stretched b js v) : Stretched b (is ++ js) (w ++ v) := by
  induction hi with
  | nil => exact hj
  | cons i extra hshort _ ih =>
    rw [List.append_assoc]
    exact cons i extra hshort ih

/-- Low time may be put in behind the last of some short instructions. -/
theorem of_extra {is : List Instruction} {extra : Nat} (hne : is ≠ [])
    (hshort : 0 < extra → ∀ i ∈ is, i.length ≤ minLength b.clock) :
    Stretched b is (Program.wave b is ++ low extra) := by
  induction is with
  | nil => exact absurd rfl hne
  | cons i is ih =>
    cases is with
    | nil =>
      have h := cons i extra (fun h => hshort h i List.mem_cons_self) (nil (b := b))
      simpa using h
    | cons j is =>
      have h := cons i 0 (fun h => absurd h (Nat.lt_irrefl 0))
        (ih (List.cons_ne_nil j is) fun h k hk => hshort h k (List.mem_cons_of_mem i hk))
      simpa [low] using h

/-- Nothing need be put in. -/
theorem refl (is : List Instruction) : Stretched b is (Program.wave b is) := by
  induction is with
  | nil => exact nil
  | cons i is ih =>
    have h := cons i 0 (fun h => absurd h (Nat.lt_irrefl 0)) ih
    simpa [low] using h

/-- Control flow puts out nothing. -/
theorem of_stretches {is js : List Instruction} {w : List Flags} (h : Stretched b is w)
    (hsame : Program.stretches is = Program.stretches js) : Stretched b js w := by
  induction h generalizing js with
  | nil =>
    cases js with
    | nil => exact nil
    | cons j js => exact absurd hsame (by simp [Program.stretches])
  | cons i extra hshort _ ih =>
    cases js with
    | nil => exact absurd hsame (by simp [Program.stretches])
    | cons j js =>
      obtain ⟨hij, hrest⟩ := List.cons.inj hsame
      obtain ⟨hf, hl⟩ := Prod.mk.inj hij
      have hwave : i.wave b = j.wave b := by
        simp only [Instruction.wave, Instruction.onTime, hf, hl]
      rw [hwave]
      exact cons j extra (fun h => hl ▸ hshort h) (ih hrest)

/-- No pulse is lost or played again: the outputs are not low for as long as before. -/
theorem countP_ne_zero {is : List Instruction} {w : List Flags} (h : Stretched b is w) :
    w.countP (· ≠ 0) = (Program.wave b is).countP (· ≠ 0) := by
  induction h with
  | nil => rfl
  | cons i extra _ _ ih =>
    have hlow : (low extra).countP (· ≠ 0) = 0 := by simp [low]
    rw [List.countP_append, List.countP_append, hlow, ih, Program.wave_cons, List.countP_append,
      Nat.add_zero]

end Stretched

end PulseSequencer
