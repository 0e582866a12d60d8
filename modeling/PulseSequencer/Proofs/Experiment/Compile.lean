import PulseSequencer.Experiment
import PulseSequencer.Proofs.Device.Requests
import PulseSequencer.Proofs.Elements
import PulseSequencer.Proofs.Timeline

/-!
# Compiling all devices of an experiment

An experiment compiles its devices one behind the other. Where all of them compile it answers with
the longest of their programs. The first one that refuses ends it: the devices before it keep their
new programs, and it and those behind it are what they were.

* `Device.SameEdits`: devices that differ in their programs alone.

Results:
* `runs_compile`, `fails_compile`: what a compilation of all devices has done.
* `isGreatest_totalRunTime`: the longest run time, where every device has a program.
* **`compile_up_to_first_refusal`**: both endings, and that no device loses its edits.
-/

namespace PulseSequencer

namespace Device

/-- Devices that are edited alike: on the same board, with the same channels and bookings, the same
padding and the same sync clock. -/
structure SameEdits (d d' : Device) : Prop where
  name : d'.name = d.name
  board : d'.board = d.board
  channels : d'.channels = d.channels
  padding : d'.padding = d.padding
  syncOut : d'.syncOut = d.syncOut

theorem SameEdits.refl (d : Device) : SameEdits d d := ⟨rfl, rfl, rfl, rfl, rfl⟩

variable {A : Arithmetic} {loop : Option Nat} {d d' : Device} {t : Nat}

theorem runTime_eq_ok : d.runTime = .ok t ↔ ∃ p, d.program = some p ∧ p.duration = t := by
  unfold runTime compiled
  cases d.program with
  | none => simp [bind, Except.bind]
  | some p => simp [bind, Except.bind, pure, Except.pure]

/-- A device that compiles keeps its edits, and its new program lasts for what it answers. -/
theorem compiled_of_runs (h : (compile A loop).Runs d t d') :
    d.SameEdits d' ∧ d'.isFresh = true ∧ d'.runTime = .ok t := by
  obtain ⟨p, -, rfl, rfl⟩ := runs_compile.mp h
  exact ⟨⟨rfl, rfl, rfl, rfl, rfl⟩, rfl, rfl⟩

end Device

namespace Experiment

variable {A : Arithmetic} {loop : Option Nat} {e e' : Experiment} {t : Nat}

theorem runs_compile :
    (compile A loop).Runs e t e' ↔
      List.Forall₂ (fun d d' => ∃ t, (Device.compile A loop).Runs d t d') e e' ∧
        t = totalRunTime e' := by
  unfold compile
  rw [Action.runs_bind]
  simp only [Action.runs_forEach, Action.runs_discard, Action.runs_read]
  constructor
  · rintro ⟨_, _, h, rfl, rfl⟩
    exact ⟨h, rfl⟩
  · rintro ⟨h, rfl⟩
    exact ⟨(), e', h, rfl, rfl⟩

/-- A device that refuses stays as it was. -/
theorem fails_compile {error : Error} :
    (compile A loop).Fails e error e' ↔
      ∃ before d after before', e = before ++ d :: after ∧
        List.Forall₂ (fun d d' => ∃ t, (Device.compile A loop).Runs d t d') before before' ∧
        (Device.compile A loop d).1.result = .error error ∧ e' = before' ++ d :: after := by
  unfold compile
  rw [Action.fails_bind]
  simp only [Action.fails_forEach, Action.runs_discard, Action.fails_discard,
    (Device.allOrNothing_compile loop).fails_iff, Action.not_fails_read, and_false, exists_false,
    or_false]
  constructor
  · rintro ⟨before, d, after, before', _, rfl, hbefore, ⟨herror, rfl⟩, rfl⟩
    exact ⟨before, _, after, before', rfl, hbefore, herror, rfl⟩
  · rintro ⟨before, d, after, before', rfl, hbefore, herror, rfl⟩
    exact ⟨before, d, after, before', d, rfl, hbefore, ⟨herror, rfl⟩, rfl⟩

/-- The longest run time of an experiment in which every device has a program. -/
theorem isGreatest_totalRunTime (h : ∀ d ∈ e, d.isCompiled = true) (hne : e ≠ []) :
    IsGreatest {t | ∃ d ∈ e, d.runTime = .ok t} (totalRunTime e) := by
  have hset : {t | ∃ d ∈ e, d.runTime = .ok t} =
      {t | t ∈ e.filterMap fun d => d.program.map Program.duration} := by
    ext t
    simp only [Set.mem_ofPred_eq, List.mem_filterMap, Device.runTime_eq_ok, Option.map_eq_some_iff]
  obtain ⟨d, hd⟩ := List.exists_mem_of_ne_nil e hne
  obtain ⟨p, hp⟩ := Option.isSome_iff_exists.mp (h d hd)
  rw [hset]
  refine isGreatest_latest (List.ne_nil_of_mem (a := p.duration) ?_)
  exact List.mem_filterMap.mpr ⟨d, hd, by rw [hp]; rfl⟩

/-- Devices that were compiled one by one keep their edits. -/
theorem sameEdits_of_runs {ds ds' : List Device}
    (h : List.Forall₂ (fun d d' => ∃ t, (Device.compile A loop).Runs d t d') ds ds') :
    List.Forall₂ Device.SameEdits ds ds' :=
  h.imp fun _ _ ⟨_, hruns⟩ => (Device.compiled_of_runs hruns).1

/-- **An experiment compiles its devices up to the first that refuses.** Either all of them compile:
then each is left as its own compilation leaves it, with a fresh program, and the answer is the
longest run time of these programs, or zero without devices. Or it answers with the error of a
device that refuses behind others that compile: these are left as their own compilations leave
them, and that device and those behind it are what they were. In both cases every device keeps what
is edited on it. -/
theorem compile_up_to_first_refusal (A : Arithmetic) (loop : Option Nat) (e : Experiment) :
    ((∃ t e', (compile A loop).Runs e t e' ∧
        List.Forall₂ (fun d d' => (∃ t', (Device.compile A loop).Runs d t' d' ∧
          d'.runTime = .ok t') ∧ d'.isFresh = true) e e' ∧
        (e = [] ∧ t = 0 ∨ IsGreatest {t' | ∃ d' ∈ e', d'.runTime = .ok t'} t) ∧
        t = totalRunTime e') ∨
      ∃ before d after before' error, e = before ++ d :: after ∧
        List.Forall₂ (fun d d' => ∃ t', (Device.compile A loop).Runs d t' d') before before' ∧
        (Device.compile A loop d).1.result = .error error ∧
        (compile A loop).Fails e error (before' ++ d :: after)) ∧
    List.Forall₂ Device.SameEdits e (compile A loop e).2 := by
  rcases (compile A loop).runs_or_fails e with ⟨t, e', hruns⟩ | ⟨error, e', hfails⟩
  · obtain ⟨hall, rfl⟩ := runs_compile.mp hruns
    have hfresh : List.Forall₂ (fun d d' => (∃ t', (Device.compile A loop).Runs d t' d' ∧
        d'.runTime = .ok t') ∧ d'.isFresh = true) e e' := by
      refine hall.imp fun d d' ⟨t', h⟩ => ?_
      obtain ⟨-, hfresh, htime⟩ := Device.compiled_of_runs h
      exact ⟨⟨t', h, htime⟩, hfresh⟩
    refine ⟨Or.inl ⟨_, e', hruns, hfresh, ?_, rfl⟩, ?_⟩
    · rcases eq_or_ne e' [] with rfl | hne
      · exact Or.inl ⟨List.forall₂_nil_right_iff.mp hall, rfl⟩
      · refine Or.inr (isGreatest_totalRunTime (fun d' hd' => ?_) hne)
        obtain ⟨d, -, -, h⟩ := exists_of_mem_forall₂ hfresh hd'
        exact (Bool.and_eq_true_iff.mp h).1
    · rw [hruns.2]
      exact sameEdits_of_runs hall
  · obtain ⟨before, d, after, before', rfl, hbefore, herror, rfl⟩ := fails_compile.mp hfails
    refine ⟨Or.inr ⟨before, d, after, before', error, rfl, hbefore, herror, hfails⟩, ?_⟩
    rw [hfails.2]
    refine List.rel_append (sameEdits_of_runs hbefore) (.cons (.refl d) ?_)
    exact List.forall₂_same.mpr fun d' _ => .refl d'

/-- Without a padding the second device has two instructions, so it refuses to branch to the third;
the first one has its program by then. -/
example :
    let first : Device :=
      { name := "first"
        board := ⟨2, 21, by decide, by decide⟩
        padding := 100
        channels := [("led", { number := 0, bookings := [⟨⟨4, 2⟩, by decide⟩] })] }
    let second : Device := { first with name := "second", padding := 0 }
    let ended := compile .binary64 (some 2) [first, second]
    ended.1.result = .error (.branchOutOfRange 2 2) ∧ ended.2 =
      [{ first with
          program := some [.proceed (0 ||| 2 <<< 21) 10, ⟨1 ||| 1 <<< 21, .branch, 1, 102⟩]
          fresh := true },
        second] :=
  ⟨by cbv, by cbv⟩

end Experiment

end PulseSequencer
