import PulseSequencer.Program.Replay
import PulseSequencer.Proofs.Timeline

/-!
# What a replay samples

A replay goes along a program once, on from each sample to the next. It finds what a walk of its own
from the start of the program would find for each sample: where a time is reached does not depend on
the earlier times at which the walk has stopped. Such a walk ends with the instruction that runs at
its time, whatever instructions without length it has come past, and however many others.

* `Program.startOf`: the time at which an instruction starts.
* `Program.Running`: an instruction, by its index, runs at a time.

Results:
* `existsUnique_running`, `Running.at?_eq`: before the end of a program one instruction runs.
* `goTo_goTo`, `samples_eq_map`: the step of a walk, and from it all samples.
* `flagsAt?_advance`: what a walk ends with.
* **`replay_samples_running`**: the samples of a replay.
-/

namespace PulseSequencer

namespace Program

/-! ## The one instruction that runs -/

/-- The time at which instruction `k` starts: that which all instructions before it take. -/
def startOf (p : Program) (k : Nat) : Nat := duration (p.take k)

/-- Instruction `k` runs at `time`: it is there, it has started and it is not over. -/
def Running (p : Program) (k time : Nat) : Prop :=
  ∃ i, p[k]? = some i ∧ p.startOf k ≤ time ∧ time < p.startOf k + i.length

variable {p : Program} {i : Instruction} {k time : Nat}

theorem running_cons_zero : Running (i :: p) 0 time ↔ time < i.length := by
  have hstart : startOf (i :: p) 0 = 0 := rfl
  unfold Running
  rw [hstart]
  constructor
  · rintro ⟨j, hj, -, hlt⟩
    obtain rfl := Option.some.inj hj
    rwa [Nat.zero_add] at hlt
  · intro hlt
    rw [← Nat.zero_add i.length] at hlt
    exact ⟨i, rfl, Nat.zero_le _, hlt⟩

theorem running_cons_succ :
    Running (i :: p) (k + 1) time ↔ i.length ≤ time ∧ p.Running k (time - i.length) := by
  have hstart : startOf (i :: p) (k + 1) = i.length + startOf p k := rfl
  unfold Running
  rw [hstart, List.getElem?_cons_succ]
  constructor
  · rintro ⟨j, hj, hle, hlt⟩
    exact ⟨by omega, j, hj, by omega, by omega⟩
  · rintro ⟨hin, j, hj, hle, hlt⟩
    exact ⟨j, hj, by omega, by omega⟩

/-- **Until a program is over, one instruction of it runs**, and no other. -/
theorem existsUnique_running (h : time < p.duration) : ∃! k, p.Running k time := by
  induction p generalizing time with
  | nil => exact absurd h (Nat.not_lt_zero _)
  | cons i p ih =>
    rw [duration_cons] at h
    by_cases hin : time < i.length
    · refine ⟨0, running_cons_zero.mpr hin, fun k hk => ?_⟩
      cases k with
      | zero => rfl
      | succ k => exact absurd hin (Nat.not_lt.mpr (running_cons_succ.mp hk).1)
    · have hle := Nat.not_lt.mp hin
      obtain ⟨k, hk, honly⟩ := ih (by omega : time - i.length < duration p)
      refine ⟨k + 1, running_cons_succ.mpr ⟨hle, hk⟩, fun k' hk' => ?_⟩
      cases k' with
      | zero => exact absurd (running_cons_zero.mp hk') hin
      | succ k' => rw [honly k' (running_cons_succ.mp hk').2]

/-- It is the one found by counting the time down along the program. -/
theorem Running.at?_eq (h : p.Running k time) : p.at? time = p[k]? := by
  induction p generalizing k time with
  | nil =>
    obtain ⟨i, hi, -⟩ := h
    cases hi
  | cons i p ih =>
    cases k with
    | zero => rw [at?, if_pos (running_cons_zero.mp h), List.getElem?_cons_zero]
    | succ k =>
      obtain ⟨hle, hk⟩ := running_cons_succ.mp h
      rw [at?, if_neg (Nat.not_lt.mpr hle), ih hk, List.getElem?_cons_succ]

namespace Walk

/-! ## Where a walk is -/

theorem advance_advance {time' : Nat} (h : time ≤ time') (flags : Flags) (stop : Nat)
    (rest : Program) :
    (advance time flags stop rest).goTo time' = advance time' flags stop rest := by
  induction rest generalizing flags stop with
  | nil => rfl
  | cons i rest ih =>
    unfold advance
    by_cases hstop : stop ≤ time
    · rw [if_pos hstop, if_pos (hstop.trans h), ih]
    · rw [if_neg hstop]
      rfl

/-- The step: to have stopped at an earlier time makes no difference. -/
theorem goTo_goTo {time' : Nat} (h : time ≤ time') (w : Walk) :
    (w.goTo time).goTo time' = w.goTo time' :=
  advance_advance h w.flags w.stop w.rest

/-- The run: every sample is what a walk of its own finds. -/
theorem samples_eq_map (tick count time : Nat) (w : Walk) :
    w.samples tick count time =
      (List.range count).map fun n => (w.goTo (time + n * tick)).flags := by
  induction count generalizing time w with
  | zero => rfl
  | succ count ih =>
    rw [samples, ih, List.range_succ_eq_map, List.map_cons, List.map_map, Nat.zero_mul,
      Nat.add_zero]
    congr 1
    refine List.map_congr_left fun n _ => ?_
    have htime : time + tick + n * tick = time + (n + 1) * tick := by
      rw [Nat.succ_mul, Nat.add_assoc, Nat.add_comm tick]
    rw [htime, goTo_goTo (Nat.le_add_right _ _)]
    rfl

/-- A walk ends with the instruction that runs at its time. -/
theorem flagsAt?_advance {flags : Flags} {stop : Nat} {rest : Program} (hstop : stop ≤ time)
    (hend : time < stop + rest.duration) :
    rest.flagsAt? (time - stop) = some (advance time flags stop rest).flags := by
  induction rest generalizing flags stop with
  | nil => exact absurd hend (Nat.not_lt.mpr hstop)
  | cons i rest ih =>
    rw [duration_cons] at hend
    rw [flagsAt?_cons, advance, if_pos hstop]
    by_cases hin : time - stop < i.length
    · -- `i` is not over at `time`, so the walk stays with it
      have hstay : advance time i.flags (stop + i.length) rest =
          ⟨i.flags, stop + i.length, rest⟩ := by
        cases rest with
        | nil => rfl
        | cons j rest => exact if_neg (by omega)
      rw [if_pos hin, hstay]
    · rw [if_neg hin, Nat.sub_sub]
      exact ih (by omega) (by omega)

end Walk

/-! ## The samples of a replay -/

/-- A tick that a whole tick follows comes before the end. -/
theorem mul_lt_duration {tick n : Nat} (hn : n < p.duration / tick) : n * tick < p.duration := by
  have hnext : (n + 1) * tick ≤ p.duration :=
    (Nat.mul_le_mul_right tick hn).trans (Nat.div_mul_le_self _ _)
  have htick : tick ≠ 0 := fun hzero => by simp [hzero] at hn
  rw [Nat.succ_mul] at hnext
  omega

/-- The samples hold the flags at their times. -/
theorem getElem?_replay {tick n : Nat} (hn : n < p.duration / tick) :
    (p.replay tick)[n]? = p.flagsAt? (n * tick) := by
  have hend : n * tick < 0 + p.duration := (mul_lt_duration hn).trans_eq (Nat.zero_add _).symm
  have hwalk : p.flagsAt? (n * tick - 0) = some (Walk.advance (n * tick) 0 0 p).flags :=
    Walk.flagsAt?_advance (Nat.zero_le _) hend
  rw [Nat.sub_zero] at hwalk
  rw [replay, Walk.samples_eq_map, List.getElem?_map, List.getElem?_range hn, hwalk,
    Option.map_some, Nat.zero_add]
  rfl

/-- **A replay samples the instruction that runs.** For every program, with instructions without
length anywhere in it, and every tick that is not zero there is a replay. It has as many samples as
whole ticks fit into the program. At the time of sample `n`, which is `n` ticks from the start, one
instruction runs and no other, and the sample holds its flags. -/
theorem replay_samples_running (p : Program) {tick : Nat} (htick : 0 < tick) :
    ∃ samples, p.replayEvery tick = .ok samples ∧ samples.length = p.duration / tick ∧
      ∀ n, n < samples.length → ∃ k i, p[k]? = some i ∧ samples[n]? = some i.flags ∧
        ∀ k', p.Running k' (n * tick) ↔ k' = k := by
  have hlength : (p.replay tick).length = p.duration / tick := by
    rw [replay, Walk.samples_eq_map, List.length_map, List.length_range]
  refine ⟨p.replay tick, if_neg htick.ne', hlength, fun n hn => ?_⟩
  rw [hlength] at hn
  obtain ⟨k, hk, honly⟩ := existsUnique_running (mul_lt_duration hn)
  obtain ⟨i, hi, -⟩ := id hk
  refine ⟨k, i, hi, ?_, fun k' => ⟨honly k', fun hsame => hsame ▸ hk⟩⟩
  rw [getElem?_replay hn, flagsAt?, hk.at?_eq, hi, Option.map_some]

/-- Two instructions, with one without length where the first is over and the second starts. -/
def joint : Program := [.proceed 1 10, .proceed 7 0, .proceed 2 5, .proceed 0 17]

/-- A tick of 5 ns samples both sides of the joint. At 10 ns the instruction without length does not
run, and the one behind it does. -/
theorem replay_past_joint :
    0 < 5 ∧ joint.replayEvery 5 = .ok [1, 1, 2, 0, 0, 0] ∧
      ∃ k i, joint[k]? = some i ∧ i.flags = 2 ∧ ∀ k', joint.Running k' (2 * 5) ↔ k' = k := by
  have hreplay : joint.replayEvery 5 = .ok [1, 1, 2, 0, 0, 0] := by decide
  obtain ⟨samples, hsamples, -, hrunning⟩ := replay_samples_running joint (by decide : 0 < 5)
  obtain rfl := Except.ok.inj (hreplay.symm.trans hsamples)
  obtain ⟨k, i, hi, hflags, honly⟩ := hrunning 2 (by decide)
  exact ⟨by decide, hreplay, k, i, hi, (Option.some.inj hflags).symm, honly⟩

end Program

end PulseSequencer
