import PulseSequencer.Proofs.Overlaps

/-!
# Outputs that channels share

Pulses are compared within a channel, and channels are not compared at all. So a program that is
compiled drives an output by all pulses on it, each of which toggles it at its start and again at
its stop: the output is high while an odd number of them lasts. As long as the pulses on it are
apart, which they are when one channel has it for itself, that is while one of them lasts. Where
pulses of two channels overlap, they cancel out.

* `pulsesOn`: the pulses of all channels on an output.
* `Program.isHighAt`: whether an output is high in a program.

Results:
* `isHigh_toggledAt`: what lasts toggles an output as often as pulses on it last.
* `isHighAt_layOut`: the program laid out.
* `pairwise_apart_pulsesOn`: an output of one channel has its pulses apart.
* **`compile_drives_pulses`**: when outputs are high.
* `shared_output_cancels`: when overlaps between channels cancel out.
-/

namespace PulseSequencer

/-- The pulses on output `n`, of all channels that have it. -/
def pulsesOn (channels : List Channel) (n : Nat) : List Pulse :=
  (channels.filter fun c => c.flags.isHigh n).flatMap Channel.pulses

/-- Whether output `n` is high at `time` while a program runs. -/
def Program.isHighAt (p : Program) (n time : Nat) : Bool :=
  (p.flagsAt? time).any fun flags => flags.isHigh n

/-! ## How often an output is toggled -/

theorem pulsesOn_cons (c : Channel) (channels : List Channel) (n : Nat) :
    pulsesOn (c :: channels) n =
      (if c.flags.isHigh n then c.pulses else []) ++ pulsesOn channels n := by
  unfold pulsesOn
  rw [List.filter_cons]
  by_cases hn : c.flags.isHigh n = true <;> simp [hn]

/-- The exclusive or of some words has an output high when an odd number of them has. -/
theorem Flags.isHigh_xorAll {ws : List Flags} {n : Nat} :
    (xorAll ws).isHigh n = true ↔ Odd (ws.countP fun w => w.isHigh n) := by
  induction ws with
  | nil => simp [isHigh]
  | cons w ws ih =>
    rw [xorAll_cons, isHigh_xor, List.countP_cons]
    cases hw : w.isHigh n
    · simpa using ih
    · rw [Bool.true_xor, Bool.not_eq_true', if_pos rfl, Nat.odd_add_one, ← ih,
        Bool.not_eq_true]

theorem Channel.isHigh_toggledAt {c : Channel} {n time : Nat} :
    (c.toggledAt time).isHigh n = true ↔
      Odd ((if c.flags.isHigh n then c.pulses else []).countP fun p => p.lasts time) := by
  unfold toggledAt
  rw [Flags.isHigh_xorAll, List.countP_map]
  cases hn : c.flags.isHigh n
  · simp [Function.comp_def, hn]
  · simp [Function.comp_def, hn, List.countP_eq_length_filter]

/-- **What lasts toggles an output as often as pulses on it last.** -/
theorem isHigh_toggledAt {channels : List Channel} {n time : Nat} :
    (toggledAt channels time).isHigh n = true ↔
      Odd ((pulsesOn channels n).countP fun p => p.lasts time) := by
  induction channels with
  | nil => simp [toggledAt, pulsesOn, Flags.isHigh]
  | cons c channels ih =>
    have hstep : toggledAt (c :: channels) time = c.toggledAt time ^^^ toggledAt channels time :=
      rfl
    rw [hstep, Flags.isHigh_xor, pulsesOn_cons, List.countP_append, Nat.odd_add,
      ← Nat.not_odd_iff_even, ← c.isHigh_toggledAt, ← ih]
    cases (c.toggledAt time).isHigh n <;> cases (toggledAt channels time).isHigh n <;> simp

/-! ## When an output is high -/

/-- From its end on nothing of a program runs. -/
theorem Program.flagsAt?_eq_none : ∀ {p : Program} {time : Nat}, p.duration ≤ time →
    p.flagsAt? time = none
  | [], _, _ => rfl
  | i :: p, time, h => by
    rw [duration_cons] at h
    rw [flagsAt?_cons, if_neg (by omega)]
    exact flagsAt?_eq_none (by omega)

/-- **A program laid out** holds an output high while an odd number of the pulses on it lasts. -/
theorem isHighAt_layOut {channels : List Channel} {config : Config} {p : Program}
    (h : config.layOut channels = .ok p) {n time : Nat} :
    p.isHighAt n time = true ↔ Odd ((pulsesOn channels n).countP fun q => q.lasts time) := by
  obtain ⟨-, padding, -, hclose⟩ := Config.layOut_eq_ok.mp h
  have hsame := Config.stretches_close hclose
  unfold Program.isHighAt
  rw [Program.flagsAt?_eq_of_stretches hsame]
  by_cases hin : time < lastEdge channels + padding
  · rw [flagsAt?_ofSteps hin, Option.any_some, isHigh_toggledAt]
  · have hend : (Program.ofSteps (steps channels padding)).duration ≤ time := by
      rw [duration_ofSteps]
      omega
    have hover : (pulsesOn channels n).countP (fun q => q.lasts time) = 0 := by
      rw [List.countP_eq_zero]
      intro q hq
      obtain ⟨c, hc, hq⟩ := List.mem_flatMap.mp hq
      rw [lasts_eq_false (List.mem_filter.mp hc).1 hq (by omega)]
      exact Bool.false_ne_true
    rw [Program.flagsAt?_eq_none hend, hover]
    simp

/-- Of pulses that are apart one lasts or none. -/
theorem odd_countP_lasts_iff {ps : List Pulse} (h : ps.Pairwise Pulse.Apart) {time : Nat} :
    Odd (ps.countP fun p => p.lasts time) ↔ ∃ p ∈ ps, p.lasts time = true := by
  induction ps with
  | nil => simp
  | cons p ps ih =>
    rw [List.countP_cons, List.exists_mem_cons_iff]
    by_cases hp : p.lasts time = true
    · have hnone : ps.countP (fun q => q.lasts time) = 0 := by
        rw [List.countP_eq_zero]
        intro q hq
        rw [(List.rel_of_pairwise_cons h hq).lasts_eq_false hp]
        exact Bool.false_ne_true
      rw [hnone, if_pos hp]
      exact iff_of_true (by decide) (Or.inl hp)
    · rw [if_neg hp, Nat.add_zero, ih h.of_cons]
      exact (or_iff_right hp).symm

/-- **An output that one channel has for itself has its pulses apart** when those of each channel
are. -/
theorem pairwise_apart_pulsesOn {channels : List Channel} {n : Nat}
    (hapart : ∀ c ∈ channels, c.pulses.Pairwise Pulse.Apart)
    (hone : (channels.filter fun c => c.flags.isHigh n).length ≤ 1) :
    (pulsesOn channels n).Pairwise Pulse.Apart := by
  unfold pulsesOn
  cases hfilter : channels.filter fun c => c.flags.isHigh n with
  | nil => exact List.Pairwise.nil
  | cons c rest =>
    rw [hfilter, List.length_cons] at hone
    obtain rfl : rest = [] := List.eq_nil_of_length_eq_zero (by omega)
    have hc : c ∈ channels.filter fun c => c.flags.isHigh n := hfilter ▸ List.mem_cons_self
    rw [List.flatMap_singleton]
    exact hapart c (List.mem_filter.mp hc).1

/-- **Channels keep their pulses apart, and outputs follow theirs.** Whatever channels are compiled,
no two pulses of one channel overlap; and before its short pulses are encoded, the program holds
each output high exactly while an odd number of the pulses on it lasts. Where those pulses are
apart, as they are when no other channel has the output, that is exactly while one of them lasts. -/
theorem compile_drives_pulses {channels : List Channel} {config : Config} {p : Program}
    (h : (compile channels config).result = .ok p) :
    (∀ c ∈ channels, c.pulses.Pairwise Pulse.Apart) ∧
      ∃ laidOut, config.layOut channels = .ok laidOut ∧ ∀ n,
        (∀ time, laidOut.isHighAt n time = true ↔
            Odd ((pulsesOn channels n).countP fun q => q.lasts time)) ∧
          ((channels.filter fun c => c.flags.isHigh n).length ≤ 1 →
            (pulsesOn channels n).Pairwise Pulse.Apart) ∧
          ((pulsesOn channels n).Pairwise Pulse.Apart → ∀ time,
            laidOut.isHighAt n time = true ↔ ∃ q ∈ pulsesOn channels n, q.lasts time = true) := by
  obtain ⟨-, laidOut, -, hlaid, -⟩ := compile_eq_ok.mp h
  obtain ⟨haccepted, -⟩ := Config.layOut_eq_ok.mp hlaid
  have hapart : ∀ c ∈ channels, c.pulses.Pairwise Pulse.Apart := fun c hc =>
    pairwise_apart_of_clash? (haccepted c hc).2
  refine ⟨hapart, laidOut, hlaid, fun n => ⟨fun _ => isHighAt_layOut hlaid,
    pairwise_apart_pulsesOn hapart, fun hn time => ?_⟩⟩
  exact (isHighAt_layOut hlaid).trans (odd_countP_lasts_iff hn)

/-- Two channels share an output, and the pulse of one fills a gap of the other; a third one has an
output for itself. -/
theorem filled_gap_drives_pulses :
    ∃ channels config p laidOut, (compile channels config).result = .ok p ∧
      config.layOut channels = .ok laidOut ∧ (pulsesOn channels 0).length = 3 ∧
        laidOut.isHighAt 0 10 = true ∧ laidOut.isHighAt 0 45 = false ∧
          laidOut.isHighAt 1 20 = true := by
  let channels : List Channel :=
    [⟨Flags.output 0, [⟨0, 10⟩, ⟨50, 10⟩]⟩, ⟨Flags.output 1, [⟨5, 20⟩]⟩,
      ⟨Flags.output 0, [⟨10, 30⟩]⟩]
  have hcompiled : (compile channels {}).result = .ok [.proceed 0x400001 10, .proceed 0x400003 10,
      .proceed 0b11 15, .proceed 0b1 15, .proceed 0xa00000 10, ⟨0xa00001, .branch, 0, 10⟩] := by
    cbv
  obtain ⟨-, laidOut, hlaid, hdrives⟩ := compile_drives_pulses hcompiled
  obtain ⟨-, -, hshared⟩ := hdrives 0
  obtain ⟨-, hown, hsingle⟩ := hdrives 1
  refine ⟨channels, {}, _, laidOut, hcompiled, hlaid, rfl, (hshared (by decide) 10).mpr (by decide),
    ?_, (hsingle (hown (by decide)) 20).mpr (by decide)⟩
  exact Bool.eq_false_iff.mpr (mt (hshared (by decide) 45).mp (by decide))

/-- **Overlaps between channels cancel out**: two channels of one output are compiled although a
pulse of the one starts while a pulse of the other lasts, and the output is low while both last. -/
theorem shared_output_cancels :
    ∃ channels config p laidOut,
      (∀ c ∈ channels, ∃ n, n < wordBits ∧ c.flags = Flags.output n) ∧
        (compile channels config).result = .ok p ∧ config.layOut channels = .ok laidOut ∧
          ¬ (pulsesOn channels 0).Pairwise Pulse.Apart ∧
            (∃ q ∈ pulsesOn channels 0, q.lasts 75 = true) ∧ laidOut.isHighAt 0 75 = false := by
  let channels : List Channel := [⟨Flags.output 0, [⟨0, 100⟩]⟩, ⟨Flags.output 0, [⟨50, 100⟩]⟩]
  let p : Program := [.proceed 0b1 50, .proceed 0 50, ⟨0b1, .branch, 0, 50⟩]
  have hflags : ∀ c ∈ channels, c.flags = Flags.output 0 := by decide
  have hcompiled : (compile channels {}).result = .ok p := by cbv
  have hlaid : Config.layOut {} channels = .ok p := by cbv
  exact ⟨channels, {}, p, p, fun c hc => ⟨0, by decide, hflags c hc⟩, hcompiled, hlaid,
    by decide, by decide, by decide⟩

end PulseSequencer
