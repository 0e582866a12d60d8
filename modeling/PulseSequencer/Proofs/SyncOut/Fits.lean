import PulseSequencer.Proofs.Device.SyncPhase
import PulseSequencer.Proofs.Ticks

/-!
# A sync clock that fits

In exact arithmetic a sync clock is put out for every frequency that is accepted. A period takes at
least two ticks of the clock, and half of it is over with the whole, however the two are rounded.
So the pulses of the sync clock last, none runs into the next one, and the last one is over when the
program ends. The program ends where the last period does, or at the last edge if the end of the
period is rounded to a time before it.

* `syncPulses`: the pulses of a sync clock, each with its start and its length on the clock.

Results:
* `syncPeriod_exact_eq_ok`: which frequencies are accepted, and their periods.
* `length_pos_of_mem_syncPulses`, `pairwise_syncPulses`, `stop_le_of_mem_syncPulses`: the pulses
  last, are apart and end with the last period.
* `clockOut_exact`: they make a valid channel.
* **`withSyncOut_fits`**: what the channels with a sync clock are, and where they end.
-/

namespace PulseSequencer

variable {clock : Nat} {period : Rat}

/-! ## Frequencies -/

/-- The frequencies that are accepted are those with a period of at least two clock periods. -/
theorem syncPeriod_exact_eq_ok {frequency p : Number} :
    syncPeriod .exact frequency clock = .ok p ↔
      ∃ f, frequency = .finite f ∧ 0 < f ∧ 2 * clock ≤ 1000 / f ∧ p = .finite (1000 / f) := by
  unfold syncPeriod
  cases hvalue : frequency.positive? with
  | none =>
    have hnone : ∀ f, ¬ (frequency = .finite f ∧ 0 < f) := fun f hf => by
      rw [Number.positive?_eq_some_iff.mpr hf] at hvalue
      cases hvalue
    simp only [Option.isNone_none, Bool.true_or, if_true, reduceCtorEq, false_iff]
    rintro ⟨f, hf, hpos, -⟩
    exact hnone f ⟨hf, hpos⟩
  | some f =>
    obtain ⟨rfl, hpos⟩ := Number.positive?_eq_some_iff.mp hvalue
    have hbelow : (Number.finite (1000 / f / 2)).below (.finite clock) = true ↔
        ¬ (2 * clock : Rat) ≤ 1000 / f := by
      simp only [Number.below, Number.value?_finite, Option.getD_some, decide_eq_true_eq, not_le,
        div_lt_iff₀ (two_pos : (0 : Rat) < 2), mul_comm]
    simp only [Arithmetic.exact_div hpos.ne', Arithmetic.exact_div (two_ne_zero' Rat),
      Arithmetic.ofNat_exact, Option.isNone_some, Bool.false_or, hbelow, Number.finite.injEq,
      exists_eq_left', hpos, true_and]
    by_cases hfits : (2 * clock : Rat) ≤ 1000 / f
    · simp [hfits, eq_comm]
    · simp [hfits]

/-! ## The pulses of a sync clock -/

/-- The pulses of `count` periods, each on the clock: half of the period, from its start on. -/
def syncPulses (count : Nat) (period : Rat) (clock : Nat) : List Pulse :=
  (List.range count).map fun k : Nat =>
    ⟨nearestTick (k * period) clock, nearestTick (period / 2) clock⟩

section

variable (hclock : 0 < clock) (hperiod : 2 * clock ≤ period)

include hclock hperiod

/-- A pulse is over when the next period starts. -/
theorem stop_syncPulse_le {k n : Nat} (h : k < n) :
    nearestTick (k * period) clock + nearestTick (period / 2) clock ≤
      nearestTick (n * period) clock := by
  have hpos : 0 ≤ period := le_trans (by positivity) hperiod
  refine nearestTick_add_half_le hclock (by positivity) hperiod ?_
  have hnext : (k + 1 : Rat) ≤ n := by exact_mod_cast h
  linarith [mul_le_mul_of_nonneg_right hnext hpos]

theorem length_pos_of_mem_syncPulses {count : Nat} :
    ∀ p ∈ syncPulses count period clock, 0 < p.length := by
  unfold syncPulses
  rw [List.forall_mem_map]
  intro k _
  exact nearestTick_pos hclock (by linarith)

/-- The pulses end with the last period. -/
theorem stop_le_of_mem_syncPulses {count : Nat} :
    ∀ p ∈ syncPulses count period clock, p.stop ≤ nearestTick (count * period) clock := by
  unfold syncPulses
  rw [List.forall_mem_map]
  intro k hk
  exact stop_syncPulse_le hclock hperiod (List.mem_range.mp hk)

/-- **No pulse runs into the next one.** -/
theorem pairwise_syncPulses (count : Nat) :
    (syncPulses count period clock).Pairwise fun p q => p.stop ≤ q.start := by
  unfold syncPulses
  rw [List.pairwise_map]
  exact List.pairwise_lt_range.imp fun hlt => stop_syncPulse_le hclock hperiod hlt

/-- **The pulses make a valid channel**, if the last period ends in time. -/
theorem clockOut_exact {number count : Nat} (hnumber : number < Flags.maxOutputs)
    (hend : nearestTick (count * period) clock ≤ maxWord) :
    Channel.clockOut .exact number count (.finite period) clock =
      .ok ⟨Flags.output number, syncPulses count period clock⟩ := by
  have hpos : 0 ≤ period := le_trans (by positivity) hperiod
  have hword : ∀ k ∈ List.range count,
      nearestTick (k * period) clock + nearestTick (period / 2) clock ≤ maxWord := fun k hk =>
    (stop_syncPulse_le hclock hperiod (List.mem_range.mp hk)).trans hend
  refine ofTimes_eq_ok.mpr ⟨by simp, hnumber, hclock,
    (List.range count).map fun k : Nat => nearestTick (k * period) clock,
    (List.range count).map fun _ => nearestTick (period / 2) clock, ?_, ?_, ?_,
    Channel.clash?_eq_none_of_ordered (pairwise_syncPulses hclock hperiod count)⟩
  · rw [List.forall₂_map_left_iff, List.forall₂_map_right_iff, List.forall₂_same]
    intro k hk
    have := hword k hk
    rw [Arithmetic.ofNat_exact, Arithmetic.mul_finite, Arithmetic.round_exact]
    exact (roundToClock_exact (by positivity) hclock).mpr ⟨rfl, by omega⟩
  · have hsame : List.replicate count
        (Arithmetic.exact.mul (.finite (1 / 2)) (.finite period)) =
        (List.range count).map fun _ => Number.finite (period / 2) := by
      rw [List.map_const', List.length_range, Arithmetic.mul_finite, Arithmetic.round_exact,
        one_div_mul_eq_div]
    rw [hsame, List.forall₂_map_left_iff, List.forall₂_map_right_iff, List.forall₂_same]
    intro k hk
    have := hword k hk
    exact (roundToClock_exact (by positivity) hclock).mpr ⟨rfl, by omega⟩
  · rw [List.zipWith_map, List.zipWith_self]
    rfl

end

/-! ## How many periods there are -/

/-- The count of a number that is not too large is its ceiling. -/
theorem Number.ceilWord_eq {r : Rat} (h : r ≤ maxWord) : (finite r).ceilWord = ⌈r⌉₊ :=
  le_antisymm (ceilWord_le (Nat.le_ceil r)) (Nat.ceil_le.mpr (le_ceilWord h))

/-- The periods that a time needs. -/
theorem ceilWord_exact_div {time : Nat} (hperiod : 1 ≤ period) (htime : time ≤ maxWord) :
    (Arithmetic.exact.div (Arithmetic.exact.ofNat time) (.finite period)).ceilWord =
      ⌈time / period⌉₊ := by
  have hfewer : (time / period : Rat) ≤ time := div_le_self time.cast_nonneg hperiod
  rw [Arithmetic.ofNat_exact, Arithmetic.exact_div (by linarith), Number.ceilWord_eq]
  exact hfewer.trans (by exact_mod_cast htime)

/-- The last period that a time needs does not end behind time zero unless the time does. -/
theorem pos_of_periods {time : Nat}
    (h : 0 < max (nearestTick (⌈time / period⌉₊ * period) clock) time) : 0 < time := by
  refine Nat.pos_of_ne_zero fun hzero => ?_
  rw [hzero, Nat.cast_zero, zero_div, Nat.ceil_zero, Nat.cast_zero, zero_mul, nearestTick_zero] at h
  exact absurd h (lt_irrefl 0)

/-- **A sync clock fits.** In exact arithmetic, for every frequency that is accepted and all channels
whose times fit into a word, it is put out: as many pulses as there are periods begun before the
last edge, each of which lasts and is over before the next one starts, and before the program ends.
The program ends with the last period, rounded to the clock, or at the last edge as before. -/
theorem withSyncOut_fits {channels : List Channel} {number : Nat} {frequency : Number}
    (hclock : 0 < clock) (hnumber : number < Flags.maxOutputs)
    (hperiod : syncPeriod .exact frequency clock = .ok (.finite period))
    (hlast : lastEdge channels ≤ maxWord)
    (hend : nearestTick (⌈lastEdge channels / period⌉₊ * period) clock ≤ maxWord) :
    ∃ pulses stop channels',
      (withSyncOut .exact channels number frequency clock).result = .ok channels' ∧
      pulses = syncPulses ⌈lastEdge channels / period⌉₊ period clock ∧
      stop = max (nearestTick (⌈lastEdge channels / period⌉₊ * period) clock)
        (lastEdge channels) ∧
      channels' = channels.map (Channel.drawOut (lastEdge channels) stop) ++
        [⟨Flags.output number, pulses⟩] ∧
      pulses.length = ⌈lastEdge channels / period⌉₊ ∧ (∀ p ∈ pulses, 0 < p.length) ∧
      (pulses.Pairwise fun p q => p.stop ≤ q.start) ∧ (∀ p ∈ pulses, p.stop ≤ stop) ∧
      lastEdge channels' = stop := by
  obtain ⟨f, -, -, htwo, hp⟩ := syncPeriod_exact_eq_ok.mp hperiod
  obtain rfl := Number.finite.inj hp
  generalize 1000 / f = period at *
  have hone : 1 ≤ period := by
    have : (1 : Rat) ≤ clock := by exact_mod_cast hclock
    linarith
  have hceil := ceilWord_exact_div hone hlast
  -- without an edge there is no period either, and the program stays empty
  have hbusy : 0 < max (nearestTick (⌈lastEdge channels / period⌉₊ * period) clock)
      (lastEdge channels) → 0 < lastEdge channels := pos_of_periods
  generalize ⌈lastEdge channels / period⌉₊ = count at *
  have hrounded : roundToClock .exact
      (Arithmetic.exact.mul (Arithmetic.exact.ofNat count) (.finite period)) clock =
        .ok (nearestTick (count * period) clock) := by
    rw [Arithmetic.ofNat_exact, Arithmetic.mul_finite, Arithmetic.round_exact]
    exact (roundToClock_exact (by positivity) hclock).mpr ⟨rfl, hend⟩
  have hsync := clockOut_exact hclock htwo hnumber hend
  have hstop : ∀ p ∈ syncPulses count period clock,
      p.stop ≤ max (nearestTick (count * period) clock) (lastEdge channels) := fun p hp =>
    (stop_le_of_mem_syncPulses hclock htwo p hp).trans (le_max_left _ _)
  have hresult := withSyncOut_eq_ok.mpr ⟨.finite period, _, _, hperiod,
    by rw [hceil]; exact hrounded, by rw [hceil]; exact hsync, rfl⟩
  refine ⟨_, _, _, hresult, rfl, rfl, rfl, ?_, length_pos_of_mem_syncPulses hclock htwo,
    pairwise_syncPulses hclock htwo count, hstop, ?_⟩
  · unfold syncPulses
    rw [List.length_map, List.length_range]
  · have hlastSync : lastEdge [⟨Flags.output number, syncPulses count period clock⟩] ≤
        max (nearestTick (count * period) clock) (lastEdge channels) := by
      refine lastEdge_le_iff.mpr fun c hc => ?_
      rw [List.mem_singleton.mp hc]
      exact hstop
    rw [lastEdge_append, lastEdge_drawOut (le_max_right _ _) hbusy, max_eq_left hlastSync]

/-- A sync clock of 200 MHz on a clock of 2 ns: every other period starts halfway between two ticks.
The pulses of four periods fit, and the program ends with the last one. -/
theorem sync_clock_between_ticks_fits :
    ∃ channels', (withSyncOut .exact [⟨Flags.output 0, [⟨0, 18⟩]⟩] 3 (.finite 200) 2).result =
        .ok channels' ∧ channels' = [⟨Flags.output 0, [⟨0, 20⟩]⟩,
          ⟨Flags.output 3, [⟨0, 2⟩, ⟨4, 2⟩, ⟨10, 2⟩, ⟨16, 2⟩]⟩] ∧ lastEdge channels' = 20 := by
  have hperiod : syncPeriod .exact (.finite 200) 2 = .ok (.finite 5) := by decide +kernel
  have hcount : ⌈(lastEdge [⟨Flags.output 0, [⟨0, 18⟩]⟩] / 5 : Rat)⌉₊ = 4 := by
    rw [show lastEdge [⟨Flags.output 0, [⟨0, 18⟩]⟩] = 18 from rfl, Nat.ceil_eq_iff (by decide)]
    norm_num
  have hend : nearestTick ((4 : Nat) * 5) 2 = 20 := by decide +kernel
  have hpulses : syncPulses 4 5 2 = [⟨0, 2⟩, ⟨4, 2⟩, ⟨10, 2⟩, ⟨16, 2⟩] := by decide +kernel
  have hnumber : 3 < Flags.maxOutputs := by decide
  have hword : lastEdge [⟨Flags.output 0, [⟨0, 18⟩]⟩] ≤ maxWord := by decide
  obtain ⟨pulses, stop, channels', hresult, rfl, rfl, hchannels, -, -, -, -, hlast⟩ :=
    withSyncOut_fits (by decide) hnumber hperiod hword (by rw [hcount, hend]; decide)
  rw [hcount, hend] at hchannels hlast
  rw [hpulses] at hchannels
  exact ⟨channels', hresult, hchannels, hlast⟩

end PulseSequencer
