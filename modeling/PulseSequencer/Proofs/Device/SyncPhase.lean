import PulseSequencer.Proofs.Arithmetic
import PulseSequencer.Proofs.Device.Channels

/-!
# The sync clock across the loop

The channels of a device with a sync clock end with one of its periods: the pulses that end last are
drawn out to the end of the period that they end in. The padding comes behind that end and is left
as it is. So a looped program keeps the sync clock in phase when its padding takes whole periods,
and not otherwise, whatever else is edited.

* `lastEdge_drawOut`: where channels end that are drawn out.
* `stop_le_of_clockOut`: the sync clock ends with its last period.

Results:
* **`lastEdge_withSyncOut`**: channels with a sync clock end with the first period that they fit
  into.
* **`compile_in_phase_iff`**: a device with a sync clock compiles to whole periods exactly if its
  padding takes whole periods.
* **`strobe_out_of_phase`**: a device whose padding does not.
-/

namespace PulseSequencer

open ShortPulse

variable {A : Arithmetic}

/-! ## The end of channels with a sync clock -/

theorem stop_drawOut_le {p : Pulse} {stop newStop : Nat} (hp : p.stop ≤ stop)
    (hle : stop ≤ newStop) : (p.drawOut stop newStop).stop ≤ newStop := by
  have hstart := p.start_le_stop
  unfold Pulse.drawOut
  split
  · exact (Nat.add_sub_cancel' (hstart.trans (hp.trans hle))).le
  · exact hp.trans hle

theorem stop_drawOut_eq {p : Pulse} {stop newStop : Nat} (hp : p.stop = stop)
    (hle : stop ≤ newStop) : (p.drawOut stop newStop).stop = newStop := by
  have hstart := p.start_le_stop
  unfold Pulse.drawOut
  rw [if_pos hp]
  exact Nat.add_sub_cancel' (hstart.trans (hp.le.trans hle))

/-- The pulse that ends last is drawn out, and no other ends behind it. -/
theorem lastEdge_drawOut {channels : List Channel} {stop : Nat} (hle : lastEdge channels ≤ stop)
    (hpos : 0 < stop → 0 < lastEdge channels) :
    lastEdge (channels.map (Channel.drawOut (lastEdge channels) stop)) = stop := by
  refine Nat.le_antisymm (lastEdge_le_iff.mpr fun c hc p hp => ?_) ?_
  · obtain ⟨c₁, hc₁, rfl⟩ := List.mem_map.mp hc
    obtain ⟨q, hq, rfl⟩ := List.mem_map.mp hp
    exact stop_drawOut_le (stop_le_lastEdge hc₁ hq) hle
  · rcases Nat.eq_zero_or_pos stop with rfl | hstop
    · exact Nat.zero_le _
    · obtain ⟨c, hc, p, hp, hlast⟩ := exists_stop_eq_lastEdge (hpos hstop)
      have hdrawn : p.drawOut (lastEdge channels) stop ∈
          (c.drawOut (lastEdge channels) stop).pulses := List.mem_map_of_mem hp
      calc stop = (p.drawOut (lastEdge channels) stop).stop := (stop_drawOut_eq hlast hle).symm
        _ ≤ _ := stop_le_lastEdge (List.mem_map_of_mem hc) hdrawn

section

variable (hA : A.Faithful) {period clock : Nat} (hpos : 0 < period) (hclock : 0 < clock)
  (hdvd : clock ∣ period) (hsmall : period < 2 ^ 53)

include hA hpos hclock hdvd hsmall

/-- A number of periods is on the clock as it is. -/
theorem roundToClock_periods {k : Nat} (hk : k * period < 2 ^ 53) :
    roundToClock A (A.mul (A.ofNat k) (.finite period)) clock = .ok (k * period) := by
  have hk' : k < 2 ^ 53 := Nat.lt_of_le_of_lt (Nat.le_mul_of_pos_right k hpos) hk
  rw [hA.mul_ofNat hk' hk]
  exact hA.roundToClock_natCast hk hclock (Nat.lt_of_le_of_lt (Nat.le_of_dvd hpos hdvd) hsmall)
    (Nat.dvd_mul_left_of_dvd hdvd k)

/-- Half a period, on the clock, is no more than a period. -/
theorem roundToClock_half_le {t : Nat}
    (h : roundToClock A (A.mul (.finite (1 / 2)) (.finite period)) clock = .ok t) :
    t ≤ period := by
  have hperiod : (0 : Rat) < period := by exact_mod_cast hpos
  have hsmall' : (period : Rat) < 2 ^ 53 := by exact_mod_cast hsmall
  obtain ⟨half, hhalf, hplace⟩ := hA.between (1 / 2 * period) (by positivity) (by linarith)
  have hle : half ≤ period := (hplace period).1 (by linarith)
  have hnonneg : 0 ≤ half := by exact_mod_cast (hplace 0).2 (by positivity)
  obtain ⟨t', ht', hnear⟩ := hA.roundToClock_between hnonneg (lt_of_le_of_lt hle hsmall') hclock
    (Nat.lt_of_le_of_lt (Nat.le_of_dvd hpos hdvd) hsmall)
  rw [Arithmetic.mul_finite, hhalf, ht'] at h
  obtain rfl := Except.ok.inj h
  exact (hnear period hdvd).1 hle

/-- The sync clock ends with its last period: each pulse starts with a period and takes no more
than one. -/
theorem stop_le_of_clockOut {number count : Nat} {sync : Channel} (hend : count * period < 2 ^ 53)
    (h : Channel.clockOut A number count (.finite period) clock = .ok sync) :
    ∀ p ∈ sync.pulses, p.stop ≤ count * period := by
  obtain ⟨-, -, -, ss, ls, hss, hls, rfl, -⟩ := ofTimes_eq_ok.mp h
  intro p hp
  rw [← List.map_uncurry_zip_eq_zipWith] at hp
  obtain ⟨⟨s, l⟩, hsl, rfl⟩ := List.mem_map.mp hp
  obtain ⟨time, htime, hs⟩ := exists_of_mem_forall₂ hss (List.of_mem_zip hsl).1
  obtain ⟨half, hhalf, hl⟩ := exists_of_mem_forall₂ hls (List.of_mem_zip hsl).2
  obtain ⟨k, hk, rfl⟩ := List.mem_map.mp htime
  obtain rfl := List.eq_of_mem_replicate hhalf
  have hfits : k * period + period ≤ count * period := by
    rw [← Nat.succ_mul]
    exact Nat.mul_le_mul_right period (List.mem_range.mp hk)
  have hstart : s = k * period :=
    Except.ok.inj (hs.symm.trans
      (roundToClock_periods hA hpos hclock hdvd hsmall (by omega)))
  have hlength := roundToClock_half_le hA hpos hclock hdvd hsmall hl
  show s + l ≤ count * period
  omega

end

/-- **Channels with a sync clock end with the first period that they fit into.** -/
theorem lastEdge_withSyncOut (hA : A.Faithful) {channels channels' : List Channel}
    {number period clock : Nat} {frequency : Number}
    (hperiod : syncPeriod A frequency clock = .ok (.finite period)) (hpos : 0 < period)
    (hclock : 0 < clock) (hdvd : clock ∣ period) (hsmall : lastEdge channels + period < 2 ^ 53)
    (h : (withSyncOut A channels number frequency clock).result = .ok channels') :
    period ∣ lastEdge channels' ∧ lastEdge channels ≤ lastEdge channels' ∧
      lastEdge channels' < lastEdge channels + period := by
  obtain ⟨_, rounded, sync, hperiod', hrounded, hsync, rfl⟩ := withSyncOut_eq_ok.mp h
  obtain rfl := Except.ok.inj (hperiod.symm.trans hperiod')
  have hend : lastEdge channels < 2 ^ 53 := by omega
  obtain ⟨hfits, hfirst⟩ := hA.ceilWord_div hend (by omega) hpos
  generalize (A.div (A.ofNat (lastEdge channels)) (.finite period)).ceilWord = count at *
  have hstop := roundToClock_periods hA hpos hclock hdvd (by omega) (k := count) (by omega)
  obtain rfl := Except.ok.inj (hrounded.symm.trans hstop)
  have hbusy : 0 < count * period → 0 < lastEdge channels := by
    intro hcount
    refine Nat.pos_of_ne_zero fun hnone => ?_
    have hone : 1 ≤ count := Nat.pos_of_mul_pos_right hcount
    have := Nat.le_mul_of_pos_left period hone
    omega
  have hlast : lastEdge (channels.map (Channel.drawOut (lastEdge channels)
      (max (count * period) (lastEdge channels))) ++ [sync]) = count * period := by
    have hsyncStop : lastEdge [sync] ≤ count * period := by
      refine lastEdge_le_iff.mpr fun c hc => ?_
      rw [List.mem_singleton.mp hc]
      exact stop_le_of_clockOut hA hpos hclock hdvd (by omega) (by omega) hsync
    rw [Nat.max_eq_left hfits, lastEdge_append, lastEdge_drawOut hfits hbusy,
      Nat.max_eq_left hsyncStop]
  rw [hlast]
  exact ⟨Nat.dvd_mul_left period count, hfits, hfirst⟩

namespace Device

variable {d d' : Device}

/-! ## The loop -/

/-- **A device keeps its sync clock in phase exactly if its padding takes whole periods.** For every
sync clock whose period takes whole clock periods, when nothing in the program is short: the
channels end with the first sync period that the bookings fit into, and the program lasts for the
padding more. So it takes whole sync periods, and the sync clock keeps its frequency over the loop,
if the padding does, and otherwise not. -/
theorem compile_in_phase_iff (hA : A.Faithful) {sync : SyncOut} {period : Nat}
    (hsync : d.syncOut = some sync)
    (hperiod : syncPeriod A sync.frequency d.board.clock = .ok (.finite period))
    (hpos : 0 < period) (hdvd : d.board.clock ∣ period)
    (hsmall : lastEdge d.bookedChannels + period < 2 ^ 53) {loop : Option Nat}
    (hlong : ∀ channels p, (d.pulseChannels A).result = .ok channels →
      (d.config loop).layOut channels = .ok p → ∀ i ∈ p, minLength d.board.clock < i.length)
    {t : Nat} (hrun : (Device.compile A loop).Runs d t d') :
    ∃ channels, (d.pulseChannels A).result = .ok channels ∧
      period ∣ lastEdge channels ∧ lastEdge d.bookedChannels ≤ lastEdge channels ∧
      lastEdge channels < lastEdge d.bookedChannels + period ∧
      t = lastEdge channels + d.padding ∧ (period ∣ t ↔ period ∣ d.padding) := by
  obtain ⟨p, hp, rfl, -⟩ := runs_compile.mp hrun
  obtain ⟨channels, laidOut, hchannels, hlaid, rfl⟩ := assemble_eq_ok.mp hp
  have hnone : hasShort d.board.clock laidOut = false :=
    hasShort_eq_false.mpr (hlong channels laidOut hchannels hlaid)
  rw [if_neg (Bool.eq_false_iff.mp hnone)]
  obtain ⟨padding, hpadding, hduration⟩ := duration_layOut hlaid
  obtain rfl := Except.ok.inj hpadding
  refine ⟨channels, hchannels, ?_⟩
  rcases pulseChannels_eq_ok.mp hchannels with ⟨hnosync, -⟩ | ⟨sync', s, hsync', -, hwith⟩
  · rw [hsync] at hnosync
    exact absurd hnosync (Option.some_ne_none sync)
  · obtain rfl := Option.some.inj (hsync.symm.trans hsync')
    obtain ⟨hwhole, hfits, hfirst⟩ :=
      lastEdge_withSyncOut hA hperiod hpos d.board.clock_pos hdvd hsmall hwith
    rw [hduration]
    exact ⟨hwhole, hfits, hfirst, rfl, Nat.dvd_add_right hwhole⟩

theorem syncPeriod_strobe : syncPeriod .binary64 (.finite 10) 5 = .ok (.finite (100 : Nat)) := by
  decide +kernel

/-- `strobe` with a padding of two sync periods takes three of them. -/
theorem padded_strobe_in_phase :
    ∃ t d', (Device.compile .binary64 (some 0)).Runs { strobe with padding := 200 } t d' ∧
      100 ∣ t ∧ t = 300 := by
  have hchannels : (pulseChannels .binary64 { strobe with padding := 200 }).result =
      .ok strobeChannels := pulseChannels_strobe
  have hlaid : (config { strobe with padding := 200 } (some 0)).layOut strobeChannels =
      .ok [.proceed 0x21 50, .proceed 0x1 50, ⟨0, .branch, 0, 200⟩] := by cbv
  have hrun : (Device.compile .binary64 (some 0)).Runs { strobe with padding := 200 } 300 _ :=
    runs_compile.mpr ⟨_, assemble_eq_ok.mpr ⟨_, _, hchannels, hlaid, rfl⟩, by decide, rfl⟩
  obtain ⟨_, -, -, -, -, -, hphase⟩ := compile_in_phase_iff Arithmetic.faithful_binary64 rfl
    syncPeriod_strobe (by decide) (by decide) (by decide) (fun channels p hc hp => by
      obtain rfl := Except.ok.inj (hchannels.symm.trans hc)
      obtain rfl := Except.ok.inj (hlaid.symm.trans hp)
      decide) hrun
  exact ⟨300, _, hrun, hphase.mpr (by decide), rfl⟩

/-- **A sync clock out of phase.** The padding of `strobe` takes 40 ns and its sync period 100: with
no short instruction, and a period of whole clock periods, it compiles to 140 ns. -/
theorem strobe_out_of_phase :
    Reachable .binary64 strobe ∧ strobe.syncOut = some ⟨"clk", .finite 10⟩ ∧
      syncPeriod .binary64 (.finite 10) strobe.board.clock = .ok (.finite (100 : Nat)) ∧
      100 = 20 * strobe.board.clock ∧
      (∃ channels p, (strobe.pulseChannels .binary64).result = .ok channels ∧
        (strobe.config (some 0)).layOut channels = .ok p ∧
        ∀ i ∈ p, minLength strobe.board.clock < i.length) ∧
      ∃ t d', (Device.compile .binary64 (some 0)).Runs strobe t d' ∧ ¬ 100 ∣ t := by
  have hlaid : (strobe.config (some 0)).layOut strobeChannels =
      .ok [.proceed 0x21 50, .proceed 0x1 50, ⟨0, .branch, 0, 40⟩] := by cbv
  have hrun : (Device.compile .binary64 (some 0)).Runs strobe 140 _ :=
    runs_compile.mpr ⟨_, assemble_eq_ok.mpr ⟨_, _, pulseChannels_strobe, hlaid, rfl⟩,
      by decide, rfl⟩
  exact ⟨reachable_strobe, rfl, syncPeriod_strobe, rfl,
    ⟨_, _, pulseChannels_strobe, hlaid, by decide⟩, 140, _, hrun, by decide⟩

end Device

end PulseSequencer
