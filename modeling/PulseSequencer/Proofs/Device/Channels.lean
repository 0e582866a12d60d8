import PulseSequencer.Proofs.Device.Invariant
import PulseSequencer.Proofs.OnClock

/-!
# The channels that a device compiles

A valid device hands the compiler channels with different outputs, on the clock. Its own channels
are so by the invariant. The sync channel stands on the output of a channel that is left out, and
what is drawn out for it ends at a time on the clock.

* `ofTimes_eq_ok`, `withSyncOut_eq_ok`, `result_pulseChannels`: what the channels are.
* `assemble_eq_ok`: the program of a device, before and with short pulses.
* `Valid.separate`, `Valid.onClock`: different outputs, and times on the clock.
-/

namespace PulseSequencer

variable {A : Arithmetic}

/-! ## Channels from times -/

theorem ofTimes_eq_ok {number clock : Nat} {starts lengths : List Number} {c : Channel} :
    Channel.ofTimes A number starts lengths clock = .ok c ↔
      starts.length = lengths.length ∧ number < Flags.maxOutputs ∧ 0 < clock ∧
        ∃ ss ls, List.Forall₂ (fun time t => roundToClock A time clock = .ok t) starts ss ∧
          List.Forall₂ (fun time t => roundToClock A time clock = .ok t) lengths ls ∧
          c = ⟨Flags.output number, List.zipWith Pulse.mk ss ls⟩ ∧ c.clash? = none := by
  unfold Channel.ofTimes
  simp only [bind_eq_ok, ensure_eq_ok, mapM_eq_ok, Channel.checkOverlaps_eq_ok]
  constructor
  · rintro ⟨_, hsame, _, hnumber, _, hclock, ss, hss, ls, hls, _, hclash, h⟩
    obtain rfl := Except.ok.inj h
    exact ⟨hsame, hnumber, hclock, ss, ls, hss, hls, rfl, hclash⟩
  · rintro ⟨hsame, hnumber, hclock, ss, ls, hss, hls, rfl, hclash⟩
    exact ⟨(), hsame, (), hnumber, (), hclock, ss, hss, ls, hls, (), hclash, rfl⟩

theorem onClock_ofTimes {number clock : Nat} {starts lengths : List Number} {c : Channel}
    (h : Channel.ofTimes A number starts lengths clock = .ok c) :
    ∀ p ∈ c.pulses, clock ∣ p.start ∧ clock ∣ p.length := by
  obtain ⟨-, -, -, ss, ls, hss, hls, rfl, -⟩ := ofTimes_eq_ok.mp h
  intro p hp
  rw [← List.map_uncurry_zip_eq_zipWith] at hp
  obtain ⟨⟨s, l⟩, hsl, rfl⟩ := List.mem_map.mp hp
  obtain ⟨time, -, hs⟩ := exists_of_mem_forall₂ hss (List.of_mem_zip hsl).1
  obtain ⟨duration, -, hl⟩ := exists_of_mem_forall₂ hls (List.of_mem_zip hsl).2
  exact ⟨dvd_roundToClock A hs, dvd_roundToClock A hl⟩

/-! ## Pulses drawn out -/

/-- Pulses on the clock that are drawn out to a time on the clock stay on it. -/
theorem OnClock.drawOut {clock stop newStop : Nat} {channels : List Channel}
    (h : OnClock clock channels) (hstop : clock ∣ newStop) :
    OnClock clock (channels.map (Channel.drawOut stop newStop)) := by
  intro c hc p hp
  obtain ⟨c₁, hc₁, rfl⟩ := List.mem_map.mp hc
  obtain ⟨q, hq, rfl⟩ := List.mem_map.mp hp
  obtain ⟨hstart, hlength⟩ := h c₁ hc₁ q hq
  unfold Pulse.drawOut
  split
  · exact ⟨hstart, Nat.dvd_sub hstop hstart⟩
  · exact ⟨hstart, hlength⟩

theorem withSyncOut_eq_ok {channels channels' : List Channel} {number clock : Nat}
    {frequency : Number} :
    (withSyncOut A channels number frequency clock).result = .ok channels' ↔
      ∃ period rounded sync, syncPeriod A frequency clock = .ok period ∧
        roundToClock A (A.mul (A.ofNat (A.div (A.ofNat (lastEdge channels)) period).ceilWord)
          period) clock = .ok rounded ∧
        Channel.clockOut A number (A.div (A.ofNat (lastEdge channels)) period).ceilWord period
          clock = .ok sync ∧
        channels' = channels.map (Channel.drawOut (lastEdge channels)
          (max rounded (lastEdge channels))) ++ [sync] := by
  unfold withSyncOut
  simp only [Logged.result_bind, Logged.result_lift, Logged.result_note, bind_eq_ok, ok_bind,
    Logged.result_pure]
  constructor
  · rintro ⟨period, hperiod, rounded, hrounded, sync, hsync, h⟩
    exact ⟨period, rounded, sync, hperiod, hrounded, hsync, (Except.ok.inj h).symm⟩
  · rintro ⟨period, rounded, sync, hperiod, hrounded, hsync, rfl⟩
    exact ⟨period, hperiod, rounded, hrounded, sync, hsync, rfl⟩

/-! ## Different outputs -/

/-- Channels of one output each are separate when their numbers differ. -/
theorem Separate.of_numbers {channels : List Channel}
    (h : ∀ c ∈ channels, ∃ n, n < wordBits ∧ c.flags = Flags.output n)
    (hnumbers : (channels.map Channel.number).Nodup) : Separate channels := by
  refine ⟨h, List.Nodup.of_map Flags.lowest ?_⟩
  rw [List.map_map]
  exact hnumbers

namespace Device

variable {d : Device} {channels : List Channel}

/-- Of the channel of the sync clock the output is asked for, and its bookings for a notice only. -/
theorem result_pulseChannels (A : Arithmetic) (d : Device) :
    (d.pulseChannels A).result =
      match d.syncOut with
      | some sync => d.channel sync.channel >>= fun s =>
          (withSyncOut A d.bookedChannels s.number sync.frequency d.board.clock).result
      | none => .ok d.bookedChannels := by
  unfold pulseChannels
  cases d.syncOut with
  | none => rfl
  | some sync =>
    simp only [Logged.result_bind, Logged.result_lift]
    refine congrArg (d.channel sync.channel >>= ·) (funext fun s => ?_)
    split
    · rw [Logged.result_bind, Logged.result_note, ok_bind]
    · rfl

theorem pulseChannels_eq_ok :
    (d.pulseChannels A).result = .ok channels ↔
      (d.syncOut = none ∧ channels = d.bookedChannels) ∨
        ∃ sync s, d.syncOut = some sync ∧ d.channel sync.channel = .ok s ∧
          (withSyncOut A d.bookedChannels s.number sync.frequency d.board.clock).result =
            .ok channels := by
  rw [result_pulseChannels]
  cases d.syncOut with
  | none => simp [eq_comm]
  | some sync => simp [bind_eq_ok]

theorem board_config (d : Device) (loop : Option Nat) : (d.config loop).board = .ok d.board :=
  Config.board_eq_ok.mpr ⟨rfl, rfl⟩

theorem result_assemble (d : Device) (loop : Option Nat) :
    (d.assemble A loop).result = (d.pulseChannels A).result >>= fun channels =>
      (PulseSequencer.compile channels (d.config loop)).result :=
  Logged.result_bind _ _

theorem assemble_eq_ok {loop : Option Nat} {p : Program} :
    (d.assemble A loop).result = .ok p ↔
      ∃ channels laidOut, (d.pulseChannels A).result = .ok channels ∧
        (d.config loop).layOut channels = .ok laidOut ∧
        p = if ShortPulse.hasShort d.board.clock laidOut then laidOut.encodeShort d.board
          else laidOut := by
  rw [result_assemble, bind_eq_ok]
  have hmode : (d.config loop).mode = .encode := rfl
  simp only [compile_eq_ok, board_config, hmode, and_true, Except.ok.injEq]
  constructor
  · rintro ⟨channels, hchannels, _, laidOut, rfl, hlaid, rfl⟩
    exact ⟨channels, laidOut, hchannels, hlaid, rfl⟩
  · rintro ⟨channels, laidOut, hchannels, hlaid, rfl⟩
    exact ⟨channels, hchannels, d.board, laidOut, rfl, hlaid, rfl⟩

theorem mem_bookedChannels {c : Channel} (h : c ∈ d.bookedChannels) :
    ∃ e ∈ d.channels, d.syncOut.map SyncOut.channel ≠ some e.1 ∧ c = e.2.toChannel := by
  obtain ⟨e, he, rfl⟩ := List.mem_map.mp h
  obtain ⟨he, hname⟩ := List.mem_filter.mp he
  exact ⟨e, he, of_decide_eq_true hname, rfl⟩

theorem Valid.number_lt_bit (hd : d.Valid A) {e : String × Schedule} (he : e ∈ d.channels) :
    e.2.number < d.board.bit :=
  Nat.lt_of_lt_of_le (hd.number_lt e he) (Nat.min_le_left _ _)

theorem Valid.number_lt_maxOutputs (hd : d.Valid A) {e : String × Schedule}
    (he : e ∈ d.channels) : e.2.number < Flags.maxOutputs :=
  Nat.lt_of_lt_of_le (hd.number_lt e he) (Nat.min_le_right _ _)

/-- The outputs of a device fit into the flags word. -/
theorem Valid.number_lt_wordBits (hd : d.Valid A) {e : String × Schedule} (he : e ∈ d.channels) :
    e.2.number < wordBits :=
  Nat.lt_of_lt_of_le (hd.number_lt_maxOutputs he) (by decide)

theorem Valid.number_toChannel (hd : d.Valid A) {e : String × Schedule} (he : e ∈ d.channels) :
    e.2.toChannel.number = e.2.number := Flags.lowest_output (hd.number_lt_wordBits he)

theorem Valid.one_output_booked (hd : d.Valid A) :
    ∀ c ∈ d.bookedChannels, ∃ n, n < wordBits ∧ c.flags = Flags.output n := by
  intro c hc
  obtain ⟨e, he, -, rfl⟩ := mem_bookedChannels hc
  exact ⟨e.2.number, hd.number_lt_wordBits he, rfl⟩

theorem Valid.nodup_numbers_booked (hd : d.Valid A) :
    (d.bookedChannels.map Channel.number).Nodup := by
  have hnumbers : d.bookedChannels.map Channel.number =
      (d.channels.filter fun e => d.syncOut.map SyncOut.channel ≠ some e.1).map
        fun e => e.2.number := by
    unfold bookedChannels
    rw [List.map_map]
    exact List.map_congr_left fun e he => hd.number_toChannel (List.mem_filter.mp he).1
  rw [hnumbers]
  exact hd.numbers_nodup.sublist (List.filter_sublist.map _)

theorem Valid.onClock_booked (hd : d.Valid A) : OnClock d.board.clock d.bookedChannels := by
  intro c hc p hp
  obtain ⟨e, he, -, rfl⟩ := mem_bookedChannels hc
  obtain ⟨b, hb, rfl⟩ := List.mem_map.mp hp
  exact (hd.schedules e he).on_clock b hb

/-- The output of the sync clock belongs to no other channel. -/
theorem Valid.number_ne_sync (hd : d.Valid A) {sync : SyncOut} {s : Schedule}
    (hsync : d.syncOut = some sync) (hs : d.channel sync.channel = .ok s) :
    ∀ n ∈ d.bookedChannels.map Channel.number, n ≠ s.number := by
  intro n hn hsame
  obtain ⟨c, hc, rfl⟩ := List.mem_map.mp hn
  obtain ⟨e, he, hname, rfl⟩ := mem_bookedChannels hc
  rw [hd.number_toChannel he] at hsame
  have hmem := Table.mem_of_get? (channel_eq_ok.mp hs)
  have heq : e = (sync.channel, s) := List.inj_on_of_nodup_map hd.numbers_nodup he hmem hsame
  rw [hsync, heq] at hname
  exact hname rfl

/-- **The channels that a valid device compiles have different outputs.** -/
theorem Valid.separate (hd : d.Valid A) (h : (d.pulseChannels A).result = .ok channels) :
    Separate channels := by
  rcases pulseChannels_eq_ok.mp h with ⟨-, rfl⟩ | ⟨sync, s, hsync, hs, h⟩
  · exact Separate.of_numbers hd.one_output_booked hd.nodup_numbers_booked
  · obtain ⟨period, rounded, clock, -, -, hclock, rfl⟩ := withSyncOut_eq_ok.mp h
    obtain ⟨-, -, -, ss, ls, -, -, rfl, -⟩ := ofTimes_eq_ok.mp hclock
    have hbits := hd.number_lt_wordBits (Table.mem_of_get? (channel_eq_ok.mp hs))
    refine Separate.of_numbers (fun c hc => ?_) ?_
    · rcases List.mem_append.mp hc with hc | hc
      · obtain ⟨c₁, hc₁, rfl⟩ := List.mem_map.mp hc
        exact hd.one_output_booked c₁ hc₁
      · rw [List.mem_singleton.mp hc]
        exact ⟨s.number, hbits, rfl⟩
    · rw [List.map_append, List.map_map]
      refine List.nodup_append.mpr ⟨hd.nodup_numbers_booked, List.nodup_singleton _, ?_⟩
      intro n hn m hm hnm
      rw [List.map_singleton, List.mem_singleton] at hm
      exact hd.number_ne_sync hsync hs n hn (hnm.trans (hm.trans (Flags.lowest_output hbits)))

/-- **The channels that a valid device compiles are on the clock.** -/
theorem Valid.onClock (hd : d.Valid A) (h : (d.pulseChannels A).result = .ok channels) :
    OnClock d.board.clock channels := by
  rcases pulseChannels_eq_ok.mp h with ⟨-, rfl⟩ | ⟨sync, s, -, -, h⟩
  · exact hd.onClock_booked
  · obtain ⟨period, rounded, clock, -, hrounded, hclock, rfl⟩ := withSyncOut_eq_ok.mp h
    have hstop : d.board.clock ∣ max rounded (lastEdge d.bookedChannels) :=
      dvd_max (dvd_roundToClock A hrounded) hd.onClock_booked.dvd_lastEdge
    intro c hc
    rcases List.mem_append.mp hc with hc | hc
    · exact hd.onClock_booked.drawOut hstop c hc
    · rw [List.mem_singleton.mp hc]
      exact onClock_ofTimes hclock

/-- The channels that `strobe` compiles: the pulse drawn out to the end of the one period that the
sync clock runs for, and the clock. -/
def strobeChannels : List Channel := [⟨Flags.output 0, [⟨0, 100⟩]⟩, ⟨Flags.output 5, [⟨0, 50⟩]⟩]

theorem pulseChannels_strobe : (strobe.pulseChannels .binary64).result = .ok strobeChannels := by
  have hperiod : syncPeriod .binary64 (.finite 10) 5 = .ok (.finite 100) := by decide +kernel
  have hcount : (Arithmetic.binary64.div (Arithmetic.binary64.ofNat 90) (.finite 100)).ceilWord =
      1 := by decide +kernel
  have hstop : roundToClock .binary64
      (Arithmetic.binary64.mul (Arithmetic.binary64.ofNat 1) (.finite 100)) 5 = .ok 100 := by
    decide +kernel
  have hclock : Channel.clockOut .binary64 5 1 (.finite 100) 5 =
      .ok ⟨Flags.output 5, [⟨0, 50⟩]⟩ := by
    refine ofTimes_eq_ok.mpr ⟨rfl, by decide, by decide, [0], [50], ?_, ?_, rfl, by cbv⟩
    · exact .cons (by decide +kernel) .nil
    · exact .cons (by decide +kernel) .nil
  exact pulseChannels_eq_ok.mpr (Or.inr ⟨⟨"clk", .finite 10⟩, _, rfl, rfl,
    withSyncOut_eq_ok.mpr ⟨.finite 100, 100, ⟨Flags.output 5, [⟨0, 50⟩]⟩, hperiod,
      hcount.symm ▸ hstop, hcount.symm ▸ hclock, rfl⟩⟩)

end Device

end PulseSequencer
