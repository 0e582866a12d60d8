import PulseSequencer.Proofs.Device.AllOrNothing
import PulseSequencer.Proofs.Device.Channels
import PulseSequencer.Proofs.Ticks

/-!
# Pulses that repeat at a frequency

A pulse takes a part of a period, and the padding what is left of it. The two are rounded to the
clock each on its own. Of a period on the clock they make the whole again, except when it takes an
odd number of ticks and the pulse ends halfway between two: then both are rounded to the even tick,
and the loop is a tick shorter or longer than what was asked for.

* `channel_of_bookOnEach`: what a booking on each of some channels adds to each of them.
* `lastEdge_of_bookOnEach`: where the channels end if nothing else is booked.
* `duration_of_bookOnEach`: how long the program takes then.
* `runs_pulseWidth_exact`: the pulse and the padding in exact arithmetic.

Results:
* **`pulseWidth_fills_period_iff`**: when the pulse and the padding make the period, and what they
  make otherwise.
* **`half_ticks_miss_period`**: a pulse that ends halfway between two ticks.
-/

namespace PulseSequencer

namespace Device

open ShortPulse

variable {d d' : Device} {names : List String} {b : Booking}

/-! ## A booking on each of some channels -/

theorem bookOnEach_cons_eq_ok {first : String} :
    d.bookOnEach (first :: names) b = .ok d' ↔
      ∃ d₁, d.book first [b] = .ok d₁ ∧ d₁.bookOnEach names b = .ok d' := by
  unfold bookOnEach
  rw [List.foldlM_cons, bind_eq_ok]

/-- Booking changes the channels and the mark of the program, and nothing else. -/
theorem eq_of_bookOnEach (h : d.bookOnEach names b = .ok d') :
    d' = { d with channels := d'.channels, fresh := d'.fresh } := by
  refine foldlM_keeps
    (motive := fun d₁ => d₁ = { d with channels := d₁.channels, fresh := d₁.fresh })
    (fun _ _ _ _ h₁ hbook => ?_) rfl h
  obtain ⟨_, _, -, -, rfl⟩ := book_eq_ok.mp hbook
  rw [h₁]

/-- Other channels are left as they are. -/
theorem get?_of_bookOnEach {name : String} (hname : name ∉ names)
    (h : d.bookOnEach names b = .ok d') : d'.channels.get? name = d.channels.get? name := by
  refine foldlM_keeps (motive := fun d₁ => d₁.channels.get? name = d.channels.get? name)
    (fun other hother _ _ h₁ hbook => ?_) rfl h
  obtain ⟨_, _, -, -, rfl⟩ := book_eq_ok.mp hbook
  have hne : ¬ other = name := fun hsame => hname (hsame ▸ hother)
  rw [Table.get?_put, if_neg hne, h₁]

/-- **Each of the channels gets that booking**, and keeps those that it has. -/
theorem channel_of_bookOnEach (h : d.bookOnEach names b = .ok d') {name : String}
    (hname : name ∈ names) :
    ∃ s s', d.channel name = .ok s ∧ d'.channel name = .ok s' ∧
      s'.bookings.Perm (b :: s.bookings) := by
  induction names generalizing d with
  | nil => exact absurd hname List.not_mem_nil
  | cons first names ih =>
    obtain ⟨hfresh, -⟩ := List.nodup_cons.mp (nodup_of_bookOnEach h).1
    obtain ⟨d₁, hfirst, hrest⟩ := bookOnEach_cons_eq_ok.mp h
    obtain ⟨s, hs, -, rfl⟩ := book_one_eq_ok.mp hfirst
    -- what is booked on the first channel stays there, since it is not listed again
    rcases List.mem_cons.mp hname with rfl | hname
    · have hs' := get?_of_bookOnEach hfresh hrest
      rw [Table.get?_put, if_pos rfl] at hs'
      exact ⟨s, _, hs, channel_eq_ok.mpr hs', Booking.insert_perm b s.bookings⟩
    · have hne : ¬ first = name := fun hsame => hfresh (hsame ▸ hname)
      obtain ⟨s₁, s', hs₁, hs', hperm⟩ := ih hrest hname
      rw [channel_eq_ok, Table.get?_put, if_neg hne] at hs₁
      exact ⟨s₁, s', channel_eq_ok.mpr hs₁, hs', hperm⟩

/-- If nothing else is booked, the channels end with that booking. -/
theorem lastEdge_of_bookOnEach (h : d.bookOnEach names b = .ok d') (hnames : names ≠ [])
    (hsync : d.syncOut = none) (hempty : ∀ e ∈ d.channels, e.2.bookings = []) :
    lastEdge d'.bookedChannels = b.stop := by
  have honly : ∀ e ∈ d'.channels, ∀ b' ∈ e.2.bookings, b' = b := by
    refine foldlM_keeps (motive := fun d₁ => ∀ e ∈ d₁.channels, ∀ b' ∈ e.2.bookings, b' = b)
      (fun name _ d₁ d₂ h₁ hbook => ?_) (fun e he b' hb' => ?_) h
    · obtain ⟨s, hs, -, rfl⟩ := book_one_eq_ok.mp hbook
      intro e he b' hb'
      rcases Table.mem_put he with rfl | he
      · rcases List.mem_cons.mp ((Booking.insert_perm b s.bookings).mem_iff.mp hb') with rfl | hb'
        · rfl
        · exact h₁ _ (Table.mem_of_get? (channel_eq_ok.mp hs)) b' hb'
      · exact h₁ e he b' hb'
    · rw [hempty e he] at hb'
      exact absurd hb' List.not_mem_nil
  refine Nat.le_antisymm (lastEdge_le_iff.mpr fun c hc p hp => ?_) ?_
  · obtain ⟨e, he, -, rfl⟩ := mem_bookedChannels hc
    obtain ⟨b', hb', rfl⟩ := List.mem_map.mp hp
    rw [honly e he b' hb']
  · obtain ⟨name, hname⟩ := List.exists_mem_of_ne_nil names hnames
    obtain ⟨s, s', -, hs', hperm⟩ := channel_of_bookOnEach h hname
    have hbooked : b.toPulse ∈ s'.toChannel.pulses :=
      List.mem_map_of_mem (hperm.mem_iff.mpr List.mem_cons_self)
    have hsync' : d'.syncOut = none := by
      rw [eq_of_bookOnEach h]
      exact hsync
    have hchannel : s'.toChannel ∈ d'.bookedChannels := by
      unfold bookedChannels
      refine List.mem_map_of_mem (f := fun e : String × Schedule => e.2.toChannel)
        (List.mem_filter.mpr ⟨Table.mem_of_get? (channel_eq_ok.mp hs'), ?_⟩)
      simp [hsync']
    exact stop_le_lastEdge hchannel hbooked

/-- A program without a sync clock and without short instructions takes the padding behind the last
edge. -/
theorem duration_of_compile {A : Arithmetic} (hsync : d.syncOut = none) {loop : Option Nat}
    (hlong : ∀ p, (d.config loop).layOut d.bookedChannels = .ok p →
      ∀ i ∈ p, minLength d.board.clock < i.length)
    {t : Nat} (hrun : (Device.compile A loop).Runs d t d') :
    t = lastEdge d.bookedChannels + d.padding := by
  obtain ⟨p, hp, rfl, -⟩ := runs_compile.mp hrun
  obtain ⟨channels, laidOut, hchannels, hlaid, rfl⟩ := assemble_eq_ok.mp hp
  rcases pulseChannels_eq_ok.mp hchannels with ⟨-, rfl⟩ | ⟨sync, s, hsync', -, -⟩
  · rw [if_neg (Bool.eq_false_iff.mp (hasShort_eq_false.mpr (hlong laidOut hlaid)))]
    obtain ⟨padding, hpadding, hduration⟩ := duration_layOut hlaid
    obtain rfl := Except.ok.inj hpadding
    exact hduration
  · rw [hsync] at hsync'
    cases hsync'

/-- **If nothing else is booked, the program takes the booking and the padding behind it.** -/
theorem duration_of_bookOnEach {A : Arithmetic} {edited d'' : Device} {padding : Nat}
    (h : d.bookOnEach names b = .ok edited) (hnames : names ≠ []) (hsync : d.syncOut = none)
    (hempty : ∀ e ∈ d.channels, e.2.bookings = [])
    (hd' : d' = { edited with padding, fresh := false }) {loop : Option Nat}
    (hlong : ∀ p, (d'.config loop).layOut d'.bookedChannels = .ok p →
      ∀ i ∈ p, minLength d.board.clock < i.length)
    {t : Nat} (hrun : (Device.compile A loop).Runs d' t d'') : t = b.stop + d'.padding := by
  have hkept := eq_of_bookOnEach h
  have hmin : minLength d'.board.clock = minLength d.board.clock := by rw [hd', hkept]
  have hsync' : d'.syncOut = none := by
    rw [hd', hkept]
    exact hsync
  have hbooked : d'.bookedChannels = edited.bookedChannels := by
    rw [hd']
    rfl
  rw [duration_of_compile hsync' (fun p hp i hi => hmin.trans_lt (hlong p hp i hi)) hrun, hbooked,
    lastEdge_of_bookOnEach h hnames hsync hempty]

/-! ## The pulse and the padding -/

section

variable {frequency dutyCycle : Rat}

theorem upTime_exact (hpos : 0 < frequency) :
    upTime .exact (.finite frequency) (.finite dutyCycle) =
      .finite (dutyCycle / 100 * (1000000000 / frequency)) := by
  unfold upTime
  rw [Arithmetic.exact_div (by norm_num), Arithmetic.exact_div hpos.ne', Arithmetic.mul_finite,
    Arithmetic.round_exact]

theorem restTime_exact (hpos : 0 < frequency) :
    restTime .exact (.finite frequency) (.finite dutyCycle) =
      .finite (1000000000 / frequency - dutyCycle / 100 * (1000000000 / frequency)) := by
  unfold restTime
  rw [upTime_exact hpos, Arithmetic.exact_div hpos.ne', Arithmetic.sub_finite,
    Arithmetic.round_exact]

theorem isPercentage_finite :
    isPercentage (.finite dutyCycle) ↔ 0 ≤ dutyCycle ∧ dutyCycle ≤ 100 := by
  unfold isPercentage
  cases hvalue : (Number.finite dutyCycle).nonneg? with
  | none =>
    refine iff_of_false Bool.false_ne_true fun h => ?_
    rw [Number.nonneg?_eq_some.mpr ⟨rfl, h.1⟩] at hvalue
    cases hvalue
  | some q =>
    obtain ⟨hq, hnonneg⟩ := Number.nonneg?_eq_some.mp hvalue
    obtain rfl := Option.some.inj hq
    simp [hnonneg]

/-- **A pulse and its padding, in exact arithmetic**: each is rounded to the nearest tick. -/
theorem runs_pulseWidth_exact
    (hrun : (pulseWidth .exact names (.finite frequency) (.finite dutyCycle)).Runs d () d') :
    ∃ up edited, up = dutyCycle / 100 * (1000000000 / frequency) ∧ 0 ≤ up ∧
      up ≤ 1000000000 / frequency ∧
      d.ticks .exact (upTime .exact (.finite frequency) (.finite dutyCycle)) =
        .ok (nearestTick up d.board.clock) ∧
      d' = { edited with
        padding := nearestTick (1000000000 / frequency - up) d.board.clock, fresh := false } ∧
      if 0 < nearestTick up d.board.clock then
        ∃ b : Booking, b.toPulse = ⟨0, nearestTick up d.board.clock⟩ ∧
          d.bookOnEach names b = .ok edited
      else edited = d := by
  obtain ⟨hfrequency, hduty, padding, length, edited, hpadding, -, hlength, hedited, rfl⟩ :=
    runs_pulseWidth.mp hrun
  obtain ⟨f, hf⟩ := Option.isSome_iff_exists.mp hfrequency
  obtain ⟨hf, hpos⟩ := Number.positive?_eq_some_iff.mp hf
  obtain rfl := Number.finite.inj hf
  obtain ⟨hlow, hhigh⟩ := isPercentage_finite.mp hduty
  have hup : 0 ≤ dutyCycle / 100 * (1000000000 / frequency) := by positivity
  have hrest : dutyCycle / 100 * (1000000000 / frequency) ≤ 1000000000 / frequency :=
    mul_le_of_le_one_left (by positivity) (by linarith)
  rw [restTime_exact hpos] at hpadding
  rw [upTime_exact hpos] at hlength hedited ⊢
  obtain ⟨rfl, -⟩ := (roundToClock_exact (sub_nonneg.mpr hrest) d.board.clock_pos).mp hpadding
  obtain ⟨rfl, -⟩ := (roundToClock_exact hup d.board.clock_pos).mp hlength
  refine ⟨_, edited, rfl, hup, hrest, hlength, rfl, ?_⟩
  split at hedited
  · rename_i hlasts
    obtain ⟨b, hb, hbooked⟩ := hedited
    obtain ⟨hstart, hticks, -⟩ := booking_eq_ok.mp hb
    obtain ⟨hzero, -⟩ := (roundToClock_exact le_rfl d.board.clock_pos).mp hstart
    rw [nearestTick_zero] at hzero
    rw [if_pos hlasts]
    refine ⟨b, ?_, hbooked⟩
    rw [← hzero, Except.ok.inj (hlength.symm.trans hticks)]
  · rename_i hempty
    rw [if_neg hempty]
    exact hedited

/-- **When a pulse and its padding make the period.** In exact arithmetic, for a period that takes
whole ticks: each of the channels gets the pulse, from time zero on. The pulse and the padding take
the period together, unless that has an odd number of ticks and the pulse ends halfway between two:
then they take a tick less or a tick more, whichever makes both even. If nothing else is booked, a
program without short instructions takes as long as they do. -/
theorem pulseWidth_fills_period_iff {ticks : Nat}
    (hperiod : 1000000000 / frequency = ticks * d.board.clock)
    (hrun : (pulseWidth .exact names (.finite frequency) (.finite dutyCycle)).Runs d () d') :
    ∃ length, d.ticks .exact (upTime .exact (.finite frequency) (.finite dutyCycle)) =
        .ok length ∧
      (0 < length → ∀ name ∈ names, ∃ s s', ∃ b : Booking, d.channel name = .ok s ∧
        d'.channel name = .ok s' ∧ s'.bookings.Perm (b :: s.bookings) ∧
        b.toPulse = ⟨0, length⟩) ∧
      (length + d'.padding = ticks * d.board.clock ↔
        ¬ (Odd ticks ∧ ∃ k : Nat, dutyCycle / 100 * ticks = k + 1 / 2)) ∧
      (∀ k : Nat, Odd ticks → dutyCycle / 100 * ticks = k + 1 / 2 →
        length + d'.padding = (if Even k then ticks - 1 else ticks + 1) * d.board.clock) ∧
      (0 < length → names ≠ [] → d.syncOut = none → (∀ e ∈ d.channels, e.2.bookings = []) →
        ∀ loop t d'', (Device.compile .exact loop).Runs d' t d'' →
          (∀ p, (d'.config loop).layOut d'.bookedChannels = .ok p →
            ∀ i ∈ p, minLength d.board.clock < i.length) →
          t = length + d'.padding) := by
  obtain ⟨up, edited, hup, hnonneg, hle, hticks, hd', hedited⟩ := runs_pulseWidth_exact hrun
  have hclock := d.board.clock_pos
  have hne : (d.board.clock : Rat) ≠ 0 := by exact_mod_cast hclock.ne'
  have hpadding : d'.padding = nearestTick (ticks * d.board.clock - up) d.board.clock := by
    rw [hd', hperiod]
  rw [hperiod] at hup hle
  have hhalf : ∀ k : Nat, up = (k + 1 / 2) * d.board.clock ↔
      dutyCycle / 100 * ticks = k + 1 / 2 := by
    intro k
    rw [hup, ← mul_assoc]
    exact mul_left_inj' hne
  refine ⟨nearestTick up d.board.clock, hticks, ?_, ?_, ?_, ?_⟩
  · intro hlasts name hname
    rw [if_pos hlasts] at hedited
    obtain ⟨b, hb, hbooked⟩ := hedited
    obtain ⟨s, s', hs, hs', hperm⟩ := channel_of_bookOnEach hbooked hname
    rw [hd']
    exact ⟨s, s', b, hs, hs', hperm, hb⟩
  · rw [hpadding, ← exists_congr hhalf]
    exact nearestTick_add_rest_iff hclock hnonneg hle
  · intro k hodd hk
    obtain rfl := (hhalf k).mpr hk
    rw [hpadding, nearestTick_half_add_rest hclock (lt_of_half_le hclock hle),
      if_neg (Nat.odd_iff.mp hodd ▸ by decide)]
    simp only [Nat.even_iff]
  · intro hlasts hnames hsync hempty loop t d'' hcompile hlong
    rw [if_pos hlasts] at hedited
    obtain ⟨b, hb, hbooked⟩ := hedited
    have hstop : b.stop = nearestTick up d.board.clock :=
      (congrArg Pulse.stop hb).trans (Nat.zero_add _)
    rw [← hstop]
    exact duration_of_bookOnEach hbooked hnames hsync hempty hd' hlong hcompile

end

/-- A device with a clock of 5 ns and one channel, on which nothing is booked. -/
def lamp : Device := { bare with channels := [("led", { number := 0 })] }

theorem reachable_lamp : Reachable .exact lamp := by
  have hcreate : Device.create .exact "pb" (.finite 200000000) 8 = .ok bare := by decide +kernel
  have hadd : performAll .exact [.addChannel "led" 0] bare = lamp := by decide +kernel
  exact hadd ▸ (Reachable.create hcreate).performAll [.addChannel "led" 0]

/-- A period of 125 ns takes an odd number of ticks. A pulse of 40 % ends with one of them. -/
theorem lamp_fills_period :
    ∃ d', (pulseWidth .exact ["led"] (.finite 8000000) (.finite 40)).Runs lamp () d' ∧
      50 + d'.padding = 125 := by
  have hrun : (pulseWidth .exact ["led"] (.finite 8000000) (.finite 40)).Runs lamp ()
      { lamp with
        padding := 75
        channels := [("led", { number := 0, bookings := [⟨⟨0, 50⟩, by decide⟩] })] } :=
    ⟨by decide +kernel, by decide +kernel⟩
  have hperiod : (1000000000 / 8000000 : Rat) = (25 : Nat) * (lamp.board.clock : Nat) := by
    decide +kernel
  obtain ⟨length, hlength, -, hfills, -⟩ := pulseWidth_fills_period_iff hperiod hrun
  have hticks : lamp.ticks .exact (upTime .exact (.finite 8000000) (.finite 40)) = .ok 50 := by
    decide +kernel
  obtain rfl := Except.ok.inj (hlength.symm.trans hticks)
  refine ⟨_, hrun, hfills.mpr fun ⟨_, k, hk⟩ => ?_⟩
  have htwice : (20 : Rat) = 2 * k + 1 := by
    push_cast at hk
    linarith
  have : 20 = 2 * k + 1 := by exact_mod_cast htwice
  omega

/-- `lamp` with half of a period of 125 ns, which is 62.5 ns: the pulse and the padding are both
rounded to 60. -/
def dimmed : Device := { lamp with
  padding := 60
  channels := [("led", { number := 0, bookings := [⟨⟨0, 60⟩, by decide⟩] })] }

/-- **A pulse that ends halfway between two ticks.** The period of 8 MHz is 125 ns, an odd number of
ticks. At a duty cycle of 50 % the pulse and the padding take 60 ns each, and the program that is to
repeat at 8 MHz repeats after 120 ns. -/
theorem half_ticks_miss_period :
    Reachable .exact lamp ∧
      (pulseWidth .exact ["led"] (.finite 8000000) (.finite 50)).Runs lamp () dimmed ∧
      (1000000000 / 8000000 : Rat) = (25 : Nat) * (lamp.board.clock : Nat) ∧
      (∃ s ∈ dimmed.channels, ∃ b ∈ s.2.bookings,
        b.length + dimmed.padding ≠ 25 * lamp.board.clock) ∧
      ∃ d', (Device.compile .exact (some 0)).Runs dimmed 120 d' := by
  have hchannels : (dimmed.pulseChannels .exact).result =
      .ok [⟨Flags.output 0, [⟨0, 60⟩]⟩] := rfl
  have hlaid : (dimmed.config (some 0)).layOut [⟨Flags.output 0, [⟨0, 60⟩]⟩] =
      .ok [.proceed 1 60, ⟨0, .branch, 0, 60⟩] := by cbv
  have hcompile : (Device.compile .exact (some 0)).Runs dimmed 120 _ :=
    runs_compile.mpr ⟨_, assemble_eq_ok.mpr ⟨_, _, hchannels, hlaid, rfl⟩, by decide, rfl⟩
  exact ⟨reachable_lamp, ⟨by decide +kernel, by decide +kernel⟩, by decide +kernel, by decide,
    _, hcompile⟩

end Device

end PulseSequencer
