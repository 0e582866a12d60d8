import PulseSequencer.Proofs.Device.Channels
import PulseSequencer.Proofs.Refusals

/-!
# What a device refuses to compile

A device checks its bookings when they are made, one against its neighbours; the compiler checks
all channels once more, sorted. On a valid device the second check never finds anything: what is
left to refuse is a sync clock that does not fit, and a branch behind the end of the program.

* `SyncClockRefused`: why the sync clock of a device cannot be put out.
* `CompileRefused`: that, or a branch to an instruction that is not there.

Results:
* `withSyncOut_eq_error`, `pulseChannels_eq_error`: each stage by its errors.
* `Valid.accepted`: a valid device hands the compiler channels that it accepts, also with pulses
  drawn out for the sync clock.
* **`Reachable.compile_refused_iff`**: exactly what is refused.
-/

namespace PulseSequencer

variable {A : Arithmetic}

/-! ## Times that are refused -/

/-- Rounding refuses the time alone. -/
theorem eq_invalidTime_of_roundToClock {time : Number} {clock : Nat} {e : Error}
    (h : roundToClock A time clock = .error e) : e = .invalidTime time := by
  unfold roundToClock at h
  grind

/-- A list of results is refused for one of them. -/
theorem exists_of_mapM_eq_error {α β : Type} {f : α → Except Error β} {xs : List α} {e : Error}
    (h : xs.mapM f = .error e) : ∃ x ∈ xs, f x = .error e := by
  induction xs with
  | nil => cases h
  | cons x xs ih =>
    rw [List.mapM_cons] at h
    rcases bind_eq_error.mp h with hx | ⟨y, -, h⟩
    · exact ⟨x, List.mem_cons_self, hx⟩
    · rcases bind_eq_error.mp h with hxs | ⟨ys, -, h⟩
      · obtain ⟨x', hx', he⟩ := ih hxs
        exact ⟨x', List.mem_cons_of_mem x hx', he⟩
      · cases h

/-- What can be wrong with a sync clock on an output of the board: one of its times, or an
overlap. -/
theorem clockOut_refused {number count clock : Nat} {period : Number} {e : Error}
    (hnumber : number < Flags.maxOutputs) (hclock : 0 < clock)
    (h : Channel.clockOut A number count period clock = .error e) :
    (∃ time, e = .invalidTime time) ∨ ∃ p q : Pulse,
      e = .overlappingPulses (Flags.output number) p.start p.stop q.start q.stop := by
  unfold Channel.clockOut Channel.ofTimes at h
  simp only [bind_eq_error, ensure_eq_error, List.length_map, List.length_range,
    List.length_replicate, hnumber, hclock, not_true_eq_false, false_and, false_or] at h
  obtain ⟨_, -, _, -, _, -, h⟩ := h
  rcases h with hstarts | ⟨ss, -, h⟩
  · obtain ⟨time, -, ht⟩ := exists_of_mapM_eq_error hstarts
    exact Or.inl ⟨time, eq_invalidTime_of_roundToClock ht⟩
  rcases h with hlengths | ⟨ls, -, h⟩
  · obtain ⟨time, -, ht⟩ := exists_of_mapM_eq_error hlengths
    exact Or.inl ⟨time, eq_invalidTime_of_roundToClock ht⟩
  rcases h with hoverlap | ⟨_, -, h⟩
  · obtain ⟨p, q, -, he⟩ := Channel.checkOverlaps_eq_error.mp hoverlap
    exact Or.inr ⟨p, q, he⟩
  · cases h

/-! ## The sync clock -/

/-- The number of periods that a sync clock runs for behind some channels. -/
def syncCount (A : Arithmetic) (channels : List Channel) (period : Number) : Nat :=
  (A.div (A.ofNat (lastEdge channels)) period).ceilWord

/-- The end of the last of these periods, rounded to the clock. -/
def syncStop (A : Arithmetic) (channels : List Channel) (period : Number) (clock : Nat) :
    Except Error Nat :=
  roundToClock A (A.mul (A.ofNat (syncCount A channels period)) period) clock

theorem withSyncOut_eq_error {channels : List Channel} {number clock : Nat} {frequency : Number}
    {e : Error} :
    (withSyncOut A channels number frequency clock).result = .error e ↔
      syncPeriod A frequency clock = .error e ∨
        ∃ period, syncPeriod A frequency clock = .ok period ∧
          (syncStop A channels period clock = .error e ∨
            ∃ stop, syncStop A channels period clock = .ok stop ∧
              Channel.clockOut A number (syncCount A channels period) period clock = .error e) := by
  unfold withSyncOut
  simp only [Logged.result_bind, Logged.result_lift, Logged.result_note, bind_eq_error, ok_bind,
    Logged.result_pure, reduceCtorEq, and_false, exists_false, or_false]
  exact Iff.rfl

/-! ## Pulses drawn out -/

/-- Pulses that last, in the order of time and none behind `stop`, stay in order when the ones that
end at `stop` are drawn out: nothing follows them. -/
theorem pairwise_drawOut {stop newStop : Nat} {ps : List Pulse}
    (hord : ps.Pairwise fun p q => p.stop ≤ q.start) (hlast : ∀ p ∈ ps, 0 < p.length)
    (hstop : ∀ p ∈ ps, p.stop ≤ stop) :
    (ps.map (Pulse.drawOut stop newStop)).Pairwise fun p q => p.stop ≤ q.start := by
  have hstart : ∀ q : Pulse, (q.drawOut stop newStop).start = q.start := by
    intro q
    unfold Pulse.drawOut
    split <;> rfl
  rw [List.pairwise_map]
  refine hord.imp_of_mem fun {p q} _ hq hpq => ?_
  rw [hstart q]
  unfold Pulse.drawOut
  split
  · rename_i hp
    have hqlast := hlast q hq
    have hqstop := hstop q hq
    unfold Pulse.stop at hp hpq hqstop
    omega
  · exact hpq

namespace Device

variable {d : Device} {channels : List Channel} {e : Error}

theorem pulseChannels_eq_error :
    (d.pulseChannels A).result = .error e ↔
      ∃ sync, d.syncOut = some sync ∧ (d.channel sync.channel = .error e ∨
        ∃ s, d.channel sync.channel = .ok s ∧
          (withSyncOut A d.bookedChannels s.number sync.frequency d.board.clock).result =
            .error e) := by
  rw [result_pulseChannels]
  cases d.syncOut with
  | none => simp
  | some sync => simp [bind_eq_error]

/-! ## What a valid device hands on is accepted -/

theorem Valid.ordered_booked (hd : d.Valid A) {c : Channel} (hc : c ∈ d.bookedChannels) :
    c.pulses.Pairwise fun p q => p.stop ≤ q.start := by
  obtain ⟨e, he, -, rfl⟩ := mem_bookedChannels hc
  exact List.pairwise_map.mpr (hd.schedules e he).ordered

theorem length_pos_booked {c : Channel} (hc : c ∈ d.bookedChannels) :
    ∀ p ∈ c.pulses, 0 < p.length := by
  obtain ⟨e, -, -, rfl⟩ := mem_bookedChannels hc
  intro p hp
  obtain ⟨b, -, rfl⟩ := List.mem_map.mp hp
  exact b.length_pos

theorem Valid.number_booked_lt (hd : d.Valid A) {c : Channel} (hc : c ∈ d.bookedChannels) :
    c.number < d.board.bit := by
  obtain ⟨e, he, -, rfl⟩ := mem_bookedChannels hc
  rw [hd.number_toChannel he]
  exact hd.number_lt_bit he

/-- **What a valid device compiles is accepted**: outputs below the short pulse field, and no
overlap, neither among what is booked nor by what is drawn out for the sync clock. -/
theorem Valid.accepted (hd : d.Valid A) (h : (d.pulseChannels A).result = .ok channels) :
    ∀ c ∈ channels, c.number < d.board.bit ∧ c.clash? = none := by
  rcases pulseChannels_eq_ok.mp h with ⟨-, rfl⟩ | ⟨sync, s, -, hs, h⟩
  · intro c hc
    exact ⟨hd.number_booked_lt hc, Channel.clash?_eq_none_of_ordered (hd.ordered_booked hc)⟩
  · obtain ⟨period, rounded, clock, -, -, hclock, rfl⟩ := withSyncOut_eq_ok.mp h
    intro c hc
    rcases List.mem_append.mp hc with hc | hc
    · obtain ⟨c₁, hc₁, rfl⟩ := List.mem_map.mp hc
      have hnumber : c₁.number < d.board.bit := hd.number_booked_lt hc₁
      refine ⟨hnumber, Channel.clash?_eq_none_of_ordered ?_⟩
      exact pairwise_drawOut (hd.ordered_booked hc₁) (length_pos_booked hc₁)
        fun p hp => stop_le_lastEdge hc₁ hp
    · rw [List.mem_singleton.mp hc]
      obtain ⟨-, -, -, ss, ls, -, -, rfl, hclash⟩ := ofTimes_eq_ok.mp hclock
      have hmem := Table.mem_of_get? (channel_eq_ok.mp hs)
      refine ⟨?_, hclash⟩
      show (Flags.output s.number).lowest < d.board.bit
      rw [Flags.lowest_output (hd.number_lt_wordBits hmem)]
      exact hd.number_lt_bit hmem

/-! ## A sync clock that is refused -/

/-- The sync clock that a device is set up for, on the output of `s`. -/
def HasSyncClock (A : Arithmetic) (d : Device) (s : Schedule) (period : Number) : Prop :=
  ∃ sync, d.syncOut = some sync ∧ d.channel sync.channel = .ok s ∧
    syncPeriod A sync.frequency d.board.clock = .ok period

/-- Why a sync clock cannot be put out: the end of its last period is no time on the board, or
one of its own times is none, or its own pulses overlap. -/
inductive SyncClockRefused (A : Arithmetic) (d : Device) : Error → Prop
  | stop {s : Schedule} {period time : Number} (hsync : d.HasSyncClock A s period)
      (hstop : syncStop A d.bookedChannels period d.board.clock = .error (.invalidTime time)) :
      SyncClockRefused A d (.invalidTime time)
  | time {s : Schedule} {period time : Number} {stop : Nat} (hsync : d.HasSyncClock A s period)
      (hstop : syncStop A d.bookedChannels period d.board.clock = .ok stop)
      (hclock : Channel.clockOut A s.number (syncCount A d.bookedChannels period) period
        d.board.clock = .error (.invalidTime time)) :
      SyncClockRefused A d (.invalidTime time)
  | overlap {s : Schedule} {period : Number} {stop : Nat} {p q : Pulse}
      (hsync : d.HasSyncClock A s period)
      (hstop : syncStop A d.bookedChannels period d.board.clock = .ok stop)
      (hclock : Channel.clockOut A s.number (syncCount A d.bookedChannels period) period
        d.board.clock = .error (.overlappingPulses s.flags p.start p.stop q.start q.stop)) :
      SyncClockRefused A d (.overlappingPulses s.flags p.start p.stop q.start q.stop)

/-- What goes wrong while a sync clock is put out goes wrong before the channels are compiled. -/
theorem SyncClockRefused.pulseChannels_eq_error (h : SyncClockRefused A d e) :
    (d.pulseChannels A).result = .error e := by
  cases h with
  | stop hsync hstop =>
    obtain ⟨sync, hset, hs, hperiod⟩ := hsync
    exact Device.pulseChannels_eq_error.mpr ⟨sync, hset, Or.inr ⟨_, hs,
      withSyncOut_eq_error.mpr (Or.inr ⟨_, hperiod, Or.inl hstop⟩)⟩⟩
  | time hsync hstop hclock | overlap hsync hstop hclock =>
    obtain ⟨sync, hset, hs, hperiod⟩ := hsync
    exact Device.pulseChannels_eq_error.mpr ⟨sync, hset, Or.inr ⟨_, hs,
      withSyncOut_eq_error.mpr (Or.inr ⟨_, hperiod, Or.inr ⟨_, hstop, hclock⟩⟩)⟩⟩

/-- **Before its channels are compiled, a valid device refuses its sync clock alone**: the channel
is there, its output fits the board and its frequency has a period. -/
theorem Valid.pulseChannels_eq_error (hd : d.Valid A) :
    (d.pulseChannels A).result = .error e ↔ SyncClockRefused A d e := by
  refine ⟨fun h => ?_, SyncClockRefused.pulseChannels_eq_error⟩
  obtain ⟨sync, hset, h⟩ := Device.pulseChannels_eq_error.mp h
  obtain ⟨⟨s, hs⟩, period, hperiod⟩ := hd.sync_out sync hset
  have hsync : d.HasSyncClock A s period := ⟨sync, hset, hs, hperiod⟩
  rcases h with hmissing | ⟨_, hs', h⟩
  · rw [hs] at hmissing
    cases hmissing
  obtain rfl := Except.ok.inj (hs.symm.trans hs')
  rcases withSyncOut_eq_error.mp h with hfrequency | ⟨_, hperiod', h⟩
  · rw [hperiod] at hfrequency
    cases hfrequency
  obtain rfl := Except.ok.inj (hperiod.symm.trans hperiod')
  rcases h with hstop | ⟨stop, hstop, hclock⟩
  · obtain rfl := eq_invalidTime_of_roundToClock hstop
    exact .stop hsync hstop
  · have hnumber := hd.number_lt_maxOutputs (Table.mem_of_get? (channel_eq_ok.mp hs))
    rcases clockOut_refused hnumber d.board.clock_pos hclock with ⟨time, rfl⟩ | ⟨p, q, rfl⟩
    · exact .time hsync hstop hclock
    · exact .overlap hsync hstop hclock

/-! ## What is refused -/

/-- A device that compiles answers with the duration of the program that it assembles. -/
theorem result_compile_apply (A : Arithmetic) (loop : Option Nat) (d : Device) :
    (compile A loop d).1.result = (d.assemble A loop).result >>= fun p => .ok p.duration := by
  unfold compile
  simp only [Action.result_bind_apply, Action.get_apply, Action.liftLogged_apply,
    Action.modify_apply, Action.pure_apply, Logged.result_pure, Logged.result_note, ok_bind]

/-- A device refuses to compile when its program cannot be assembled. -/
theorem compile_apply_eq_error {loop : Option Nat} :
    (compile A loop d).1.result = .error e ↔ (d.assemble A loop).result = .error e := by
  rw [result_compile_apply, bind_eq_error]
  simp

/-- The program of some channels for one pass: its end is no branch yet, and no short pulse is
encoded. -/
def onePass (d : Device) (channels : List Channel) : Program :=
  Program.ofSteps (steps channels d.padding)

/-- A valid device whose channels are settled refuses the branch alone. -/
theorem Valid.compile_eq_error (hd : d.Valid A)
    (hchannels : (d.pulseChannels A).result = .ok channels) {loop : Option Nat} :
    (PulseSequencer.compile channels (d.config loop)).result = .error e ↔
      ∃ target, loop = some target ∧ d.onePass channels ≠ [] ∧
        (d.onePass channels).length ≤ target ∧
        e = .branchOutOfRange target (d.onePass channels).length := by
  have hlaid : (d.config loop).layOut channels = (d.config loop).close (d.onePass channels) :=
    Config.layOut_of_accepted (hd.accepted hchannels) rfl
  rw [PulseSequencer.compile_eq_error, board_config, hlaid, Config.close_eq_error]
  constructor
  · rintro (hboard | ⟨_, -, h⟩)
    · cases hboard
    · exact h
  · exact fun h => Or.inr ⟨d.board, rfl, h⟩

/-- An overlap on the output of the sync clock is none on a channel with bookings. -/
theorem Valid.flags_ne_sync (hd : d.Valid A) {sync : SyncOut} {s : Schedule}
    (hsync : d.syncOut = some sync) (hs : d.channel sync.channel = .ok s) {c : Channel}
    (hc : c ∈ d.bookedChannels) : c.flags ≠ s.flags := by
  intro hsame
  have hmem := Table.mem_of_get? (channel_eq_ok.mp hs)
  have hnumber : c.number = s.number := by
    unfold Channel.number
    rw [hsame]
    exact Flags.lowest_output (hd.number_lt_wordBits hmem)
  exact hd.number_ne_sync hsync hs c.number (List.mem_map_of_mem hc) hnumber

/-- Why a device refuses to compile: its sync clock cannot be put out, or it is asked to branch from
the end of a program to an instruction that the program does not have. Instructions are counted
before short pulses are encoded, and an empty program has no end to branch from. -/
inductive CompileRefused (A : Arithmetic) (d : Device) (loop : Option Nat) : Error → Prop
  | syncClock {e : Error} (h : SyncClockRefused A d e) : CompileRefused A d loop e
  | branch {channels : List Channel} {target : Nat}
      (hchannels : (d.pulseChannels A).result = .ok channels) (hloop : loop = some target)
      (hne : d.onePass channels ≠ []) (hlength : (d.onePass channels).length ≤ target) :
      CompileRefused A d loop (.branchOutOfRange target (d.onePass channels).length)

theorem Valid.compile_refused (hd : d.Valid A) {loop : Option Nat} :
    (compile A loop d).1.result = .error e ↔ CompileRefused A d loop e := by
  rw [compile_apply_eq_error, result_assemble, bind_eq_error, hd.pulseChannels_eq_error]
  constructor
  · rintro (h | ⟨channels, hchannels, h⟩)
    · exact .syncClock h
    · obtain ⟨target, hloop, hne, hlength, rfl⟩ := (hd.compile_eq_error hchannels).mp h
      exact .branch hchannels hloop hne hlength
  · rintro (h | ⟨hchannels, hloop, hne, hlength⟩)
    · exact Or.inl h
    · exact Or.inr ⟨_, hchannels, (hd.compile_eq_error hchannels).mpr
        ⟨_, hloop, hne, hlength, rfl⟩⟩

/-- **What a reachable device refuses to compile.** Whatever was asked of the device before, it
refuses exactly a sync clock that cannot be put out, and a branch to an instruction that it does not
have. So it never reports an overlap on a channel with bookings, nor any other error of the
compiler's checks. -/
theorem Reachable.compile_refused_iff (hd : Reachable A d) (loop : Option Nat) :
    (∀ e, (compile A loop d).1.result = .error e ↔ CompileRefused A d loop e) ∧
      ∀ c ∈ d.bookedChannels, ∀ start stop otherStart otherStop, (compile A loop d).1.result ≠
        .error (.overlappingPulses c.flags start stop otherStart otherStop) := by
  refine ⟨fun e => hd.valid.compile_refused, fun c hc start stop otherStart otherStop h => ?_⟩
  generalize he : Error.overlappingPulses c.flags start stop otherStart otherStop = e at h
  cases hd.valid.compile_refused.mp h with
  | branch => cases he
  | syncClock h =>
    cases h with
    | stop | time => cases he
    | overlap hsync =>
      obtain ⟨sync, hset, hs, -⟩ := hsync
      exact hd.valid.flags_ne_sync hset hs hc (Error.overlappingPulses.inj he).1

/-- `strobe` has a program of three instructions, so it refuses to branch to a fourth one, sync
clock and all. -/
theorem strobe_refuses_branch :
    Reachable .binary64 strobe ∧
      strobe.onePass strobeChannels = [.proceed 0x21 50, .proceed 0x1 50, .proceed 0 40] ∧
      (compile .binary64 (some 3) strobe).1.result = .error (.branchOutOfRange 3 3) := by
  have hpass : strobe.onePass strobeChannels =
      [.proceed 0x21 50, .proceed 0x1 50, .proceed 0 40] := by cbv
  have hlength : (strobe.onePass strobeChannels).length = 3 := by
    rw [hpass]
    rfl
  have hne : strobe.onePass strobeChannels ≠ [] := hpass ▸ List.cons_ne_nil _ _
  have hrefused : CompileRefused .binary64 strobe (some 3)
      (.branchOutOfRange 3 (strobe.onePass strobeChannels).length) :=
    .branch pulseChannels_strobe rfl hne hlength.le
  rw [hlength] at hrefused
  exact ⟨reachable_strobe, hpass,
    ((reachable_strobe.compile_refused_iff (some 3)).1 _).mpr hrefused⟩

end Device

end PulseSequencer
