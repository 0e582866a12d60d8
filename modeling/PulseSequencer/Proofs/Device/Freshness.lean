import PulseSequencer.Proofs.Device.Channels

/-!
# Programs that are fresh

A device that calls its program fresh holds what compiling it would give now. Every edit takes the
mark away, but one: a channel may be registered while the program stays fresh. Nothing is booked on
it, and a channel without pulses is invisible to the compiler, also in front of a sync channel.

* `idle`: a channel without pulses.
* `Current`: what the mark means.

Results:
* `layOut_idle`, `compile_idle`: an idle channel more or less gives the same program.
* `assemble_addChannel`: so does a channel that is registered.
* `Current.perform`: every request keeps what the mark means.
* **`Reachable.fresh_program_current`**: so the mark is never stale.
-/

namespace PulseSequencer

variable {A : Arithmetic}

/-! ## Idle channels -/

/-- A channel without pulses. -/
def idle (flags : Flags) : Channel := ⟨flags, []⟩

variable {flags : Flags} {xs ys : List Channel}

theorem lastEdge_idle (flags : Flags) (xs ys : List Channel) :
    lastEdge (xs ++ idle flags :: ys) = lastEdge (xs ++ ys) := by
  have hidle : (idle flags).lastStop = 0 := rfl
  unfold lastEdge
  rw [List.map_append, List.map_append, List.map_cons, latest_append, latest_append, latest_cons,
    hidle, Nat.zero_max]

theorem edges_idle (flags : Flags) (xs ys : List Channel) :
    edges (xs ++ idle flags :: ys) = edges (xs ++ ys) := by
  have hidle : (idle flags).edges = [] := rfl
  unfold edges
  rw [List.flatMap_append, List.flatMap_append, List.flatMap_cons, hidle, List.nil_append]

/-- **An idle channel on the board is invisible where a program is laid out.** -/
theorem layOut_idle {config : Config} (hnumber : (idle flags).number < config.bit) {p : Program} :
    config.layOut (xs ++ idle flags :: ys) = .ok p ↔ config.layOut (xs ++ ys) = .ok p := by
  have hsteps : ∀ padding, steps (xs ++ idle flags :: ys) padding = steps (xs ++ ys) padding := by
    intro padding
    unfold steps
    rw [edges_idle]
  have haccepted : (∀ c ∈ xs ++ idle flags :: ys, c.number < config.bit ∧ c.clash? = none) ↔
      ∀ c ∈ xs ++ ys, c.number < config.bit ∧ c.clash? = none := by
    have hidle : (idle flags).number < config.bit ∧ (idle flags).clash? = none :=
      ⟨hnumber, Channel.clash?_eq_none_of_ordered List.Pairwise.nil⟩
    simp only [List.forall_mem_append, List.forall_mem_cons, hidle, true_and]
  rw [Config.layOut_eq_ok, Config.layOut_eq_ok, haccepted, lastEdge_idle]
  simp only [hsteps]

/-- **And so it is to the whole compilation.** -/
theorem compile_idle {config : Config} (hnumber : (idle flags).number < config.bit) {p : Program} :
    (compile (xs ++ idle flags :: ys) config).result = .ok p ↔
      (compile (xs ++ ys) config).result = .ok p := by
  simp only [compile_eq_ok, layOut_idle hnumber]

/-- A sync clock that some channels get they also get with an idle one more. -/
theorem withSyncOut_idle {channels channels' : List Channel} {number clock : Nat}
    {frequency : Number} (flags : Flags)
    (h : (withSyncOut A channels number frequency clock).result = .ok channels') :
    ∃ front sync, channels' = front ++ [sync] ∧
      (withSyncOut A (channels ++ [idle flags]) number frequency clock).result =
        .ok (front ++ [idle flags, sync]) := by
  have hlast : lastEdge (channels ++ [idle flags]) = lastEdge channels := by
    rw [lastEdge_idle, List.append_nil]
  obtain ⟨period, rounded, sync, hperiod, hrounded, hsync, rfl⟩ := withSyncOut_eq_ok.mp h
  refine ⟨_, sync, rfl, withSyncOut_eq_ok.mpr ⟨period, rounded, sync, hperiod, ?_, ?_, ?_⟩⟩
  · rw [hlast]
    exact hrounded
  · rw [hlast]
    exact hsync
  · rw [hlast, List.map_append, List.append_assoc]
    rfl

namespace Device

variable {d d' : Device} {name : String} {number : Nat}

/-! ## A channel that is registered -/

/-- The channel of a sync clock is registered before, so it is not the new one. -/
theorem syncOut_ne_of_get?_eq_none {channels : List Channel} (hnew : d.channels.get? name = none)
    (h : (d.pulseChannels A).result = .ok channels) :
    d.syncOut.map SyncOut.channel ≠ some name := by
  intro hsame
  rcases pulseChannels_eq_ok.mp h with ⟨hnone, -⟩ | ⟨sync, s, hsync, hs, -⟩
  · rw [hnone] at hsame
    cases hsame
  · rw [hsync] at hsame
    rw [channel_eq_ok, Option.some.inj hsame, hnew] at hs
    cases hs

theorem bookedChannels_put (number : Nat) (hnew : d.channels.get? name = none)
    (hsync : d.syncOut.map SyncOut.channel ≠ some name) :
    { d with channels := d.channels.put name { number } }.bookedChannels =
      d.bookedChannels ++ [idle (Flags.output number)] := by
  unfold bookedChannels
  rw [Table.put_of_get?_eq_none hnew, List.filter_append, List.map_append]
  simp only [List.filter_cons, hsync, ne_eq, not_false_eq_true, decide_true, if_true,
    List.filter_nil, List.map_cons, List.map_nil]
  rfl

/-- A channel that is registered is compiled as an idle one. -/
theorem pulseChannels_put {channels : List Channel} (hnew : d.channels.get? name = none)
    (h : (d.pulseChannels A).result = .ok channels) :
    ∃ xs ys, channels = xs ++ ys ∧
      ({ d with channels := d.channels.put name { number } }.pulseChannels A).result =
        .ok (xs ++ idle (Flags.output number) :: ys) := by
  have hbooked := bookedChannels_put number hnew (syncOut_ne_of_get?_eq_none hnew h)
  rcases pulseChannels_eq_ok.mp h with ⟨hnone, rfl⟩ | ⟨sync, s, hsync, hs, h⟩
  · exact ⟨d.bookedChannels, [], (List.append_nil _).symm,
      pulseChannels_eq_ok.mpr (Or.inl ⟨hnone, hbooked.symm⟩)⟩
  · have hother : ¬ name = sync.channel := fun hsame => by
      rw [channel_eq_ok, ← hsame, hnew] at hs
      cases hs
    obtain ⟨front, clock, rfl, hfront⟩ := withSyncOut_idle (Flags.output number) h
    refine ⟨front, [clock], rfl, pulseChannels_eq_ok.mpr (Or.inr ⟨sync, s, hsync, ?_, ?_⟩)⟩
    · rw [channel_eq_ok, Table.get?_put, if_neg hother]
      exact channel_eq_ok.mp hs
    · rw [hbooked]
      exact hfront

/-- **Registering a channel leaves the program of a device as it is.** -/
theorem assemble_addChannel {loop : Option Nat} {p : Program} {u : Unit}
    (h : (addChannel name number).Runs d u d') (hp : (d.assemble A loop).result = .ok p) :
    (d'.assemble A loop).result = .ok p := by
  obtain ⟨-, hnumber, hnew, -, rfl⟩ := runs_addChannel.mp h
  obtain ⟨hbit, hout⟩ := Nat.lt_min.mp hnumber
  have hidle : (idle (Flags.output number)).number < d.board.bit := by
    show (Flags.output number).lowest < d.board.bit
    rw [Flags.lowest_output (Nat.lt_of_lt_of_le hout (by decide))]
    exact hbit
  rw [result_assemble, bind_eq_ok] at hp ⊢
  obtain ⟨_, hchannels, hcompile⟩ := hp
  obtain ⟨xs, ys, rfl, hput⟩ := pulseChannels_put hnew hchannels
  exact ⟨_, hput, (compile_idle hidle).mpr hcompile⟩

/-! ## The mark -/

/-- What it means that a program is fresh: some program is kept, and it is the one that the device
compiles to as it is now, for some loop. -/
def Current (A : Arithmetic) (d : Device) : Prop :=
  d.fresh = true → ∃ p loop, d.program = some p ∧ (d.assemble A loop).result = .ok p

theorem current_of_not_fresh (h : d.fresh = false) : d.Current A := fun hfresh => by
  rw [h] at hfresh
  cases hfresh

/-- The step: every request keeps what the mark means. Registering a channel keeps the program,
compiling makes it, and all other requests take the mark away. -/
theorem Current.perform (hd : d.Current A) {r : Request} (h : (r.perform A).Runs d () d') :
    d'.Current A := by
  obtain ⟨name, number, rfl⟩ | ⟨loop, rfl⟩ | ⟨-, hunmarked⟩ := perform_cases h
  · intro hfresh
    obtain ⟨-, -, -, -, heq⟩ := runs_addChannel.mp h
    rw [heq] at hfresh
    obtain ⟨p, loop, hp, hassemble⟩ := hd hfresh
    refine ⟨p, loop, ?_, assemble_addChannel h hassemble⟩
    rw [heq]
    exact hp
  · obtain ⟨p, hp, rfl⟩ := runs_perform_compile.mp h
    exact fun _ => ⟨p, loop, rfl, hp⟩
  · exact current_of_not_fresh hunmarked

/-- The run: the mark means the same in all reachable devices. -/
theorem Reachable.current (h : Reachable A d) : d.Current A := by
  refine h.keeps (fun name frequency bit d hd => ?_) fun _ _ _ hd => hd.perform
  obtain ⟨-, period, board, -, -, rfl⟩ := create_eq_ok.mp hd
  exact current_of_not_fresh rfl

/-- **A fresh program is never stale.** Whatever was asked of a device, in any order and
successfully or not, where it calls its program fresh it holds one, and compiling its channels as
they are now, with its padding and for its board, gives that program for some loop. -/
theorem Reachable.fresh_program_current (hd : Reachable A d) (hfresh : d.isFresh = true) :
    ∃ p loop channels, d.program = some p ∧ (d.pulseChannels A).result = .ok channels ∧
      (PulseSequencer.compile channels
        { extent := .padding d.padding
          loop := loop
          clock := d.board.clock
          bit := d.board.bit
          mode := .encode }).result = .ok p := by
  obtain ⟨-, hmark⟩ := Bool.and_eq_true_iff.mp hfresh
  obtain ⟨p, loop, hp, hassemble⟩ := hd.current hmark
  rw [result_assemble, bind_eq_ok] at hassemble
  obtain ⟨channels, hchannels, hcompile⟩ := hassemble
  exact ⟨p, loop, channels, hp, hchannels, hcompile⟩

/-- The program of `strobe`, looping to its second instruction. -/
def strobeProgram : Program := [.proceed 0x21 50, .proceed 0x1 50, ⟨0, .branch, 1, 40⟩]

/-- `strobe` compiled, and a channel registered behind that. -/
def spareStrobe : Device := { strobe with
  channels := strobe.channels ++ [("spare", { number := 3 })]
  program := some strobeProgram
  fresh := true }

theorem assemble_strobe : (strobe.assemble .binary64 (some 1)).result = .ok strobeProgram := by
  rw [result_assemble, pulseChannels_strobe, ok_bind]
  cbv

theorem reachable_spareStrobe : Reachable .binary64 spareStrobe := by
  have hcompiled : ((Request.compile (some 1)).perform .binary64).Runs strobe ()
      { strobe with program := some strobeProgram, fresh := true } :=
    runs_perform_compile.mpr ⟨_, assemble_strobe, rfl⟩
  have hregistered : ((Request.addChannel "spare" 3).perform .binary64).Runs
      { strobe with program := some strobeProgram, fresh := true } () spareStrobe :=
    runs_addChannel.mpr ⟨by decide +kernel, by decide, by decide, by decide, rfl⟩
  exact (reachable_strobe.of_runs hcompiled).of_runs hregistered

/-- The program of `spareStrobe` is fresh, and it is the one of its three channels. -/
theorem spareStrobe_program_current :
    Reachable .binary64 spareStrobe ∧ spareStrobe.isFresh = true ∧
      spareStrobe.bookedChannels = [⟨Flags.output 0, [⟨0, 90⟩]⟩, idle (Flags.output 3)] ∧
      ∃ loop channels, (spareStrobe.pulseChannels .binary64).result = .ok channels ∧
        (PulseSequencer.compile channels
          { extent := .padding 40, loop := loop, clock := 5, bit := 8, mode := .encode }).result =
            .ok strobeProgram := by
  have hfresh : spareStrobe.isFresh = true := rfl
  obtain ⟨p, loop, channels, hp, hchannels, hcompile⟩ :=
    reachable_spareStrobe.fresh_program_current hfresh
  obtain rfl := Option.some.inj hp
  exact ⟨reachable_spareStrobe, hfresh, rfl, loop, channels, hchannels, hcompile⟩

end Device

end PulseSequencer
