import PulseSequencer.Proofs.Device.Freshness
import PulseSequencer.Proofs.Device.Refusals

/-!
# Bookings on the channel of a sync clock

The channel that puts out a sync clock may have bookings of its own, made before it was chosen or
since. The clock stands in their place, and nothing that is compiled depends on them: a device
compiles to what it would compile to with nothing booked there. So two devices that differ in these
bookings alone, and in what they have compiled before, compile to the same.

* `Device.withoutSyncEdits`: a device with these bookings and its program taken away. Two devices
  for which that gives the same device differ in nothing else.
* `Request.EditsOnly`: a request that books on one channel alone, or has to do with the program.

Results:
* `bookedChannels_withoutSyncEdits`, `pulseChannels_withoutSyncEdits`,
  `assemble_withoutSyncEdits`: each stage of a compilation is the same without them.
* `withoutSyncEdits_perform`, `withoutSyncEdits_performAll`: whatever is booked on that channel
  makes no other difference.
* **`compile_alike_of_sync_edits`**: two devices that compile to the same.
-/

namespace PulseSequencer

namespace Device

variable {A : Arithmetic} {d d' : Device}

/-- The device with nothing booked on the channel of its sync clock, and without a program. -/
def withoutSyncEdits (d : Device) : Device := { d with
  channels := d.channels.map fun e =>
    (e.1, if d.syncOut.map SyncOut.channel = some e.1 then e.2.clear else e.2)
  program := none
  fresh := false }

/-! ## What is compiled -/

/-- The channel of the sync clock is not among those that are compiled with their bookings. -/
theorem bookedChannels_withoutSyncEdits (d : Device) :
    d.withoutSyncEdits.bookedChannels = d.bookedChannels := by
  unfold bookedChannels withoutSyncEdits
  rw [List.filter_map, List.map_map]
  refine List.map_congr_left fun e he => ?_
  have hother : ¬ d.syncOut.map SyncOut.channel = some e.1 :=
    of_decide_eq_true (List.mem_filter.mp he).2
  simp only [Function.comp_apply, if_neg hother]

/-- A channel whose bookings are taken away still has its output: what asks for no more of it goes
on in the same way. -/
theorem bind_channel_withoutSyncEdits {α : Type} (d : Device) (name : String)
    (next : Nat → Except Error α) :
    (d.withoutSyncEdits.channel name >>= fun s => next s.number) =
      d.channel name >>= fun s => next s.number := by
  have hget : d.withoutSyncEdits.channels.get? name = (d.channels.get? name).map fun s =>
      if d.syncOut.map SyncOut.channel = some name then s.clear else s :=
    Table.get?_map (fun name (s : Schedule) =>
      if d.syncOut.map SyncOut.channel = some name then s.clear else s) name d.channels
  unfold channel
  rw [hget]
  cases d.channels.get? name with
  | none => rfl
  | some s =>
    have hnumber : (if d.syncOut.map SyncOut.channel = some name then s.clear else s).number =
        s.number := by
      split <;> rfl
    exact congrArg next hnumber

theorem pulseChannels_withoutSyncEdits (A : Arithmetic) (d : Device) :
    (d.withoutSyncEdits.pulseChannels A).result = (d.pulseChannels A).result := by
  have hsync : d.withoutSyncEdits.syncOut = d.syncOut := rfl
  rw [result_pulseChannels, result_pulseChannels, bookedChannels_withoutSyncEdits, hsync]
  cases d.syncOut with
  | none => rfl
  | some sync =>
    exact bind_channel_withoutSyncEdits d sync.channel fun number =>
      (withSyncOut A d.bookedChannels number sync.frequency d.board.clock).result

/-- **A device assembles what it would assemble with nothing booked on the channel of its sync
clock.** -/
theorem assemble_withoutSyncEdits (A : Arithmetic) (d : Device) (loop : Option Nat) :
    (d.withoutSyncEdits.assemble A loop).result = (d.assemble A loop).result := by
  rw [result_assemble, result_assemble, pulseChannels_withoutSyncEdits]
  rfl

/-! ## What is booked -/

/-- A request that books on one channel alone, or that has to do with the program alone. -/
def Request.EditsOnly (name : String) : Request → Prop
  | .high other _ _ => other = name
  | .pulseTrain other _ _ => other = name
  | .compile _ => True
  | .clearProgram => True
  | _ => False

variable {name : String}

theorem withoutSyncEdits_of_book (hsync : d.syncOut.map SyncOut.channel = some name)
    {bs : List Booking} (h : d.book name bs = .ok d') :
    d'.withoutSyncEdits = d.withoutSyncEdits := by
  obtain ⟨s, s', hs, hs', rfl⟩ := book_eq_ok.mp h
  have hclear : s'.clear = s.clear := by
    unfold Schedule.clear
    rw [Schedule.number_of_insertAll hs']
  have hchannels := Table.map_put
    (fun e => (e.1, if d.syncOut.map SyncOut.channel = some e.1 then e.2.clear else e.2))
    (v := s') (channel_eq_ok.mp hs) (by simp only [hsync, if_true, hclear])
  unfold withoutSyncEdits
  rw [hchannels]

/-- The step: a request that books on the channel of the sync clock, or one about the program,
changes nothing else. -/
theorem withoutSyncEdits_perform (hsync : d.syncOut.map SyncOut.channel = some name) {r : Request}
    (hr : r.EditsOnly name) (h : (r.perform A).Runs d () d') :
    d'.withoutSyncEdits = d.withoutSyncEdits := by
  cases r with
  | high other time duration =>
    obtain rfl : other = name := hr
    obtain ⟨b, -, hbook⟩ := runs_high.mp h
    exact withoutSyncEdits_of_book hsync hbook
  | pulseTrain other starts lengths =>
    obtain rfl : other = name := hr
    obtain ⟨-, bs, -, hbook⟩ := runs_pulseTrain.mp h
    exact withoutSyncEdits_of_book hsync hbook
  | compile loop =>
    obtain ⟨p, -, rfl⟩ := runs_perform_compile.mp h
    rfl
  | clearProgram =>
    obtain rfl := runs_clearProgram.mp h
    rfl
  | addChannel | setPadding | addSyncOut | pulseWidth | clearEdits => exact hr.elim

/-- The run: nor do any number of them, successful or not. -/
theorem withoutSyncEdits_performAll (hsync : d.syncOut.map SyncOut.channel = some name)
    {rs : List Request} (hrs : ∀ r ∈ rs, r.EditsOnly name) :
    (d.performAll A rs).withoutSyncEdits = d.withoutSyncEdits := by
  induction rs generalizing d with
  | nil => rfl
  | cons r rs ih =>
    obtain ⟨hr, hrs⟩ := List.forall_mem_cons.mp hrs
    have hstep : (r.perform A d).2.withoutSyncEdits = d.withoutSyncEdits :=
      perform_keeps (motive := fun d₁ => d₁.withoutSyncEdits = d.withoutSyncEdits) rfl
        fun _ => withoutSyncEdits_perform hsync hr
    -- The sync clock is part of what is left, so it is the same for the requests to come.
    have hset : (r.perform A d).2.syncOut = d.syncOut := (congrArg syncOut hstep :)
    exact (ih (hset ▸ hsync) hrs).trans hstep

/-! ## Two devices -/

/-- **Bookings on the channel of the sync clock do not matter.** Two devices that differ in these
alone, and in the programs that they have, hand the same channels to the compiler, the sync clock
among them. They compile with the same answer or refuse for the same reason, and where they compile
they keep the same program and nothing else changes. -/
theorem compile_alike_of_sync_edits (h : d.withoutSyncEdits = d'.withoutSyncEdits)
    (loop : Option Nat) :
    (d.pulseChannels A).result = (d'.pulseChannels A).result ∧
      (compile A loop d).1.result = (compile A loop d').1.result ∧
      ∀ t, (compile A loop d).1.result = .ok t → ∃ p : Program, p.duration = t ∧
        (compile A loop d).2 = { d with program := some p, fresh := true } ∧
        (compile A loop d').2 = { d' with program := some p, fresh := true } := by
  have hchannels : (d.pulseChannels A).result = (d'.pulseChannels A).result := by
    rw [← pulseChannels_withoutSyncEdits, h, pulseChannels_withoutSyncEdits]
  have hassemble : (d.assemble A loop).result = (d'.assemble A loop).result := by
    rw [← assemble_withoutSyncEdits, h, assemble_withoutSyncEdits]
  have hresult : (compile A loop d).1.result = (compile A loop d').1.result := by
    rw [result_compile_apply, result_compile_apply, hassemble]
  refine ⟨hchannels, hresult, fun t ht => ?_⟩
  obtain ⟨p, hp, rfl, hd⟩ := runs_compile.mp ⟨ht, rfl⟩
  obtain ⟨p', hp', -, hd'⟩ := runs_compile.mp ⟨hresult.symm.trans ht, rfl⟩
  obtain rfl : p = p' := Except.ok.inj (hp.symm.trans (hassemble.trans hp'))
  exact ⟨p, rfl, hd, hd'⟩

/-- More pulses on the sync channel of `strobe`, one of them long after all others. -/
def lateRequests : List Request :=
  [.high "clk" (.finite 40) (.finite 200), .pulseTrain "clk" [.finite 5000] [.finite 1000]]

/-- `strobe` ends at 140 ns, also with a pulse at 6000 ns on the channel of its sync clock. -/
theorem strobe_compiles_alike :
    Reachable .binary64 strobe ∧ Reachable .binary64 (strobe.performAll .binary64 lateRequests) ∧
      (strobe.performAll .binary64 lateRequests).lastStop = 6000 ∧ strobe.lastStop = 90 ∧
      strobe.withoutSyncEdits =
        (strobe.performAll .binary64 lateRequests).withoutSyncEdits ∧
      (compile .binary64 (some 1) strobe).1.result = .ok 140 ∧
      (compile .binary64 (some 1) (strobe.performAll .binary64 lateRequests)).1.result =
        .ok 140 := by
  have hedits : ∀ r ∈ lateRequests, r.EditsOnly "clk" := by
    simp [lateRequests, Request.EditsOnly]
  have hsame : strobe.withoutSyncEdits =
      (strobe.performAll .binary64 lateRequests).withoutSyncEdits :=
    (withoutSyncEdits_performAll rfl hedits).symm
  have hcompiled : (compile .binary64 (some 1) strobe).1.result = .ok 140 := by
    rw [result_compile_apply, assemble_strobe]
    rfl
  obtain ⟨-, hresult, -⟩ := compile_alike_of_sync_edits (A := .binary64) hsame (some 1)
  exact ⟨reachable_strobe, reachable_strobe.performAll _, by decide +kernel, by decide, hsame,
    hcompiled, hresult.symm.trans hcompiled⟩

end Device

end PulseSequencer
