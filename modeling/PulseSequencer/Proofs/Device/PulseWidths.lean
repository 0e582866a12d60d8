import PulseSequencer.Proofs.Device.Channels
import PulseSequencer.Proofs.PulseTime

/-!
# Pulse widths of a device

Whatever was asked of a device before, compiling it keeps the widths of its pulses: the program
holds every output high for as long as the pulses on it last, and is made of whole clock periods.
A pulse that is too short for an instruction has its length in the field. So no pulse is lost.

* `encodeShort_on_clock`, `lost_eq_nil`: what short pulses are made of.
* `Notice.Harmless`, `Valid.harmless_perform`: no notice says that a pulse is lost.
* **`Reachable.compile_keeps_pulse_widths`**: the widths that a compilation keeps.
-/

namespace PulseSequencer

/-! ## Whole clock periods -/

namespace ShortPulse

variable {b : Board}

/-- The instruction of a group takes whole clock periods, and with an empty field more than the
least length. -/
theorem instruction_on_clock {g : Group} (hg : g.Formed b) :
    b.clock ∣ (g.instruction b).length ∧
      (periods (g.instruction b).flags b.bit = 0 →
        minLength b.clock < (g.instruction b).length) := by
  have hduration : b.clock ∣ Program.duration g.members := Program.dvd_duration fun i hi => by
    rcases List.mem_cons.mp hi with rfl | hi
    · exact hg.head.clock_dvd
    · exact (hg.absorbed i hi).1.clock_dvd
  refine ⟨?_, fun hempty => ?_⟩
  · rw [length_instruction]
    exact dvd_max hduration (Nat.dvd_mul_left _ _)
  · rw [flags_instruction, periods_groupFlags hg.head] at hempty
    by_cases hs : g.head.length ≤ minLength b.clock
    · rw [if_pos hs] at hempty
      exact absurd hempty (periods_of_short hg.head hs).1.ne'
    · rw [length_instruction_eq]
      omega

theorem encodeShort_on_clock {p : Program} (hp : ∀ i ∈ p, i.Plain b) :
    ∀ i ∈ p.encodeShort b, b.clock ∣ i.length ∧
      (periods i.flags b.bit = 0 → minLength b.clock < i.length) := by
  intro i hi
  obtain ⟨g, hg, rfl⟩ := mem_encodeShort.mp hi
  have htimed := instruction_on_clock (formed_groups hp g hg)
  unfold retarget
  split <;> exact htimed

/-- No pulse of a plain program is shorter than a clock period. -/
theorem lost_eq_nil {p : Program} (hp : ∀ i ∈ p, i.Plain b) : lost b p = [] := by
  rw [lost_eq, List.filter_eq_nil_iff]
  intro i hi
  obtain ⟨g, hg, rfl⟩ := List.mem_map.mp hi
  have hplain := (formed_groups hp g hg).head
  have hle := Nat.le_of_dvd hplain.length_pos hplain.clock_dvd
  simpa using hle

end ShortPulse

open ShortPulse

/-! ## Lost pulses -/

/-- A notice that does not say that a pulse is lost. -/
def Notice.Harmless : Notice → Prop
  | pulseLost _ _ => False
  | _ => True

theorem harmless_treatShort {config : Config} {b : Board} {p : Program} (h : lost b p = []) :
    (config.treatShort b p).Notes Notice.Harmless := by
  unfold Config.treatShort
  split
  · split
    · refine (Logged.notes_note trivial).bind fun _ _ => ?_
      unfold Program.encodeNoting
      rw [h]
      exact (Logged.notes_noteAll fun n hn => absurd hn List.not_mem_nil).bind fun _ _ =>
        Logged.notes_pure _
    · exact (Logged.notes_note trivial).bind fun _ _ => Logged.notes_pure p
  · exact Logged.notes_pure p

theorem harmless_noteListing (p : Program) : p.noteListing.Notes Notice.Harmless := by
  refine Logged.notes_noteAll fun n hn => ?_
  obtain ⟨line, -, rfl⟩ := List.mem_map.mp hn
  trivial

/-- A compilation whose program before short pulses loses none says so. -/
theorem harmless_compile {channels : List Channel} {config : Config}
    (h : ∀ b p, config.board = .ok b → config.layOut channels = .ok p → lost b p = []) :
    (compile channels config).Notes Notice.Harmless := by
  refine (Logged.notes_lift _).bind fun b hb => (Logged.notes_lift _).bind fun laidOut hlaid => ?_
  split
  · exact Logged.notes_pure []
  · exact (harmless_treatShort (h b laidOut hb hlaid)).bind fun p _ =>
      (Logged.notes_note trivial).bind fun _ _ =>
      (harmless_noteListing p).bind fun _ _ => Logged.notes_pure p

namespace Device

variable {A : Arithmetic} {d d' : Device}

/-! ## The program of a device -/

/-- The program of a valid device is plain before short pulses. -/
theorem Valid.plain (hd : d.Valid A) {channels : List Channel}
    (h : (d.pulseChannels A).result = .ok channels) {loop : Option Nat} {p : Program}
    (hp : (d.config loop).layOut channels = .ok p) : ∀ i ∈ p, i.Plain d.board := by
  refine plain_layOut (hd.separate h) (hd.onClock h) (fun padding hpadding => ?_)
    (board_config d loop) hp
  obtain rfl := Except.ok.inj hpadding
  exact hd.padding_dvd

/-- What a valid device keeps of its pulses. -/
theorem Valid.pulse_widths (hd : d.Valid A) {loop : Option Nat} {p : Program}
    (h : (d.assemble A loop).result = .ok p) :
    ∃ channels, (d.pulseChannels A).result = .ok channels ∧
      (∀ n, p.timeHigh d.board n = pulseTime channels n) ∧
      ∀ i ∈ p, d.board.clock ∣ i.length ∧
        (periods i.flags d.board.bit = 0 → minLength d.board.clock < i.length) := by
  obtain ⟨channels, laidOut, hchannels, hlaid, rfl⟩ := assemble_eq_ok.mp h
  have hplain := hd.plain hchannels hlaid
  have htime := timeHigh_layOut (hd.separate hchannels) hplain hlaid
  refine ⟨channels, hchannels, ?_⟩
  by_cases hshort : hasShort d.board.clock laidOut = true
  · rw [if_pos hshort]
    exact ⟨fun n => (timeHigh_encodeShort hplain n).trans (htime n), encodeShort_on_clock hplain⟩
  · have hlong := hasShort_eq_false.mp (Bool.eq_false_iff.mpr hshort)
    rw [if_neg hshort]
    exact ⟨htime, fun i hi => ⟨(hplain i hi).clock_dvd, fun _ => hlong i hi⟩⟩

/-! ## Notices -/

theorem harmless_withSyncOut {channels : List Channel} {number clock : Nat} {frequency : Number} :
    (withSyncOut A channels number frequency clock).Notes Notice.Harmless :=
  (Logged.notes_lift _).bind fun _ _ => (Logged.notes_lift _).bind fun _ _ =>
  (Logged.notes_note trivial).bind fun _ _ => (Logged.notes_lift _).bind fun _ _ =>
    Logged.notes_pure _

theorem harmless_pulseChannels : (d.pulseChannels A).Notes Notice.Harmless := by
  unfold pulseChannels
  split
  · refine (Logged.notes_lift _).bind fun s _ => ?_
    dsimp only
    split
    · exact (Logged.notes_note trivial).bind fun _ _ => harmless_withSyncOut
    · exact harmless_withSyncOut
  · exact Logged.notes_pure _

/-- Compiling a valid device loses no pulse. -/
theorem Valid.harmless_compile (hd : d.Valid A) (loop : Option Nat) :
    (Device.compile A loop).Notes Notice.Harmless d := by
  refine (Action.notes_get d).bind fun d₁ d₂ hget => ?_
  obtain ⟨rfl, rfl⟩ := Action.runs_get.mp hget
  refine (Action.notes_liftLogged ?_ _).bind fun p _ _ =>
    (Action.notes_liftLogged (Logged.notes_note trivial) _).bind fun _ _ _ =>
    (Action.notes_modify _ _).bind fun _ _ _ => Action.notes_pure _ _
  refine harmless_pulseChannels.bind fun channels hchannels => ?_
  refine PulseSequencer.harmless_compile fun b laidOut hb hlaid => ?_
  obtain rfl := Except.ok.inj ((board_config _ loop).symm.trans hb)
  exact lost_eq_nil (hd.plain hchannels hlaid)

theorem notes_bookAll {P : Notice → Prop} (name : String) (bs : List Booking) (d : Device) :
    (bookAll name bs).Notes P d :=
  (Action.notes_get d).bind fun _ _ _ => (Action.notes_liftExcept _ _).bind fun _ _ _ =>
    Action.notes_modify _ _

theorem harmless_pulseWidth (names : List String) (frequency dutyCycle : Number) (d : Device) :
    (pulseWidth A names frequency dutyCycle).Notes Notice.Harmless d := by
  have hknown : ∀ (d : Device) (name : String) (d₁ : Device),
      (do let _ ← (liftM (d.channel name) : Action Device Schedule)).Notes Notice.Harmless d₁ :=
    fun d name d₁ => (Action.notes_liftExcept _ _).bind fun _ _ _ => Action.notes_pure () _
  refine (Action.notes_liftExcept _ _).bind fun _ _ _ =>
    (Action.notes_liftExcept _ _).bind fun _ _ _ => (Action.notes_get _).bind fun d₁ _ _ =>
    (Action.notes_liftExcept _ _).bind fun padding _ _ =>
    (Action.Notes.forM (hknown d₁) names _).bind fun _ _ _ =>
    (Action.notes_liftExcept _ _).bind fun length _ _ => ?_
  by_cases hpos : 0 < length
  · rw [if_pos hpos]
    exact (Action.notes_liftExcept _ _).bind fun _ _ _ =>
      (Action.notes_liftExcept _ _).bind fun _ _ _ => Action.notes_modify _ _
  · rw [if_neg hpos]
    exact (Action.notes_liftLogged (Logged.notes_note trivial) _).bind fun _ _ _ =>
      (Action.notes_pure _ _).bind fun _ _ _ => Action.notes_modify _ _

/-- Whatever is asked of a valid device, no pulse is lost. -/
theorem Valid.harmless_perform (hd : d.Valid A) (r : Request) :
    (r.perform A).Notes Notice.Harmless d := by
  cases r with
  | addChannel name number =>
    refine (Action.notes_liftExcept _ d).bind fun _ _ _ => (Action.notes_get _).bind fun _ _ _ =>
      (Action.notes_liftExcept _ _).bind fun _ _ _ =>
      (Action.notes_liftExcept _ _).bind fun _ _ _ => ?_
    split
    · exact Action.notes_liftExcept _ _
    · exact Action.notes_modify _ _
  | high name time duration =>
    exact (Action.notes_get d).bind fun _ _ _ => (Action.notes_liftExcept _ _).bind fun b _ _ =>
      notes_bookAll name [b] _
  | pulseTrain name starts lengths =>
    exact (Action.notes_liftExcept _ d).bind fun _ _ _ => (Action.notes_get _).bind fun _ _ _ =>
      (Action.Notes.mapM (fun _ _ => Action.notes_liftExcept _ _) _ _).bind fun bs _ _ =>
        notes_bookAll name bs _
  | setPadding time =>
    exact (Action.notes_get d).bind fun _ _ _ => (Action.notes_liftExcept _ _).bind fun _ _ _ =>
      Action.notes_modify _ _
  | addSyncOut name frequency =>
    exact (Action.notes_get d).bind fun _ _ _ => (Action.notes_liftExcept _ _).bind fun _ _ _ =>
      (Action.notes_liftExcept _ _).bind fun _ _ _ => Action.notes_modify _ _
  | pulseWidth names frequency dutyCycle => exact harmless_pulseWidth names frequency dutyCycle d
  | compile loop => exact (hd.harmless_compile loop).bind fun _ _ _ => Action.notes_pure () _
  | clearEdits => exact Action.notes_modify _ d
  | clearProgram => exact Action.notes_modify _ d

/-! ## All reachable devices -/

/-- **Compiling a reachable device keeps the widths of its pulses.** Whatever was asked of the
device before, when it compiles its program holds each output high, in one pass and by the fields
and lengths of its instructions, for exactly as long as the pulses on it last together; every
instruction takes whole clock periods, and one with an empty field takes more than the least
length. And whatever is asked next, no notice says that a pulse is lost. -/
theorem Reachable.compile_keeps_pulse_widths (hd : Reachable A d) :
    (∀ loop t d', (Device.compile A loop).Runs d t d' →
      ∃ channels p, (d.pulseChannels A).result = .ok channels ∧ d'.program = some p ∧
        (∀ n, p.timeHigh d.board n = pulseTime channels n) ∧
        ∀ i ∈ p, d.board.clock ∣ i.length ∧
          (periods i.flags d.board.bit = 0 → minLength d.board.clock < i.length)) ∧
      ∀ (r : Request) (i : Instruction) (clock : Nat),
        .pulseLost i clock ∉ (r.perform A d).1.notices := by
  refine ⟨fun loop t d' hrun => ?_, fun r i clock hlost => ?_⟩
  · obtain ⟨p, hp, -, rfl⟩ := runs_compile.mp hrun
    obtain ⟨channels, hchannels, htime, hinstructions⟩ := hd.valid.pulse_widths hp
    exact ⟨channels, p, hchannels, rfl, htime, hinstructions⟩
  · exact hd.valid.harmless_perform r _ hlost

/-- A device with a pulse of one clock period on its only channel. -/
def blinker : Device where
  name := "pb"
  board := ⟨2, 21, by decide, by decide⟩
  padding := 100
  channels := [("led", { number := 0, bookings := [⟨⟨4, 2⟩, by decide⟩] })]

/-- The pulse of `blinker`, too short for an instruction, keeps its width. -/
theorem blinker_keeps_pulse_width :
    Reachable .binary64 blinker ∧
      ∃ (channels : List Channel) (d' : Device),
        (Device.compile .binary64 (some 1)).Runs blinker 112 d' ∧
        (blinker.pulseChannels .binary64).result = .ok channels ∧
        d'.program = some [.proceed (0 ||| 2 <<< 21) 10, ⟨1 ||| 1 <<< 21, .branch, 1, 102⟩] ∧
        ∀ n, Program.timeHigh blinker.board
          [.proceed (0 ||| 2 <<< 21) 10, ⟨1 ||| 1 <<< 21, .branch, 1, 102⟩] n =
            pulseTime channels n := by
  have hcreate : Device.create .binary64 "pb" (.finite 500000000) 21 =
      .ok { name := "pb", board := ⟨2, 21, by decide, by decide⟩ } := by decide +kernel
  have hreach : Reachable .binary64 blinker := by
    have hedited := Reachable.perform (.setPadding (.finite 100)) <|
      Reachable.perform (.high "led" (.finite 4) (.finite 2)) <|
      Reachable.perform (.addChannel "led" 0) <| Reachable.create hcreate
    have hsame : ((Request.setPadding (.finite 100)).perform .binary64
        ((Request.high "led" (.finite 4) (.finite 2)).perform .binary64
          ((Request.addChannel "led" 0).perform .binary64
            { name := "pb", board := ⟨2, 21, by decide, by decide⟩ }).2).2).2 = blinker := by
      decide +kernel
    exact hsame ▸ hedited
  have hrun : (Device.compile .binary64 (some 1)).Runs blinker 112 { blinker with
      program := some [.proceed (0 ||| 2 <<< 21) 10, ⟨1 ||| 1 <<< 21, .branch, 1, 102⟩],
      fresh := true } := ⟨by cbv, by cbv⟩
  obtain ⟨hwidths, -⟩ := hreach.compile_keeps_pulse_widths
  obtain ⟨channels, p, hchannels, hp, htime, -⟩ := hwidths _ _ _ hrun
  obtain rfl := Option.some.inj hp
  exact ⟨hreach, channels, _, hrun, hchannels, hp, htime⟩

end Device

end PulseSequencer
