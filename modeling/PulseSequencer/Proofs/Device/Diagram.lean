import PulseSequencer.Proofs.Device.Freshness
import PulseSequencer.Proofs.Diagram
import PulseSequencer.Proofs.Groups

/-!
# Diagrams of devices

A device keeps its program while it is edited, and draws it with the names of the channels that it
has by then. No output of the program is without a name, and no two share one: the program comes
from channels that were registered when it was compiled, no request takes a registered channel
away, and names and outputs are both unique.

* `Device.outputs`: the registered outputs.
* `Device.Covers`: all outputs of a program are registered.
* `Device.RegisteredAs`: the name of an output.

Results:
* `mem_outputs_of_pulseChannels`, `covers_assemble`: what is compiled is registered.
* `outputs_perform`: no request takes an output away.
* `Reachable.covers`: so the outputs of the stored program stay registered.
* **`Reachable.diagram_lines`**: the lines of a diagram.
-/

namespace PulseSequencer

namespace Device

/-- The outputs that are registered, in the order of their channels. -/
def outputs (d : Device) : List Nat := d.channels.map fun e => e.2.number

/-- Output `n` is registered under `name`, and by one channel only. -/
def RegisteredAs (d : Device) (n : Nat) (name : String) : Prop :=
  ∃ s, (name, s) ∈ d.channels ∧ s.number = n ∧ ∀ e ∈ d.channels, e.2.number = n → e = (name, s)

/-- All outputs that a program uses are registered. -/
def Covers (d : Device) (p : Program) : Prop := ∀ n ∈ p.outputsUsed d.board.bit, n ∈ d.outputs

variable {A : Arithmetic} {d d' : Device}

/-! ## What is compiled is registered -/

theorem mem_outputs_of_channel {name : String} {s : Schedule} (h : d.channel name = .ok s) :
    s.number ∈ d.outputs :=
  List.mem_map_of_mem (f := fun e : String × Schedule => e.2.number)
    (Table.mem_of_get? (channel_eq_ok.mp h))

theorem mem_outputs_of_bookedChannels {c : Channel} (h : c ∈ d.bookedChannels) :
    ∃ n ∈ d.outputs, c.flags = Flags.output n := by
  obtain ⟨e, he, -, rfl⟩ := mem_bookedChannels h
  exact ⟨e.2.number, List.mem_map_of_mem he, rfl⟩

/-- The channels that go to the compiler, the sync clock among them, drive registered outputs. -/
theorem mem_outputs_of_pulseChannels {channels : List Channel}
    (h : (d.pulseChannels A).result = .ok channels) {c : Channel} (hc : c ∈ channels) :
    ∃ n ∈ d.outputs, c.flags = Flags.output n := by
  rcases pulseChannels_eq_ok.mp h with ⟨-, rfl⟩ | ⟨sync, s, -, hs, h⟩
  · exact mem_outputs_of_bookedChannels hc
  · obtain ⟨period, rounded, clock, -, -, hclock, rfl⟩ := withSyncOut_eq_ok.mp h
    rcases List.mem_append.mp hc with hc | hc
    · obtain ⟨c₁, hc₁, rfl⟩ := List.mem_map.mp hc
      exact mem_outputs_of_bookedChannels (c := c₁) hc₁
    · obtain ⟨-, -, -, ss, ls, -, -, rfl, -⟩ := ofTimes_eq_ok.mp hclock
      rw [List.mem_singleton.mp hc]
      exact ⟨s.number, mem_outputs_of_channel hs, rfl⟩

/-- **A device covers the program that it compiles.** -/
theorem covers_assemble {loop : Option Nat} {p : Program}
    (h : (d.assemble A loop).result = .ok p) : d.Covers p := by
  obtain ⟨channels, laidOut, hchannels, hlaid, rfl⟩ := assemble_eq_ok.mp h
  have hcovers : d.Covers laidOut := by
    intro n hn
    obtain ⟨-, -, i, hi, hhigh⟩ := Program.mem_outputsUsed.mp hn
    obtain ⟨c, hc, hhigh⟩ := exists_isHigh_of_layOut hlaid hi hhigh
    obtain ⟨m, hm, hflags⟩ := mem_outputs_of_pulseChannels hchannels hc
    rw [hflags, Flags.isHigh_output, Bool.and_eq_true, beq_iff_eq] at hhigh
    exact hhigh.2 ▸ hm
  split
  · intro n hn
    rw [outputsUsed_encodeShort] at hn
    exact hcovers n hn
  · exact hcovers

/-! ## What requests leave -/

/-- What a request does to outputs and program: outputs are added at most, and the program is kept,
forgotten, or the one compiled. -/
theorem outputs_perform {r : Request} (h : (r.perform A).Runs d () d') :
    d.outputs <+: d'.outputs ∧ ∀ p, d'.program = some p →
      d.program = some p ∨ ∃ loop, (d.assemble A loop).result = .ok p := by
  obtain ⟨name, number, rfl⟩ | ⟨loop, rfl⟩ | ⟨hkept, -⟩ := perform_cases h
  · obtain ⟨-, -, hnew, -, rfl⟩ := runs_addChannel.mp h
    refine ⟨?_, fun p hp => Or.inl hp⟩
    unfold outputs
    rw [Table.put_of_get?_eq_none hnew, List.map_append]
    exact List.prefix_append _ _
  · obtain ⟨p, hp, rfl⟩ := runs_perform_compile.mp h
    exact ⟨List.prefix_rfl, fun q hq => Or.inr ⟨loop, Option.some.inj hq ▸ hp⟩⟩
  · have houtputs : d'.outputs = d.outputs := hkept.numbers
    exact ⟨houtputs ▸ List.prefix_rfl, fun p hp => Or.inl (hkept.program p hp)⟩

/-- The run: the outputs of the stored program stay registered. -/
theorem Reachable.covers (h : Reachable A d) : ∀ p, d.program = some p → d.Covers p := by
  refine h.keeps (motive := fun d => ∀ p, d.program = some p → d.Covers p)
    (fun name frequency bit d hd p hp => ?_) fun r d d' hd hr p hp n hn => ?_
  · obtain ⟨-, period, board, -, -, rfl⟩ := create_eq_ok.mp hd
    cases hp
  · obtain ⟨hadded, hprogram⟩ := outputs_perform hr
    rw [board_perform hr] at hn
    refine hadded.subset ?_
    rcases hprogram p hp with hkept | ⟨loop, hcompiled⟩
    · exact hd p hkept n hn
    · exact covers_assemble hcompiled n hn

/-! ## The names of outputs -/

theorem Valid.registeredAs (hd : d.Valid A) {e : String × Schedule} (he : e ∈ d.channels) :
    d.RegisteredAs e.2.number e.1 :=
  ⟨e.2, he, rfl, fun _ he' hsame => List.inj_on_of_nodup_map hd.numbers_nodup he' he hsame⟩

/-- A valid device names every output as it is registered. -/
theorem Valid.registeredAs_lineName (hd : d.Valid A) {n : Nat} (hn : n ∈ d.outputs) :
    d.RegisteredAs n (Style.lineName d.outputNames n) := by
  have hkeys : (d.channels.map fun e => (e.2.number, e.1)).map Prod.fst =
      d.channels.map fun e => e.2.number := List.map_map
  have hnodup : ((d.channels.map fun e => (e.2.number, e.1)).map Prod.fst).Nodup :=
    hkeys ▸ hd.numbers_nodup
  have hnames : d.outputNames = d.channels.map fun e => (e.2.number, e.1) :=
    Table.ofList_of_nodup hnodup
  obtain ⟨e, he, rfl⟩ := List.mem_map.mp hn
  have hname : d.outputNames.get? e.2.number = some e.1 := by
    rw [hnames]
    exact Table.get?_of_mem hnodup (List.mem_map_of_mem (f := fun e => (e.2.number, e.1)) he)
  rw [Style.lineName, hname]
  exact hd.registeredAs he

/-- A name belongs to one output. -/
theorem Valid.eq_of_registeredAs (hd : d.Valid A) {n m : Nat} {name : String}
    (hn : d.RegisteredAs n name) (hm : d.RegisteredAs m name) : n = m := by
  obtain ⟨s, hs, rfl, -⟩ := hn
  obtain ⟨s', hs', rfl, -⟩ := hm
  have hsame : (name, s) = (name, s') := List.inj_on_of_nodup_map hd.names_nodup hs hs' rfl
  rw [(Prod.mk.inj hsame).2]

/-- **No channel disappears from a diagram.** Whatever was asked of a device, in any order and
successfully or not, where it holds a program, fresh or stale, it draws it. There is one line for
each output below the short pulse field that is high in some instruction, in ascending order, and no
other line. It is the line of this output in the program, under the one name by which the output is
registered, and no two lines have the same name. -/
theorem Reachable.diagram_lines (hd : Reachable A d) {p : Program} (hp : d.program = some p) :
    ∃ (outputs : List Nat) (lines : Table String (List Vertex)), d.diagram = .ok lines ∧
      outputs.Pairwise (· < ·) ∧
      (∀ n, n ∈ outputs ↔ n < d.board.bit ∧ ∃ i ∈ p, i.flags.isHigh n = true) ∧
      List.Forall₂ (fun n line => d.RegisteredAs n line.1 ∧
        line.2 = { clock := d.board.clock, bit := d.board.bit : Style }.line n p) outputs lines ∧
      lines.keys.Nodup := by
  have hvalid := hd.valid
  have hregistered : ∀ n ∈ p.outputsUsed d.board.bit,
      d.RegisteredAs n (Style.lineName d.outputNames n) :=
    fun n hn => hvalid.registeredAs_lineName (hd.covers p hp n hn)
  have hnames : ((p.outputsUsed d.board.bit).map (Style.lineName d.outputNames)).Nodup := by
    refine List.Nodup.map_on (fun n hn m hm hsame => ?_) (List.nodup_range.filter _)
    exact hvalid.eq_of_registeredAs (hregistered n hn) (hsame ▸ hregistered m hm)
  have hlines := Style.lines_of_nodup
    (s := { clock := d.board.clock, bit := d.board.bit : Style }) hnames
  have hcompiled : d.compiled = .ok p := by
    unfold compiled
    rw [hp]
  refine ⟨p.outputsUsed d.board.bit, (p.outputsUsed d.board.bit).map fun n =>
    (Style.lineName d.outputNames n,
      { clock := d.board.clock, bit := d.board.bit : Style }.line n p), ?_, ?_, fun n => ?_, ?_, ?_⟩
  · unfold diagram
    rw [hcompiled, ok_bind, hlines]
    rfl
  · exact List.pairwise_lt_range.filter _
  · rw [Program.mem_outputsUsed]
    refine and_congr Iff.rfl ⟨And.right, fun hused => ⟨?_, hused⟩⟩
    obtain ⟨i, -, hi⟩ := hused
    exact BitVec.lt_of_getLsbD hi
  · rw [List.forall₂_map_right_iff, List.forall₂_same]
    exact fun n hn => ⟨hregistered n hn, rfl⟩
  · rw [Table.keys, List.map_map]
    exact hnames

/-- `spareStrobe` with a pulse booked on the channel registered last. Its program is stale. -/
def staleStrobe : Device := { spareStrobe with
  channels := strobe.channels ++
    [("spare", { number := 3, bookings := [⟨⟨0, 25⟩, by decide⟩] })]
  fresh := false }

theorem reachable_staleStrobe : Reachable .binary64 staleStrobe := by
  have hbooked : ((Request.high "spare" (.finite 0) (.finite 25)).perform .binary64
      spareStrobe).2 = staleStrobe := by decide +kernel
  exact hbooked ▸ .perform _ reachable_spareStrobe

/-- The stale program has a line for the channel with the pulse and one for the sync clock, and none
for the channel on which nothing was booked yet. -/
theorem staleStrobe_diagram_lines :
    Reachable .binary64 staleStrobe ∧ staleStrobe.program = some strobeProgram ∧
      staleStrobe.isFresh = false ∧
      ∃ (outputs : List Nat) (lines : Table String (List Vertex)),
        staleStrobe.diagram = .ok lines ∧ lines.keys = ["aom", "clk"] ∧
        (∀ n, n ∈ outputs ↔ n < 8 ∧ ∃ i ∈ strobeProgram, i.flags.isHigh n = true) ∧
        List.Forall₂ (fun n line => staleStrobe.RegisteredAs n line.1 ∧
          line.2 = Style.line { clock := 5, bit := 8 } n strobeProgram) outputs lines := by
  obtain ⟨outputs, lines, hlines, -, houtputs, hnamed, -⟩ :=
    reachable_staleStrobe.diagram_lines (p := strobeProgram) rfl
  have hkeys : staleStrobe.diagram.map Table.keys = .ok ["aom", "clk"] := by decide +kernel
  rw [hlines] at hkeys
  exact ⟨reachable_staleStrobe, rfl, rfl, outputs, lines, hlines, Except.ok.inj hkeys, houtputs,
    hnamed⟩

end Device

end PulseSequencer
