import PulseSequencer.Proofs.FrontEnd
import PulseSequencer.Proofs.Waveform

/-!
# Programs on the clock

Channels whose pulses start and last for whole clock periods are laid out into plain instructions:
their flags are outputs below the short pulse field, and each lasts for some whole periods.

* `OnClock`: channels on the clock.
* `dvd_length_ofEdges`, `update_mem_of_ofEdges`: what the steps take from the edges.
* `flags_ofStepsFrom`, `length_mem_of_ofStepsFrom`: what the instructions take from the steps.
* `flags_layOut`: what holds of the flags of all channels, and is kept by exclusive or, holds of the
  flags of the program laid out.
* `flags_lt_layOut`: a program laid out has its short pulse fields empty.
* **`plain_layOut`**: the program laid out is plain.
-/

namespace PulseSequencer

/-- Channels whose pulses start and last for whole clock periods. -/
def OnClock (clock : Nat) (channels : List Channel) : Prop :=
  ∀ c ∈ channels, ∀ p ∈ c.pulses, clock ∣ p.start ∧ clock ∣ p.length

/-! ## Whole clock periods -/

theorem dvd_max {clock s t : Nat} (hs : clock ∣ s) (ht : clock ∣ t) : clock ∣ max s t := by
  rcases Nat.le_total s t with hle | hle
  · rw [Nat.max_eq_right hle]
    exact ht
  · rw [Nat.max_eq_left hle]
    exact hs

theorem dvd_latest {clock : Nat} {times : List Nat} (h : ∀ t ∈ times, clock ∣ t) :
    clock ∣ latest times := by
  induction times with
  | nil => exact Nat.dvd_zero clock
  | cons t times ih =>
    exact dvd_max (h t List.mem_cons_self) (ih fun t' ht' => h t' (List.mem_cons_of_mem t ht'))

theorem OnClock.dvd_lastEdge {clock : Nat} {channels : List Channel}
    (h : OnClock clock channels) : clock ∣ lastEdge channels := by
  refine dvd_latest fun t ht => ?_
  obtain ⟨c, hc, rfl⟩ := List.mem_map.mp ht
  refine dvd_latest fun t ht => ?_
  obtain ⟨p, hp, rfl⟩ := List.mem_map.mp ht
  exact Nat.dvd_add (h c hc p hp).1 (h c hc p hp).2

theorem Program.dvd_duration {clock : Nat} {p : Program} (h : ∀ i ∈ p, clock ∣ i.length) :
    clock ∣ p.duration := by
  induction p with
  | nil => exact Nat.dvd_zero clock
  | cons i p ih =>
    rw [Program.duration_cons]
    exact Nat.dvd_add (h i List.mem_cons_self) (ih fun j hj => h j (List.mem_cons_of_mem i hj))

/-! ## Edges and steps -/

theorem mem_edges {channels : List Channel} {e : Edge} (he : e ∈ edges channels) :
    e = ⟨0, 0⟩ ∨ ∃ c ∈ channels, ∃ p ∈ c.pulses,
      e.update = c.flags ∧ (e.time = p.start ∨ e.time = p.stop) := by
  rcases List.mem_cons.mp ((edges_perm channels).mem_iff.mp he) with rfl | he
  · exact Or.inl rfl
  · right
    obtain ⟨c, hc, he⟩ := List.mem_flatMap.mp he
    obtain ⟨p, hp, he⟩ := List.mem_flatMap.mp he
    refine ⟨c, hc, p, hp, ?_⟩
    rcases List.mem_cons.mp he with rfl | he
    · exact ⟨rfl, Or.inl rfl⟩
    · rw [List.mem_singleton.mp he]
      exact ⟨rfl, Or.inr rfl⟩

theorem dvd_length_ofEdges {clock padding : Nat} (hpad : clock ∣ padding) : ∀ {es : List Edge},
    (∀ e ∈ es, clock ∣ e.time) → ∀ s ∈ Step.ofEdges padding es, clock ∣ s.length
  | [], _, _, hs => absurd hs List.not_mem_nil
  | [_], _, s, hs => by
    rw [Step.ofEdges, List.mem_singleton] at hs
    rw [hs]
    exact hpad
  | a :: b :: es, h, s, hs => by
    rw [Step.ofEdges] at hs
    have hrest : ∀ e ∈ b :: es, clock ∣ e.time := fun e he => h e (List.mem_cons_of_mem a he)
    rcases List.mem_cons.mp hs with rfl | hs
    · exact Nat.dvd_sub (hrest b List.mem_cons_self) (h a List.mem_cons_self)
    · exact dvd_length_ofEdges hpad hrest s hs

theorem update_mem_of_ofEdges {padding : Nat} : ∀ {es : List Edge} {s : Step},
    s ∈ Step.ofEdges padding es → ∃ e ∈ es, e.update = s.update
  | [], _, hs => absurd hs List.not_mem_nil
  | [a], s, hs => by
    rw [Step.ofEdges, List.mem_singleton] at hs
    rw [hs]
    exact ⟨a, List.mem_cons_self, rfl⟩
  | a :: b :: es, s, hs => by
    rw [Step.ofEdges] at hs
    rcases List.mem_cons.mp hs with rfl | hs
    · exact ⟨a, List.mem_cons_self, rfl⟩
    · obtain ⟨e, he, heq⟩ := update_mem_of_ofEdges hs
      exact ⟨e, List.mem_cons_of_mem a he, heq⟩

/-! ## Plain programs -/

/-- What holds of the flags to begin with and of all toggles, and is kept by exclusive or, holds of
all instructions. -/
theorem flags_ofStepsFrom {P : Flags → Prop} (hxor : ∀ a b, P a → P b → P (a ^^^ b)) {flags : Flags}
    {ss : List Step} (hflags : P flags) (hss : ∀ s ∈ ss, P s.update) :
    ∀ i ∈ Program.ofStepsFrom flags ss, P i.flags := by
  induction ss generalizing flags with
  | nil => exact fun _ hi => absurd hi List.not_mem_nil
  | cons s ss ih =>
    have hnext : P (flags ^^^ s.update) := hxor _ _ hflags (hss s List.mem_cons_self)
    have hrest := ih hnext fun t ht => hss t (List.mem_cons_of_mem s ht)
    intro i hi
    simp only [Program.ofStepsFrom] at hi
    split at hi
    · exact hrest i hi
    · rcases List.mem_cons.mp hi with rfl | hi
      · exact hnext
      · exact hrest i hi

/-- Every instruction lasts for a step. -/
theorem length_mem_of_ofStepsFrom {flags : Flags} {ss : List Step} {i : Instruction}
    (hi : i ∈ Program.ofStepsFrom flags ss) : ∃ s ∈ ss, s.length = i.length := by
  induction ss generalizing flags with
  | nil => exact absurd hi List.not_mem_nil
  | cons s ss ih =>
    simp only [Program.ofStepsFrom] at hi
    split at hi
    · obtain ⟨t, ht, hlen⟩ := ih hi
      exact ⟨t, List.mem_cons_of_mem s ht, hlen⟩
    · rcases List.mem_cons.mp hi with rfl | hi
      · exact ⟨s, List.mem_cons_self, rfl⟩
      · obtain ⟨t, ht, hlen⟩ := ih hi
        exact ⟨t, List.mem_cons_of_mem s ht, hlen⟩

theorem Flags.toNat_output {n : Nat} (h : n < wordBits) : (output n).toNat = 2 ^ n := by
  have hlt : 2 ^ n < 2 ^ wordBits := Nat.pow_lt_pow_right (by omega) h
  unfold output
  rw [BitVec.toNat_shiftLeft, Nat.shiftLeft_eq]
  show 1 * 2 ^ n % 2 ^ wordBits = 2 ^ n
  rw [Nat.one_mul, Nat.mod_eq_of_lt hlt]

/-- A channel of one output below `bit` has no flags from `bit` on. -/
theorem Channel.flags_lt {c : Channel} (hone : ∃ n, n < wordBits ∧ c.flags = Flags.output n)
    {bit : Nat} (hbit : c.number < bit) : c.flags.toNat < 2 ^ bit := by
  obtain ⟨n, hn, hflags⟩ := hone
  unfold Channel.number at hbit
  rw [hflags, Flags.lowest_output hn] at hbit
  rw [hflags, Flags.toNat_output hn]
  exact Nat.pow_lt_pow_right (by omega) hbit

/-- What holds of the flags of all channels, and is kept by exclusive or, holds of the flags of the
program laid out. -/
theorem flags_layOut {P : Flags → Prop} (hzero : P 0) (hxor : ∀ a b, P a → P b → P (a ^^^ b))
    {channels : List Channel} {config : Config} {p : Program}
    (hchannels : ∀ c ∈ channels, c.number < config.bit → P c.flags)
    (h : config.layOut channels = .ok p) : ∀ i ∈ p, P i.flags := by
  obtain ⟨haccepted, padding, -, hclose⟩ := Config.layOut_eq_ok.mp h
  have hupdates : ∀ s ∈ steps channels padding, P s.update := by
    intro s hs
    obtain ⟨e, he, heq⟩ := update_mem_of_ofEdges hs
    rw [← heq]
    rcases mem_edges he with rfl | ⟨c, hc, p, -, hupdate, -⟩
    · exact hzero
    · rw [hupdate]
      exact hchannels c hc (haccepted c hc).1
  intro i hi
  obtain ⟨j, hj, he⟩ := Program.exists_of_stretches (Config.stretches_close hclose) hi
  rw [← (Prod.mk.inj he).1]
  exact flags_ofStepsFrom hxor hzero hupdates j hj

/-- Channels of one output each are laid out into instructions with an empty field. -/
theorem flags_lt_layOut {channels : List Channel} {config : Config} {p : Program}
    (hone : ∀ c ∈ channels, ∃ n, n < wordBits ∧ c.flags = Flags.output n)
    (h : config.layOut channels = .ok p) : ∀ i ∈ p, i.flags.toNat < 2 ^ config.bit := by
  refine flags_layOut (P := fun flags => flags.toNat < 2 ^ config.bit) (Nat.two_pow_pos _)
    (fun a b ha hb => ?_) (fun c hc hnumber => Channel.flags_lt (hone c hc) hnumber) h
  rw [BitVec.toNat_xor]
  exact Nat.xor_lt_two_pow ha hb

/-- The outputs of a program laid out are outputs of its channels. -/
theorem exists_isHigh_of_layOut {channels : List Channel} {config : Config} {p : Program}
    (h : config.layOut channels = .ok p) {i : Instruction} (hi : i ∈ p) {n : Nat}
    (hn : i.flags.isHigh n = true) : ∃ c ∈ channels, c.flags.isHigh n = true := by
  refine flags_layOut (P := fun flags => flags.isHigh n = true →
    ∃ c ∈ channels, c.flags.isHigh n = true) (fun hzero => ?_) (fun a b ha hb hxor => ?_)
    (fun c hc _ hc' => ⟨c, hc, hc'⟩) h i hi hn
  · simp [Flags.isHigh] at hzero
  · rw [Flags.isHigh_xor] at hxor
    cases hhigh : a.isHigh n with
    | true => exact ha hhigh
    | false => exact hb (by simpa [hhigh] using hxor)

/-- **Channels on the clock are laid out into plain instructions.** -/
theorem plain_layOut {channels : List Channel} {config : Config} {b : Board} {p : Program}
    (hsep : Separate channels) (hclock : OnClock config.clock channels)
    (hpad : ∀ padding, config.extent.paddingAfter (lastEdge channels) = .ok padding →
      config.clock ∣ padding)
    (hb : config.board = .ok b) (h : config.layOut channels = .ok p) : ∀ i ∈ p, i.Plain b := by
  obtain ⟨hbclock, hbbit⟩ := Config.board_eq_ok.mp hb
  have hflags := flags_lt_layOut hsep.one_output h
  obtain ⟨-, padding, hpadding, hclose⟩ := Config.layOut_eq_ok.mp h
  have htimes : ∀ e ∈ edges channels, b.clock ∣ e.time := by
    intro e he
    rw [hbclock]
    rcases mem_edges he with rfl | ⟨c, hc, p, hp, -, htime | htime⟩
    · exact Nat.dvd_zero _
    · rw [htime]
      exact (hclock c hc p hp).1
    · rw [htime]
      exact Nat.dvd_add (hclock c hc p hp).1 (hclock c hc p hp).2
  intro i hi
  obtain ⟨j, hj, he⟩ := Program.exists_of_stretches (Config.stretches_close hclose) hi
  obtain ⟨s, hs, hlen⟩ := length_mem_of_ofStepsFrom hj
  have hlength : j.length = i.length := (Prod.mk.inj he).2
  refine ⟨hbbit ▸ hflags i hi, hlength ▸ length_pos_of_mem_ofStepsFrom hj, ?_⟩
  rw [← hlength, ← hlen]
  exact dvd_length_ofEdges (hbclock ▸ hpad padding hpadding) htimes s hs

end PulseSequencer
