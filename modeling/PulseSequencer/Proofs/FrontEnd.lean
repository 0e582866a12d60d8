import PulseSequencer.Proofs.Stages
import PulseSequencer.Proofs.Timeline

/-!
# The front end: channels and the program that drives them

A program laid out from channels with an output each drives an output exactly while a pulse on it
lasts. That takes two facts about what is accepted: the pulses of a channel are apart, so that its
toggles switch it on and off in turn, and no two channels share an output, so that exclusive or is
the same as or.

* `Pulse.Apart`: pulses that do not overlap. Touching pulses are apart.
* `Separate`: channels with one output each, all different.
* `litAt`: the outputs of the channels of which a pulse lasts.

Results:
* `pairwise_apart_of_clash?`: a channel that passes the overlap check has its pulses apart.
* `clash?_eq_none_of_ordered`: pulses in the order of time pass it.
* `toggledAt_eq_litAt`: on separate channels whose pulses are apart, what lasts is what is lit.
* **`compile_leave_drives_lit`**: compiled without short pulses, a program lasts up to the last edge
  and for its padding, has no empty instruction, and drives at every time what is lit then.
-/

namespace PulseSequencer

/-! ## Pulses apart -/

/-- Two pulses that do not overlap: one stops before the other starts, or as it does. -/
def Pulse.Apart (p q : Pulse) : Prop := p.stop ≤ q.start ∨ q.stop ≤ p.start

theorem Pulse.Apart.symm {p q : Pulse} (h : p.Apart q) : q.Apart p := Or.symm h

/-- Neighbours in order that do not clash leave all pulses in order apart. -/
theorem pairwise_stop_le_start : ∀ {ps : List Pulse}, Pulse.firstClash ps = none →
    ps.Pairwise fun p q => p.stop ≤ q.start
  | [], _ => List.Pairwise.nil
  | [p], _ => List.pairwise_singleton _ p
  | p :: q :: rest, h => by
    simp only [Pulse.firstClash] at h
    split at h
    · exact absurd h (by simp)
    · rename_i hpq
      have hrest := pairwise_stop_le_start h
      refine List.Pairwise.cons (fun r hr => ?_) hrest
      have hq := q.start_le_stop
      rcases List.mem_cons.mp hr with rfl | hr
      · omega
      · have := List.rel_of_pairwise_cons hrest hr
        omega

/-- **The overlap check is sound**: a channel that passes it has its pulses apart. -/
theorem pairwise_apart_of_clash? {c : Channel} (h : c.clash? = none) :
    c.pulses.Pairwise Pulse.Apart :=
  ((List.mergeSort_perm _ _).pairwise_iff Pulse.Apart.symm).mp
    ((pairwise_stop_le_start h).imp Or.inl)

theorem Pulse.firstClash_eq_none : ∀ {ps : List Pulse},
    ps.Pairwise (fun p q => p.stop ≤ q.start) → firstClash ps = none
  | [], _ => rfl
  | [_], _ => rfl
  | p :: q :: rest, h => by
    have hpq : p.stop ≤ q.start := List.rel_of_pairwise_cons h List.mem_cons_self
    rw [firstClash, if_neg (Nat.not_lt.mpr hpq)]
    exact firstClash_eq_none h.of_cons

/-- **Pulses in the order of time pass the overlap check**: sorting leaves them as they are. -/
theorem Channel.clash?_eq_none_of_ordered {c : Channel}
    (h : c.pulses.Pairwise fun p q => p.stop ≤ q.start) : c.clash? = none := by
  have hsorted : c.pulses.Pairwise fun p q => Pulse.upTo p q = true := by
    refine h.imp fun {p q} hpq => ?_
    have hp := p.start_le_stop
    have hq := q.start_le_stop
    simp only [Pulse.upTo, Bool.or_eq_true, Bool.and_eq_true, decide_eq_true_eq]
    omega
  unfold clash?
  rw [List.mergeSort_of_pairwise hsorted]
  exact Pulse.firstClash_eq_none h

/-- Of two pulses apart only one lasts. -/
theorem Pulse.Apart.lasts_eq_false {p q : Pulse} (h : p.Apart q) {time : Nat}
    (hp : p.lasts time = true) : q.lasts time = false := by
  unfold Pulse.Apart at h
  simp only [Pulse.lasts, Bool.and_eq_true, decide_eq_true_eq] at hp
  simp only [Pulse.lasts, Bool.and_eq_false_iff, decide_eq_false_iff_not]
  omega

/-! ## What is lit -/

/-- Whether a pulse of the channel lasts at `time`. -/
def Channel.isLit (c : Channel) (time : Nat) : Bool := c.pulses.any fun p => p.lasts time

/-- The or of some words. -/
def Flags.orAll (ws : List Flags) : Flags := ws.foldr (· ||| ·) 0

/-- The outputs of the channels of which a pulse lasts at `time`. -/
def litAt (channels : List Channel) (time : Nat) : Flags :=
  Flags.orAll ((channels.filter fun c => c.isLit time).map Channel.flags)

/-- Channels with one output each, and no two of them the same. -/
structure Separate (channels : List Channel) : Prop where
  one_output : ∀ c ∈ channels, ∃ n, n < wordBits ∧ c.flags = Flags.output n
  distinct : (channels.map Channel.flags).Nodup

theorem Separate.of_cons {c : Channel} {channels : List Channel} (h : Separate (c :: channels)) :
    Separate channels :=
  ⟨fun d hd => h.one_output d (List.mem_cons_of_mem c hd), (List.nodup_cons.mp h.distinct).2⟩

theorem Flags.isHigh_orAll {ws : List Flags} {n : Nat} :
    (orAll ws).isHigh n = true ↔ ∃ w ∈ ws, w.isHigh n = true := by
  induction ws with
  | nil => simp [orAll, isHigh]
  | cons w ws ih =>
    have hstep : orAll (w :: ws) = w ||| orAll ws := rfl
    rw [hstep, isHigh_or, Bool.or_eq_true, ih, List.exists_mem_cons_iff]

/-- Words without a common output have the same or as exclusive or. -/
theorem Flags.xor_eq_or {a b : Flags} (h : ∀ n, a.isHigh n = true → b.isHigh n = false) :
    a ^^^ b = a ||| b := by
  apply BitVec.eq_of_getLsbD_eq
  intro n _
  have hn := h n
  unfold isHigh at hn
  rw [BitVec.getLsbD_xor, BitVec.getLsbD_or]
  cases ha : a.getLsbD n
  · simp
  · simp [hn ha]

theorem litAt_cons (c : Channel) (channels : List Channel) (time : Nat) :
    litAt (c :: channels) time = (if c.isLit time then c.flags else 0) ||| litAt channels time := by
  unfold litAt
  rw [List.filter_cons]
  by_cases h : c.isLit time = true <;> simp [h, Flags.orAll]

theorem isHigh_litAt {channels : List Channel} {time n : Nat} :
    (litAt channels time).isHigh n = true ↔
      ∃ c ∈ channels, c.isLit time = true ∧ c.flags.isHigh n = true := by
  unfold litAt
  rw [Flags.isHigh_orAll]
  simp only [List.mem_map, List.mem_filter]
  constructor
  · rintro ⟨_, ⟨c, ⟨hc, hl⟩, rfl⟩, hn⟩
    exact ⟨c, hc, hl, hn⟩
  · rintro ⟨c, hc, hl, hn⟩
    exact ⟨_, ⟨c, ⟨hc, hl⟩, rfl⟩, hn⟩

/-- Two words of one output each that share an output are the same. -/
theorem Flags.output_eq_of_isHigh {k m n : Nat} (hk : (output k).isHigh n = true)
    (hm : (output m).isHigh n = true) : output k = output m := by
  rw [isHigh_output, Bool.and_eq_true, beq_iff_eq] at hk hm
  rw [hk.2, hm.2]

/-- On separate channels no output belongs to two of them. -/
theorem Separate.isHigh_eq_false {c : Channel} {channels : List Channel}
    (hsep : Separate (c :: channels)) {n : Nat} (hn : c.flags.isHigh n = true) {d : Channel}
    (hd : d ∈ channels) : d.flags.isHigh n = false := by
  rw [Bool.eq_false_iff]
  intro hdn
  obtain ⟨k, -, hk⟩ := hsep.one_output c List.mem_cons_self
  obtain ⟨m, -, hm⟩ := hsep.one_output d (List.mem_cons_of_mem c hd)
  have hsame : c.flags = d.flags := by
    rw [hk] at hn ⊢
    rw [hm] at hdn ⊢
    exact Flags.output_eq_of_isHigh hn hdn
  exact (List.nodup_cons.mp hsep.distinct).1 (hsame ▸ List.mem_map_of_mem hd)

theorem Separate.isHigh_litAt_eq_false {c : Channel} {channels : List Channel}
    (hsep : Separate (c :: channels)) {n : Nat} (hn : c.flags.isHigh n = true) (time : Nat) :
    (litAt channels time).isHigh n = false := by
  rw [Bool.eq_false_iff]
  intro hlit
  obtain ⟨d, hd, -, hdn⟩ := isHigh_litAt.mp hlit
  exact Bool.false_ne_true ((hsep.isHigh_eq_false hn hd).symm.trans hdn)

/-- A channel whose pulses are apart is toggled while it is lit. -/
theorem Channel.toggledAt_eq {c : Channel} (h : c.pulses.Pairwise Pulse.Apart) (time : Nat) :
    c.toggledAt time = if c.isLit time then c.flags else 0 := by
  obtain ⟨flags, pulses⟩ := c
  unfold toggledAt isLit
  induction pulses with
  | nil => rfl
  | cons p pulses ih =>
    rw [List.filter_cons, List.any_cons]
    by_cases hp : p.lasts time = true
    · have hnone : (pulses.filter fun q => q.lasts time) = [] := by
        rw [List.filter_eq_nil_iff]
        intro q hq
        rw [(List.rel_of_pairwise_cons h hq).lasts_eq_false hp]
        exact Bool.false_ne_true
      simp [hp, hnone]
    · have hp' : p.lasts time = false := by simpa using hp
      simpa [hp'] using ih h.of_cons

/-- **On separate channels whose pulses are apart, what lasts is what is lit.** -/
theorem toggledAt_eq_litAt {channels : List Channel} (hsep : Separate channels)
    (hapart : ∀ c ∈ channels, c.pulses.Pairwise Pulse.Apart) (time : Nat) :
    toggledAt channels time = litAt channels time := by
  induction channels with
  | nil => rfl
  | cons c channels ih =>
    have hstep : toggledAt (c :: channels) time = c.toggledAt time ^^^ toggledAt channels time :=
      rfl
    rw [hstep, ih hsep.of_cons fun d hd => hapart d (List.mem_cons_of_mem c hd),
      Channel.toggledAt_eq (hapart c List.mem_cons_self), litAt_cons]
    by_cases hl : c.isLit time = true
    · rw [if_pos hl]
      exact Flags.xor_eq_or fun n hn => hsep.isHigh_litAt_eq_false hn time
    · rw [if_neg hl]
      simp

/-- From the last edge on nothing is lit. -/
theorem litAt_eq_zero {channels : List Channel} {time : Nat} (h : lastEdge channels ≤ time) :
    litAt channels time = 0 := by
  have hnone : (channels.filter fun c => c.isLit time) = [] := by
    rw [List.filter_eq_nil_iff]
    intro c hc
    unfold Channel.isLit
    rw [List.any_eq_true]
    rintro ⟨p, hp, hlasts⟩
    rw [lasts_eq_false hc hp h] at hlasts
    exact Bool.false_ne_true hlasts
  rw [litAt, hnone]
  rfl

/-! ## The program laid out -/

theorem Program.flagsAt?_eq_of_stretches : ∀ {p q : Program}, p.stretches = q.stretches →
    ∀ t, p.flagsAt? t = q.flagsAt? t
  | [], [], _, _ => rfl
  | [], _ :: _, h, _ => absurd h (by simp [stretches])
  | _ :: _, [], h, _ => absurd h (by simp [stretches])
  | i :: p, j :: q, h, t => by
    obtain ⟨hij, hpq⟩ := List.cons.inj h
    obtain ⟨hf, hl⟩ := Prod.mk.inj hij
    rw [flagsAt?_cons, flagsAt?_cons, hf, hl, flagsAt?_eq_of_stretches hpq]

/-- A program laid out lasts up to the last edge and for its padding. -/
theorem duration_layOut {channels : List Channel} {config : Config} {p : Program}
    (h : config.layOut channels = .ok p) :
    ∃ padding, config.extent.paddingAfter (lastEdge channels) = .ok padding ∧
      p.duration = lastEdge channels + padding := by
  obtain ⟨-, padding, hpad, hclose⟩ := Config.layOut_eq_ok.mp h
  refine ⟨padding, hpad, ?_⟩
  rw [Program.duration_eq_of_stretches (Config.stretches_close hclose), duration_ofSteps]

/-- What a laid out program drives, and for how long. -/
theorem layOut_drives_lit {channels : List Channel} {config : Config} {p : Program}
    (hsep : Separate channels) (h : config.layOut channels = .ok p) :
    (∀ i ∈ p, 0 < i.length) ∧
      (∃ padding, config.extent.paddingAfter (lastEdge channels) = .ok padding ∧
        p.duration = lastEdge channels + padding) ∧
      ∀ t, t < p.duration → p.flagsAt? t = some (litAt channels t) := by
  obtain ⟨haccepted, padding, -, hclose⟩ := Config.layOut_eq_ok.mp h
  have hsame := Config.stretches_close hclose
  have hdur := duration_ofSteps channels padding
  rw [← Program.duration_eq_of_stretches hsame] at hdur
  refine ⟨fun i hi => ?_, duration_layOut h, fun t ht => ?_⟩
  · obtain ⟨j, hj, he⟩ := Program.exists_of_stretches hsame hi
    rw [← (Prod.mk.inj he).2]
    exact length_pos_of_mem_ofStepsFrom hj
  · rw [Program.flagsAt?_eq_of_stretches hsame, flagsAt?_ofSteps (hdur ▸ ht),
      toggledAt_eq_litAt hsep fun c hc => pairwise_apart_of_clash? (haccepted c hc).2]

/-- A total extent is what the last edge and its padding come to. -/
theorem Extent.add_paddingAfter {lastEdge total padding : Nat}
    (h : (Extent.total total).paddingAfter lastEdge = .ok padding) :
    lastEdge + padding = total := by
  simp only [paddingAfter] at h
  split at h
  · obtain rfl := Except.ok.inj h
    omega
  · exact absurd h (by simp)

/-- **The front end is right.** Whatever channels with different outputs are compiled without short
pulses, looped or not: no instruction is empty; the program lasts up to the last edge and for its
padding, which is the whole of a total extent; and at every time before its end the outputs of the
channels of which a pulse lasts are high, and no others. From the last edge on all are low. -/
theorem compile_leave_drives_lit {channels : List Channel} {config : Config} {p : Program}
    (hsep : Separate channels) (hmode : config.mode = .leave)
    (h : (compile channels config).result = .ok p) :
    (∀ i ∈ p, 0 < i.length) ∧
      (∃ padding, config.extent.paddingAfter (lastEdge channels) = .ok padding ∧
        p.duration = lastEdge channels + padding) ∧
      (∀ total, config.extent = .total total → p.duration = total) ∧
      (∀ t, t < p.duration → p.flagsAt? t = some (litAt channels t)) ∧
      ∀ t, lastEdge channels ≤ t → t < p.duration → p.flagsAt? t = some 0 := by
  obtain ⟨b, laidOut, -, hlaid, rfl⟩ := compile_eq_ok.mp h
  rw [if_neg fun h => by simp [hmode] at h]
  obtain ⟨hpos, ⟨padding, hpad, hdur⟩, hlit⟩ := layOut_drives_lit hsep hlaid
  refine ⟨hpos, ⟨padding, hpad, hdur⟩, fun total htotal => ?_, hlit, fun t hlast ht => ?_⟩
  · rw [hdur]
    rw [htotal] at hpad
    exact Extent.add_paddingAfter hpad
  · rw [hlit t ht, litAt_eq_zero hlast]

/-- Two channels with edges at one time, touching pulses, a pulse without length and a loop. -/
theorem touching_pulses_drive_lit :
    ∃ channels config p, Separate channels ∧ config.mode = .leave ∧
      (compile channels config).result = .ok p ∧ p.duration = 52 ∧
        p.flagsAt? 15 = some 0b11 ∧ p.flagsAt? 16 = some 0b10 ∧ p.flagsAt? 30 = some 0 := by
  let channels : List Channel :=
    [⟨Flags.output 0, [⟨6, 10⟩, ⟨0, 0⟩]⟩, ⟨Flags.output 1, [⟨16, 14⟩, ⟨2, 14⟩]⟩]
  let config : Config := { extent := .total 52, loop := some 1, mode := .leave }
  have hsep : Separate channels :=
    ⟨by simpa [channels] using ⟨⟨0, by decide, rfl⟩, ⟨1, by decide, rfl⟩⟩, by decide⟩
  have hcompiled : (compile channels config).result = .ok [.proceed 0 2, .proceed 0b10 4,
      .proceed 0b11 10, .proceed 0b10 14, ⟨0, .branch, 1, 22⟩] := by cbv
  obtain ⟨-, -, htotal, hlit, hlow⟩ := compile_leave_drives_lit hsep rfl hcompiled
  exact ⟨channels, config, _, hsep, rfl, hcompiled, htotal 52 rfl, hlit 15 (by decide),
    hlit 16 (by decide), hlow 30 (by decide) (by decide)⟩

end PulseSequencer
