import Mathlib.Tactic
import PulseSequencer.Timeline

/-!
# What the program of a timeline drives

The program of some channels lasts for `lastEdge channels + padding`, and at every time before its
end it drives the exclusive or of the flags of all pulses that last at that time. Nothing is asked
of the channels: outputs may be shared, pulses may overlap, touch or have no length.

* `Program.at?`, `Program.flagsAt?`: the instruction that runs at a time, and its flags.
* `toggled`: what the edges up to a time have toggled. The order of the edges does not matter
  (`toggled_perm`).
* `toggledAt`: the exclusive or of the flags of the pulses that last.
* `flaggedPulses`: the pulses of all channels with their flags, in one list.

Results:
* `flagsAt?_ofStepsFrom`: along edges in the order of time, the program holds at each time what
  the edges up to it have toggled.
* `toggled_edges`: the edges up to a time leave toggled what lasts at it.
* `duration_ofSteps`, `flagsAt?_ofSteps`: the two together, for the program of some channels.
* **`timeline_drives_xor`**: the same from the lengths and updates in lists of their own.
-/

namespace PulseSequencer

/-! ## The instruction that runs -/

namespace Program

/-- The instruction that runs at `time`; from the end of the program on there is none. -/
def at? : Program → Nat → Option Instruction
  | [], _ => none
  | i :: rest, time => if time < i.length then some i else at? rest (time - i.length)

/-- The flags of the instruction that runs at `time`. -/
def flagsAt? (p : Program) (time : Nat) : Option Flags := (p.at? time).map (·.flags)

theorem flagsAt?_cons (i : Instruction) (p : Program) (t : Nat) :
    flagsAt? (i :: p) t = if t < i.length then some i.flags else flagsAt? p (t - i.length) := by
  unfold flagsAt?
  rw [at?]
  split <;> rfl

end Program

/-! ## Exclusive or over a list -/

/-- The exclusive or of some words. -/
def Flags.xorAll (ws : List Flags) : Flags := ws.foldr (· ^^^ ·) 0

namespace Flags

theorem zero_xor (w : Flags) : 0 ^^^ w = w := BitVec.zero_xor

@[simp] theorem xorAll_nil : xorAll [] = 0 := rfl

@[simp] theorem xorAll_cons (w : Flags) (ws : List Flags) :
    xorAll (w :: ws) = w ^^^ xorAll ws := rfl

@[simp] theorem xorAll_append (ws vs : List Flags) :
    xorAll (ws ++ vs) = xorAll ws ^^^ xorAll vs := by
  induction ws with
  | nil => simp
  | cons w ws ih => simp [ih, BitVec.xor_assoc]

theorem xorAll_perm {ws vs : List Flags} (h : ws.Perm vs) : xorAll ws = xorAll vs := by
  induction h with
  | nil => rfl
  | cons w _ ih => rw [xorAll_cons, xorAll_cons, ih]
  | swap w v ws =>
    simp only [xorAll_cons, ← BitVec.xor_assoc]
    rw [BitVec.xor_comm v w]
  | trans _ _ ih₁ ih₂ => exact ih₁.trans ih₂

end Flags

/-! ## The sweep along the edges -/

/-- What the edges up to `time` have toggled. -/
def toggled (time : Nat) (es : List Edge) : Flags :=
  Flags.xorAll ((es.filter fun e => e.time ≤ time).map Edge.update)

theorem toggled_cons (time : Nat) (e : Edge) (es : List Edge) :
    toggled time (e :: es) = (if e.time ≤ time then e.update else 0) ^^^ toggled time es := by
  unfold toggled
  rw [List.filter_cons]
  by_cases h : e.time ≤ time <;> simp [h]

theorem toggled_append (time : Nat) (es fs : List Edge) :
    toggled time (es ++ fs) = toggled time es ^^^ toggled time fs := by
  simp [toggled]

theorem toggled_perm {es fs : List Edge} (h : es.Perm fs) (time : Nat) :
    toggled time es = toggled time fs :=
  Flags.xorAll_perm ((h.filter _).map _)

/-- Edges that are all still to come have toggled nothing. -/
theorem toggled_eq_zero {time : Nat} {es : List Edge} (h : ∀ e ∈ es, time < e.time) :
    toggled time es = 0 := by
  have hnone : (es.filter fun e => e.time ≤ time) = [] := by
    rw [List.filter_eq_nil_iff]
    intro e he
    have := h e he
    simp only [decide_eq_true_eq]
    omega
  rw [toggled, hnone]
  rfl

/-- The times of a list of edges in order. -/
abbrev Chronological (es : List Edge) : Prop := es.Pairwise fun a b => a.time ≤ b.time

/-- Before the first edge nothing is toggled. -/
theorem Chronological.toggled_eq_zero {time : Nat} {a : Edge} {es : List Edge}
    (h : Chronological (a :: es)) (ht : time < a.time) : toggled time (a :: es) = 0 := by
  refine PulseSequencer.toggled_eq_zero fun e he => Nat.lt_of_lt_of_le ht ?_
  rcases List.mem_cons.mp he with rfl | he
  · exact le_rfl
  · exact List.rel_of_pairwise_cons h he

theorem duration_ofStepsFrom (flags : Flags) (ss : List Step) :
    (Program.ofStepsFrom flags ss).duration = (ss.map Step.length).sum := by
  induction ss generalizing flags with
  | nil => rfl
  | cons s ss ih =>
    simp only [Program.ofStepsFrom, List.map_cons, List.sum_cons]
    split
    · rename_i h
      rw [ih, h, Nat.zero_add]
    · rw [Program.duration_cons, ih]
      rfl

theorem length_pos_of_mem_ofStepsFrom {flags : Flags} {ss : List Step} {i : Instruction}
    (hi : i ∈ Program.ofStepsFrom flags ss) : 0 < i.length := by
  induction ss generalizing flags with
  | nil => exact absurd hi List.not_mem_nil
  | cons s ss ih =>
    simp only [Program.ofStepsFrom] at hi
    split at hi
    · exact ih hi
    · rename_i h
      rcases List.mem_cons.mp hi with rfl | hi
      · exact Nat.pos_of_ne_zero h
      · exact ih hi

/-- The steps last from the first edge to the latest one, and for the padding. -/
theorem time_add_sum_ofEdges (padding : Nat) : ∀ (a : Edge) (es : List Edge),
    Chronological (a :: es) →
      a.time + ((Step.ofEdges padding (a :: es)).map Step.length).sum =
        latest ((a :: es).map Edge.time) + padding
  | a, [], _ => by simp [Step.ofEdges]
  | a, b :: es, h => by
    have hab : a.time ≤ b.time := List.rel_of_pairwise_cons h List.mem_cons_self
    have ih := time_add_sum_ofEdges padding b es h.of_cons
    simp only [Step.ofEdges, List.map_cons, List.sum_cons, latest_cons] at ih ⊢
    omega

/-- **The sweep.** Along edges in the order of time, the program that begins with the outputs at
`flags` holds, at each time before its end, `flags` with all toggles up to that time. -/
theorem flagsAt?_ofStepsFrom (padding : Nat) : ∀ (a : Edge) (es : List Edge) (flags : Flags)
    (t : Nat), Chronological (a :: es) →
      t < ((Step.ofEdges padding (a :: es)).map Step.length).sum →
        (Program.ofStepsFrom flags (Step.ofEdges padding (a :: es))).flagsAt? t =
          some (flags ^^^ toggled (a.time + t) (a :: es))
  | a, [], flags, t, _, ht => by
    have hpad : padding ≠ 0 := by simp [Step.ofEdges] at ht; omega
    have ht' : t < padding := by simpa [Step.ofEdges] using ht
    simp [Step.ofEdges, Program.ofStepsFrom, hpad, Program.flagsAt?_cons, Instruction.proceed,
      ht', toggled]
  | a, b :: es, flags, t, h, ht => by
    have hab : a.time ≤ b.time := List.rel_of_pairwise_cons h List.mem_cons_self
    have ih := flagsAt?_ofStepsFrom padding b es (flags ^^^ a.update)
    simp only [Step.ofEdges, List.map_cons, List.sum_cons] at ht
    simp only [Step.ofEdges, Program.ofStepsFrom]
    rw [toggled_cons, if_pos (Nat.le_add_right _ _), ← BitVec.xor_assoc]
    by_cases hlen : b.time - a.time = 0
    · -- two edges at one time: no instruction between them
      have hat : a.time + t = b.time + t := by omega
      rw [if_pos hlen, hat]
      exact ih t h.of_cons (by omega)
    · rw [if_neg hlen, Program.flagsAt?_cons]
      by_cases hin : t < b.time - a.time
      · have hnone : toggled (a.time + t) (b :: es) = 0 :=
          Chronological.toggled_eq_zero h.of_cons (by omega)
        simp [Instruction.proceed, hin, hnone]
      · have hat : a.time + t = b.time + (t - (b.time - a.time)) := by omega
        simp only [Instruction.proceed, hin, if_false]
        rw [hat]
        exact ih _ h.of_cons (by omega)

/-! ## The latest of some times -/

theorem latest_le_iff {times : List Nat} {n : Nat} : latest times ≤ n ↔ ∀ t ∈ times, t ≤ n := by
  induction times with
  | nil => simp
  | cons t times ih => rw [latest_cons, Nat.max_le, ih, List.forall_mem_cons]

theorem latest_mem {times : List Nat} (h : 0 < latest times) : latest times ∈ times := by
  induction times with
  | nil => exact absurd h (Nat.lt_irrefl 0)
  | cons t times ih =>
    rw [latest_cons] at h ⊢
    rcases Nat.le_total (latest times) t with hle | hle
    · rw [Nat.max_eq_left hle]
      exact List.mem_cons_self
    · rw [Nat.max_eq_right hle] at h ⊢
      exact List.mem_cons_of_mem t (ih h)

/-- The latest of some times is the greatest of them. -/
theorem isGreatest_latest {times : List Nat} (h : times ≠ []) :
    IsGreatest {t | t ∈ times} (latest times) := by
  refine ⟨?_, fun t ht => le_latest ht⟩
  rcases Nat.eq_zero_or_pos (latest times) with hzero | hpos
  · obtain ⟨t, ht⟩ := List.exists_mem_of_ne_nil times h
    have hle := le_latest ht
    rw [hzero] at hle ⊢
    exact Nat.le_zero.mp hle ▸ ht
  · exact latest_mem hpos

theorem latest_append (ts us : List Nat) : latest (ts ++ us) = max (latest ts) (latest us) := by
  induction ts with
  | nil => simp
  | cons t ts ih => simp [ih, Nat.max_assoc]

theorem latest_perm {ts us : List Nat} (h : ts.Perm us) : latest ts = latest us := by
  induction h with
  | nil => rfl
  | cons t _ ih => rw [latest_cons, latest_cons, ih]
  | swap t u ts => simp only [latest_cons]; omega
  | trans _ _ ih₁ ih₂ => exact ih₁.trans ih₂

/-! ## The edges of channels -/

/-- The exclusive or of the flags of all pulses of a channel that last at `time`. -/
def Channel.toggledAt (c : Channel) (time : Nat) : Flags :=
  Flags.xorAll ((c.pulses.filter fun p => p.lasts time).map fun _ => c.flags)

/-- The exclusive or of the flags of all pulses that last at `time`. -/
def toggledAt (channels : List Channel) (time : Nat) : Flags :=
  Flags.xorAll (channels.map fun c => c.toggledAt time)

/-- A pulse toggles its outputs twice: once it has started and not stopped, they are high. -/
theorem toggled_pulse (time : Nat) (flags : Flags) (p : Pulse) :
    toggled time [⟨p.start, flags⟩, ⟨p.stop, flags⟩] = if p.lasts time then flags else 0 := by
  have hle := p.start_le_stop
  simp only [toggled_cons, Pulse.lasts, Bool.and_eq_true, decide_eq_true_eq]
  by_cases hstart : p.start ≤ time
  · by_cases hstop : p.stop ≤ time
    · have : ¬ time < p.stop := by omega
      simp [hstart, hstop, this, toggled]
    · have : time < p.stop := by omega
      simp [hstart, hstop, this, toggled]
  · have : ¬ p.stop ≤ time := by omega
    simp [hstart, this, toggled]

theorem toggled_channelEdges (c : Channel) (time : Nat) :
    toggled time c.edges = c.toggledAt time := by
  obtain ⟨flags, pulses⟩ := c
  unfold Channel.edges Channel.toggledAt
  induction pulses with
  | nil => rfl
  | cons p pulses ih =>
    rw [List.flatMap_cons, toggled_append, ih, toggled_pulse, List.filter_cons]
    by_cases h : p.lasts time <;> simp [h]

/-- **What the edges up to a time have toggled is what lasts at it.** -/
theorem toggled_edges (channels : List Channel) (time : Nat) :
    toggled time (edges channels) = toggledAt channels time := by
  rw [toggled_perm (edges_perm channels), toggled_cons]
  rw [if_pos (Nat.zero_le _), Flags.zero_xor]
  induction channels with
  | nil => rfl
  | cons c channels ih =>
    rw [List.flatMap_cons, toggled_append, ih, toggled_channelEdges]
    rfl

/-- No pulse stops after the last edge. -/
theorem stop_le_lastEdge {channels : List Channel} {c : Channel} {p : Pulse} (hc : c ∈ channels)
    (hp : p ∈ c.pulses) : p.stop ≤ lastEdge channels := by
  have hstop : p.stop ≤ c.lastStop := le_latest (List.mem_map_of_mem hp)
  exact hstop.trans (le_latest (List.mem_map_of_mem hc))

theorem lastEdge_append (xs ys : List Channel) :
    lastEdge (xs ++ ys) = max (lastEdge xs) (lastEdge ys) := by
  unfold lastEdge
  rw [List.map_append, latest_append]

theorem lastEdge_le_iff {channels : List Channel} {time : Nat} :
    lastEdge channels ≤ time ↔ ∀ c ∈ channels, ∀ p ∈ c.pulses, p.stop ≤ time := by
  simp only [lastEdge, Channel.lastStop, latest_le_iff, List.forall_mem_map]

/-- Unless it is at time zero the last edge is the end of a pulse. -/
theorem exists_stop_eq_lastEdge {channels : List Channel} (h : 0 < lastEdge channels) :
    ∃ c ∈ channels, ∃ p ∈ c.pulses, p.stop = lastEdge channels := by
  obtain ⟨c, hc, hlast⟩ := List.mem_map.mp (latest_mem h)
  have hpos : 0 < c.lastStop := Nat.lt_of_lt_of_eq h hlast.symm
  obtain ⟨p, hp, hstop⟩ := List.mem_map.mp (latest_mem hpos)
  exact ⟨c, hc, p, hp, hstop.trans hlast⟩

/-- From the last edge on nothing lasts. -/
theorem lasts_eq_false {channels : List Channel} {c : Channel} {p : Pulse} {time : Nat}
    (hc : c ∈ channels) (hp : p ∈ c.pulses) (h : lastEdge channels ≤ time) :
    p.lasts time = false := by
  have := stop_le_lastEdge hc hp
  simp only [Pulse.lasts, Bool.and_eq_false_iff, decide_eq_false_iff_not]
  omega

/-! ## The program of some channels -/

theorem latest_channelEdges (c : Channel) : latest (c.edges.map Edge.time) = c.lastStop := by
  obtain ⟨flags, pulses⟩ := c
  unfold Channel.edges Channel.lastStop
  induction pulses with
  | nil => rfl
  | cons p pulses ih =>
    have hle := p.start_le_stop
    simp only [List.flatMap_cons, List.map_append, List.map_cons, List.map_nil, latest_append,
      latest_cons, latest_nil, ih]
    omega

/-- The latest of the edges is the end of the latest pulse. -/
theorem latest_edges (channels : List Channel) :
    latest ((edges channels).map Edge.time) = lastEdge channels := by
  rw [latest_perm ((edges_perm channels).map Edge.time), List.map_cons, latest_cons,
    Nat.zero_max]
  unfold lastEdge
  induction channels with
  | nil => rfl
  | cons c channels ih =>
    rw [List.flatMap_cons, List.map_append, latest_append, ih, latest_channelEdges, List.map_cons,
      latest_cons]

/-- The first edge is at time zero. -/
theorem edges_eq_cons (channels : List Channel) :
    ∃ a es, edges channels = a :: es ∧ a.time = 0 := by
  have hmem : (⟨0, 0⟩ : Edge) ∈ edges channels :=
    (edges_perm channels).mem_iff.mpr List.mem_cons_self
  cases h : edges channels with
  | nil =>
    rw [h] at hmem
    exact absurd hmem List.not_mem_nil
  | cons a es =>
    have hsorted : Chronological (a :: es) := h ▸ pairwise_edges channels
    rw [h] at hmem
    refine ⟨a, es, rfl, ?_⟩
    rcases List.mem_cons.mp hmem with rfl | hmem
    · rfl
    · exact Nat.le_zero.mp (List.rel_of_pairwise_cons hsorted hmem)

/-- **The program of some channels lasts up to the last edge and for the padding.** -/
theorem duration_ofSteps (channels : List Channel) (padding : Nat) :
    (Program.ofSteps (steps channels padding)).duration = lastEdge channels + padding := by
  obtain ⟨a, es, h, ha⟩ := edges_eq_cons channels
  have hsorted : Chronological (a :: es) := h ▸ pairwise_edges channels
  have hsum := time_add_sum_ofEdges padding a es hsorted
  rw [← h, latest_edges, ha, Nat.zero_add] at hsum
  exact (duration_ofStepsFrom 0 _).trans hsum

/-- **The program of some channels drives what lasts**: at every time before its end the exclusive
or of the flags of the pulses that last then. -/
theorem flagsAt?_ofSteps {channels : List Channel} {padding t : Nat}
    (ht : t < lastEdge channels + padding) :
    (Program.ofSteps (steps channels padding)).flagsAt? t = some (toggledAt channels t) := by
  obtain ⟨a, es, h, ha⟩ := edges_eq_cons channels
  have hsorted : Chronological (a :: es) := h ▸ pairwise_edges channels
  have hsum : ((Step.ofEdges padding (a :: es)).map Step.length).sum =
      lastEdge channels + padding := by
    rw [← duration_ofSteps, Program.ofSteps, steps, h, duration_ofStepsFrom]
  have hsweep := flagsAt?_ofStepsFrom padding a es 0 t hsorted (hsum ▸ ht)
  rw [ha, Nat.zero_add, Flags.zero_xor, ← h, toggled_edges] at hsweep
  exact hsweep

/-! ## Lengths and updates apart -/

/-- The pulses of all channels, each with the flags of its channel. -/
def flaggedPulses (channels : List Channel) : List (Flags × Pulse) :=
  channels.flatMap fun c => c.pulses.map fun p => (c.flags, p)

theorem toggledAt_eq_xorAll (channels : List Channel) (time : Nat) :
    toggledAt channels time = Flags.xorAll
      (((flaggedPulses channels).filter fun (_, p) => p.lasts time).map Prod.fst) := by
  induction channels with
  | nil => rfl
  | cons c channels ih =>
    have hstep : toggledAt (c :: channels) time = c.toggledAt time ^^^ toggledAt channels time :=
      rfl
    have hfirst : c.toggledAt time = Flags.xorAll
        (((c.pulses.map fun p => (c.flags, p)).filter fun (_, p) => p.lasts time).map Prod.fst) := by
      rw [List.filter_map, List.map_map]
      rfl
    rw [hstep, ih, hfirst, ← Flags.xorAll_append, ← List.map_append, ← List.filter_append]
    rfl

/-- From the last edge on nothing is toggled. -/
theorem toggledAt_eq_zero {channels : List Channel} {time : Nat}
    (h : lastEdge channels ≤ time) : toggledAt channels time = 0 := by
  have hnone : (flaggedPulses channels).filter (fun (_, p) => p.lasts time) = [] := by
    rw [List.filter_eq_nil_iff]
    rintro ⟨flags, p⟩ hq
    obtain ⟨c, hc, hflagged⟩ := List.mem_flatMap.mp hq
    obtain ⟨p', hp, hsame⟩ := List.mem_map.mp hflagged
    obtain ⟨rfl, rfl⟩ := Prod.mk.inj hsame
    simpa using lasts_eq_false hc hp h
  rw [toggledAt_eq_xorAll, hnone]
  rfl

/-- There are two edges for each pulse, and the first one. -/
theorem length_steps (channels : List Channel) (padding : Nat) :
    (steps channels padding).length = 2 * (flaggedPulses channels).length + 1 := by
  rw [steps, Step.length_ofEdges, (edges_perm channels).length_eq, List.length_cons]
  congr 1
  induction channels with
  | nil => rfl
  | cons c channels ih =>
    have hfirst : c.edges.length = 2 * c.pulses.length := by
      simp [Channel.edges, List.length_flatMap, Nat.mul_comm]
    rw [List.flatMap_cons, List.length_append, ih, hfirst]
    simp [flaggedPulses, Nat.mul_add]

/-- Steps come back from the lists of their lengths and updates. -/
theorem Step.ofLists_map (ss : List Step) :
    Step.ofLists (ss.map Step.length) (ss.map Step.update) = .ok ss := by
  rw [ofLists, if_pos (by rw [List.length_map, List.length_map]), List.zipWith_map,
    List.zipWith_self, List.map_id']

/-- **A timeline drives what lasts, whatever its channels are.** Their flags may be any words, their
outputs may be shared, and their pulses may stand in any order, overlap, touch or have no length.
There are as many lengths as updates: one for each edge, and one for time zero. The lengths add up
to the last edge and the padding, and so does the program made from the two lists. None of its
instructions is empty, and at every time before its end it drives the exclusive or of the flags of
all pulses that have started and not stopped. So all outputs are low during the padding. -/
theorem timeline_drives_xor (channels : List Channel) (padding : Nat) :
    let lengths := (steps channels padding).map Step.length
    let updates := (steps channels padding).map Step.update
    lengths.length = updates.length ∧
      lengths.length = 2 * (flaggedPulses channels).length + 1 ∧
      lengths.sum = lastEdge channels + padding ∧
      ∃ ss, Step.ofLists lengths updates = .ok ss ∧
        (∀ i ∈ Program.ofSteps ss, 0 < i.length) ∧
        (Program.ofSteps ss).duration = lastEdge channels + padding ∧
        (∀ t, t < lastEdge channels + padding →
          (Program.ofSteps ss).flagsAt? t = some (Flags.xorAll
            (((flaggedPulses channels).filter fun (_, p) =>
              p.start ≤ t && t < p.start + p.length).map Prod.fst))) ∧
        ∀ t, lastEdge channels ≤ t → t < lastEdge channels + padding →
          (Program.ofSteps ss).flagsAt? t = some 0 := by
  intro lengths updates
  have hlength : lengths.length = 2 * (flaggedPulses channels).length + 1 := by
    rw [List.length_map, length_steps]
  have hsum : lengths.sum = lastEdge channels + padding := by
    rw [← duration_ofSteps, Program.ofSteps, duration_ofStepsFrom]
  refine ⟨by rw [List.length_map, List.length_map], hlength, hsum, steps channels padding,
    Step.ofLists_map _, fun i hi => length_pos_of_mem_ofStepsFrom hi,
    duration_ofSteps channels padding, fun t ht => ?_, fun t hlast ht => ?_⟩
  · rw [flagsAt?_ofSteps ht, toggledAt_eq_xorAll]
    rfl
  · rw [flagsAt?_ofSteps ht, toggledAt_eq_zero hlast]

/-- Words that share an output, on pulses that overlap and one without length. At 6 ns three of the
pulses last. -/
theorem tangled_pulses_drive_xor :
    let channels : List Channel := [⟨0b11, [⟨5, 10⟩, ⟨0, 10⟩]⟩, ⟨0b1, [⟨8, 0⟩, ⟨3, 4⟩]⟩]
    ∃ ss, Step.ofLists ((steps channels 7).map Step.length) ((steps channels 7).map Step.update) =
        .ok ss ∧
      (Program.ofSteps ss).flagsAt? 6 = some 0b1 ∧ (Program.ofSteps ss).flagsAt? 21 = some 0 := by
  intro channels
  obtain ⟨-, -, -, ss, hss, -, -, hdrives, hlow⟩ := timeline_drives_xor channels 7
  exact ⟨ss, hss, hdrives 6 (by decide), hlow 21 (by decide) (by decide)⟩

end PulseSequencer
