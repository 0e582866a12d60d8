import PulseSequencer.Proofs.Encoding
import PulseSequencer.Proofs.Overlaps

/-!
# The answer to a compilation

Which requests are compiled, and for what the others are refused. The checks come in a fixed order,
and the first one that fails gives the error: the clock and the short pulse field of the board, each
channel in turn for its output and then for its pulses, the extent, and the target of the loop. How
many instructions there are to branch to can be told from the times of the edges alone.

* `instants`, `stretchCount`: the times of the edges, and the number of instructions between them.
* `Channel.Sound`, `Channel.Fault`: what is asked of a channel, and what is wrong with it.
* `Config.strayTarget?`: the target of a loop behind the last instruction.
* `Config.Answers`: the answer, as the first of all these that applies.

Results:
* `length_ofTimes`, `length_ofSteps`: the program has an instruction for each instant but the last
  one, and one for the padding.
* `layOut_of_find?`: the first channel that is not sound gives the error.
* `compile_ne_emptyProgram`: there is always something to loop.
* **`compile_answers`**: a compilation has that answer.
-/

namespace PulseSequencer

/-! ## The number of instructions -/

/-- The times of all edges: the beginning, and the starts and stops of the pulses. -/
def instants (channels : List Channel) : Finset Nat :=
  (0 :: channels.flatMap fun c => c.pulses.flatMap fun p => [p.start, p.stop]).toFinset

/-- The number of instants before the last edge, and one more for a padding. -/
def stretchCount (channels : List Channel) (padding : Nat) : Nat :=
  ((instants channels).filter (· < lastEdge channels)).card + if 0 < padding then 1 else 0

/-- In order, there is an instruction for each time but the last one, which has one when the padding
lasts. -/
theorem Program.length_ofTimes (padding : Nat) (w : Nat → Flags) : ∀ (t : Nat) (times : List Nat),
    (t :: times).Pairwise (· ≤ ·) → (ofTimes padding w (t :: times)).length =
      ((t :: times).toFinset.filter (· < latest (t :: times))).card + if 0 < padding then 1 else 0
  | t, [], _ => by
    by_cases hpad : padding = 0
    · simp [ofTimes, hpad, Finset.filter_singleton]
    · simp [ofTimes, hpad, Nat.pos_of_ne_zero hpad, Finset.filter_singleton]
  | t, u :: times, h => by
    have htu : t ≤ u := List.rel_of_pairwise_cons h List.mem_cons_self
    have hlast : latest (t :: u :: times) = latest (u :: times) :=
      Nat.max_eq_right (htu.trans (le_latest List.mem_cons_self))
    have ih := length_ofTimes padding w u times h.of_cons
    rw [ofTimes, hlast, List.toFinset_cons]
    by_cases hsame : u - t = 0
    · have hmem : t ∈ (u :: times).toFinset := by
        rw [Nat.le_antisymm htu (Nat.sub_eq_zero_iff_le.mp hsame)]
        exact List.mem_toFinset.mpr List.mem_cons_self
      rw [if_pos hsame, ih, Finset.insert_eq_of_mem hmem]
    · have hnew : t ∉ (u :: times).toFinset.filter (· < latest (u :: times)) := by
        intro hmem
        have hlater : u ≤ t := by
          rcases List.mem_cons.mp (List.mem_toFinset.mp (Finset.mem_filter.mp hmem).1) with hu | hin
          · exact hu.ge
          · exact List.rel_of_pairwise_cons h.of_cons hin
        omega
      have hbefore : t < latest (u :: times) :=
        Nat.lt_of_lt_of_le (by omega) (le_latest List.mem_cons_self)
      rw [if_neg hsame, List.length_cons, ih, Finset.filter_insert, if_pos hbefore,
        Finset.card_insert_of_notMem hnew]
      omega

theorem toFinset_times_edges (channels : List Channel) :
    ((edges channels).map Edge.time).toFinset = instants channels := by
  have htimes : (⟨0, 0⟩ :: channels.flatMap Channel.edges).map Edge.time =
      0 :: channels.flatMap fun c => c.pulses.flatMap fun p => [p.start, p.stop] := by
    simp [Channel.edges, List.map_flatMap]
  rw [List.toFinset_eq_of_perm _ _ ((edges_perm channels).map Edge.time), htimes, instants]

/-- **The number of instructions** of some channels. -/
theorem length_ofSteps (channels : List Channel) (padding : Nat) :
    (Program.ofSteps (steps channels padding)).length = stretchCount channels padding := by
  obtain ⟨a, es, h, -⟩ := edges_eq_cons channels
  have hsorted : ((edges channels).map Edge.time).Pairwise (· ≤ ·) :=
    List.pairwise_map.mpr (pairwise_edges channels)
  rw [Program.ofSteps, steps, ofStepsFrom_ofEdges padding _ 0 (pairwise_edges channels)]
  rw [stretchCount, ← latest_edges, ← toFinset_times_edges]
  rw [h, List.map_cons] at hsorted ⊢
  exact Program.length_ofTimes padding _ a.time (es.map Edge.time) hsorted

/-- Edges at 0, 5, 10 and 20, some of them of two pulses, and a padding. -/
example : stretchCount [⟨0b1, [⟨0, 10⟩, ⟨10, 10⟩]⟩, ⟨0b10, [⟨5, 0⟩, ⟨5, 5⟩]⟩] 7 = 4 := by decide

/-- Only a program that takes no time is empty. -/
theorem ofSteps_eq_nil_iff {channels : List Channel} {padding : Nat} :
    Program.ofSteps (steps channels padding) = [] ↔ lastEdge channels + padding = 0 := by
  rw [← duration_ofSteps]
  cases h : Program.ofSteps (steps channels padding) with
  | nil => simp
  | cons i p =>
    have hi : 0 < i.length := length_pos_of_mem_ofStepsFrom (h ▸ List.mem_cons_self)
    rw [Program.duration_cons]
    refine iff_of_false (List.cons_ne_nil i p) ?_
    omega

theorem encodeShort_eq_nil_iff {b : Board} {p : Program} : p.encodeShort b = [] ↔ p = [] := by
  have hmembers := ShortPulse.flatMap_members_groups b p
  constructor
  · intro h
    rw [encodeShort_eq] at h
    rw [List.map_eq_nil_iff.mp h] at hmembers
    exact hmembers.symm
  · rintro rfl
    rfl

/-! ## Channels that are refused -/

namespace Channel

/-- The lowest output is below the short pulse field, and no two pulses overlap. -/
def Sound (bit : Nat) (c : Channel) : Prop :=
  (∃ n < bit, c.flags.Lowest n) ∧ ∀ i j, ¬ c.OverlapAt i j

instance (bit : Nat) (c : Channel) : Decidable (c.Sound bit) := inferInstanceAs (Decidable (_ ∧ _))

/-- The error for a channel: for its lowest output, or else for two of its pulses that overlap. -/
def Fault (bit : Nat) (c : Channel) (e : Error) : Prop :=
  ∃ n, c.flags.Lowest n ∧
    if bit ≤ n then e = .channelOutOfRange n bit
    else ∃ i j, c.OverlapAt i j ∧ e = .overlappingPulses c.flags
      (c.pulses.get i).start (c.pulses.get i).stop (c.pulses.get j).start (c.pulses.get j).stop

theorem number_lt_iff {bit : Nat} {c : Channel} : c.number < bit ↔ ∃ n < bit, c.flags.Lowest n := by
  constructor
  · exact fun h => ⟨c.number, h, c.flags.lowest_lowest⟩
  · rintro ⟨n, hn, hlowest⟩
    exact (Flags.lowest_eq_iff.mpr hlowest).trans_lt hn

theorem Fault.ne_emptyProgram {bit : Nat} {c : Channel} {e : Error} (h : c.Fault bit e) :
    e ≠ .emptyProgram := by
  rintro rfl
  obtain ⟨n, -, h⟩ := h
  split_ifs at h
  obtain ⟨_, _, -, he⟩ := h
  cases he

end Channel

namespace Config

variable {config : Config} {channels : List Channel} {c : Channel} {e : Error} {u : Unit}

theorem check_eq_ok_iff_sound : config.check c = .ok u ↔ c.Sound config.bit := by
  rw [check_eq_ok, Channel.clash?_eq_none, Channel.pairwise_apart_iff, Channel.number_lt_iff]
  exact Iff.rfl

theorem fault_of_check (h : config.check c = .error e) : c.Fault config.bit e := by
  unfold check at h
  refine ⟨c.number, c.flags.lowest_lowest, ?_⟩
  rcases bind_eq_error.mp h with h | ⟨_, hnumber, h⟩
  · obtain ⟨hnumber, rfl⟩ := ensure_eq_error.mp h
    rw [if_pos (Nat.not_lt.mp hnumber)]
  · obtain ⟨p, q, hclash, rfl⟩ := Channel.checkOverlaps_eq_error.mp h
    obtain ⟨i, j, hoverlap, rfl, rfl⟩ := Channel.overlapAt_of_clash? hclash
    rw [if_neg (Nat.not_le.mpr (ensure_eq_ok.mp hnumber))]
    exact ⟨i, j, hoverlap, rfl⟩

/-- **The first channel that is not sound** gives the error. -/
theorem layOut_of_find? (h : channels.find? (fun c => ¬ c.Sound config.bit) = some c) :
    ∃ e, c.Fault config.bit e ∧ config.layOut channels = .error e := by
  obtain ⟨hc, before, after, hsplit, hbefore⟩ := List.find?_eq_some_iff_append.mp h
  cases hcheck : config.check c with
  | ok u => exact absurd (check_eq_ok_iff_sound.mp hcheck) (of_decide_eq_true hc)
  | error e =>
    have hsound : ∀ d ∈ before, config.check d = .ok () := fun d hd =>
      check_eq_ok_iff_sound.mpr (by simpa using hbefore d hd)
    have hfirst : channels.forM config.check = .error e :=
      forM_eq_error.mpr ⟨before, c, after, hsplit, hsound, hcheck⟩
    exact ⟨e, fault_of_check hcheck, layOut_eq_error.mpr (Or.inl hfirst)⟩

/-! ## The answer -/

/-- The target of the loop of a program that is not empty, if it is behind the last instruction. -/
def strayTarget? (config : Config) (channels : List Channel) (padding : Nat) : Option Nat :=
  config.loop.filter fun target =>
    0 < lastEdge channels + padding ∧ stretchCount channels padding ≤ target

/-- The answer for sound channels with some padding: the target of the loop is refused, or else
there is a program, which is empty exactly when it takes no time. -/
def AnswersPadded (config : Config) (channels : List Channel) (padding : Nat)
    (r : Except Error Program) : Prop :=
  match config.strayTarget? channels padding with
  | some target => r = .error (.branchOutOfRange target (stretchCount channels padding))
  | none => ∃ p, r = .ok p ∧ (p = [] ↔ lastEdge channels + padding = 0)

/-- The answer to a compilation, as the first of these that applies: the clock stands still, the
short pulse field does not fit, a channel is not sound, the program is to end before the last
edge; and else what sound channels have with their padding. -/
def Answers (config : Config) (channels : List Channel) (r : Except Error Program) : Prop :=
  if config.clock = 0 then r = .error (.invalidClock .zeroPeriod)
  else if wordBits < config.bit + fieldBits then r = .error (.invalidShortPulseBit config.bit)
  else match channels.find? fun c => ¬ c.Sound config.bit with
    | some c => ∃ e, c.Fault config.bit e ∧ r = .error e
    | none => match config.extent with
      | .padding padding => config.AnswersPadded channels padding r
      | .total total =>
        if total < lastEdge channels then r = .error (.programTooShort total (lastEdge channels))
        else config.AnswersPadded channels (total - lastEdge channels) r

theorem eq_nil_iff_of_close {p q : Program} (h : config.close p = .ok q) : q = [] ↔ p = [] := by
  rw [← List.length_eq_zero_iff, ← List.length_eq_zero_iff, ← Program.length_stretches q,
    stretches_close h, Program.length_stretches]

/-- Closing is refused for the target of the loop, by the instants alone. -/
theorem close_ofSteps_eq_error {padding : Nat} :
    config.close (Program.ofSteps (steps channels padding)) = .error e ↔
      ∃ target, config.strayTarget? channels padding = some target ∧
        e = .branchOutOfRange target (stretchCount channels padding) := by
  rw [close_eq_error, length_ofSteps, ne_eq, ofSteps_eq_nil_iff]
  simp only [strayTarget?, Option.filter_eq_some_iff, decide_eq_true_eq, Nat.pos_iff_ne_zero,
    and_assoc]

/-- Sound channels with some padding have the answer of their loop. -/
theorem answersPadded_compile {b : Board} {padding : Nat} (hb : config.board = .ok b)
    (hsound : ∀ c ∈ channels, c.Sound config.bit)
    (hpadding : config.extent.paddingAfter (lastEdge channels) = .ok padding) :
    config.AnswersPadded channels padding (compile channels config).result := by
  have haccepted : ∀ c ∈ channels, c.number < config.bit ∧ c.clash? = none := fun c hc =>
    check_eq_ok.mp (check_eq_ok_iff_sound (u := ()).mpr (hsound c hc))
  have hlaid := layOut_of_accepted haccepted hpadding
  unfold AnswersPadded
  cases hstray : config.strayTarget? channels padding with
  | some target =>
    have hclose := close_ofSteps_eq_error.mpr ⟨target, hstray, rfl⟩
    exact compile_eq_error.mpr (Or.inr ⟨b, hb, hlaid.trans hclose⟩)
  | none =>
    cases hclose : config.close (Program.ofSteps (steps channels padding)) with
    | error e =>
      obtain ⟨target, hsome, -⟩ := close_ofSteps_eq_error.mp hclose
      exact absurd (hstray.symm.trans hsome) (by simp)
    | ok laidOut =>
      refine ⟨_, compile_eq_ok.mpr ⟨b, laidOut, hb, hlaid.trans hclose, rfl⟩, ?_⟩
      rw [← ofSteps_eq_nil_iff, ← eq_nil_iff_of_close hclose]
      split
      · exact encodeShort_eq_nil_iff
      · exact Iff.rfl

end Config

/-- There is always something to loop: a program that takes no time is left empty. -/
theorem compile_ne_emptyProgram (channels : List Channel) (config : Config) :
    (compile channels config).result ≠ .error .emptyProgram := by
  intro h
  rcases compile_eq_error.mp h with hboard | ⟨b, -, hlaid⟩
  · rcases Config.board_eq_error.mp hboard with ⟨-, he⟩ | ⟨-, -, he⟩ <;> cases he
  rcases Config.layOut_eq_error.mp hlaid with hcheck | ⟨-, hextent | ⟨padding, -, hclose⟩⟩
  · obtain ⟨_, c, _, -, -, hc⟩ := forM_eq_error.mp hcheck
    exact (Config.fault_of_check hc).ne_emptyProgram rfl
  · obtain ⟨_, -, -, he⟩ := Extent.paddingAfter_eq_error.mp hextent
    cases he
  · obtain ⟨_, -, -, -, he⟩ := Config.close_eq_error.mp hclose
    cases he

/-- **The answer to a compilation.** Whatever channels are compiled with whatever configuration, the
answer is the first of these that applies: that the clock stands still; that the short pulse field
does not fit; the fault of the first channel that is not sound; that the last edge is behind the
end; that there are no more instructions than the target of the loop, one for each instant before
the last edge and one for the padding; and else there is a program, which is empty exactly when it
takes no time. -/
theorem compile_answers (channels : List Channel) (config : Config) :
    config.Answers channels (compile channels config).result ∧
      (compile channels config).result ≠ .error .emptyProgram := by
  refine ⟨?_, compile_ne_emptyProgram channels config⟩
  unfold Config.Answers
  split_ifs with hclock hroom
  · exact compile_eq_error.mpr (Or.inl (Config.board_eq_error.mpr (Or.inl ⟨hclock, rfl⟩)))
  · have hpos : 0 < config.clock := Nat.pos_of_ne_zero hclock
    exact compile_eq_error.mpr (Or.inl (Config.board_eq_error.mpr (Or.inr ⟨hpos, hroom, rfl⟩)))
  obtain ⟨b, hb⟩ : ∃ b, config.board = .ok b :=
    ⟨⟨config.clock, config.bit, Nat.pos_of_ne_zero hclock, Nat.not_lt.mp hroom⟩,
      Config.board_eq_ok.mpr ⟨rfl, rfl⟩⟩
  cases hfirst : channels.find? fun c => ¬ c.Sound config.bit with
  | some c =>
    obtain ⟨e, hfault, he⟩ := Config.layOut_of_find? hfirst
    exact ⟨e, hfault, compile_eq_error.mpr (Or.inr ⟨b, hb, he⟩)⟩
  | none =>
    have hsound : ∀ c ∈ channels, c.Sound config.bit := fun c hc => by
      simpa using List.find?_eq_none.mp hfirst c hc
    cases hextent : config.extent with
    | padding padding =>
      exact Config.answersPadded_compile hb hsound (by rw [hextent, Extent.paddingAfter])
    | total total =>
      dsimp only
      split_ifs with hshort
      · have hcheck : channels.forM config.check = .ok () :=
          forM_eq_ok.mpr fun c hc => Config.check_eq_ok_iff_sound.mpr (hsound c hc)
        have hrefused := Extent.paddingAfter_eq_error.mpr ⟨total, hextent, hshort, rfl⟩
        exact compile_eq_error.mpr
          (Or.inr ⟨b, hb, Config.layOut_eq_error.mpr (Or.inr ⟨hcheck, Or.inl hrefused⟩)⟩)
      · refine Config.answersPadded_compile hb hsound ?_
        rw [hextent, Extent.paddingAfter, if_pos (Nat.not_lt.mp hshort)]

end PulseSequencer
