import PulseSequencer.Proofs.FrontEnd
import PulseSequencer.Proofs.ShortPulse

/-!
# How long an output is high

The time for which a board holds an output high in one pass through a program, and the time that
the pulses of some channels take on it. The two agree for a program that drives what is lit, and
encoding short pulses changes neither.

* `Program.timeHigh`: the time for which a program drives an output, by the fields and lengths of
  its instructions.
* `pulseTime`: the lengths of the pulses on an output.
* `timeWhile`: the number of times at which something holds, which both are counts of.

Results:
* `timeWhile_isLit`: a channel with its pulses apart is lit for the lengths of its pulses.
* `timeHigh_eq_timeWhile`: a plain program drives an output while its flags are high.
* `timeHigh_encodeShort`: short pulses keep the time of every output.
* **`timeHigh_layOut`**: a program laid out drives every output for the lengths of its pulses.
-/

namespace PulseSequencer

/-! ## Counting times -/

/-- How many times before `stop` there are at which `f` holds. -/
def timeWhile (f : Nat → Bool) (stop : Nat) : Nat := (List.range stop).countP f

theorem timeWhile_succ (f : Nat → Bool) (stop : Nat) :
    timeWhile f (stop + 1) = timeWhile f stop + if f stop then 1 else 0 := by
  unfold timeWhile
  rw [List.range_succ, List.countP_append, List.countP_singleton]

theorem timeWhile_add (f : Nat → Bool) (s t : Nat) :
    timeWhile f (s + t) = timeWhile f s + timeWhile (fun u => f (s + u)) t := by
  induction t with
  | zero => rfl
  | succ t ih => rw [← Nat.add_assoc, timeWhile_succ, timeWhile_succ, ih, Nat.add_assoc]

theorem timeWhile_congr {f g : Nat → Bool} {stop : Nat} (h : ∀ t, t < stop → f t = g t) :
    timeWhile f stop = timeWhile g stop := by
  unfold timeWhile
  refine List.countP_congr fun t ht => ?_
  rw [h t (List.mem_range.mp ht)]

theorem timeWhile_const (b : Bool) (stop : Nat) :
    timeWhile (fun _ => b) stop = if b then stop else 0 := by
  induction stop with
  | zero => cases b <;> rfl
  | succ stop ih =>
    rw [timeWhile_succ, ih]
    cases b <;> simp

/-- What never holds together adds up. -/
theorem timeWhile_or {f g : Nat → Bool} {stop : Nat}
    (h : ∀ t, f t = true → g t = false) :
    timeWhile (fun t => f t || g t) stop = timeWhile f stop + timeWhile g stop := by
  induction stop with
  | zero => rfl
  | succ stop ih =>
    rw [timeWhile_succ, timeWhile_succ, timeWhile_succ, ih]
    have hstop := h stop
    cases hf : f stop
    · simp [Nat.add_assoc]
    · rw [hstop hf]
      simp only [Bool.or_false, if_true, Bool.false_eq_true, if_false]
      omega

/-! ## The pulses on an output -/

/-- A pulse that is over by `stop` lasts for its length. -/
theorem timeWhile_lasts {p : Pulse} {stop : Nat} (h : p.stop ≤ stop) :
    timeWhile p.lasts stop = p.length := by
  obtain ⟨rest, rfl⟩ := Nat.exists_eq_add_of_le h
  have hstop : p.stop = p.start + p.length := rfl
  have hbefore : timeWhile p.lasts p.start = timeWhile (fun _ => false) p.start :=
    timeWhile_congr fun t ht => by simp [Pulse.lasts]; omega
  have hduring : timeWhile (fun t => p.lasts (p.start + t)) p.length =
      timeWhile (fun _ => true) p.length :=
    timeWhile_congr fun t ht => by simp [Pulse.lasts]; omega
  have hbehind : timeWhile (fun t => p.lasts (p.start + p.length + t)) rest =
      timeWhile (fun _ => false) rest :=
    timeWhile_congr fun t ht => by simp [Pulse.lasts]; omega
  rw [hstop, timeWhile_add, timeWhile_add, hbefore, hduring, hbehind, timeWhile_const,
    timeWhile_const, timeWhile_const]
  simp

/-- The time that the pulses of a channel take together. -/
def Channel.pulseTime (c : Channel) : Nat := (c.pulses.map Pulse.length).sum

/-- The time that the pulses on output `n` take together. -/
def pulseTime (channels : List Channel) (n : Nat) : Nat :=
  ((channels.filter fun c => c.flags.isHigh n).map Channel.pulseTime).sum

/-- **A channel with its pulses apart is lit for the lengths of its pulses.** -/
theorem timeWhile_isLit {c : Channel} (hapart : c.pulses.Pairwise Pulse.Apart) {stop : Nat}
    (h : ∀ p ∈ c.pulses, p.stop ≤ stop) : timeWhile c.isLit stop = c.pulseTime := by
  obtain ⟨flags, pulses⟩ := c
  unfold Channel.pulseTime
  induction pulses with
  | nil => exact timeWhile_const false stop
  | cons p pulses ih =>
    have hlit : ∀ t, Channel.isLit ⟨flags, p :: pulses⟩ t =
        (p.lasts t || Channel.isLit ⟨flags, pulses⟩ t) := fun t => List.any_cons
    have hdisjoint : ∀ t, p.lasts t = true → Channel.isLit ⟨flags, pulses⟩ t = false := by
      intro t ht
      unfold Channel.isLit
      rw [List.any_eq_false]
      intro q hq
      rw [(List.rel_of_pairwise_cons hapart hq).lasts_eq_false ht]
      exact Bool.false_ne_true
    rw [timeWhile_congr fun t _ => hlit t, timeWhile_or hdisjoint,
      timeWhile_lasts (h p List.mem_cons_self),
      ih hapart.of_cons fun q hq => h q (List.mem_cons_of_mem p hq), List.map_cons, List.sum_cons]

theorem pulseTime_cons (c : Channel) (channels : List Channel) (n : Nat) :
    pulseTime (c :: channels) n =
      (if c.flags.isHigh n then c.pulseTime else 0) + pulseTime channels n := by
  unfold pulseTime
  rw [List.filter_cons]
  by_cases hn : c.flags.isHigh n = true
  · rw [if_pos hn, if_pos hn, List.map_cons, List.sum_cons]
  · rw [if_neg hn, if_neg hn, Nat.zero_add]

theorem isHigh_litAt_cons (c : Channel) (channels : List Channel) (t n : Nat) :
    (litAt (c :: channels) t).isHigh n =
      ((c.isLit t && c.flags.isHigh n) || (litAt channels t).isHigh n) := by
  rw [litAt_cons, Flags.isHigh_or]
  cases c.isLit t
  · simp [Flags.isHigh]
  · simp

/-- Separate channels light an output for the lengths of the pulses on it. -/
theorem timeWhile_litAt {channels : List Channel} (hsep : Separate channels)
    (hapart : ∀ c ∈ channels, c.pulses.Pairwise Pulse.Apart) {stop : Nat}
    (h : ∀ c ∈ channels, ∀ p ∈ c.pulses, p.stop ≤ stop) (n : Nat) :
    timeWhile (fun t => (litAt channels t).isHigh n) stop = pulseTime channels n := by
  induction channels with
  | nil =>
    have hdark : ∀ t, (litAt [] t).isHigh n = false := fun t => by
      simp [litAt, Flags.orAll, Flags.isHigh]
    rw [timeWhile_congr fun t _ => hdark t]
    exact timeWhile_const false stop
  | cons c channels ih =>
    have hdisjoint : ∀ t, (c.isLit t && c.flags.isHigh n) = true →
        (litAt channels t).isHigh n = false := fun t ht =>
      hsep.isHigh_litAt_eq_false (Bool.and_eq_true_iff.mp ht).2 t
    have hfirst : timeWhile (fun t => c.isLit t && c.flags.isHigh n) stop =
        if c.flags.isHigh n then c.pulseTime else 0 := by
      by_cases hn : c.flags.isHigh n = true
      · rw [if_pos hn, timeWhile_congr fun t _ => by rw [hn, Bool.and_true]]
        exact timeWhile_isLit (hapart c List.mem_cons_self) (h c List.mem_cons_self)
      · rw [if_neg hn, timeWhile_congr fun t _ => by rw [Bool.eq_false_iff.mpr hn, Bool.and_false]]
        exact timeWhile_const false stop
    rw [timeWhile_congr fun t _ => isHigh_litAt_cons c channels t n, timeWhile_or hdisjoint,
      hfirst, pulseTime_cons, ih hsep.of_cons (fun d hd => hapart d (List.mem_cons_of_mem c hd))
        fun d hd => h d (List.mem_cons_of_mem c hd)]

/-! ## The time that a program drives an output -/

variable (b : Board)

/-- The time for which an instruction drives output `n`. -/
def Instruction.timeHigh (i : Instruction) (n : Nat) : Nat :=
  if (i.flags.below b.bit).isHigh n then i.onTime b else 0

/-- The time for which one pass through a program drives output `n`. -/
def Program.timeHigh (p : Program) (n : Nat) : Nat := (p.map fun i => i.timeHigh b n).sum

variable {b}

namespace Program

@[simp] theorem timeHigh_nil (n : Nat) : timeHigh b [] n = 0 := rfl

@[simp] theorem timeHigh_cons (i : Instruction) (p : Program) (n : Nat) :
    timeHigh b (i :: p) n = i.timeHigh b n + timeHigh b p n := rfl

@[simp] theorem timeHigh_append (p q : Program) (n : Nat) :
    timeHigh b (p ++ q) n = timeHigh b p n + timeHigh b q n := by
  unfold timeHigh
  rw [List.map_append, List.sum_append]

end Program

theorem timeHigh_of_plain {i : Instruction} (h : i.Plain b) (n : Nat) :
    i.timeHigh b n = if i.flags.isHigh n then i.length else 0 := by
  have hon : i.onTime b = i.length := if_pos (periods_of_lt h.flags_lt)
  unfold Instruction.timeHigh
  rw [Flags.below_of_lt h.flags_lt, hon]

/-- A plain program drives an output while its flags are high. -/
theorem timeHigh_eq_timeWhile {p : Program} (hp : ∀ i ∈ p, i.Plain b) (n : Nat) :
    p.timeHigh b n = timeWhile (fun t => ((p.flagsAt? t).getD 0).isHigh n) p.duration := by
  induction p with
  | nil => rfl
  | cons i p ih =>
    have hfirst : ∀ t, t < i.length → ((Program.flagsAt? (i :: p) t).getD 0).isHigh n =
        i.flags.isHigh n := by
      intro t ht
      rw [Program.flagsAt?_cons, if_pos ht]
      rfl
    have hrest : ∀ t, ((Program.flagsAt? (i :: p) (i.length + t)).getD 0).isHigh n =
        ((Program.flagsAt? p t).getD 0).isHigh n := by
      intro t
      rw [Program.flagsAt?_cons, if_neg (by omega), Nat.add_sub_cancel_left]
    rw [Program.timeHigh_cons, Program.duration_cons, timeWhile_add, timeWhile_congr hfirst,
      timeWhile_congr fun t _ => hrest t, timeWhile_const,
      timeHigh_of_plain (hp i List.mem_cons_self),
      ih fun j hj => hp j (List.mem_cons_of_mem i hj)]

/-- **A program laid out drives every output for the lengths of the pulses on it.** -/
theorem timeHigh_layOut {channels : List Channel} {config : Config} {p : Program}
    (hsep : Separate channels) (hplain : ∀ i ∈ p, i.Plain b)
    (h : config.layOut channels = .ok p) (n : Nat) : p.timeHigh b n = pulseTime channels n := by
  obtain ⟨-, ⟨padding, -, hdur⟩, hlit⟩ := layOut_drives_lit hsep h
  have haccepted := (Config.layOut_eq_ok.mp h).1
  have hflags : ∀ t, t < p.duration →
      ((p.flagsAt? t).getD 0).isHigh n = (litAt channels t).isHigh n := by
    intro t ht
    rw [hlit t ht]
    rfl
  rw [timeHigh_eq_timeWhile hplain, timeWhile_congr hflags]
  refine timeWhile_litAt hsep (fun c hc => pairwise_apart_of_clash? (haccepted c hc).2)
    (fun c hc q hq => ?_) n
  have hstop := stop_le_lastEdge hc hq
  omega

/-! ## Short pulses -/

namespace ShortPulse

/-- The instruction of a group drives an output for as long as its members do. -/
theorem timeHigh_instruction {g : Group} (hg : g.Formed b) (n : Nat) :
    (g.instruction b).timeHigh b n = Program.timeHigh b g.members n := by
  have habsorbed : Program.timeHigh b g.absorbed n = 0 := by
    refine List.sum_eq_zero fun t ht => ?_
    obtain ⟨i, hi, rfl⟩ := List.mem_map.mp ht
    obtain ⟨hplain, hlow⟩ := hg.absorbed i hi
    rw [timeHigh_of_plain hplain, hlow]
    simp [Flags.isHigh]
  unfold Instruction.timeHigh
  rw [onTime_instruction hg, flags_instruction, below_groupFlags hg.head, Group.members,
    Program.timeHigh_cons, habsorbed, timeHigh_of_plain hg.head, Nat.add_zero]

theorem timeHigh_retarget (cover : List Nat) (i : Instruction) (n : Nat) :
    (retarget cover i).timeHigh b n = i.timeHigh b n := by
  unfold retarget
  split <;> rfl

theorem timeHigh_groups (cover : List Nat) {gs : List Group} (hgs : ∀ g ∈ gs, g.Formed b)
    (n : Nat) : Program.timeHigh b (gs.map fun g => retarget cover (g.instruction b)) n =
      Program.timeHigh b (gs.flatMap Group.members) n := by
  induction gs with
  | nil => rfl
  | cons g gs ih =>
    rw [List.map_cons, List.flatMap_cons, Program.timeHigh_cons, Program.timeHigh_append,
      timeHigh_retarget, timeHigh_instruction (hgs g List.mem_cons_self),
      ih fun g₁ hg₁ => hgs g₁ (List.mem_cons_of_mem g hg₁)]

/-- **Short pulses keep the time of every output.** -/
theorem timeHigh_encodeShort {p : Program} (hp : ∀ i ∈ p, i.Plain b) (n : Nat) :
    (p.encodeShort b).timeHigh b n = p.timeHigh b n := by
  rw [encodeShort_eq, timeHigh_groups _ (formed_groups hp), flatMap_members_groups]

end ShortPulse

end PulseSequencer
