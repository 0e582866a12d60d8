import PulseSequencer.Proofs.OnClock
import PulseSequencer.Proofs.Rearranged

/-!
# The number of instructions

No program drives the same with fewer instructions exactly if no two neighbours in it hold the same
flags. The front end makes an instruction for each time with an edge, whatever the edges at that
time come to. When pulses of a channel touch there are two of them, and they cancel out: unless some
other channel switches at the same time, the program goes on with the flags that it had, in an
instruction more than it needs.

* `Program.Minimal`: no program drives the same with fewer instructions.
* `Program.Unsplit`: no two neighbours hold the same flags.
* `Channel.TouchesAt`, `Channel.SwitchesAt`: a pulse stops at a time and another starts at it, or
  only one of the two happens.

Results:
* `minimal_iff_unsplit`: what makes a program minimal, for every program without empty instructions.
* `unsplit_ofTimes`, `unsplit_ofSteps`: a program is split where it has an edge and drives what it
  drove before.
* `litAt_ne_iff`, `isLit_ne_iff`: what is lit changes when some channel switches.
* **`compile_minimal_iff`**: a program is minimal if some channel switches wherever pulses touch.
* **`touching_pulses_split`**: touching pulses that split an instruction in two.
-/

namespace PulseSequencer

namespace Program

/-! ## Minimal programs -/

/-- No program drives the same with fewer instructions. -/
def Minimal (p : Program) : Prop :=
  ∀ q : Program, (∀ t, q.flagsAt? t = p.flagsAt? t) → p.length ≤ q.length

/-- No two neighbours hold the same flags. -/
def Unsplit (p : Program) : Prop := p.IsChain fun i j => i.flags ≠ j.flags

instance (p : Program) : Decidable p.Unsplit := inferInstanceAs (Decidable (List.IsChain _ p))

theorem unsplit_cons {i : Instruction} {p : Program} :
    Unsplit (i :: p) ↔ (∀ f ∈ p.head?.map (·.flags), i.flags ≠ f) ∧ p.Unsplit := by
  unfold Unsplit
  rw [List.isChain_cons]
  simp only [Option.mem_def, Option.map_eq_some_iff, forall_exists_index, and_imp,
    forall_apply_eq_imp_iff₂]

/-- Only what a program drives matters. -/
theorem unsplit_iff_stretches (p : Program) :
    p.Unsplit ↔ p.stretches.IsChain fun s t => s.1 ≠ t.1 := by
  unfold stretches
  rw [List.isChain_map]
  exact Iff.rfl

/-- **A program without needless splits is minimal.** Along another one that drives the same, no
instruction lasts longer than the first of these, since there the flags change. -/
theorem Unsplit.minimal {p : Program} (h : p.Unsplit) (hpos : ∀ i ∈ p, 0 < i.length) :
    p.Minimal := by
  intro q
  induction q generalizing p with
  | nil =>
    intro hsame
    cases p with
    | nil => exact le_rfl
    | cons i p =>
      have hfirst := hsame 0
      rw [flagsAt?_cons, if_pos (hpos i List.mem_cons_self)] at hfirst
      cases hfirst
  | cons j q ih =>
    intro hsame
    rcases Nat.eq_zero_or_pos j.length with hempty | hj
    · refine (ih h hpos fun t => ?_).trans (Nat.le_succ _)
      rw [← hsame, flagsAt?_cons, hempty, if_neg (Nat.not_lt_zero t), Nat.sub_zero]
    cases p with
    | nil => exact Nat.zero_le _
    | cons i p =>
      have hi := hpos i List.mem_cons_self
      have hposRest : ∀ k ∈ p, 0 < k.length := fun k hk => hpos k (List.mem_cons_of_mem i hk)
      obtain ⟨hnext, hrest⟩ := unsplit_cons.mp h
      have hflags : j.flags = i.flags := by
        have hfirst := hsame 0
        rw [flagsAt?_cons, flagsAt?_cons, if_pos hj, if_pos hi] at hfirst
        exact Option.some.inj hfirst
      have hle : j.length ≤ i.length := by
        by_contra hlonger
        have hswitch := hsame i.length
        rw [flagsAt?_cons, flagsAt?_cons, if_pos (by omega), if_neg (lt_irrefl _), Nat.sub_self]
          at hswitch
        cases p with
        | nil => cases hswitch
        | cons k p =>
          rw [flagsAt?_cons, if_pos (hposRest k List.mem_cons_self)] at hswitch
          exact hnext k.flags rfl (hflags ▸ Option.some.inj hswitch)
      rcases hle.eq_or_lt with heq | hlt
      · refine Nat.succ_le_succ (ih hrest hposRest fun t => ?_)
        have hlater := hsame (i.length + t)
        rwa [flagsAt?_cons, flagsAt?_cons, heq, if_neg (by omega), if_neg (by omega),
          Nat.add_sub_cancel_left] at hlater
      · -- the other program is split here: what is left of `i` goes on
        have hleft : Unsplit ({ i with length := i.length - j.length } :: p) :=
          unsplit_cons.mpr ⟨hnext, hrest⟩
        refine (ih hleft (fun k hk => ?_) fun t => ?_).trans (Nat.le_succ _)
        · rcases List.mem_cons.mp hk with rfl | hk
          · exact Nat.sub_pos_of_lt hlt
          · exact hposRest k hk
        · have hlater := hsame (j.length + t)
          rw [flagsAt?_cons, flagsAt?_cons, if_neg (by omega), Nat.add_sub_cancel_left] at hlater
          rw [hlater, flagsAt?_cons]
          by_cases hin : t < i.length - j.length
          · rw [if_pos hin, if_pos (by omega)]
          · rw [if_neg hin, if_neg (by omega), Nat.sub_sub_right t hle, Nat.add_comm]

theorem Minimal.of_cons {i : Instruction} {p : Program} (h : Minimal (i :: p)) : p.Minimal := by
  intro q hsame
  refine Nat.le_of_succ_le_succ (h (i :: q) fun t => ?_)
  rw [flagsAt?_cons, flagsAt?_cons, hsame]

/-- Two neighbours with the same flags may be one instruction. -/
theorem flagsAt?_joined {i j : Instruction} (h : i.flags = j.flags) (p : Program) (t : Nat) :
    flagsAt? ({ i with length := i.length + j.length } :: p) t = flagsAt? (i :: j :: p) t := by
  rw [flagsAt?_cons, flagsAt?_cons, flagsAt?_cons]
  dsimp only
  by_cases hi : t < i.length
  · rw [if_pos hi, if_pos (by omega)]
  · rw [if_neg hi]
    by_cases hj : t - i.length < j.length
    · rw [if_pos hj, if_pos (by omega), h]
    · rw [if_neg hj, if_neg (by omega), Nat.sub_sub]

theorem Minimal.unsplit {p : Program} (h : p.Minimal) : p.Unsplit := by
  induction p with
  | nil => exact List.IsChain.nil
  | cons i p ih =>
    refine unsplit_cons.mpr ⟨fun f hf hsame => ?_, ih h.of_cons⟩
    cases p with
    | nil => cases hf
    | cons j p =>
      obtain rfl := Option.some.inj hf
      have hshorter := h _ (flagsAt?_joined hsame p)
      exact Nat.not_succ_le_self _ hshorter

/-- **A program is minimal exactly if no two neighbours hold the same flags.** -/
theorem minimal_iff_unsplit {p : Program} (hpos : ∀ i ∈ p, 0 < i.length) :
    p.Minimal ↔ p.Unsplit := ⟨Minimal.unsplit, fun h => h.minimal hpos⟩

/-! ## Where a program is split -/

/-- A program by times begins with what it drives at the first one. -/
theorem head?_ofTimes {padding : Nat} {w : Nat → Flags} : ∀ {t : Nat} {times : List Nat},
    (t :: times).Pairwise (· ≤ ·) →
      (ofTimes padding w (t :: times)).head?.map (·.flags) =
        if t < latest (t :: times) + padding then some (w t) else none
  | t, [], _ => by
    by_cases hpad : padding = 0
    · simp [ofTimes, hpad]
    · simp [ofTimes, hpad, Nat.pos_of_ne_zero hpad, Instruction.proceed]
  | t, u :: times, h => by
    have htu : t ≤ u := List.rel_of_pairwise_cons h List.mem_cons_self
    have hlast : latest (t :: u :: times) = latest (u :: times) :=
      Nat.max_eq_right (htu.trans (le_latest List.mem_cons_self))
    have hu : u ≤ latest (u :: times) := le_latest List.mem_cons_self
    rw [ofTimes, hlast]
    by_cases hsame : u - t = 0
    · obtain rfl : t = u := by omega
      rw [if_pos hsame, head?_ofTimes h.of_cons]
    · rw [if_neg hsame, if_pos (by omega)]
      rfl

/-- **A program by times is split** at each time before its end at which it drives what it drove
before. What it drives may change at the times only. -/
theorem unsplit_ofTimes {padding : Nat} {w : Nat → Flags} : ∀ {t : Nat} {times : List Nat},
    (t :: times).Pairwise (· ≤ ·) →
      (∀ r s, t ≤ r → r ≤ s → (∀ u ∈ times, r < u → s < u) → w r = w s) →
      ((ofTimes padding w (t :: times)).Unsplit ↔
        ∀ u ∈ times, t < u → u < latest (t :: times) + padding → w (u - 1) ≠ w u)
  | t, [], _, _ => by
    have hone : (ofTimes padding w [t]).Unsplit := by
      rw [ofTimes]
      split
      · exact List.IsChain.nil
      · exact List.IsChain.singleton _
    exact iff_of_true hone fun _ hu => absurd hu List.not_mem_nil
  | t, u :: times, h, hw => by
    have htu : t ≤ u := List.rel_of_pairwise_cons h List.mem_cons_self
    have hlater : ∀ v ∈ times, u ≤ v := fun v hv => List.rel_of_pairwise_cons h.of_cons hv
    have hlast : latest (t :: u :: times) = latest (u :: times) :=
      Nat.max_eq_right (htu.trans (le_latest List.mem_cons_self))
    have ih : (ofTimes padding w (u :: times)).Unsplit ↔
        ∀ v ∈ times, u < v → v < latest (u :: times) + padding → w (v - 1) ≠ w v :=
      unsplit_ofTimes h.of_cons fun r s hur hrs hnone =>
        hw r s (htu.trans hur) hrs fun v hv hrv => by
          rcases List.mem_cons.mp hv with rfl | hv
          · omega
          · exact hnone v hv hrv
    rw [ofTimes, hlast, List.forall_mem_cons]
    by_cases hsame : u - t = 0
    · obtain rfl : t = u := by omega
      rw [if_pos hsame, ih]
      exact ⟨fun hrest => ⟨fun hlt => absurd hlt (lt_irrefl t), hrest⟩, And.right⟩
    · have hheld : w t = w (u - 1) := hw t (u - 1) le_rfl (by omega) fun v hv _ => by
        rcases List.mem_cons.mp hv with rfl | hv
        · omega
        · have := hlater v hv
          omega
      have hhead : (∀ f ∈ (ofTimes padding w (u :: times)).head?.map (·.flags), w t ≠ f) ↔
          (u < latest (u :: times) + padding → w (u - 1) ≠ w u) := by
        rw [head?_ofTimes h.of_cons, hheld]
        by_cases hend : u < latest (u :: times) + padding
        · rw [if_pos hend, forall_prop_of_true hend]
          exact ⟨fun h => h _ rfl, fun h _ hf => Option.some.inj hf ▸ h⟩
        · rw [if_neg hend]
          exact iff_of_true (fun _ hf => absurd hf (Option.not_mem_none _)) fun h => absurd h hend
      rw [if_neg hsame, unsplit_cons, ih]
      refine (and_congr hhead Iff.rfl).trans ?_
      constructor
      · rintro ⟨hu, hrest⟩
        refine ⟨fun _ => hu, fun v hv _ => ?_⟩
        rcases (hlater v hv).eq_or_lt with rfl | huv
        · exact hu
        · exact hrest v hv huv
      · rintro ⟨hu, hrest⟩
        exact ⟨hu (by omega), fun v hv huv => hrest v hv (by omega)⟩

end Program

/-- Between two times without an edge from the one to the other nothing is toggled. -/
theorem toggled_eq_of_no_edge {es : List Edge} {r s : Nat} (hrs : r ≤ s)
    (h : ∀ e ∈ es, r < e.time → s < e.time) : toggled r es = toggled s es := by
  unfold toggled
  refine congrArg (fun es : List Edge => Flags.xorAll (es.map Edge.update)) ?_
  refine List.filter_congr fun e he => decide_eq_decide.mpr ⟨fun her => her.trans hrs, fun hes => ?_⟩
  by_contra hlater
  have := h e he (Nat.lt_of_not_le hlater)
  omega

/-- **The program of some channels is split** at each edge before its end, the ones at time zero
apart, that leaves what lasts as it was. -/
theorem unsplit_ofSteps {channels : List Channel} {padding : Nat} :
    (Program.ofSteps (steps channels padding)).Unsplit ↔
      ∀ e ∈ edges channels, 0 < e.time → e.time < lastEdge channels + padding →
        toggledAt channels (e.time - 1) ≠ toggledAt channels e.time := by
  obtain ⟨a, es, h, ha⟩ := edges_eq_cons channels
  have hsorted : ((edges channels).map Edge.time).Pairwise (· ≤ ·) :=
    List.pairwise_map.mpr (pairwise_edges channels)
  have hlast := latest_edges channels
  have hheld : ∀ r s, a.time ≤ r → r ≤ s → (∀ u ∈ es.map Edge.time, r < u → s < u) →
      (0 ^^^ toggled r (edges channels)) = 0 ^^^ toggled s (edges channels) := by
    intro r s har hrs hnone
    rw [toggled_eq_of_no_edge hrs fun e he hre => ?_]
    rcases List.mem_cons.mp (h ▸ he) with rfl | he
    · omega
    · exact hnone e.time (List.mem_map_of_mem he) hre
  rw [Program.ofSteps, steps, ofStepsFrom_ofEdges padding _ 0 (pairwise_edges channels)]
  rw [h, List.map_cons] at hsorted hlast
  simp only [← toggled_edges]
  rw [h] at hheld ⊢
  rw [List.map_cons, Program.unsplit_ofTimes hsorted hheld, hlast, ha, List.forall_mem_map]
  simp only [Flags.zero_xor]
  rw [List.forall_mem_cons]
  exact ⟨fun hrest => ⟨fun hpos => absurd hpos (by omega), hrest⟩, And.right⟩

/-! ## Where channels switch -/

instance : Std.Symm Pulse.Apart := ⟨fun _ _ h => h.symm⟩

namespace Channel

/-- A pulse of the channel starts at `time`. -/
def StartsAt (c : Channel) (time : Nat) : Prop := ∃ p ∈ c.pulses, p.start = time

/-- A pulse of the channel stops at `time`. -/
def StopsAt (c : Channel) (time : Nat) : Prop := ∃ p ∈ c.pulses, p.stop = time

/-- A pulse stops at `time`, and one starts. -/
def TouchesAt (c : Channel) (time : Nat) : Prop := c.StartsAt time ∧ c.StopsAt time

/-- A pulse starts at `time` or one stops, and not both. -/
def SwitchesAt (c : Channel) (time : Nat) : Prop := ¬ (c.StartsAt time ↔ c.StopsAt time)

variable {c : Channel} {time : Nat}

instance : Decidable (c.StartsAt time) := inferInstanceAs (Decidable (∃ p ∈ c.pulses, _))

instance : Decidable (c.StopsAt time) := inferInstanceAs (Decidable (∃ p ∈ c.pulses, _))

instance : Decidable (c.TouchesAt time) := inferInstanceAs (Decidable (_ ∧ _))

instance : Decidable (c.SwitchesAt time) := inferInstanceAs (Decidable (¬ _))

/-- A pulse has started before `time` and stops behind it. -/
def GoesOnAt (c : Channel) (time : Nat) : Prop := ∃ p ∈ c.pulses, p.start < time ∧ time < p.stop

/-- Before a time, what goes on or stops at it lasts. -/
theorem isLit_pred_iff (hlasts : ∀ p ∈ c.pulses, 0 < p.length) (htime : 0 < time) :
    c.isLit (time - 1) = true ↔ c.GoesOnAt time ∨ c.StopsAt time := by
  simp only [isLit, List.any_eq_true, Pulse.lasts, Bool.and_eq_true, decide_eq_true_eq]
  constructor
  · rintro ⟨p, hp, hstart, hstop⟩
    rcases (show time ≤ p.stop by omega).eq_or_lt with heq | hlt
    · exact Or.inr ⟨p, hp, heq.symm⟩
    · exact Or.inl ⟨p, hp, by omega, hlt⟩
  · rintro (⟨p, hp, hstart, hstop⟩ | ⟨p, hp, hstop⟩)
    · exact ⟨p, hp, by omega, by omega⟩
    · have hlength := hlasts p hp
      unfold Pulse.stop at *
      exact ⟨p, hp, by omega, by omega⟩

/-- At a time, what goes on or starts lasts. -/
theorem isLit_iff (hlasts : ∀ p ∈ c.pulses, 0 < p.length) :
    c.isLit time = true ↔ c.GoesOnAt time ∨ c.StartsAt time := by
  simp only [isLit, List.any_eq_true, Pulse.lasts, Bool.and_eq_true, decide_eq_true_eq]
  constructor
  · rintro ⟨p, hp, hstart, hstop⟩
    rcases hstart.eq_or_lt with heq | hlt
    · exact Or.inr ⟨p, hp, heq⟩
    · exact Or.inl ⟨p, hp, hlt, hstop⟩
  · rintro (⟨p, hp, hstart, hstop⟩ | ⟨p, hp, hstart⟩)
    · exact ⟨p, hp, hstart.le, hstop⟩
    · have hlength := hlasts p hp
      unfold Pulse.stop
      exact ⟨p, hp, by omega, by omega⟩

/-- While a pulse goes on, no other one that is apart from it starts or stops. -/
theorem GoesOnAt.no_edge (h : c.GoesOnAt time) (hlasts : ∀ p ∈ c.pulses, 0 < p.length)
    (hapart : c.pulses.Pairwise Pulse.Apart) : ¬ c.StartsAt time ∧ ¬ c.StopsAt time := by
  obtain ⟨p, hp, hstart, hstop⟩ := h
  have hother : ∀ q ∈ c.pulses, q.start ≠ time ∧ q.stop ≠ time := by
    intro q hq
    have hlength := hlasts q hq
    rcases eq_or_ne p q with rfl | hne
    · omega
    · have hpq : p.Apart q := hapart.forall hp hq hne
      unfold Pulse.Apart Pulse.stop at *
      omega
  exact ⟨fun ⟨q, hq, h⟩ => (hother q hq).1 h, fun ⟨q, hq, h⟩ => (hother q hq).2 h⟩

/-- **A channel whose pulses last and are apart changes when it switches.** -/
theorem isLit_ne_iff (hlasts : ∀ p ∈ c.pulses, 0 < p.length)
    (hapart : c.pulses.Pairwise Pulse.Apart) (htime : 0 < time) :
    c.isLit (time - 1) ≠ c.isLit time ↔ c.SwitchesAt time := by
  rw [ne_eq, Bool.eq_iff_iff, isLit_pred_iff hlasts htime, isLit_iff hlasts]
  unfold SwitchesAt
  by_cases hon : c.GoesOnAt time
  · obtain ⟨hstart, hstop⟩ := hon.no_edge hlasts hapart
    simp only [hon, hstart, hstop, true_or]
  · simp only [hon, false_or]
    exact not_congr iff_comm

end Channel

/-- Behind time zero there are edges where pulses start or stop. -/
theorem exists_edge_iff {channels : List Channel} {time : Nat} (htime : 0 < time) :
    (∃ e ∈ edges channels, e.time = time) ↔
      ∃ c ∈ channels, c.StartsAt time ∨ c.StopsAt time := by
  constructor
  · rintro ⟨e, he, rfl⟩
    rcases mem_edges he with rfl | ⟨c, hc, p, hp, -, hstart | hstop⟩
    · exact absurd htime (lt_irrefl 0)
    · exact ⟨c, hc, Or.inl ⟨p, hp, hstart.symm⟩⟩
    · exact ⟨c, hc, Or.inr ⟨p, hp, hstop.symm⟩⟩
  · have hedge : ∀ c ∈ channels, ∀ p ∈ c.pulses, ∀ e ∈ [⟨p.start, c.flags⟩, ⟨p.stop, c.flags⟩],
        e ∈ edges channels := fun c hc p hp e he =>
      (edges_perm channels).mem_iff.mpr (List.mem_cons_of_mem _
        (List.mem_flatMap.mpr ⟨c, hc, List.mem_flatMap.mpr ⟨p, hp, he⟩⟩))
    rintro ⟨c, hc, ⟨p, hp, rfl⟩ | ⟨p, hp, rfl⟩⟩
    · exact ⟨_, hedge c hc p hp _ List.mem_cons_self, rfl⟩
    · exact ⟨_, hedge c hc p hp _ (List.mem_cons_of_mem _ List.mem_cons_self), rfl⟩

/-- What is lit on an output is what its channel has. -/
theorem Separate.isHigh_litAt_eq {channels : List Channel} (hsep : Separate channels) {c : Channel}
    (hc : c ∈ channels) {n : Nat} (hn : c.flags.isHigh n = true) (time : Nat) :
    (litAt channels time).isHigh n = c.isLit time := by
  rw [Bool.eq_iff_iff, isHigh_litAt]
  constructor
  · rintro ⟨d, hd, hlit, hdn⟩
    obtain ⟨k, -, hk⟩ := hsep.one_output c hc
    obtain ⟨m, -, hm⟩ := hsep.one_output d hd
    have hsame : c.flags = d.flags := by
      rw [hk] at hn ⊢
      rw [hm] at hdn ⊢
      exact Flags.output_eq_of_isHigh hn hdn
    obtain rfl := List.inj_on_of_nodup_map hsep.distinct hc hd hsame
    exact hlit
  · exact fun hlit => ⟨c, hc, hlit, hn⟩

/-- **What is lit changes when one of the channels does.** -/
theorem litAt_ne_iff {channels : List Channel} (hsep : Separate channels) {s t : Nat} :
    litAt channels s ≠ litAt channels t ↔ ∃ c ∈ channels, c.isLit s ≠ c.isLit t := by
  constructor
  · intro hne
    by_contra hnone
    refine hne (congrArg (fun cs : List Channel => Flags.orAll (cs.map Channel.flags)) ?_)
    refine List.filter_congr fun c hc => ?_
    by_contra hchange
    exact hnone ⟨c, hc, hchange⟩
  · rintro ⟨c, hc, hchange⟩ hsame
    obtain ⟨n, hn, hflags⟩ := hsep.one_output c hc
    have hhigh : c.flags.isHigh n = true := by
      rw [hflags, Flags.isHigh_output]
      simp [hn]
    rw [← hsep.isHigh_litAt_eq hc hhigh, ← hsep.isHigh_litAt_eq hc hhigh, hsame] at hchange
    exact hchange rfl

/-- **A program is minimal if some channel switches wherever pulses touch.** For channels with
different outputs whose pulses last, compiled without short pulses: no program drives the same with
fewer instructions exactly if no two neighbours hold the same flags; and that is so exactly if at
each time at which two pulses of a channel touch, some other channel switches. -/
theorem compile_minimal_iff {channels : List Channel} {config : Config} {p : Program}
    (hsep : Separate channels) (hlasts : ∀ c ∈ channels, ∀ q ∈ c.pulses, 0 < q.length)
    (hmode : config.mode = .leave) (h : (compile channels config).result = .ok p) :
    (p.Minimal ↔ p.Unsplit) ∧
      (p.Unsplit ↔ ∀ time, (∃ c ∈ channels, c.TouchesAt time) →
        ∃ c ∈ channels, c.SwitchesAt time) := by
  obtain ⟨b, laidOut, -, hlaid, rfl⟩ := compile_eq_ok.mp h
  rw [if_neg fun h => by simp [hmode] at h]
  obtain ⟨hpos, -, -⟩ := layOut_drives_lit hsep hlaid
  obtain ⟨haccepted, padding, -, hclose⟩ := Config.layOut_eq_ok.mp hlaid
  have hapart : ∀ c ∈ channels, c.pulses.Pairwise Pulse.Apart := fun c hc =>
    pairwise_apart_of_clash? (haccepted c hc).2
  refine ⟨Program.minimal_iff_unsplit hpos, ?_⟩
  rw [Program.unsplit_iff_stretches, Config.stretches_close hclose,
    ← Program.unsplit_iff_stretches, unsplit_ofSteps]
  have hchange : ∀ time, 0 < time → (toggledAt channels (time - 1) ≠ toggledAt channels time ↔
      ∃ c ∈ channels, c.SwitchesAt time) := by
    intro time htime
    rw [toggledAt_eq_litAt hsep hapart, toggledAt_eq_litAt hsep hapart, litAt_ne_iff hsep]
    exact exists_congr fun c => and_congr_right fun hc =>
      Channel.isLit_ne_iff (hlasts c hc) (hapart c hc) htime
  constructor
  · rintro hsplit time ⟨c, hc, ⟨q, hq, rfl⟩, ⟨r, hr, hstop⟩⟩
    have hqlast : q.stop ≤ lastEdge channels := stop_le_lastEdge hc hq
    have hqlength := hlasts c hc q hq
    have hrlength := hlasts c hc r hr
    unfold Pulse.stop at hqlast hstop
    have htime : 0 < q.start := by omega
    obtain ⟨e, he, hetime⟩ := (exists_edge_iff htime).mpr ⟨c, hc, Or.inl ⟨q, hq, rfl⟩⟩
    rw [← hetime, ← hchange e.time (by omega)]
    exact hsplit e he (by omega) (by omega)
  · intro htouch e he htime hend
    rw [hchange e.time htime]
    obtain ⟨c, hc, hedge⟩ := (exists_edge_iff htime).mp ⟨e, he, rfl⟩
    by_cases hswitch : c.SwitchesAt e.time
    · exact ⟨c, hc, hswitch⟩
    · have hboth : c.StartsAt e.time ↔ c.StopsAt e.time := not_not.mp hswitch
      exact htouch e.time ⟨c, hc, hedge.elim (fun h => ⟨h, hboth.mp h⟩) fun h => ⟨hboth.mpr h, h⟩⟩

/-- Two pulses touch as a pulse of another channel starts: nothing is split in vain. -/
theorem touching_pulses_minimal :
    ∃ channels config p, Separate channels ∧ (∀ c ∈ channels, ∀ q ∈ c.pulses, 0 < q.length) ∧
      config.mode = .leave ∧ (compile channels config).result = .ok p ∧
        (∃ c ∈ channels, c.TouchesAt 10) ∧ p.Unsplit ∧ p.Minimal := by
  let channels : List Channel :=
    [⟨Flags.output 0, [⟨0, 10⟩, ⟨10, 20⟩]⟩, ⟨Flags.output 1, [⟨10, 5⟩]⟩]
  let config : Config := { extent := .padding 7, mode := .leave }
  have hsep : Separate channels :=
    ⟨by simpa [channels] using ⟨⟨0, by decide, rfl⟩, ⟨1, by decide, rfl⟩⟩, by decide⟩
  have hlasts : ∀ c ∈ channels, ∀ q ∈ c.pulses, 0 < q.length := by decide
  have hcompiled : (compile channels config).result = .ok [.proceed 0b1 10, .proceed 0b11 5,
      .proceed 0b1 15, ⟨0, .branch, 0, 7⟩] := by cbv
  obtain ⟨hminimal, hunsplit⟩ := compile_minimal_iff hsep hlasts rfl hcompiled
  have hstarts : ∀ c ∈ channels, ∀ q ∈ c.pulses, c.StopsAt q.start →
      ∃ d ∈ channels, d.SwitchesAt q.start := by decide
  have hswitch : ∀ time, (∃ c ∈ channels, c.TouchesAt time) →
      ∃ c ∈ channels, c.SwitchesAt time := by
    rintro _ ⟨c, hc, ⟨q, hq, rfl⟩, hstops⟩
    exact hstarts c hc q hq hstops
  exact ⟨channels, config, _, hsep, hlasts, rfl, hcompiled, by decide, hunsplit.mpr hswitch,
    hminimal.mpr (hunsplit.mpr hswitch)⟩

/-- **Touching pulses split an instruction in two**: of two pulses of which one starts as the other
stops, the program makes two instructions with the same flags, where one would do. -/
theorem touching_pulses_split :
    ∃ (channels : List Channel) (config : Config) (p q : Program),
      Separate channels ∧ (∀ c ∈ channels, ∀ r ∈ c.pulses, 0 < r.length) ∧
        config.mode = .leave ∧ (compile channels config).result = .ok p ∧ ¬ p.Unsplit ∧
          (∀ t, q.flagsAt? t = p.flagsAt? t) ∧ q.length < p.length := by
  let channels : List Channel := [⟨Flags.output 0, [⟨0, 10⟩, ⟨10, 10⟩]⟩]
  let config : Config := { extent := .padding 22, loop := none, mode := .leave }
  have hsep : Separate channels :=
    ⟨by simpa [channels] using ⟨0, by decide, rfl⟩, by decide⟩
  have hcompiled : (compile channels config).result =
      .ok [.proceed 0b1 10, .proceed 0b1 10, .proceed 0 22] := by cbv
  have hjoined := Program.flagsAt?_joined (i := .proceed 0b1 10) (j := .proceed 0b1 10) rfl
    [.proceed 0 22]
  exact ⟨channels, config, _, _, hsep, by decide, rfl, hcompiled, by decide, hjoined, by decide⟩

end PulseSequencer
