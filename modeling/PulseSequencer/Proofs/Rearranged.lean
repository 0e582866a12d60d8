import PulseSequencer.Proofs.Stages
import PulseSequencer.Proofs.Timeline

/-!
# The order of channels and pulses

The order in which channels and their pulses are given does not matter to the program. It does
matter to the steps: edges at one time are kept as they come. What becomes of them is one
instruction, which holds what all of them together have toggled, and none for the steps of no
length between them. So a program depends on its edges through their times, in order, and through
what is toggled at each.

* `Rearranged`: the same channels in another order, each with its pulses in another order.
* `Program.ofTimes`: an instruction for each time that is not the next one.
* `ofStepsFrom_ofEdges`: the program of some edges, by their times and what they toggle.

Results:
* `ofStepsFrom_of_perm`: the program does not depend on the order of edges.
* `Rearranged.accepted`: neither does what is accepted.
* **`Rearranged.compiles_alike`**: rearranged channels compile to the same program, or neither does.
-/

namespace PulseSequencer

/-- The same flags, and the same pulses in any order. -/
def Channel.Rearranged (c d : Channel) : Prop := c.flags = d.flags ∧ c.pulses.Perm d.pulses

/-- The same channels in any order, each with its pulses in any order. -/
def Rearranged (xs ys : List Channel) : Prop :=
  ∃ mid, xs.Perm mid ∧ List.Forall₂ Channel.Rearranged mid ys

/-! ## The program by times -/

namespace Program

/-- The program that drives `w t` from each time `t` up to the next one, and from the last one for
`padding`. -/
def ofTimes (padding : Nat) (w : Nat → Flags) : List Nat → Program
  | [] => []
  | [t] => if padding = 0 then [] else [.proceed (w t) padding]
  | t :: u :: times =>
    if u - t = 0 then ofTimes padding w (u :: times)
    else .proceed (w t) (u - t) :: ofTimes padding w (u :: times)

theorem ofTimes_congr {padding : Nat} {w v : Nat → Flags} : ∀ {times : List Nat},
    (∀ t ∈ times, w t = v t) → ofTimes padding w times = ofTimes padding v times
  | [], _ => rfl
  | [t], h => by rw [ofTimes, ofTimes, h t List.mem_cons_self]
  | t :: u :: times, h => by
    rw [ofTimes, ofTimes, h t List.mem_cons_self,
      ofTimes_congr fun s hs => h s (List.mem_cons_of_mem t hs)]

end Program

/-- **The program of some edges** drives, from the time of each, what the edges up to it have
toggled. -/
theorem ofStepsFrom_ofEdges (padding : Nat) : ∀ (es : List Edge) (flags : Flags),
    Chronological es → Program.ofStepsFrom flags (Step.ofEdges padding es) =
      Program.ofTimes padding (fun t => flags ^^^ toggled t es) (es.map Edge.time)
  | [], _, _ => rfl
  | [a], flags, _ => by
    simp [Step.ofEdges, Program.ofStepsFrom, Program.ofTimes, toggled]
  | a :: b :: es, flags, h => by
    have hlater : ∀ e ∈ b :: es, a.time ≤ e.time := fun e he => List.rel_of_pairwise_cons h he
    have hfirst : ∀ t, a.time ≤ t →
        flags ^^^ toggled t (a :: b :: es) = flags ^^^ a.update ^^^ toggled t (b :: es) := by
      intro t ht
      rw [toggled_cons, if_pos ht, ← BitVec.xor_assoc]
    have hrest := ofStepsFrom_ofEdges padding (b :: es) (flags ^^^ a.update) h.of_cons
    have hsame : Program.ofTimes padding (fun t => flags ^^^ toggled t (a :: b :: es))
          ((b :: es).map Edge.time) =
        Program.ofStepsFrom (flags ^^^ a.update) (Step.ofEdges padding (b :: es)) := by
      rw [hrest]
      refine Program.ofTimes_congr fun t ht => ?_
      obtain ⟨e, he, rfl⟩ := List.mem_map.mp ht
      exact hfirst e.time (hlater e he)
    rw [List.map_cons] at hsame
    rw [List.map_cons, List.map_cons, Program.ofTimes, Step.ofEdges, Program.ofStepsFrom, hsame]
    by_cases hlen : b.time - a.time = 0
    · rw [if_pos hlen, if_pos hlen]
    · have hnone : toggled a.time (b :: es) = 0 :=
        Chronological.toggled_eq_zero h.of_cons (by omega)
      rw [if_neg hlen, if_neg hlen, hfirst a.time le_rfl, hnone]
      simp

/-- **The program does not depend on the order of edges**, those at one time included. -/
theorem ofStepsFrom_of_perm {padding : Nat} {es fs : List Edge} (hes : Chronological es)
    (hfs : Chronological fs) (h : es.Perm fs) (flags : Flags) :
    Program.ofStepsFrom flags (Step.ofEdges padding es) =
      Program.ofStepsFrom flags (Step.ofEdges padding fs) := by
  have htimes : es.map Edge.time = fs.map Edge.time :=
    (h.map Edge.time).eq_of_pairwise' (List.pairwise_map.mpr hes) (List.pairwise_map.mpr hfs)
  rw [ofStepsFrom_ofEdges padding es flags hes, ofStepsFrom_ofEdges padding fs flags hfs, htimes]
  exact Program.ofTimes_congr fun t _ => by rw [toggled_perm h]

/-! ## Rearranged channels -/

theorem Pulse.upTo_antisymm {p q : Pulse} (hpq : p.upTo q = true) (hqp : q.upTo p = true) :
    p = q := by
  simp only [upTo, Bool.or_eq_true, Bool.and_eq_true, decide_eq_true_eq] at hpq hqp
  have hstart : p.start = q.start := by omega
  have hstop : p.start + p.length = q.start + q.length := by
    unfold stop at hpq hqp
    omega
  have hlength : p.length = q.length := by omega
  cases p
  cases q
  congr

theorem pairwise_sorted (ps : List Pulse) :
    (ps.mergeSort Pulse.upTo).Pairwise fun p q => p.upTo q = true := by
  refine List.pairwise_mergeSort (fun p q r hpq hqr => ?_) (fun p q => ?_) ps
  · simp only [Pulse.upTo, Bool.or_eq_true, Bool.and_eq_true, decide_eq_true_eq] at hpq hqr ⊢
    omega
  · simp only [Pulse.upTo, Bool.or_eq_true, Bool.and_eq_true, decide_eq_true_eq]
    omega

namespace Channel.Rearranged

variable {c d : Channel}

theorem number_eq (h : c.Rearranged d) : c.number = d.number := by
  unfold number
  rw [h.1]

/-- Sorting leaves the same pulses in the same order. -/
theorem clash?_eq (h : c.Rearranged d) : c.clash? = d.clash? := by
  have hperm : (c.pulses.mergeSort Pulse.upTo).Perm (d.pulses.mergeSort Pulse.upTo) :=
    (List.mergeSort_perm _ _).trans (h.2.trans (List.mergeSort_perm _ _).symm)
  unfold clash?
  rw [hperm.eq_of_pairwise (fun _ _ _ _ => Pulse.upTo_antisymm) (pairwise_sorted _)
    (pairwise_sorted _)]

theorem edges_perm (h : c.Rearranged d) : c.edges.Perm d.edges := by
  unfold edges
  rw [h.1]
  exact h.2.flatMap_right _

end Channel.Rearranged

namespace Rearranged

variable {xs ys : List Channel}

theorem edges_perm (h : Rearranged xs ys) : (edges xs).Perm (edges ys) := by
  obtain ⟨mid, hperm, heach⟩ := h
  have hmid : (mid.flatMap Channel.edges).Perm (ys.flatMap Channel.edges) := by
    refine List.Perm.flatten_congr ?_
    rw [List.forall₂_map_left_iff, List.forall₂_map_right_iff]
    exact heach.imp fun _ _ hcd => hcd.edges_perm
  have hall := (hperm.flatMap_right Channel.edges).trans hmid
  exact (PulseSequencer.edges_perm xs).trans
    ((hall.cons ⟨0, 0⟩).trans (PulseSequencer.edges_perm ys).symm)

theorem lastEdge_eq (h : Rearranged xs ys) : lastEdge xs = lastEdge ys := by
  rw [← latest_edges, ← latest_edges]
  exact latest_perm (h.edges_perm.map Edge.time)

theorem ofSteps_eq (h : Rearranged xs ys) (padding : Nat) :
    Program.ofSteps (steps xs padding) = Program.ofSteps (steps ys padding) :=
  ofStepsFrom_of_perm (pairwise_edges xs) (pairwise_edges ys) h.edges_perm 0

/-- A property of channels that the order of pulses does not matter to holds of both lists or of
neither. -/
theorem forall_iff (h : Rearranged xs ys) {ok : Channel → Prop}
    (hok : ∀ c d, Channel.Rearranged c d → (ok c ↔ ok d)) : (∀ c ∈ xs, ok c) ↔ ∀ c ∈ ys, ok c := by
  obtain ⟨mid, hperm, heach⟩ := h
  have hmid : (∀ c ∈ mid, ok c) ↔ ∀ c ∈ ys, ok c := by
    clear hperm
    induction heach with
    | nil => rfl
    | cons hcd _ ih => rw [List.forall_mem_cons, List.forall_mem_cons, hok _ _ hcd, ih]
  rw [← hmid]
  exact forall_congr' fun c => by rw [hperm.mem_iff]

/-- The checks accept both or neither. -/
theorem accepted (h : Rearranged xs ys) (bit : Nat) :
    (∀ c ∈ xs, c.number < bit ∧ c.clash? = none) ↔ ∀ c ∈ ys, c.number < bit ∧ c.clash? = none :=
  h.forall_iff fun _ _ hcd => by rw [hcd.number_eq, hcd.clash?_eq]

theorem layOut_eq_ok (h : Rearranged xs ys) {config : Config} {p : Program} :
    config.layOut xs = .ok p ↔ config.layOut ys = .ok p := by
  rw [Config.layOut_eq_ok, Config.layOut_eq_ok, h.accepted, h.lastEdge_eq]
  simp only [h.ofSteps_eq]

/-- **The order of channels and pulses does not matter.** Whatever the flags of the channels and
the configuration, rearranged channels compile to the very same program, or neither of them
compiles. -/
theorem compiles_alike (h : Rearranged xs ys) (config : Config) (p : Program) :
    (compile xs config).result = .ok p ↔ (compile ys config).result = .ok p := by
  rw [compile_eq_ok, compile_eq_ok]
  simp only [h.layOut_eq_ok]

end Rearranged

/-- Three pulses end at 20, where two others start, and the channels share an output. -/
theorem tied_edges_compile_alike :
    ∃ xs ys config p, Rearranged xs ys ∧ edges xs ≠ edges ys ∧
      (compile xs config).result = .ok p ∧ (compile ys config).result = .ok p := by
  let xs : List Channel :=
    [⟨0b1, [⟨0, 20⟩, ⟨20, 30⟩]⟩, ⟨0b110, [⟨10, 10⟩]⟩, ⟨0b101, [⟨20, 10⟩, ⟨8, 12⟩]⟩]
  let ys : List Channel :=
    [⟨0b101, [⟨8, 12⟩, ⟨20, 10⟩]⟩, ⟨0b1, [⟨20, 30⟩, ⟨0, 20⟩]⟩, ⟨0b110, [⟨10, 10⟩]⟩]
  let config : Config := { extent := .total 80, mode := .leave }
  have hsame : Rearranged xs ys :=
    ⟨[⟨0b101, [⟨20, 10⟩, ⟨8, 12⟩]⟩, ⟨0b1, [⟨0, 20⟩, ⟨20, 30⟩]⟩, ⟨0b110, [⟨10, 10⟩]⟩],
      by decide, .cons ⟨rfl, by decide⟩ (.cons ⟨rfl, by decide⟩ (.cons ⟨rfl, by decide⟩ .nil))⟩
  have hcompiled : (compile xs config).result = .ok [.proceed 0b1 8, .proceed 0b100 2,
      .proceed 0b10 10, .proceed 0b100 10, .proceed 0b1 20, ⟨0, .branch, 0, 30⟩] := by cbv
  have hxs : (edges xs)[4]? = some ⟨20, 0b1⟩ := by cbv
  have hys : (edges ys)[4]? = some ⟨20, 0b101⟩ := by cbv
  have hedges : edges xs ≠ edges ys := fun h => absurd (hxs.symm.trans (h ▸ hys)) (by decide)
  exact ⟨xs, ys, config, _, hsame, hedges, hcompiled,
    (hsame.compiles_alike config _).mp hcompiled⟩

end PulseSequencer
