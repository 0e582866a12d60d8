import Mathlib.Tactic
import PulseSequencer.Compilation

/-!
# The stages of a compilation

What each stage of `compile` accepts and what it hands on. Later modules reason from these
equations and do not open the stages again.

* `compile_eq_ok`: a compilation lays out the program and encodes short pulses where it is asked
  to and something is short.
* `layOut_eq_ok`: what `Config.layOut` accepts, and its program.
* `close_eq_ok_of_none`, `close_eq_ok_of_some`: the program with its end closed. Closing changes
  control flow only (`stretches_close`).
* `layOut_of_loop`: a looped program, which loops to any other instruction as well.
-/

namespace PulseSequencer

/-! ## Sequencing checks -/

@[simp] theorem ok_bind {α β : Type} (a : α) (f : α → Except Error β) :
    Except.ok a >>= f = f a := rfl

/-- A sequence of two steps fails where the first one does, or else the second. -/
theorem bind_eq_error {α β : Type} {x : Except Error α} {f : α → Except Error β} {e : Error} :
    x >>= f = .error e ↔ x = .error e ∨ ∃ a, x = .ok a ∧ f a = .error e := by
  cases x with
  | error e' => simp [bind, Except.bind]
  | ok a => simp [bind, Except.bind]

/-- A list of checks passes when each of them does. -/
theorem forM_eq_ok {α : Type} {f : α → Except Error Unit} {xs : List α} {u : Unit} :
    xs.forM f = .ok u ↔ ∀ x ∈ xs, f x = .ok () := by
  induction xs with
  | nil => simp [pure, Except.pure]
  | cons x xs ih =>
    show (f x >>= fun _ => xs.forM f) = _ ↔ _
    rw [bind_eq_ok, List.forall_mem_cons]
    constructor
    · rintro ⟨⟨⟩, hx, hxs⟩
      exact ⟨hx, ih.mp hxs⟩
    · rintro ⟨hx, hxs⟩
      exact ⟨(), hx, ih.mpr hxs⟩

theorem Config.check_eq_ok {config : Config} {c : Channel} {u : Unit} :
    config.check c = .ok u ↔ c.number < config.bit ∧ c.clash? = none := by
  unfold Config.check
  simp only [bind_eq_ok, ensure_eq_ok, Channel.checkOverlaps_eq_ok]
  constructor
  · rintro ⟨_, h⟩
    exact h
  · intro h
    exact ⟨(), h⟩

/-! ## What a program drives -/

namespace Program

/-- The flags and lengths of a program, without its control flow. -/
def stretches (p : Program) : List (Flags × Nat) := p.map fun i => (i.flags, i.length)

theorem stretches_append (p q : Program) : stretches (p ++ q) = stretches p ++ stretches q :=
  List.map_append

theorem stretches_drop (p : Program) (n : Nat) :
    stretches (p.drop n) = (stretches p).drop n := List.map_drop

theorem length_stretches (p : Program) : (stretches p).length = p.length := List.length_map _

theorem length_le_duration {p : Program} {i : Instruction} (hi : i ∈ p) :
    i.length ≤ p.duration := by
  induction p with
  | nil => exact absurd hi List.not_mem_nil
  | cons j p ih =>
    rw [duration_cons]
    rcases List.mem_cons.mp hi with rfl | hi
    · exact Nat.le_add_right _ _
    · exact Nat.le_add_left_of_le (ih hi)

theorem duration_eq_of_stretches {p q : Program} (h : p.stretches = q.stretches) :
    p.duration = q.duration := by
  have hsum : ∀ p : Program, p.duration = ((stretches p).map Prod.snd).sum := by
    intro p
    induction p with
    | nil => rfl
    | cons i p ih => rw [duration_cons, ih]; rfl
  rw [hsum, hsum, h]

theorem mem_stretches {p : Program} {s : Flags × Nat} :
    s ∈ p.stretches ↔ ∃ i ∈ p, (i.flags, i.length) = s :=
  List.mem_map

theorem exists_of_stretches {p q : Program} (h : p.stretches = q.stretches) {i : Instruction}
    (hi : i ∈ p) : ∃ j ∈ q, (j.flags, j.length) = (i.flags, i.length) :=
  mem_stretches.mp (h ▸ mem_stretches.mpr ⟨i, hi, rfl⟩)

end Program

/-! ## Closing the program -/

/-- Before the end is closed every instruction hands on to the one behind it. -/
theorem eq_proceed_of_mem_ofStepsFrom {flags : Flags} {ss : List Step} :
    ∀ i ∈ Program.ofStepsFrom flags ss, i = .proceed i.flags i.length := by
  induction ss generalizing flags with
  | nil => exact fun _ hi => absurd hi List.not_mem_nil
  | cons s ss ih =>
    intro i hi
    simp only [Program.ofStepsFrom] at hi
    split at hi
    · exact ih i hi
    · rcases List.mem_cons.mp hi with rfl | hi
      · rfl
      · exact ih i hi

theorem opcode_ofStepsFrom {flags : Flags} {ss : List Step} :
    ∀ i ∈ Program.ofStepsFrom flags ss, i.opcode = .proceed := fun i hi =>
  congrArg Instruction.opcode (eq_proceed_of_mem_ofStepsFrom i hi)

theorem stretches_branchingTo (body : Program) (last : Instruction) (target : Nat) :
    Program.stretches (body ++ [Program.branchingTo target last]) =
      Program.stretches (body ++ [last]) := by
  rw [Program.stretches_append, Program.stretches_append]
  rfl

namespace Config

variable {config : Config}

theorem close_eq_ok_of_none (h : config.loop = none) {p q : Program} :
    config.close p = .ok q ↔ q = p := by
  unfold close
  rw [h]
  simp only [Except.ok.injEq]
  exact eq_comm

theorem close_eq_ok_of_some {target : Nat} (h : config.loop = some target) {p q : Program} :
    config.close p = .ok q ↔
      (p = [] ∧ q = []) ∨ ∃ body last, p = body ++ [last] ∧ target < p.length ∧
        q = body ++ [Program.branchingTo target last] := by
  unfold close
  rw [h]
  simp only
  split
  · rename_i hp
    subst hp
    constructor
    · intro h
      cases h
      exact Or.inl ⟨rfl, rfl⟩
    · rintro (⟨-, rfl⟩ | ⟨body, last, hp, -⟩)
      · rfl
      · exact absurd hp.symm (by simp)
  · rename_i hp
    rw [Program.loopTo_eq_ok]
    exact ⟨Or.inr, fun h => h.resolve_left fun h => hp h.1⟩

/-- Closing a program keeps what it drives. -/
theorem stretches_close {p q : Program} (h : config.close p = .ok q) :
    q.stretches = p.stretches := by
  cases hl : config.loop with
  | none => rw [(close_eq_ok_of_none hl).mp h]
  | some target =>
    rcases (close_eq_ok_of_some hl).mp h with ⟨rfl, rfl⟩ | ⟨body, last, rfl, -, rfl⟩
    · rfl
    · exact stretches_branchingTo body last target

theorem layOut_eq_ok {channels : List Channel} {p : Program} :
    config.layOut channels = .ok p ↔
      (∀ c ∈ channels, c.number < config.bit ∧ c.clash? = none) ∧
        ∃ padding, config.extent.paddingAfter (lastEdge channels) = .ok padding ∧
          config.close (Program.ofSteps (steps channels padding)) = .ok p := by
  unfold layOut
  simp only [bind_eq_ok, forM_eq_ok, check_eq_ok]
  constructor
  · rintro ⟨_, h⟩
    exact h
  · intro h
    exact ⟨(), h⟩

/-- A looped program that is not empty proceeds up to its last instruction, and may loop to any
other instruction instead. -/
theorem layOut_of_loop {channels : List Channel} {target : Nat} {p : Program}
    (hloop : config.loop = some target) (h : config.layOut channels = .ok p) (hne : p ≠ []) :
    ∃ body last, p = body ++ [Program.branchingTo target last] ∧ target < (body ++ [last]).length ∧
      (∀ i ∈ body, i.opcode = .proceed) ∧
      ∀ entry, entry < (body ++ [last]).length →
        { config with loop := some entry }.layOut channels =
          .ok (body ++ [Program.branchingTo entry last]) := by
  obtain ⟨haccepted, padding, hpadding, hclose⟩ := layOut_eq_ok.mp h
  have hproceed : ∀ i ∈ Program.ofSteps (steps channels padding), i.opcode = .proceed :=
    opcode_ofStepsFrom
  rcases (close_eq_ok_of_some hloop).mp hclose with ⟨-, hnil⟩ | ⟨body, last, hp, ht, rfl⟩
  · exact absurd hnil hne
  rw [hp] at hproceed ht
  refine ⟨body, last, rfl, ht, fun i hi => hproceed i (List.mem_append_left _ hi),
    fun entry hentry => ?_⟩
  exact layOut_eq_ok.mpr ⟨haccepted, padding, hpadding,
    (close_eq_ok_of_some rfl).mpr (Or.inr ⟨body, last, hp, hp ▸ hentry, rfl⟩)⟩

theorem board_eq_ok {b : Board} :
    config.board = .ok b ↔ b.clock = config.clock ∧ b.bit = config.bit := by
  unfold board
  rw [← Board.of_eq_ok]
  cases Board.of config.clock config.bit <;> simp [Except.mapError]

end Config

/-! ## The whole way -/

theorem hasShort_nil (clock : Nat) : ShortPulse.hasShort clock [] = false := rfl

theorem ShortPulse.hasShort_eq_false {clock : Nat} {p : Program} :
    hasShort clock p = false ↔ ∀ i ∈ p, minLength clock < i.length := by
  unfold hasShort
  rw [List.any_eq_false]
  simp only [decide_eq_true_eq, Nat.not_le]

theorem result_encodeNoting (b : Board) (p : Program) :
    (p.encodeNoting b).result = .ok (p.encodeShort b) := rfl

/-- Short pulses are encoded when something is short and the configuration asks for it. -/
theorem Config.result_treatShort (config : Config) (b : Board) (p : Program) :
    (config.treatShort b p).result =
      .ok (if ShortPulse.hasShort b.clock p ∧ config.mode = .encode then p.encodeShort b
        else p) := by
  unfold treatShort
  by_cases hs : ShortPulse.hasShort b.clock p = true
  · rw [if_pos hs]
    cases hm : config.mode with
    | encode => simp [hs, result_encodeNoting]
    | leave => simp
  · rw [if_neg hs]
    simp [hs]

/-- A compilation without its notices. -/
theorem result_compile (channels : List Channel) (config : Config) :
    (compile channels config).result = (do
      let b ← config.board
      let laidOut ← config.layOut channels
      return if ShortPulse.hasShort b.clock laidOut ∧ config.mode = .encode
        then laidOut.encodeShort b else laidOut) := by
  unfold compile
  simp only [Logged.result_bind, Logged.result_lift]
  refine bind_congr fun b => bind_congr fun laidOut => ?_
  split
  · rename_i hnil
    subst hnil
    rw [if_neg (by simp [hasShort_nil])]
    rfl
  · simp only [Logged.result_bind, Config.result_treatShort, ok_bind, Logged.result_note,
      Program.noteListing, Logged.result_noteAll, Logged.result_pure]
    rfl

/-- **A compilation**: the program is laid out, and its short pulses are encoded if there are any
and the configuration asks for it. -/
theorem compile_eq_ok {channels : List Channel} {config : Config} {p : Program} :
    (compile channels config).result = .ok p ↔
      ∃ b laidOut, config.board = .ok b ∧ config.layOut channels = .ok laidOut ∧
        p = if ShortPulse.hasShort b.clock laidOut ∧ config.mode = .encode
          then laidOut.encodeShort b else laidOut := by
  rw [result_compile]
  simp only [bind_eq_ok, exists_and_left, pure, Except.pure, Except.ok.injEq]
  refine exists_congr fun b => and_congr Iff.rfl (exists_congr fun laidOut =>
    and_congr Iff.rfl eq_comm)

/-- Without short pulses a compilation is the program laid out. -/
theorem compile_leave_eq_ok {channels : List Channel} {config : Config} {b : Board} {p : Program}
    (hmode : config.mode = .leave) (hb : config.board = .ok b) :
    (compile channels config).result = .ok p ↔ config.layOut channels = .ok p := by
  rw [compile_eq_ok]
  constructor
  · rintro ⟨_, laidOut, -, hlaid, rfl⟩
    rw [if_neg fun h => by simp [hmode] at h]
    exact hlaid
  · intro hlaid
    exact ⟨b, p, hb, hlaid, (if_neg fun h => by simp [hmode] at h).symm⟩

end PulseSequencer
