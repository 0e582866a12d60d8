import PulseSequencer.Proofs.Elements
import PulseSequencer.Proofs.Experiment.Independence

/-!
# Loading, call by call

A board is loaded by calls in a fixed order, and a call that fails is the last one. Nothing is asked
of the driver here: what it makes of a call may depend on all calls before, and it may fail at any
of them with any error.

* `opcodes`: all opcodes, in the order of the values that stand for them.
* `protocol`: the calls that load a program, in order.
* `Driver.Answers`, `Driver.FailsAt`: a driver answers some calls one behind the other, or fails at
  one of them.
* `Driver.traced`: a driver with the calls made to it written down.
* `Driver.Follows`: what it means to make some calls in order, up to the first that fails.
* `Experiment.loading`: a load as a step of an experiment and a driver.

Results:
* `idxOf_opcodes`: the value of an opcode is its place.
* `quiet_load`: but for its notices, a load makes the calls of the protocol and does nothing else.
* `answers_or_failsAt`, `Answers.runs_forM`, `FailsAt.fails_forM`: how a list of calls ends.
* `Recorder.answers`, `Recorder.failsAt`: a driver that fails at a given position.
* **`load_follows_protocol`**: all drivers, all programs, and the devices of an experiment.
-/

namespace PulseSequencer

/-! ## Actions without their notices -/

namespace Action

variable {σ α β : Type} {s s' : σ}

/-- The action without its notices. -/
def quiet (x : Action σ α) : Action σ α := fun s => (⟨(x s).1.result, []⟩, (x s).2)

theorem runs_quiet {x : Action σ α} {a : α} : x.quiet.Runs s a s' ↔ x.Runs s a s' := Iff.rfl

theorem fails_quiet {x : Action σ α} {e : Error} : x.quiet.Fails s e s' ↔ x.Fails s e s' := Iff.rfl

theorem quiet_bind (x : Action σ α) (f : α → Action σ β) :
    (x >>= f).quiet = x.quiet >>= fun a => (f a).quiet := by
  funext s
  cases h : (x s).1.result with
  | error e =>
    have hquiet : (x.quiet s).1.result = .error e := h
    rw [quiet, bind_apply_of_error h, bind_apply_of_error hquiet]
    rfl
  | ok a =>
    have hquiet : (x.quiet s).1.result = .ok a := h
    rw [quiet, bind_apply_of_ok h, bind_apply_of_ok hquiet]
    rfl

theorem quiet_note (n : Notice) : quiet (liftM (Logged.note n) : Action σ Unit) = pure () := rfl

theorem quiet_noteAll (ns : List Notice) :
    quiet (liftM (Logged.noteAll ns) : Action σ Unit) = pure () := rfl

end Action

/-! ## The protocol -/

/-- The opcodes in the order of the values that stand for them in the instruction memory, from zero
on. -/
def opcodes : List Opcode :=
  [.proceed, .stop, .loop, .endLoop, .call, .ret, .branch, .longDelay, .wait]

theorem idxOf_opcodes (o : Opcode) : opcodes.idxOf o = o.code := by
  cases o <;> rfl

/-- The calls that load a program, in order: the board is closed and opened anew, each instruction
is written between the two calls that frame the programming, and a board that is to start is started
and closed again. -/
def protocol (p : Program) (start : Bool) : List Call :=
  let written : List Call := p.map fun i =>
    .writeInstruction i.flags (opcodes.idxOf i.opcode) i.data (Arithmetic.binary64.ofNat i.length)
  [.close, .init, .startProgramming] ++ written ++ [.stopProgramming] ++
    if start then [.start, .close] else []

variable {σ : Type}

/-- **A load makes the calls of the protocol** and, but for its notices, does nothing else. -/
theorem quiet_load (driver : Driver σ) (p : Program) (start : Bool) :
    (load driver p start).quiet = ((protocol p start).forM driver).quiet := by
  cases start <;>
    simp [load, write, protocol, idxOf_opcodes, Instruction.toCall, Action.quiet_bind,
      Action.quiet_note, Action.quiet_noteAll]

/-! ## Calls one behind the other -/

namespace Driver

/-- From state `s` on the driver answers some calls one behind the other, and `s'` is left. -/
inductive Answers (driver : Driver σ) : σ → List Call → σ → Prop
  | nil (s : σ) : Answers driver s [] s
  | cons {s s₁ s' : σ} {c : Call} {calls : List Call} (hc : (driver c).Runs s () s₁)
      (h : Answers driver s₁ calls s') : Answers driver s (c :: calls) s'

/-- From state `s` on the driver answers the calls before number `k`, but that one fails with `e`
and leaves `s'`. -/
def FailsAt (driver : Driver σ) (s : σ) (calls : List Call) (k : Nat) (e : Error) (s' : σ) :
    Prop :=
  ∃ c s₁, calls[k]? = some c ∧ driver.Answers s (calls.take k) s₁ ∧ (driver c).Fails s₁ e s'

/-- The driver with the calls made to it written down, those that fail as well. -/
def traced (driver : Driver σ) : Driver (List Call × σ) := fun c (made, s) =>
  ((driver c s).1, made ++ [c], (driver c s).2)

variable {driver : Driver σ} {c : Call} {calls made : List Call} {k : Nat} {s s' : σ} {e : Error}

/-- **Some calls in order are all answered, or one of them is the first to fail.** -/
theorem answers_or_failsAt (driver : Driver σ) (s : σ) (calls : List Call) :
    (∃ s', driver.Answers s calls s') ∨ ∃ k e s', driver.FailsAt s calls k e s' := by
  induction calls generalizing s with
  | nil => exact Or.inl ⟨s, .nil s⟩
  | cons c calls ih =>
    rcases (driver c).runs_or_fails s with ⟨_, s₁, hc⟩ | ⟨e, s', hc⟩
    · rcases ih s₁ with ⟨s', h⟩ | ⟨k, e, s', c', s₂, hk, hbefore, hfails⟩
      · exact Or.inl ⟨s', .cons hc h⟩
      · exact Or.inr ⟨k + 1, e, s', c', s₂, hk, .cons hc hbefore, hfails⟩
    · exact Or.inr ⟨0, e, s', c, s, rfl, .nil s, hc⟩

/-- Calls that are all answered are made one behind the other. -/
theorem Answers.runs_forM (h : driver.Answers s calls s') : (calls.forM driver).Runs s () s' := by
  induction h with
  | nil s => exact Action.runs_pure.mpr ⟨rfl, rfl⟩
  | cons hc _ ih => exact Action.runs_bind.mpr ⟨(), _, hc, ih⟩

/-- A call that fails ends the calls. -/
theorem FailsAt.fails_forM (h : driver.FailsAt s calls k e s') :
    (calls.forM driver).Fails s e s' := by
  obtain ⟨c, s₁, hk, hbefore, hfails⟩ := h
  induction calls generalizing k s with
  | nil => cases hk
  | cons c₁ calls ih =>
    refine Action.fails_bind.mpr ?_
    cases k with
    | zero =>
      obtain rfl := Option.some.inj hk
      cases hbefore
      exact Or.inl hfails
    | succ k =>
      cases hbefore with
      | cons hc hbefore => exact Or.inr ⟨(), _, hc, ih hk hbefore⟩

theorem Answers.traced (h : driver.Answers s calls s') :
    driver.traced.Answers (made, s) calls (made ++ calls, s') := by
  induction h generalizing made with
  | nil s =>
    rw [List.append_nil]
    exact .nil _
  | @cons s s₁ s' c calls hc _ ih =>
    have hrest : driver.traced.Answers (made ++ [c], s₁) calls (made ++ [c] ++ calls, s') := ih
    rw [List.append_assoc] at hrest
    exact .cons ⟨hc.1, congrArg (made ++ [c], ·) hc.2⟩ hrest

theorem FailsAt.traced (h : driver.FailsAt s calls k e s') :
    driver.traced.FailsAt (made, s) calls k e (made ++ calls.take (k + 1), s') := by
  obtain ⟨c, s₁, hk, hbefore, hfails⟩ := h
  have htake : calls.take (k + 1) = calls.take k ++ [c] := by
    rw [List.take_add_one, hk, Option.toList_some]
  rw [htake, ← List.append_assoc]
  exact ⟨c, _, hk, hbefore.traced, hfails.1, congrArg (made ++ calls.take k ++ [c], ·) hfails.2⟩

/-- What it means that an action on a traced driver in state `s` makes some calls in order, up to
the first that fails. -/
structure Follows (driver : Driver σ) (s : σ) (calls : List Call)
    (x : Action (List Call × σ) Unit) : Prop where
  /-- The calls made are the first ones. -/
  made : (x ([], s)).2.1 <+: calls
  /-- When none fails, all are made. -/
  complete : ∀ s', driver.Answers s calls s' → x.Runs ([], s) () (calls, s')
  /-- The one that fails is the last one made, and the answer is its error. -/
  aborted : ∀ k e s', driver.FailsAt s calls k e s' →
    x.Fails ([], s) e (calls.take (k + 1), s')
  /-- There is no other way to end. -/
  ends : (∃ s', driver.Answers s calls s') ∨ ∃ k e s', driver.FailsAt s calls k e s'

/-- An action that but for its notices makes some calls and does nothing else. -/
theorem follows_of_quiet {x : Action (List Call × σ) Unit}
    (h : x.quiet = (calls.forM driver.traced).quiet) (s : σ) : driver.Follows s calls x := by
  have hcomplete : ∀ s', driver.Answers s calls s' → x.Runs ([], s) () (calls, s') := by
    intro s' ha
    rw [← Action.runs_quiet, h]
    exact ha.traced.runs_forM
  have haborted : ∀ k e s', driver.FailsAt s calls k e s' →
      x.Fails ([], s) e (calls.take (k + 1), s') := by
    intro k e s' hf
    rw [← Action.fails_quiet, h]
    exact hf.traced.fails_forM
  refine ⟨?_, hcomplete, haborted, driver.answers_or_failsAt s calls⟩
  rcases driver.answers_or_failsAt s calls with ⟨s', ha⟩ | ⟨k, e, s', hf⟩
  · rw [(hcomplete s' ha).2]
  · rw [(haborted k e s' hf).2]
    exact List.take_prefix _ _

end Driver

/-! ## A driver that fails at a given position -/

namespace Recorder

theorem answers {calls : List Call} {r : Recorder}
    (h : ∀ k e, r.failure = some (k, e) → r.calls.length + calls.length ≤ k) :
    driver.Answers r calls { r with calls := r.calls ++ calls } := by
  induction calls generalizing r with
  | nil =>
    rw [List.append_nil]
    exact .nil r
  | cons c calls ih =>
    have hnext : r.nextFailure? = none := by
      unfold nextFailure?
      cases hfailure : r.failure with
      | none => rfl
      | some failure =>
        have hle := h failure.1 failure.2 hfailure
        rw [List.length_cons] at hle
        exact if_neg (by omega)
    have hc : (driver c).Runs r () { r with calls := r.calls ++ [c] } := by
      simp [Action.Runs, driver, hnext]
    have hrest := ih (r := { r with calls := r.calls ++ [c] }) fun k e hfailure => by
      have hle := h k e hfailure
      simp only [List.length_append, List.length_cons, List.length_nil] at hle ⊢
      omega
    rw [List.append_assoc] at hrest
    exact .cons hc hrest

theorem failsAt {calls : List Call} {k : Nat} (hk : k < calls.length) (e : Error) :
    driver.FailsAt { failure := some (k, e) } calls k e
      { calls := calls.take k, failure := some (k, e) } := by
  have hbefore : driver.Answers { failure := some (k, e) } (calls.take k)
      { calls := calls.take k, failure := some (k, e) } :=
    answers fun k' e' hfailure => by
      obtain ⟨rfl, -⟩ := Prod.mk.inj (Option.some.inj hfailure)
      simp
  have hlength : (calls.take k).length = k := by
    rw [List.length_take, Nat.min_eq_left hk.le]
  refine ⟨calls[k], _, List.getElem?_eq_getElem hk, hbefore, ?_⟩
  simp [Action.Fails, driver, nextFailure?, hlength]

end Recorder

/-! ## The devices of an experiment -/

namespace Experiment

variable {e : Experiment} {d : Device} {p : Program} {name : String} {driver : Driver σ}
  {start : Bool} {s : σ}

/-- Loading as a step of an experiment and a driver, side by side: the experiment is only read. -/
def loading (name : String) (driver : Driver σ) (start : Bool) : Action (Experiment × σ) Unit :=
  fun (e, s) => ((e.load name driver start s).1, e, (e.load name driver start s).2)

theorem device_eq_error (h : name ∉ e.map Device.name) :
    e.device name = .error (.unknownDevice name) := by
  have hnone : e.find? (·.name = name) = none := by
    rw [List.find?_eq_none]
    intro d hd hname
    exact h (of_decide_eq_true hname ▸ List.mem_map_of_mem hd)
  unfold device
  rw [hnone]

theorem name_of_device (h : e.device name = .ok d) : d.name = name := by
  have hname := List.find?_some (device_eq_ok.mp h)
  exact of_decide_eq_true hname

theorem fails_load_of_unknown (h : name ∉ e.map Device.name) :
    (e.load name driver start).Fails s (.unknownDevice name) s := by
  unfold load
  rw [device_eq_error h]
  exact Action.fails_bind.mpr (Or.inl ⟨rfl, rfl⟩)

theorem fails_load_of_not_compiled (hd : e.device name = .ok d) (hp : d.program = none) :
    (e.load name driver start).Fails s (.notCompiled name) s := by
  unfold load
  rw [hd]
  refine Action.fails_bind.mpr (Or.inr ⟨d, s, ⟨rfl, rfl⟩, Action.fails_bind.mpr (Or.inl ?_)⟩)
  rw [Device.compiled, hp, name_of_device hd]
  exact ⟨rfl, rfl⟩

theorem load_of_compiled (hd : e.device name = .ok d) (hp : d.program = some p) :
    e.load name driver start = PulseSequencer.load driver p start := by
  unfold load
  rw [hd]
  show (liftM d.compiled >>= fun p => PulseSequencer.load driver p start) = _
  rw [Device.compiled, hp]
  rfl

end Experiment

/-- **Loading follows the protocol, whatever the driver does.** The calls made for a program are the
first ones of the protocol. A driver that answers all of them is given all of them, and the load
succeeds; at the first call that the driver fails, the load ends with the error of that call. So a
driver that fails at position `k` has answered exactly `k` calls. The devices of an experiment are
loaded in the same way, but no call is made for one that is not there or has no program; and the
experiment stays what it is. -/
theorem load_follows_protocol :
    (∀ (p : Program) (start : Bool),
      (∀ (σ : Type) (driver : Driver σ) (s : σ),
        driver.Follows s (protocol p start) (load driver.traced p start)) ∧
      (load Recorder.driver p start).Runs {} () { calls := protocol p start } ∧
      ∀ k err, k < (protocol p start).length →
        (load Recorder.driver p start).Fails { failure := some (k, err) } err
          { calls := (protocol p start).take k, failure := some (k, err) }) ∧
    ∀ (e : Experiment) (name : String) (start : Bool) (σ : Type) (driver : Driver σ) (s : σ),
      (name ∉ e.map Device.name →
        (e.load name driver.traced start).Fails ([], s) (.unknownDevice name) ([], s)) ∧
      (∀ d, e.device name = .ok d → d.program = none →
        (e.load name driver.traced start).Fails ([], s) (.notCompiled name) ([], s)) ∧
      (∀ d p, e.device name = .ok d → d.program = some p →
        driver.Follows s (protocol p start) (e.load name driver.traced start)) ∧
      (Experiment.loading name driver start (e, s)).2.1 = e := by
  have hfollows : ∀ (σ : Type) (driver : Driver σ) (s : σ) (p : Program) (start : Bool),
      driver.Follows s (protocol p start) (load driver.traced p start) := fun _ driver s p start =>
    Driver.follows_of_quiet (quiet_load driver.traced p start) s
  refine ⟨fun p start => ⟨fun _ driver s => hfollows _ driver s p start, ?_, fun k err hk => ?_⟩,
    fun e name start _ driver s => ⟨Experiment.fails_load_of_unknown,
      fun _ => Experiment.fails_load_of_not_compiled, fun d p hd hp => ?_, rfl⟩⟩
  · have hall : Recorder.driver.Answers {} (protocol p start) { calls := protocol p start } :=
      Recorder.answers fun _ _ hfailure => by cases hfailure
    rw [← Action.runs_quiet, quiet_load]
    exact hall.runs_forM
  · rw [← Action.fails_quiet, quiet_load]
    exact (Recorder.failsAt hk err).fails_forM
  · rw [Experiment.load_of_compiled hd hp]
    exact hfollows _ driver s p start

/-- The third instruction of a device cannot be written: the programming is not ended, and the board
is not started. -/
theorem torn_load_ends :
    let p : Program := [.proceed 0x200001 10, ⟨0, .wait, 0, 12⟩, ⟨0, .branch, 1, 22⟩]
    let e : Experiment := [{ Device.bare with program := some p, fresh := true }]
    let failing : Recorder := { failure := some (5, .driver "board is gone") }
    let answered : List Call :=
      [.close, .init, .startProgramming, .writeInstruction 0x200001 0 0 (.finite 10),
        .writeInstruction 0 8 0 (.finite 12)]
    (e.load "pb" Recorder.driver.traced true).Fails ([], failing) (.driver "board is gone")
        (answered ++ [.writeInstruction 0 6 1 (.finite 22)], { failing with calls := answered }) ∧
      (e.load "second" Recorder.driver.traced true).Fails ([], failing) (.unknownDevice "second")
        ([], failing) := by
  intro p e failing answered
  have hanswered : (protocol p true).take 5 = answered := by decide +kernel
  have hmade : (protocol p true).take 6 = answered ++ [.writeInstruction 0 6 1 (.finite 22)] := by
    decide +kernel
  obtain ⟨-, hdevices⟩ := load_follows_protocol
  obtain ⟨-, -, hcompiled, -⟩ := hdevices e "pb" true Recorder Recorder.driver failing
  obtain ⟨hunknown, -⟩ := hdevices e "second" true Recorder Recorder.driver failing
  have hfails : Recorder.driver.FailsAt failing (protocol p true) 5 (.driver "board is gone")
      { failing with calls := (protocol p true).take 5 } :=
    Recorder.failsAt (by decide) _
  rw [hanswered] at hfails
  rw [← hmade]
  exact ⟨(hcompiled _ p rfl rfl).aborted 5 _ _ hfails, hunknown (by decide)⟩

end PulseSequencer
