import PulseSequencer.Proofs.Stages

/-!
# Why a compilation is refused

The stages of `compile` once more, by the errors that they end with. Where every channel is
accepted and the extent is given by a padding, the branch is all that can be refused.

* `forM_eq_error`: a list of checks fails at the first element that does.
* `board_eq_error`, `paddingAfter_eq_error`: the board and the extent.
* `close_eq_error`: a program that is not empty and has no instruction at the target of its loop.
* `layOut_of_accepted`: channels that are accepted are laid out up to that branch.
* `layOut_eq_error`: a layout is refused for a channel, the extent or the branch.
* `compile_eq_error`: a compilation is refused for its board or where it is laid out.
-/

namespace PulseSequencer

/-- A list of checks fails with the error of the first element that does. -/
theorem forM_eq_error {α : Type} {f : α → Except Error Unit} {xs : List α} {e : Error} :
    xs.forM f = .error e ↔
      ∃ before x after, xs = before ++ x :: after ∧ (∀ y ∈ before, f y = .ok ()) ∧
        f x = .error e := by
  induction xs with
  | nil => simp [pure, Except.pure]
  | cons x xs ih =>
    show (f x >>= fun _ => xs.forM f) = _ ↔ _
    rw [bind_eq_error, ih]
    constructor
    · rintro (hx | ⟨⟨⟩, hx, before, y, after, rfl, hbefore, hy⟩)
      · exact ⟨[], x, xs, rfl, fun _ hmem => absurd hmem List.not_mem_nil, hx⟩
      · exact ⟨x :: before, y, after, rfl, List.forall_mem_cons.mpr ⟨hx, hbefore⟩, hy⟩
    · rintro ⟨before, y, after, hsplit, hbefore, hy⟩
      cases before with
      | nil =>
        obtain ⟨rfl, rfl⟩ := List.cons.inj hsplit
        exact Or.inl hy
      | cons x' before =>
        obtain ⟨rfl, rfl⟩ := List.cons.inj hsplit
        obtain ⟨hx, hbefore⟩ := List.forall_mem_cons.mp hbefore
        exact Or.inr ⟨(), hx, before, y, after, rfl, hbefore, hy⟩

/-! ## The board and the extent -/

theorem Config.board_eq_error {config : Config} {e : Error} :
    config.board = .error e ↔ (config.clock = 0 ∧ e = .invalidClock .zeroPeriod) ∨
      0 < config.clock ∧ wordBits < config.bit + fieldBits ∧
        e = .invalidShortPulseBit config.bit := by
  unfold board Board.of
  split_ifs with hclock hfits
  · simp [Except.mapError, Nat.pos_iff_ne_zero.mp hclock, Nat.not_lt.mpr hfits]
  · simp [Except.mapError, BoardFault.toError, Nat.pos_iff_ne_zero.mp hclock, Nat.not_le.mp hfits,
      Nat.pos_of_ne_zero, eq_comm]
  · simp [Except.mapError, BoardFault.toError, Nat.eq_zero_of_not_pos hclock, eq_comm]

theorem Extent.paddingAfter_eq_error {extent : Extent} {lastEdge : Nat} {e : Error} :
    extent.paddingAfter lastEdge = .error e ↔
      ∃ total, extent = .total total ∧ total < lastEdge ∧ e = .programTooShort total lastEdge := by
  cases extent with
  | padding time => simp [paddingAfter]
  | total time =>
    rw [paddingAfter]
    split_ifs with hle
    · simp [Nat.not_lt.mpr hle]
    · simp [Nat.not_le.mp hle, eq_comm]

/-! ## The overlap check -/

theorem Channel.checkOverlaps_eq_error {c : Channel} {e : Error} :
    c.checkOverlaps = .error e ↔ ∃ p q, c.clash? = some (p, q) ∧
      e = .overlappingPulses c.flags p.start p.stop q.start q.stop := by
  unfold checkOverlaps
  cases c.clash? with
  | none => simp
  | some pq =>
    obtain ⟨p, q⟩ := pq
    simp only [Except.error.injEq, Option.some.injEq, Prod.mk.injEq]
    constructor
    · rintro rfl
      exact ⟨p, q, ⟨rfl, rfl⟩, rfl⟩
    · rintro ⟨_, _, ⟨rfl, rfl⟩, rfl⟩
      rfl

/-! ## The branch at the end -/

theorem Program.loopTo_eq_error {p : Program} {target : Nat} {e : Error} (hne : p ≠ []) :
    p.loopTo target = .error e ↔ p.length ≤ target ∧ e = .branchOutOfRange target p.length := by
  unfold loopTo
  rw [List.getLast?_eq_some_getLast hne]
  simp only
  split
  · rename_i hlt
    simp [Nat.not_le.mpr hlt]
  · rename_i hle
    simp [Nat.not_lt.mp hle, eq_comm]

namespace Config

variable {config : Config}

/-- **Closing is refused for the branch alone**: there is an instruction to branch from and none to
branch to. -/
theorem close_eq_error {p : Program} {e : Error} :
    config.close p = .error e ↔ ∃ target, config.loop = some target ∧ p ≠ [] ∧
      p.length ≤ target ∧ e = .branchOutOfRange target p.length := by
  unfold close
  cases config.loop with
  | none => simp
  | some target =>
    by_cases hp : p = []
    · simp [hp]
    · simp [hp, Program.loopTo_eq_error]

/-- Channels that are accepted are laid out up to the branch. -/
theorem layOut_of_accepted {channels : List Channel} {padding : Nat}
    (haccepted : ∀ c ∈ channels, c.number < config.bit ∧ c.clash? = none)
    (hpadding : config.extent.paddingAfter (lastEdge channels) = .ok padding) :
    config.layOut channels = config.close (Program.ofSteps (steps channels padding)) := by
  have hcheck : channels.forM config.check = .ok () :=
    forM_eq_ok.mpr fun c hc => check_eq_ok.mpr (haccepted c hc)
  unfold layOut
  rw [hcheck, hpadding]
  rfl

/-- A layout is refused for a channel, for the extent, or for the branch, in this order. -/
theorem layOut_eq_error {channels : List Channel} {e : Error} :
    config.layOut channels = .error e ↔ channels.forM config.check = .error e ∨
      channels.forM config.check = .ok () ∧
        (config.extent.paddingAfter (lastEdge channels) = .error e ∨
          ∃ padding, config.extent.paddingAfter (lastEdge channels) = .ok padding ∧
            config.close (Program.ofSteps (steps channels padding)) = .error e) := by
  unfold layOut
  simp only [bind_eq_error]
  refine or_congr Iff.rfl ⟨?_, fun ⟨h, hrest⟩ => ⟨(), h, hrest⟩⟩
  rintro ⟨⟨⟩, h, hrest⟩
  exact ⟨h, hrest⟩

end Config

/-- A compilation is refused for its board, or where its program is laid out. -/
theorem compile_eq_error {channels : List Channel} {config : Config} {e : Error} :
    (compile channels config).result = .error e ↔
      config.board = .error e ∨ ∃ b, config.board = .ok b ∧ config.layOut channels = .error e := by
  rw [result_compile]
  simp only [bind_eq_error, pure, Except.pure, reduceCtorEq, and_false, exists_false, or_false]

end PulseSequencer
