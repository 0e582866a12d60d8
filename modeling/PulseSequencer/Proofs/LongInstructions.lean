import PulseSequencer.Proofs.Encoding
import PulseSequencer.Proofs.OnClock

/-!
# Long instructions pass through

Encoding short pulses leaves a program alone in which every instruction is longer than five clock
periods. So a compilation need not look for short instructions first: it may encode every program
that it lays out. That takes an empty short pulse field in every instruction laid out. A field that
is not empty makes an instruction absorb what is all low behind it, however long it is.

* `compileThroughout`: a compilation that encodes short pulses in any case.
* `takes_eq_false`, `groups_of_long`: a long instruction with an empty field stays by itself.
* `cover_single`, `retarget_range`: groups of one instruction leave branches as they are.

Results:
* **`encodeShort_of_long`**: a program of long instructions is encoded as itself.
* **`compile_eq_throughout`**: looking for short instructions first changes nothing.
-/

namespace PulseSequencer

open ShortPulse

/-- The compilation that encodes short pulses whether there are any or not. -/
def compileThroughout (channels : List Channel) (config : Config) : Except Error Program := do
  let board ← config.board
  channels.forM config.check
  let padding ← config.extent.paddingAfter (lastEdge channels)
  let p ← config.close (Program.ofSteps (steps channels padding))
  return p.encodeShort board

namespace ShortPulse

variable {b : Board}

/-! ## Groups of long instructions -/

theorem groupFlags_of_long {g : Group} (h : minLength b.clock < g.head.length) :
    g.flags b = g.head.flags :=
  if_neg (Nat.not_le.mpr h)

/-- A long instruction with an empty field takes in nothing. -/
theorem takes_eq_false {g : Group} (hlong : minLength b.clock < g.head.length)
    (hempty : periods g.head.flags b.bit = 0) (i : Instruction) : g.takes b i = false := by
  unfold Group.takes
  rw [groupFlags_of_long hlong, hempty]
  exact Bool.and_false _

theorem groupsFrom_of_long {i : Instruction} {p : Program}
    (hlong : ∀ j ∈ i :: p, minLength b.clock < j.length)
    (hempty : ∀ j ∈ i :: p, periods j.flags b.bit = 0) :
    groupsFrom b ⟨i, []⟩ p = (i :: p).map fun j => ⟨j, []⟩ := by
  induction p generalizing i with
  | nil => rfl
  | cons j p ih =>
    have htakes : Group.takes b ⟨i, []⟩ j = false :=
      takes_eq_false (hlong i List.mem_cons_self) (hempty i List.mem_cons_self) j
    rw [groupsFrom, if_neg (Bool.eq_false_iff.mp htakes),
      ih (fun k hk => hlong k (List.mem_cons_of_mem i hk))
        fun k hk => hempty k (List.mem_cons_of_mem i hk)]
    rfl

/-- Every long instruction is a group by itself. -/
theorem groups_of_long {p : Program} (hlong : ∀ i ∈ p, minLength b.clock < i.length)
    (hempty : ∀ i ∈ p, periods i.flags b.bit = 0) : groups b p = p.map fun i => ⟨i, []⟩ := by
  cases p with
  | nil => rfl
  | cons i p => exact groupsFrom_of_long hlong hempty

/-- The instruction of a group by itself is what it was. -/
theorem instruction_of_long {i : Instruction} (h : minLength b.clock < i.length) :
    Group.instruction b ⟨i, []⟩ = i := by
  rw [instruction_single, shorten, if_neg (Nat.not_le.mpr h)]

/-! ## Branches -/

/-- Groups of one instruction are numbered as the instructions are. -/
theorem cover_single (p : Program) : cover (p.map fun i => ⟨i, []⟩) = List.range p.length := by
  have hsingle : ∀ gk ∈ (p.map fun i => (⟨i, []⟩ : Group)).zipIdx,
      List.replicate gk.1.members.length gk.2 = [gk.2] := by
    intro gk hgk
    obtain ⟨i, -, hi⟩ := List.mem_map.mp (List.fst_mem_of_mem_zipIdx hgk)
    rw [← hi]
    rfl
  calc cover (p.map fun i => ⟨i, []⟩)
      = (p.map fun i => (⟨i, []⟩ : Group)).zipIdx.map Prod.snd :=
        (List.flatMap_congr hsingle).trans (List.map_eq_flatMap).symm
    _ = List.range p.length := by
        rw [List.zipIdx_map_snd, List.length_map, List.range_eq_range']

theorem retarget_range (n : Nat) (i : Instruction) : retarget (List.range n) i = i := by
  have hdata : (List.range n)[i.data]?.getD i.data = i.data := by
    by_cases h : i.data < n
    · rw [List.getElem?_range h]
      rfl
    · rw [List.getElem?_eq_none (by rw [List.length_range]; omega)]
      rfl
  unfold retarget
  rw [hdata]
  exact ite_self i

end ShortPulse

/-! ## Programs of long instructions -/

/-- **A program of long instructions is encoded as itself**, its branches included. -/
theorem encodeShort_of_long {b : Board} {p : Program}
    (hflags : ∀ i ∈ p, i.flags.toNat < 2 ^ b.bit)
    (hlong : ∀ i ∈ p, minLength b.clock < i.length) : p.encodeShort b = p := by
  rw [encodeShort_eq]
  simp only [groups_of_long hlong fun i hi => periods_of_lt (hflags i hi), cover_single,
    List.map_map]
  refine (List.map_congr_left fun i hi => ?_).trans (List.map_id p)
  show retarget _ (Group.instruction b ⟨i, []⟩) = i
  rw [instruction_of_long (hlong i hi), retarget_range]

/-- A program laid out of long instructions is encoded as itself. -/
theorem encodeShort_layOut_of_long {channels : List Channel} {config : Config} {b : Board}
    {p : Program} (hone : ∀ c ∈ channels, ∃ n, n < wordBits ∧ c.flags = Flags.output n)
    (hb : config.board = .ok b) (h : config.layOut channels = .ok p)
    (hlong : ∀ i ∈ p, minLength b.clock < i.length) : p.encodeShort b = p := by
  refine encodeShort_of_long (fun i hi => ?_) hlong
  rw [(Config.board_eq_ok.mp hb).2]
  exact flags_lt_layOut hone h i hi

theorem compileThroughout_eq (channels : List Channel) (config : Config) :
    compileThroughout channels config = (do
      let board ← config.board
      let laidOut ← config.layOut channels
      return laidOut.encodeShort board) := by
  unfold compileThroughout Config.layOut
  simp only [bind_assoc]

/-- **Looking for short instructions changes nothing.** Whatever channels of one output each are
compiled with short pulses, the result is that of a compilation that encodes them in any case, the
error included. The reason is that a program laid out of instructions longer than five clock
periods is encoded as itself. -/
theorem compile_eq_throughout {channels : List Channel} {config : Config}
    (hone : ∀ c ∈ channels, ∃ n, n < wordBits ∧ c.flags = Flags.output n)
    (hmode : config.mode = .encode) :
    (compile channels config).result = compileThroughout channels config ∧
      ∀ b p, config.board = .ok b → config.layOut channels = .ok p →
        (∀ i ∈ p, minLength b.clock < i.length) → p.encodeShort b = p := by
  refine ⟨?_, fun b p hb h hlong => encodeShort_layOut_of_long hone hb h hlong⟩
  rw [result_compile, compileThroughout_eq]
  cases hb : config.board with
  | error e => rfl
  | ok b =>
    cases h : config.layOut channels with
    | error e => rfl
    | ok p =>
      simp only [ok_bind, hmode, and_true]
      by_cases hshort : hasShort b.clock p = true
      · rw [if_pos hshort]
      · have hlong := hasShort_eq_false.mp (Bool.eq_false_iff.mpr hshort)
        rw [if_neg hshort, encodeShort_layOut_of_long hone hb h hlong]

/-- A looped program with an all-low instruction between two pulses, all of them long. -/
theorem long_pulses_compile_throughout :
    ∃ channels config b p,
      (∀ c ∈ channels, ∃ n, n < wordBits ∧ c.flags = Flags.output n) ∧ config.mode = .encode ∧
      config.board = .ok b ∧ config.layOut channels = .ok p ∧
      (∀ i ∈ p, minLength b.clock < i.length) ∧ p.length = 4 ∧ p.encodeShort b = p ∧
      compileThroughout channels config = .ok p := by
  let channels : List Channel := [⟨Flags.output 1, [⟨0, 20⟩, ⟨40, 12⟩]⟩]
  let config : Config := { extent := .padding 30, loop := some 2 }
  let b : Board := ⟨2, 21, by decide, by decide⟩
  let p : Program :=
    [.proceed 2 20, .proceed 0 20, .proceed 2 12, ⟨0, .branch, 2, 30⟩]
  have hone : ∀ c ∈ channels, ∃ n, n < wordBits ∧ c.flags = Flags.output n := by
    simpa [channels] using ⟨1, by decide, rfl⟩
  have hlaid : config.layOut channels = .ok p := by cbv
  have hcompiled : (compile channels config).result = .ok p := by cbv
  have hlong : ∀ i ∈ p, minLength b.clock < i.length := by decide
  have hmode : config.mode = .encode := rfl
  obtain ⟨hsame, hencoded⟩ := compile_eq_throughout hone hmode
  exact ⟨channels, config, b, p, hone, hmode, rfl, hlaid, hlong, rfl,
    hencoded b p rfl hlaid hlong, hsame ▸ hcompiled⟩

end PulseSequencer
