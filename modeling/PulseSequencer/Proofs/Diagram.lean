import PulseSequencer.Diagram
import PulseSequencer.Proofs.Table

/-!
# Diagrams show what a board does

The line of an output in a timing diagram is high exactly while the board drives that output, where
the field of an instruction with a short pulse is decoded: `N > 0` periods, then low. The line is
put together instruction by instruction, and what the last corner says is all that is passed on, so
the argument is about the pieces: corners that show an output from one time to another.

* `levelAt?`: the level of a line at a time.
* `Style.drives`, `Style.driven`: whether an instruction, or the one of a program that runs, drives
  an output.
* `Style.Traces`: corners that show an output from one time to another.

Results:
* `Traces.append`: two pieces of a line, one behind the other.
* `traces_corners`, `traces_cornersFrom`: the piece of one instruction, and of a program.
* `lines_of_nodup`: the lines under different names.
* **`lines_show_outputs`**: the diagram of a program.
-/

namespace PulseSequencer

open ShortPulse

/-! ## The instruction that runs -/

namespace Program

/-- Instruction `i` runs at `time`: it began at `start`, behind all that stand before it, and is not
over. -/
def RunsAt (p : Program) (i : Instruction) (start time : Nat) : Prop :=
  ∃ before behind, p = before ++ i :: behind ∧ duration before = start ∧
    start ≤ time ∧ time < start + i.length

/-- Until a program is over, some instruction of it runs. -/
theorem exists_runsAt {p : Program} {time : Nat} (h : time < p.duration) :
    ∃ i start, p.RunsAt i start time := by
  induction p generalizing time with
  | nil => exact absurd h (Nat.not_lt_zero _)
  | cons i p ih =>
    rw [duration_cons] at h
    by_cases hin : time < i.length
    · exact ⟨i, 0, [], p, rfl, rfl, Nat.zero_le _, by omega⟩
    · obtain ⟨j, start, before, behind, rfl, rfl, hle, hlt⟩ :=
        ih (by omega : time - i.length < duration p)
      refine ⟨j, i.length + duration before, i :: before, behind, rfl, rfl, ?_, ?_⟩ <;> omega

variable {p : Program} {i : Instruction} {start time : Nat}

theorem RunsAt.le_time (h : p.RunsAt i start time) : start ≤ time := by
  obtain ⟨before, behind, -, -, hle, -⟩ := h
  exact hle

theorem RunsAt.lt_duration (h : p.RunsAt i start time) : time < p.duration := by
  obtain ⟨before, behind, rfl, rfl, -, hlt⟩ := h
  rw [duration_append, duration_cons]
  omega

end Program

/-! ## The level of a line -/

/-- The level of a line at `time`: that of the last corner not behind it. -/
def levelAt? (line : List Vertex) (time : Nat) : Option Nat :=
  (line.filter fun v => v.time ≤ time).getLast?.map Vertex.level

variable {vs ws : List Vertex} {last : Vertex} {time : Nat}

theorem levelAt?_append (vs ws : List Vertex) (time : Nat) :
    levelAt? (vs ++ ws) time = (levelAt? ws time).or (levelAt? vs time) := by
  unfold levelAt?
  rw [List.filter_append, List.getLast?_append, Option.map_or]

/-- Corners that are still to come have no part in the level. -/
theorem levelAt?_of_later (h : ∀ v ∈ vs, time < v.time) : levelAt? vs time = none := by
  have hnone : (vs.filter fun v => v.time ≤ time) = [] := by
    rw [List.filter_eq_nil_iff]
    intro v hv
    rw [decide_eq_true_eq]
    exact Nat.not_le.mpr (h v hv)
  unfold levelAt?
  rw [hnone]
  rfl

/-- Behind all corners the level is that of the last one. -/
theorem levelAt?_of_past (hlast : last.time ≤ time) (h : ∀ v ∈ vs, v.time ≤ time) :
    levelAt? (last :: vs) time = some (vs.getLastD last).level := by
  have hall : ((last :: vs).filter fun v => v.time ≤ time) = last :: vs := by
    rw [List.filter_eq_self]
    intro v hv
    rcases List.mem_cons.mp hv with rfl | hv
    · exact decide_eq_true hlast
    · exact decide_eq_true (h v hv)
  unfold levelAt?
  rw [hall, List.getLast?_cons, List.getLastD_eq_getLast?]
  rfl

theorem getLastD_append (vs ws : List Vertex) (last : Vertex) :
    (vs ++ ws).getLastD last = ws.getLastD (vs.getLastD last) := by
  simp [List.getLastD_eq_getLast?, List.getLast?_append]

namespace Style

/-! ## What is driven -/

/-- Whether instruction `i` drives output `n` when it has run for `elapsed`: for as many clock
periods as its field holds, and throughout when the field is empty. -/
def drives (s : Style) (n : Nat) (i : Instruction) (elapsed : Nat) : Bool :=
  i.flags.isHigh n && (periods i.flags s.bit = 0 || elapsed < periods i.flags s.bit * s.clock)

/-- Whether the instruction of a program that runs at `time` drives output `n` then. -/
def driven (s : Style) (n : Nat) : Program → Nat → Bool
  | [], _ => false
  | i :: rest, time =>
    if time < i.length then s.drives n i time else driven s n rest (time - i.length)

/-- The level of an output that is driven or not. -/
def level (s : Style) (on : Bool) : Nat := if on then s.high else s.low

variable {s : Style} {n : Nat} {i : Instruction}

theorem drives_of_low (h : i.flags.isHigh n = false) (elapsed : Nat) :
    s.drives n i elapsed = false := by
  rw [drives, h, Bool.false_and]

theorem drives_of_high (h : i.flags.isHigh n = true) (elapsed : Nat) :
    s.drives n i elapsed =
      (periods i.flags s.bit = 0 || elapsed < s.clock * periods i.flags s.bit : Bool) := by
  rw [drives, h, Bool.true_and, Nat.mul_comm]

theorem driven_of_runsAt {p : Program} {start : Nat} (h : p.RunsAt i start time) :
    s.driven n p time = s.drives n i (time - start) := by
  obtain ⟨before, behind, rfl, rfl, hle, hlt⟩ := h
  induction before generalizing time with
  | nil =>
    rw [Program.duration_nil, Nat.zero_add] at hlt
    rw [List.nil_append, driven, if_pos hlt, Program.duration_nil, Nat.sub_zero]
  | cons j before ih =>
    rw [Program.duration_cons] at hle hlt ⊢
    rw [List.cons_append, driven, if_neg (by omega), ih (by omega) (by omega), Nat.sub_sub]

/-! ## Pieces of a line -/

/-- The corners `vs` behind `last` show from `start` to `stop` whether an output is driven. -/
structure Traces (s : Style) (on : Nat → Bool) (last : Vertex) (start stop : Nat)
    (vs : List Vertex) : Prop where
  last_le : last.time ≤ start
  within : ∀ v ∈ vs, start ≤ v.time ∧ v.time ≤ stop
  ordered : vs.Pairwise fun v w => v.time ≤ w.time
  two_levels : ∃ c, (vs.getLastD last).level = s.level c
  shows : ∀ t, start ≤ t → t < stop → levelAt? (last :: vs) t = some (s.level (on t))

variable {on on' : Nat → Bool} {start mid stop : Nat} {c : Bool}

/-- Corners at one time show an output that stays as it is until `stop`. -/
theorem traces_at (hlast : last.time ≤ start) (hle : start ≤ stop)
    (hvs : ∀ v ∈ vs, v.time = start) (hlevel : (vs.getLastD last).level = s.level c)
    (hon : ∀ t, start ≤ t → t < stop → on t = c) : s.Traces on last start stop vs where
  last_le := hlast
  within v hv := by rw [hvs v hv]; exact ⟨le_rfl, hle⟩
  ordered := List.pairwise_of_forall_mem_list fun v hv w hw => by rw [hvs v hv, hvs w hw]
  two_levels := ⟨c, hlevel⟩
  shows t ht hstop := by
    rw [levelAt?_of_past (hlast.trans ht) fun v hv => (hvs v hv).trans_le ht, hlevel,
      hon t ht hstop]

theorem Traces.congr (h : s.Traces on last start stop vs)
    (hon : ∀ t, start ≤ t → t < stop → on t = on' t) : s.Traces on' last start stop vs :=
  { h with shows := fun t ht hlt => hon t ht hlt ▸ h.shows t ht hlt }

theorem Traces.time_getLastD_le (h : s.Traces on last start stop vs) (hle : start ≤ stop) :
    (vs.getLastD last).time ≤ stop := by
  cases vs using List.reverseRecOn with
  | nil => exact h.last_le.trans hle
  | append_singleton vs v => simpa using (h.within v (by simp)).2

/-- **Two pieces of a line**, the second of them behind the last corner of the first. -/
theorem Traces.append (hle : start ≤ mid) (hmid : mid ≤ stop)
    (h : s.Traces on last start mid vs) (h' : s.Traces on (vs.getLastD last) mid stop ws) :
    s.Traces on last start stop (vs ++ ws) := by
  refine
    { last_le := h.last_le
      within := fun v hv => ?_
      ordered := ?_
      two_levels := getLastD_append vs ws last ▸ h'.two_levels
      shows := fun t ht hstop => ?_ }
  · rcases List.mem_append.mp hv with hv | hv
    · exact ⟨(h.within v hv).1, (h.within v hv).2.trans hmid⟩
    · exact ⟨hle.trans (h'.within v hv).1, (h'.within v hv).2⟩
  · refine List.pairwise_append.mpr ⟨h.ordered, h'.ordered, fun v hv w hw => ?_⟩
    exact (h.within v hv).2.trans (h'.within w hw).1
  · rw [← List.cons_append, levelAt?_append]
    by_cases htm : t < mid
    · rw [levelAt?_of_later fun w hw => htm.trans_le (h'.within w hw).1, Option.none_or]
      exact h.shows t ht htm
    · -- from the middle on the first piece counts by its last corner only
      have hmt := Nat.not_lt.mp htm
      have hpast : levelAt? (last :: vs) t = some (vs.getLastD last).level :=
        levelAt?_of_past (h.last_le.trans ht) fun v hv => (h.within v hv).2.trans hmt
      have hone : levelAt? [vs.getLastD last] t = some (vs.getLastD last).level :=
        levelAt?_of_past ((h.time_getLastD_le hle).trans hmt) fun _ hv => absurd hv List.not_mem_nil
      have hlater := h'.shows t hmt hstop
      rw [← List.singleton_append, levelAt?_append, hone] at hlater
      rw [hpast]
      exact hlater

/-! ## The line of a program -/

/-- A pulse that ends at `mid`, on an output that stands at `c` before. -/
theorem traces_pulse (hlast : last.time ≤ start) (hlevel : last.level = s.level c)
    (hle : start ≤ mid) (hmid : mid ≤ stop) (hon : ∀ t, start ≤ t → t < mid → on t = true)
    (hoff : ∀ t, mid ≤ t → on t = false) :
    s.Traces on last start stop
      (match c with
        | true => if mid < stop then s.fall mid else []
        | false => s.rise start ++ ⟨mid, s.high⟩ :: if mid < stop then [⟨mid, s.low⟩] else []) := by
  have hrise : s.Traces on last start mid (s.rise start) :=
    traces_at hlast hle (by simp [rise]) rfl hon
  have hstay : last.level = s.level true → s.Traces on last start mid [] := fun h =>
    traces_at hlast hle (fun _ hv => absurd hv List.not_mem_nil) h hon
  have hfall : ∀ last : Vertex, last.time ≤ mid → s.Traces on last mid stop (s.fall mid) :=
    fun last h => traces_at h hmid (by simp [fall]) rfl fun t ht _ => hoff t ht
  by_cases hends : mid < stop
  · cases c with
    | true =>
      simp only [if_pos hends]
      exact (hstay hlevel).append hle hmid (hfall _ (hlast.trans hle))
    | false =>
      simp only [if_pos hends]
      exact hrise.append hle hmid (hfall _ hle)
  · obtain rfl : mid = stop := le_antisymm hmid (Nat.not_lt.mp hends)
    cases c with
    | true =>
      simp only [if_neg hends]
      exact hstay hlevel
    | false =>
      -- left high for the next instruction to end
      simp only [if_neg hends]
      exact hrise.append hle le_rfl (traces_at (c := true) hle le_rfl (by simp) rfl
        fun t ht hlt => absurd hlt (Nat.not_lt.mpr ht))

/-- The step: what an instruction adds to a line shows its time. -/
theorem traces_corners (hne : s.low ≠ s.high) (hlast : last.time ≤ start)
    (hlevel : last.level = s.level c) (hfit : periods i.flags s.bit * s.clock ≤ i.length) :
    s.Traces (fun t => s.drives n i (t - start)) last start (start + i.length)
      (s.corners n last.level start i) := by
  have hstands : (last.level = s.high : Bool) = c := by
    cases c <;> simp [hlevel, level, hne]
  have hlen := Nat.le_add_right start i.length
  unfold corners
  rw [hstands]
  cases hn : i.flags.isHigh n with
  | false =>
    have hoff : ∀ t, start ≤ t → t < start + i.length → s.drives n i (t - start) = false :=
      fun t _ _ => drives_of_low hn (t - start)
    cases c with
    | false => exact traces_at hlast hlen (by simp) hlevel hoff
    | true => exact traces_at hlast hlen (by simp [fall]) rfl hoff
  | true =>
    by_cases hempty : periods i.flags s.bit = 0
    · have hon : ∀ t, start ≤ t → t < start + i.length → s.drives n i (t - start) = true :=
        fun t _ _ => by simp [drives_of_high hn, hempty]
      simp only [hempty, lt_irrefl, false_and, if_false]
      cases c with
      | false => exact traces_at hlast hlen (by simp [rise]) rfl hon
      | true => exact traces_at hlast hlen (by simp) hlevel hon
    · have hon : ∀ t, start ≤ t → t < start + s.clock * periods i.flags s.bit →
          s.drives n i (t - start) = true := by
        intro t ht hlt
        rw [drives_of_high hn, Bool.or_eq_true, decide_eq_true_eq, decide_eq_true_eq]
        omega
      have hoff : ∀ t, start + s.clock * periods i.flags s.bit ≤ t →
          s.drives n i (t - start) = false := by
        intro t ht
        rw [drives_of_high hn, Bool.or_eq_false_iff, decide_eq_false_iff_not,
          decide_eq_false_iff_not]
        omega
      rw [Nat.mul_comm] at hfit
      have hpulse := traces_pulse hlast hlevel (Nat.le_add_right start _)
        (Nat.add_le_add_left hfit start) hon hoff
      cases c with
      | false => simpa only [Nat.pos_of_ne_zero hempty, if_true] using hpulse
      | true => simpa only [Nat.pos_of_ne_zero hempty, true_and] using hpulse

/-- The run: what a program adds to a line shows all of its time. -/
theorem traces_cornersFrom (hne : s.low ≠ s.high) (n : Nat) {p : Program}
    (hfit : ∀ i ∈ p, periods i.flags s.bit * s.clock ≤ i.length) (hlast : last.time ≤ start)
    (hlevel : last.level = s.level c) :
    s.Traces (fun t => s.driven n p (t - start)) last start (start + p.duration)
      (s.cornersFrom n last start p) := by
  induction p generalizing last start c with
  | nil =>
    unfold cornersFrom
    refine traces_at (c := c) hlast le_rfl ?_ ?_ fun t ht hlt => absurd hlt (Nat.not_lt.mpr ht)
    · split <;> simp
    · split <;> exact hlevel
  | cons i p ih =>
    have hlen := Nat.le_add_right start i.length
    have hfirst := traces_corners (n := n) hne hlast hlevel (hfit i List.mem_cons_self)
    obtain ⟨c', hlevel'⟩ := hfirst.two_levels
    have hrest := ih (fun j hj => hfit j (List.mem_cons_of_mem i hj))
      (hfirst.time_getLastD_le hlen) hlevel'
    rw [Program.duration_cons, ← Nat.add_assoc, cornersFrom]
    refine Traces.append hlen (Nat.le_add_right _ _) (hfirst.congr fun t ht hlt => ?_)
      (hrest.congr fun t ht hlt => ?_)
    · rw [driven, if_pos (by omega)]
    · rw [driven, if_neg (by omega), Nat.sub_sub]

/-- A line ends with the program. -/
theorem time_getLastD_cornersFrom (s : Style) (n : Nat) (p : Program) (last : Vertex)
    (start : Nat) :
    ((s.cornersFrom n last start p).getLastD last).time = start + p.duration := by
  induction p generalizing last start with
  | nil =>
    unfold cornersFrom
    split
    · rename_i h
      exact h
    · rfl
  | cons i p ih =>
    rw [cornersFrom, getLastD_append, ih, Program.duration_cons, Nat.add_assoc]

/-- **The line of an output** shows the whole program. -/
theorem traces_line (hne : s.low ≠ s.high) (n : Nat) {p : Program}
    (hfit : ∀ i ∈ p, periods i.flags s.bit * s.clock ≤ i.length) :
    s.Traces (s.driven n p) ⟨0, s.low⟩ 0 p.duration (s.cornersFrom n ⟨0, s.low⟩ 0 p) := by
  have htraces : s.Traces (fun t => s.driven n p (t - 0)) ⟨0, s.low⟩ 0 (0 + p.duration)
      (s.cornersFrom n ⟨0, s.low⟩ 0 p) :=
    traces_cornersFrom (c := false) hne n hfit (Nat.le_refl 0) rfl
  rw [Nat.zero_add] at htraces
  exact htraces.congr fun t _ _ => rfl

theorem levelAt?_line (hne : s.low ≠ s.high) {p : Program}
    (hfit : ∀ i ∈ p, periods i.flags s.bit * s.clock ≤ i.length) (hruns : p.RunsAt i start time) :
    levelAt? (s.line n p) time = some (if i.flags.isHigh n = true ∧
        (periods i.flags s.bit = 0 ∨ time < start + periods i.flags s.bit * s.clock)
      then s.high else s.low) := by
  have hshows := (traces_line hne n hfit).shows time (Nat.zero_le time) hruns.lt_duration
  rw [driven_of_runsAt hruns] at hshows
  have hle := hruns.le_time
  rw [line, hshows, level, drives]
  simp only [Bool.and_eq_true, Bool.or_eq_true, decide_eq_true_eq, Nat.sub_lt_iff_lt_add' hle]

theorem time_getLast?_line (s : Style) (n : Nat) (p : Program) :
    (s.line n p).getLast?.map Vertex.time = some p.duration := by
  have hend := time_getLastD_cornersFrom s n p ⟨0, s.low⟩ 0
  rw [List.getLastD_eq_getLast?, Nat.zero_add] at hend
  rw [line, List.getLast?_cons, Option.map_some, hend]

/-! ## The diagram -/

/-- What the line of output `n` is called. -/
def lineName (names : Table Nat String) (n : Nat) : String :=
  (names.get? n).getD s!"chan_{n}"

/-- Under different names there is a line for each output that is used. -/
theorem lines_of_nodup {names : Table Nat String} {p : Program}
    (h : ((p.outputsUsed s.bit).map (lineName names)).Nodup) :
    s.lines names p = (p.outputsUsed s.bit).map fun n => (lineName names n, s.line n p) := by
  refine Table.ofList_of_nodup ?_
  rw [List.map_map]
  exact h

/-- **The diagram shows what the board does.** Let the two levels differ, the names of the outputs
that a program uses too, and no short pulse run over the end of its instruction. Then the diagram
has exactly one line for each of these outputs. Its corners stand in the order of time, from zero on
a low level to the end of the program, and at every time before the end the line is high when the
instruction that runs has the output set and is within the clock periods of its short pulse, if it
has one, and low when not. -/
theorem lines_show_outputs {names : Table Nat String} {p : Program} (hne : s.low ≠ s.high)
    (hnames : ((p.outputsUsed s.bit).map (lineName names)).Nodup)
    (hfit : ∀ i ∈ p, periods i.flags s.bit * s.clock ≤ i.length) :
    (s.lines names p).keys = (p.outputsUsed s.bit).map (lineName names) ∧
      ∀ n, n < s.bit → (∃ i ∈ p, i.flags.isHigh n = true) →
        ∃ line, (s.lines names p).get? (lineName names n) = some line ∧
          line.head? = some ⟨0, s.low⟩ ∧
          line.Pairwise (fun v w => v.time ≤ w.time) ∧
          line.getLast?.map Vertex.time = some p.duration ∧
          ∀ t, t < p.duration → ∃ i start, p.RunsAt i start t ∧
            levelAt? line t = some (if i.flags.isHigh n = true ∧
                (periods i.flags s.bit = 0 ∨ t < start + periods i.flags s.bit * s.clock)
              then s.high else s.low) := by
  have hlines := lines_of_nodup (s := s) hnames
  have hkeys : (s.lines names p).keys = (p.outputsUsed s.bit).map (lineName names) := by
    rw [hlines, Table.keys, List.map_map]
    rfl
  refine ⟨hkeys, fun n hn hused => ⟨s.line n p, ?_, rfl, ?_, time_getLast?_line s n p,
    fun t ht => ?_⟩⟩
  · have hmem : n ∈ p.outputsUsed s.bit := by
      refine Program.mem_outputsUsed.mpr ⟨hn, ?_, hused⟩
      obtain ⟨i, -, hi⟩ := hused
      exact BitVec.lt_of_getLsbD hi
    refine Table.get?_of_mem (hkeys ▸ hnames) ?_
    rw [hlines]
    exact List.mem_map_of_mem hmem
  · have htraces := traces_line hne n hfit
    exact List.Pairwise.cons (fun v hv => (htraces.within v hv).1) htraces.ordered
  · obtain ⟨i, start, hruns⟩ := Program.exists_runsAt ht
    exact ⟨i, start, hruns, levelAt?_line hne hfit hruns⟩

/-- A pulse of two periods, an instruction without length, a pulse of one period on a line that is
high, and a pulse that fills its instruction and is ended by the next one. -/
def pulses : Program :=
  [.proceed 0b10 20, .proceed (0b01 ||| 2 <<< 21) 10, .proceed 0b11 0,
    .proceed (0b10 ||| 1 <<< 21) 10, .proceed (0b01 ||| 5 <<< 21) 10, .proceed 0 4]

/-- The two lines of `pulses`, one of them with a name. -/
theorem pulses_show_outputs :
    Style.lines { low := 2, high := 7 } [(0, "aom")] pulses =
        [("aom", [⟨0, 2⟩, ⟨20, 2⟩, ⟨20, 7⟩, ⟨24, 7⟩, ⟨24, 2⟩, ⟨30, 2⟩, ⟨30, 7⟩, ⟨30, 7⟩, ⟨30, 2⟩,
            ⟨40, 2⟩, ⟨40, 7⟩, ⟨50, 7⟩, ⟨50, 7⟩, ⟨50, 2⟩, ⟨54, 2⟩]),
          ("chan_1", [⟨0, 2⟩, ⟨0, 2⟩, ⟨0, 7⟩, ⟨20, 7⟩, ⟨20, 2⟩, ⟨30, 2⟩, ⟨30, 7⟩, ⟨32, 7⟩, ⟨32, 2⟩,
            ⟨54, 2⟩])] ∧
      (∀ i ∈ pulses, periods i.flags 21 * 2 ≤ i.length) ∧
      ∃ line, (Style.lines { low := 2, high := 7 } [(0, "aom")] pulses).get? "aom" = some line ∧
        line.getLast?.map Vertex.time = some 54 ∧
        ∀ t, t < 54 → ∃ i start, pulses.RunsAt i start t ∧
          levelAt? line t = some (if i.flags.isHigh 0 = true ∧
            (periods i.flags 21 = 0 ∨ t < start + periods i.flags 21 * 2) then 7 else 2) := by
  have hfit : ∀ i ∈ pulses, periods i.flags 21 * 2 ≤ i.length := by decide
  have hnames : ((pulses.outputsUsed 21).map (lineName [(0, "aom")])).Nodup := by decide +kernel
  obtain ⟨-, hlines⟩ :=
    lines_show_outputs (s := { low := 2, high := 7 }) (by decide) hnames hfit
  obtain ⟨line, hline, -, -, hend, hshows⟩ := hlines 0 (by decide) (by decide)
  exact ⟨by decide +kernel, hfit, line, hline, hend, hshows⟩

end Style

end PulseSequencer
