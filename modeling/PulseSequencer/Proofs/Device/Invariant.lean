import PulseSequencer.Proofs.Device.Requests
import PulseSequencer.Proofs.Schedule
import PulseSequencer.Proofs.Table

/-!
# The device invariant

What holds of a device whatever was asked of it, and whether it was granted.

* `Device.Rebooked`: devices with the same channels, whatever is booked on them.
* `Device.Valid`: names and outputs are unique and within bounds, schedules are in order and on the
  clock, the padding is on the clock, and a sync clock has a channel and a period.

Results:
* `perform_cases`: a request registers a channel, compiles, or leaves all channels there.
* `valid_create`: a new device is valid.
* `Valid.book`, `Valid.pulseWidth`, …: each operation keeps a device valid.
* **`Reachable.valid`**: all reachable devices are.
* **`in_order_performAll`**: what that says of a device after a list of requests.
-/

namespace PulseSequencer

namespace Device

/-- Two devices with the same name, board and channels, whatever is booked on these. The second one
has the program of the first, if any. -/
structure Rebooked (d d' : Device) : Prop where
  name : d'.name = d.name
  board : d'.board = d.board
  channels : (d'.channels.map fun e => (e.1, e.2.number)) =
    d.channels.map fun e => (e.1, e.2.number)
  program : ∀ p, d'.program = some p → d.program = some p

/-- What holds of every device. -/
structure Valid (A : Arithmetic) (d : Device) : Prop where
  names_nodup : d.channels.keys.Nodup
  identifiers : ∀ name ∈ d.channels.keys, Text.checkName name = .ok ()
  numbers_nodup : (d.channels.map fun e => e.2.number).Nodup
  number_lt : ∀ e ∈ d.channels, e.2.number < d.outputLimit
  schedules : ∀ e ∈ d.channels, e.2.Valid d.board.clock
  padding_dvd : d.board.clock ∣ d.padding
  sync_out : ∀ sync ∈ d.syncOut, (∃ s, d.channel sync.channel = .ok s) ∧
    ∃ period, syncPeriod A sync.frequency d.board.clock = .ok period

variable {A : Arithmetic} {d d' : Device}

/-! ## What requests leave -/

theorem Rebooked.refl (d : Device) : d.Rebooked d := ⟨rfl, rfl, rfl, fun _ hp => hp⟩

theorem Rebooked.trans {d'' : Device} (h : d.Rebooked d') (h' : d'.Rebooked d'') :
    d.Rebooked d'' :=
  ⟨h'.name.trans h.name, h'.board.trans h.board, h'.channels.trans h.channels,
    fun p hp => h.program p (h'.program p hp)⟩

theorem Rebooked.keys (h : d.Rebooked d') : d'.channels.keys = d.channels.keys := by
  have hkeys := congrArg (List.map Prod.fst) h.channels
  rwa [List.map_map, List.map_map] at hkeys

theorem Rebooked.numbers (h : d.Rebooked d') :
    (d'.channels.map fun e => e.2.number) = d.channels.map fun e => e.2.number := by
  have hnumbers := congrArg (List.map Prod.snd) h.channels
  rwa [List.map_map, List.map_map] at hnumbers

theorem rebooked_of_book {name : String} {bs : List Booking} (h : d.book name bs = .ok d') :
    d.Rebooked d' := by
  obtain ⟨s, s', hs, hs', rfl⟩ := book_eq_ok.mp h
  have hchannels := Table.map_put (fun e : String × Schedule => (e.1, e.2.number))
    (channel_eq_ok.mp hs) (congrArg (name, ·) (Schedule.number_of_insertAll hs'))
  exact ⟨rfl, rfl, hchannels, fun _ hp => hp⟩

theorem fresh_of_book {name : String} {bs : List Booking} (h : d.book name bs = .ok d') :
    d'.fresh = false := by
  obtain ⟨_, _, -, -, rfl⟩ := book_eq_ok.mp h
  rfl

theorem rebooked_of_bookOnEach {names : List String} {b : Booking}
    (h : d.bookOnEach names b = .ok d') : d.Rebooked d' :=
  foldlM_keeps (motive := d.Rebooked) (fun _ _ _ _ h₁ hbook => h₁.trans (rebooked_of_book hbook))
    (.refl d) h

theorem rebooked_of_runs_pulseWidth {names : List String} {frequency dutyCycle : Number}
    {u : Unit} (h : (pulseWidth A names frequency dutyCycle).Runs d u d') : d.Rebooked d' := by
  obtain ⟨-, -, padding, length, edited, -, -, -, hedited, rfl⟩ := runs_pulseWidth.mp h
  have hkept : d.Rebooked edited := by
    split at hedited
    · obtain ⟨b, -, hbooked⟩ := hedited
      exact rebooked_of_bookOnEach hbooked
    · exact hedited ▸ .refl d
  exact hkept.trans ⟨rfl, rfl, rfl, fun _ hp => hp⟩

theorem rebooked_of_runs_clearEdits {u : Unit} (h : clearEdits.Runs d u d') : d.Rebooked d' := by
  obtain rfl := runs_clearEdits.mp h
  exact ⟨rfl, rfl, List.map_map, fun _ hp => hp⟩

/-- **What a request does**: it registers a channel, or it compiles, or it leaves all channels there
and takes the mark from the program, if not the program itself. -/
theorem perform_cases {r : Request} (h : (r.perform A).Runs d () d') :
    (∃ name number, r = .addChannel name number) ∨ (∃ loop, r = .compile loop) ∨
      d.Rebooked d' ∧ d'.fresh = false := by
  cases r with
  | addChannel name number => exact Or.inl ⟨name, number, rfl⟩
  | high name time duration =>
    obtain ⟨b, -, hbook⟩ := runs_high.mp h
    exact Or.inr (Or.inr ⟨rebooked_of_book hbook, fresh_of_book hbook⟩)
  | pulseTrain name starts lengths =>
    obtain ⟨-, bs, -, hbook⟩ := runs_pulseTrain.mp h
    exact Or.inr (Or.inr ⟨rebooked_of_book hbook, fresh_of_book hbook⟩)
  | setPadding time =>
    obtain ⟨padding, -, rfl⟩ := runs_setPadding.mp h
    exact Or.inr (Or.inr ⟨⟨rfl, rfl, rfl, fun _ hp => hp⟩, rfl⟩)
  | addSyncOut name frequency =>
    obtain ⟨-, -, rfl⟩ := runs_addSyncOut.mp h
    exact Or.inr (Or.inr ⟨⟨rfl, rfl, rfl, fun _ hp => hp⟩, rfl⟩)
  | pulseWidth names frequency dutyCycle =>
    obtain ⟨-, -, padding, length, edited, -, -, -, -, rfl⟩ := runs_pulseWidth.mp h
    exact Or.inr (Or.inr ⟨rebooked_of_runs_pulseWidth h, rfl⟩)
  | compile loop => exact Or.inr (Or.inl ⟨loop, rfl⟩)
  | clearEdits =>
    refine Or.inr (Or.inr ⟨rebooked_of_runs_clearEdits h, ?_⟩)
    rw [runs_clearEdits.mp h]
  | clearProgram =>
    obtain rfl := runs_clearProgram.mp h
    exact Or.inr (Or.inr ⟨⟨rfl, rfl, rfl, fun _ hp => absurd hp (by simp)⟩, rfl⟩)

/-! ## Each operation -/

theorem valid_create {name : String} {frequency : Number} {bit : Nat}
    (h : Device.create A name frequency bit = .ok d) : d.Valid A := by
  obtain ⟨-, period, board, -, -, rfl⟩ := create_eq_ok.mp h
  exact
    { names_nodup := List.nodup_nil
      identifiers := fun _ h => absurd h List.not_mem_nil
      numbers_nodup := List.nodup_nil
      number_lt := fun _ h => absurd h List.not_mem_nil
      schedules := fun _ h => absurd h List.not_mem_nil
      padding_dvd := Nat.dvd_zero _
      sync_out := fun _ h => absurd h (by simp) }

/-- What is booked, the padding and the sync clock may change within their bounds. -/
theorem Valid.of_rebooked (hd : d.Valid A) (h : d.Rebooked d')
    (hschedules : ∀ e ∈ d'.channels, e.2.Valid d.board.clock)
    (hpadding : d.board.clock ∣ d'.padding) (hsync : ∀ sync ∈ d'.syncOut, sync ∈ d.syncOut) :
    d'.Valid A := by
  refine
    { names_nodup := h.keys.symm ▸ hd.names_nodup
      identifiers := h.keys.symm ▸ hd.identifiers
      numbers_nodup := h.numbers.symm ▸ hd.numbers_nodup
      number_lt := fun e he => ?_
      schedules := h.board.symm ▸ hschedules
      padding_dvd := h.board.symm ▸ hpadding
      sync_out := fun sync hset => ?_ }
  · have hin : e.2.number ∈ d.channels.map fun e => e.2.number :=
      h.numbers ▸ List.mem_map_of_mem (f := fun e : String × Schedule => e.2.number) he
    obtain ⟨e₁, he₁, hsame⟩ := List.mem_map.mp hin
    have hlt := hd.number_lt e₁ he₁
    unfold outputLimit at hlt ⊢
    rwa [hsame, ← h.board] at hlt
  · obtain ⟨hchannel, hperiod⟩ := hd.sync_out sync (hsync sync hset)
    simp only [channel_eq_ok, ← Option.isSome_iff_exists, Table.get?_isSome] at hchannel ⊢
    exact ⟨h.keys.symm ▸ hchannel, h.board.symm ▸ hperiod⟩

/-- A channel is there also when one is put. -/
theorem channel_put {name name' : String} {s s' : Schedule} (h : d.channel name = .ok s) :
    ∃ s₁, { d with channels := d.channels.put name' s' }.channel name = .ok s₁ := by
  simp only [channel_eq_ok, Table.get?_put]
  split
  · exact ⟨_, rfl⟩
  · exact ⟨s, channel_eq_ok.mp h⟩

theorem Valid.addChannel (hd : d.Valid A) {name : String} {number : Nat} {u : Unit}
    (h : (addChannel name number).Runs d u d') : d'.Valid A := by
  obtain ⟨hname, hnumber, hnew, hother, rfl⟩ := runs_addChannel.mp h
  have hput := Table.put_of_get?_eq_none (v := ({ number } : Schedule)) hnew
  have hmem : ∀ e ∈ d.channels.put name { number }, e = (name, { number }) ∨ e ∈ d.channels :=
    fun _ he => Table.mem_put he
  have hfresh : name ∉ d.channels.keys := fun hin => by
    rw [← Table.get?_isSome, hnew] at hin
    exact Bool.false_ne_true hin
  refine
    { names_nodup := ?_
      identifiers := fun name' hname' => ?_
      numbers_nodup := ?_
      number_lt := fun e he => ?_
      schedules := fun e he => ?_
      padding_dvd := hd.padding_dvd
      sync_out := fun sync hsync => ?_ }
  · rw [Table.keys_put, if_neg hfresh]
    exact List.nodup_append.mpr ⟨hd.names_nodup, List.nodup_singleton _,
      fun a ha b hb hab => hfresh (List.mem_singleton.mp hb ▸ hab ▸ ha)⟩
  · rw [Table.keys_put, if_neg hfresh] at hname'
    rcases List.mem_append.mp hname' with hname' | hname'
    · exact hd.identifiers name' hname'
    · rw [List.mem_singleton.mp hname']
      exact hname
  · rw [hput, List.map_append]
    refine List.nodup_append.mpr ⟨hd.numbers_nodup, List.nodup_singleton _, ?_⟩
    intro a ha b hb hab
    obtain ⟨e, he, rfl⟩ := List.mem_map.mp ha
    exact hother e he (hab.trans (List.mem_singleton.mp hb))
  · rcases hmem e he with rfl | he
    · exact hnumber
    · exact hd.number_lt e he
  · rcases hmem e he with rfl | he
    · exact Schedule.valid_empty _ _
    · exact hd.schedules e he
  · obtain ⟨⟨s, hs⟩, hperiod⟩ := hd.sync_out sync hsync
    exact ⟨channel_put hs, hperiod⟩

/-- A booking lasts from one clock period to another. -/
theorem booking_on_clock {time duration : Number} {b : Booking}
    (h : d.booking A time duration = .ok b) :
    d.board.clock ∣ b.start ∧ d.board.clock ∣ b.length := by
  obtain ⟨hstart, hlength, -⟩ := booking_eq_ok.mp h
  exact ⟨dvd_roundToClock A hstart, dvd_roundToClock A hlength⟩

/-- Booking on the clock keeps a device valid. -/
theorem Valid.book (hd : d.Valid A) {name : String} {bs : List Booking}
    (hbs : ∀ b ∈ bs, d.board.clock ∣ b.start ∧ d.board.clock ∣ b.length)
    (h : d.book name bs = .ok d') : d'.Valid A := by
  have hrebooked := rebooked_of_book h
  obtain ⟨s, s', hs, hs', rfl⟩ := book_eq_ok.mp h
  refine hd.of_rebooked hrebooked (fun e he => ?_) hd.padding_dvd fun _ hset => hset
  rcases Table.mem_put he with rfl | he
  · exact (hd.schedules _ (Table.mem_of_get? (channel_eq_ok.mp hs))).insertAll hbs hs'
  · exact hd.schedules e he

theorem Valid.bookOnEach (hd : d.Valid A) {names : List String} {b : Booking}
    (hb : d.board.clock ∣ b.start ∧ d.board.clock ∣ b.length)
    (h : d.bookOnEach names b = .ok d') : d'.Valid A ∧ d'.board = d.board := by
  refine foldlM_keeps (motive := fun d₁ => d₁.Valid A ∧ d₁.board = d.board)
    (fun name _ d₁ d₂ h₁ hbook => ?_) ⟨hd, rfl⟩ h
  obtain ⟨hvalid, hboard⟩ := h₁
  refine ⟨hvalid.book (fun b' hb' => ?_) hbook, (rebooked_of_book hbook).board.trans hboard⟩
  rw [List.mem_singleton.mp hb', hboard]
  exact hb

/-- The padding may be any time on the clock. -/
theorem Valid.setPadding (hd : d.Valid A) {padding : Nat} (h : d.board.clock ∣ padding) :
    { d with padding, fresh := false }.Valid A :=
  { hd with padding_dvd := h }

theorem Valid.pulseWidth (hd : d.Valid A) {names : List String} {frequency dutyCycle : Number}
    {u : Unit} (h : (pulseWidth A names frequency dutyCycle).Runs d u d') : d'.Valid A := by
  obtain ⟨-, -, padding, length, edited, hpadding, -, -, hedited, rfl⟩ := runs_pulseWidth.mp h
  have hdvd := dvd_roundToClock A hpadding
  by_cases hpos : 0 < length
  · rw [if_pos hpos] at hedited
    obtain ⟨b, hb, hbooked⟩ := hedited
    obtain ⟨hvalid, hboard⟩ := hd.bookOnEach (booking_on_clock hb) hbooked
    exact hvalid.setPadding (hboard ▸ hdvd)
  · rw [if_neg hpos] at hedited
    subst hedited
    exact hd.setPadding hdvd

theorem Valid.clearEdits (hd : d.Valid A) {u : Unit} (h : clearEdits.Runs d u d') :
    d'.Valid A := by
  have hrebooked := rebooked_of_runs_clearEdits h
  obtain rfl := runs_clearEdits.mp h
  refine hd.of_rebooked hrebooked (fun e he => ?_) hd.padding_dvd
    fun _ hset => absurd hset (by simp)
  obtain ⟨e₁, -, rfl⟩ := List.mem_map.mp he
  exact Schedule.valid_empty _ _

/-! ## All requests -/

/-- The step: every request keeps a device valid. -/
theorem Valid.perform (hd : d.Valid A) {r : Request} (h : (r.perform A).Runs d () d') :
    d'.Valid A := by
  cases r with
  | addChannel name number => exact hd.addChannel h
  | high name time duration =>
    obtain ⟨b, hb, hbook⟩ := runs_high.mp h
    exact hd.book (fun b' hb' => List.mem_singleton.mp hb' ▸ booking_on_clock hb) hbook
  | pulseTrain name starts lengths =>
    obtain ⟨-, bs, hbs, hbook⟩ := runs_pulseTrain.mp h
    refine hd.book (fun b hb => ?_) hbook
    obtain ⟨x, -, hx⟩ := exists_of_mem_forall₂ hbs hb
    exact booking_on_clock hx
  | setPadding time =>
    obtain ⟨padding, hpadding, rfl⟩ := runs_setPadding.mp h
    exact hd.setPadding (dvd_roundToClock A hpadding)
  | addSyncOut name frequency =>
    obtain ⟨hchannel, hperiod, rfl⟩ := runs_addSyncOut.mp h
    refine { hd with sync_out := fun sync hsync => ?_ }
    obtain rfl := Option.some.inj hsync
    exact ⟨hchannel, hperiod⟩
  | pulseWidth names frequency dutyCycle => exact hd.pulseWidth h
  | compile loop =>
    obtain ⟨p, -, rfl⟩ := runs_perform_compile.mp h
    exact { hd with }
  | clearEdits => exact hd.clearEdits h
  | clearProgram =>
    obtain rfl := runs_clearProgram.mp h
    exact { hd with }

/-- **The run: every reachable device is valid.** -/
theorem Reachable.valid (h : Reachable A d) : d.Valid A :=
  h.keeps (fun _ _ _ _ => valid_create) fun _ _ _ hd => hd.perform

/-! ## From a new device on -/

/-- No request changes the name or the board. -/
theorem identity_perform {r : Request} (h : (r.perform A).Runs d () d') :
    d'.name = d.name ∧ d'.board = d.board := by
  obtain ⟨name, number, rfl⟩ | ⟨loop, rfl⟩ | ⟨hkept, -⟩ := perform_cases h
  · obtain ⟨-, -, -, -, rfl⟩ := runs_addChannel.mp h
    exact ⟨rfl, rfl⟩
  · obtain ⟨p, -, rfl⟩ := runs_perform_compile.mp h
    exact ⟨rfl, rfl⟩
  · exact ⟨hkept.name, hkept.board⟩

theorem board_perform {r : Request} (h : (r.perform A).Runs d () d') : d'.board = d.board :=
  (identity_perform h).2

/-- **A device keeps itself in order.** Whatever is asked of a new device, in any order and
successfully or not, it keeps its board; its channels have different names, all of them
identifiers, and different outputs, all of them on the board and below the short pulse field; what
is booked on a channel stands in the order of time, lasts, overlaps nothing and begins and ends
with periods of the clock; the padding takes whole periods; and a sync clock has a channel that is
there and a frequency that has a period. -/
theorem in_order_performAll {name : String} {frequency : Number} {bit : Nat} {new : Device}
    (hnew : Device.create A name frequency bit = .ok new) {rs : List Request}
    (hd : new.performAll A rs = d) :
    d.board = new.board ∧ d.channels.keys.Nodup ∧
      (∀ name ∈ d.channels.keys, Text.isIdentifier name = true) ∧
      (d.channels.map fun e => e.2.number).Nodup ∧
      (∀ e ∈ d.channels, e.2.number < min new.board.bit 24) ∧
      (∀ e ∈ d.channels,
        (e.2.bookings.Pairwise fun a b => a.start < b.start ∧ a.stop ≤ b.start) ∧
        ∀ b ∈ e.2.bookings,
          b.start < b.stop ∧ new.board.clock ∣ b.start ∧ new.board.clock ∣ b.stop) ∧
      new.board.clock ∣ d.padding ∧
      ∀ sync ∈ d.syncOut, sync.channel ∈ d.channels.keys ∧
        ∃ period, syncPeriod A sync.frequency new.board.clock = .ok period := by
  have hboard : d.board = new.board := hd ▸ performAll_keeps
    (motive := fun d => d.board = new.board) (fun _ _ _ h hr => (board_perform hr).trans h) rfl rs
  have hvalid : d.Valid A := hd ▸ ((Reachable.create hnew).performAll rs).valid
  rw [← hboard]
  refine ⟨rfl, hvalid.names_nodup,
    fun name hname => ensure_eq_ok.mp (hvalid.identifiers name hname),
    hvalid.numbers_nodup, hvalid.number_lt, fun e he => ⟨?_, fun b hb => ?_⟩, hvalid.padding_dvd,
    fun sync hsync => ?_⟩
  · refine (hvalid.schedules e he).ordered.imp fun {a b} hab => ⟨?_, hab⟩
    exact Nat.lt_of_lt_of_le a.start_lt_stop hab
  · obtain ⟨hstart, hlength⟩ := (hvalid.schedules e he).on_clock b hb
    exact ⟨b.start_lt_stop, hstart, Nat.dvd_add hstart hlength⟩
  · obtain ⟨⟨s, hs⟩, hperiod⟩ := hvalid.sync_out sync hsync
    refine ⟨(Table.get?_isSome _ _).mp ?_, hperiod⟩
    rw [channel_eq_ok.mp hs]
    rfl

/-- A new device with a clock of 5 ns and eight outputs. -/
def bare : Device where
  name := "pb"
  board := ⟨5, 8, by decide, by decide⟩

/-- A device with a pulse on one channel and a sync clock of 10 MHz on another, on which something
is booked as well. -/
def strobe : Device := { bare with
  padding := 40
  syncOut := some ⟨"clk", .finite 10⟩
  channels := [("aom", { number := 0, bookings := [⟨⟨0, 90⟩, by decide⟩] }),
    ("clk", { number := 5, bookings := [⟨⟨0, 10⟩, by decide⟩] })] }

/-- What makes a `strobe` of a new device; a request among them is refused. -/
def strobeRequests : List Request :=
  [.addChannel "aom" 0, .addChannel "clk" 5, .high "aom" (.finite 0) (.finite 90),
    .high "clk" (.finite 0) (.finite 10), .high "clk" (.finite 4) (.finite 10),
    .addSyncOut "clk" (.finite 10), .setPadding (.finite 40)]

theorem create_bare : Device.create .binary64 "pb" (.finite 200000000) 8 = .ok bare := by
  decide +kernel

theorem performAll_strobeRequests : bare.performAll .binary64 strobeRequests = strobe := by
  decide +kernel

theorem reachable_strobe : Reachable .binary64 strobe :=
  performAll_strobeRequests ▸ (Reachable.create create_bare).performAll strobeRequests

/-- `strobe` is in order, and the board of the new device knows the period of its sync clock. -/
theorem strobe_in_order :
    Device.create .binary64 "pb" (.finite 200000000) 8 = .ok bare ∧
      bare.performAll .binary64 strobeRequests = strobe ∧
      strobe.channels.keys = ["aom", "clk"] ∧
      (∀ e ∈ strobe.channels, e.2.number < min bare.board.bit 24) ∧
      "clk" ∈ strobe.channels.keys ∧
      ∃ period, syncPeriod .binary64 (.finite 10) bare.board.clock = .ok period := by
  obtain ⟨-, -, -, -, hnumber, -, -, hsync⟩ :=
    in_order_performAll create_bare performAll_strobeRequests
  obtain ⟨hchannel, hperiod⟩ := hsync ⟨"clk", .finite 10⟩ rfl
  exact ⟨create_bare, performAll_strobeRequests, rfl, hnumber, hchannel, hperiod⟩

end Device

end PulseSequencer
