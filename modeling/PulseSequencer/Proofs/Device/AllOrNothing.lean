import Mathlib.Data.List.TakeWhile
import PulseSequencer.Proofs.Device.Invariant

/-!
# All or nothing

A request that is refused leaves the whole device as it was. Two requests book more than one pulse:
a train on one channel, and a pulse on each of some channels. It makes no difference which of them
is in the way, the first or one behind others that could be booked.

* `TrainRefused`: a pulse of a train that cannot be booked behind the ones before it.
* `WidthRefused`: a channel of a list that cannot take the pulse that each of them gets.

Results:
* `clash?_insert_self`: a booking is in its own way.
* `insertAll_of_append`, `nodup_of_bookOnEach`: what it takes to book all.
* **`refused_leaves_device`**: such requests are refused, and a request that is refused changes
  nothing.
-/

namespace PulseSequencer

/-! ## Bookings in the way -/

namespace Booking

/-- **A booking is in its own way**: it begins before it is over. -/
theorem clash?_insert_self (b : Booking) (booked : List Booking) :
    b.clash? (b.before booked ++ b :: b.behind booked) = some b := by
  have hbefore : ∀ other ∈ b.before booked, decide (other.start < b.start) = true :=
    fun _ hother => List.mem_takeWhile_imp (p := fun x : Booking => x.start < b.start) hother
  have hbehind : b.behind (b.before booked ++ b :: b.behind booked) = b :: b.behind booked := by
    unfold behind
    rw [List.dropWhile_append_of_pos hbefore]
    exact List.dropWhile_cons_of_neg (by simp)
  unfold clash?
  rw [hbehind, List.head?_cons, Option.filter_some, if_pos (decide_eq_true b.start_lt_stop),
    Option.some_or]

/-- Bookings are made one behind the other: one of them is made once the ones before it are, and
clashes with none of what is booked then. -/
theorem insertAll_of_append {flags : Flags} {before after : List Booking} {b : Booking}
    {booked booked' : List Booking}
    (h : insertAll flags (before ++ b :: after) booked = .ok booked') :
    ∃ booked₁, insertAll flags before booked = .ok booked₁ ∧ b.clash? booked₁ = none := by
  unfold insertAll at h
  rw [List.foldlM_append] at h
  obtain ⟨booked₁, hbefore, h⟩ := bind_eq_ok.mp h
  rw [List.foldlM_cons] at h
  obtain ⟨booked₂, hb, -⟩ := bind_eq_ok.mp h
  exact ⟨booked₁, hbefore, (insert_eq_ok.mp hb).1⟩

end Booking

namespace Device

variable {A : Arithmetic} {d d' : Device}

/-! ## A pulse on each of some channels -/

theorem book_one_eq_ok {name : String} {b : Booking} :
    d.book name [b] = .ok d' ↔
      ∃ s, d.channel name = .ok s ∧ b.clash? s.bookings = none ∧
        d' = { d with
          channels := d.channels.put name
            { s with bookings := b.before s.bookings ++ b :: b.behind s.bookings }
          fresh := false } := by
  have hone : ∀ {s s' : Schedule}, s.insertAll [b] = .ok s' ↔ b.clash? s.bookings = none ∧
      s' = { s with bookings := b.before s.bookings ++ b :: b.behind s.bookings } := by
    intro s s'
    rw [Schedule.insertAll_eq_ok]
    unfold Booking.insertAll
    simp only [List.foldlM_cons, List.foldlM_nil, bind_eq_ok, Booking.insert_eq_ok]
    constructor
    · rintro ⟨_, ⟨_, ⟨hclash, rfl⟩, h⟩, rfl⟩
      obtain rfl := Except.ok.inj h
      exact ⟨hclash, rfl⟩
    · rintro ⟨hclash, rfl⟩
      exact ⟨_, ⟨_, ⟨hclash, rfl⟩, rfl⟩, rfl⟩
  rw [book_eq_ok]
  constructor
  · rintro ⟨s, s', hs, hs', rfl⟩
    obtain ⟨hclash, rfl⟩ := hone.mp hs'
    exact ⟨s, hs, hclash, rfl⟩
  · rintro ⟨s, hs, hclash, rfl⟩
    exact ⟨s, _, hs, hone.mpr ⟨hclash, rfl⟩, rfl⟩

/-- **A booking on each of some channels**: the channels are different ones, and the booking is in
the way of nothing on any of them. -/
theorem nodup_of_bookOnEach {names : List String} {b : Booking}
    (h : d.bookOnEach names b = .ok d') :
    names.Nodup ∧ ∀ name ∈ names, ∃ s, d.channel name = .ok s ∧ b.clash? s.bookings = none := by
  induction names generalizing d with
  | nil => exact ⟨List.nodup_nil, fun _ hn => absurd hn List.not_mem_nil⟩
  | cons first names ih =>
    unfold bookOnEach at h
    rw [List.foldlM_cons] at h
    obtain ⟨d₁, hfirst, h⟩ := bind_eq_ok.mp h
    obtain ⟨hnodup, hfree⟩ := ih h
    obtain ⟨s, hs, hclash, rfl⟩ := book_one_eq_ok.mp hfirst
    -- on the channel that comes first the booking is now in its own way
    have hother : first ∉ names := by
      intro hagain
      obtain ⟨s₁, hs₁, hclash₁⟩ := hfree first hagain
      rw [channel_eq_ok, Table.get?_put, if_pos rfl] at hs₁
      obtain rfl := Option.some.inj hs₁
      rw [Booking.clash?_insert_self] at hclash₁
      cases hclash₁
    refine ⟨List.nodup_cons.mpr ⟨hother, hnodup⟩, fun name hname => ?_⟩
    rcases List.mem_cons.mp hname with rfl | hname
    · exact ⟨s, hs, hclash⟩
    · obtain ⟨s₁, hs₁, hclash₁⟩ := hfree name hname
      have hne : ¬ first = name := fun hsame => hother (hsame ▸ hname)
      rw [channel_eq_ok, Table.get?_put, if_neg hne] at hs₁
      exact ⟨s₁, channel_eq_ok.mpr hs₁, hclash₁⟩

/-- A pulse on each of some channels for the time `up` cannot go to channel `name`: the channel is
unknown, or it is listed twice, or the pulse overlaps what is booked on it. -/
def WidthRefused (A : Arithmetic) (d : Device) (names : List String) (up : Number) (name : String) :
    Prop :=
  (∃ e, d.channel name = .error e) ∨ ∃ b, d.booking A (.finite 0) up = .ok b ∧
    (2 ≤ names.count name ∨ ∃ s, d.channel name = .ok s ∧ (b.clash? s.bookings).isSome)

/-- One channel that cannot take the pulse is enough. -/
theorem not_runs_pulseWidth {names : List String} {frequency dutyCycle : Number} {name : String}
    (hname : name ∈ names) (h : d.WidthRefused A names (upTime A frequency dutyCycle) name)
    {u : Unit} : ¬ (pulseWidth A names frequency dutyCycle).Runs d u d' := by
  intro hrun
  obtain ⟨-, -, padding, length, edited, -, hknown, hlength, hedited, -⟩ :=
    runs_pulseWidth.mp hrun
  rcases h with ⟨e, hmissing⟩ | ⟨b, hb, h⟩
  · obtain ⟨s, hs⟩ := hknown name hname
    rw [hs] at hmissing
    cases hmissing
  · obtain ⟨-, hticks, -⟩ := booking_eq_ok.mp hb
    obtain rfl := Except.ok.inj (hlength.symm.trans hticks)
    rw [if_pos b.length_pos] at hedited
    obtain ⟨_, hb', hbooked⟩ := hedited
    obtain rfl := Except.ok.inj (hb.symm.trans hb')
    obtain ⟨hnodup, hfree⟩ := nodup_of_bookOnEach hbooked
    rcases h with htwice | ⟨s, hs, hclash⟩
    · have honce := List.nodup_iff_count_le_one.mp hnodup name
      omega
    · obtain ⟨s', hs', hnone⟩ := hfree name hname
      obtain rfl := Except.ok.inj (hs.symm.trans hs')
      rw [hnone] at hclash
      cases hclash

/-! ## A train of pulses -/

/-- A pulse of a train on the channel of `s` cannot be booked behind the ones `before` it: it has no
times on the board, or it overlaps what is booked then. -/
def TrainRefused (A : Arithmetic) (d : Device) (s : Schedule) (before : List (Number × Number))
    (pulse : Number × Number) : Prop :=
  (∃ e, d.booking A pulse.1 pulse.2 = .error e) ∨
    ∃ bs b booked, before.mapM (fun x => d.booking A x.1 x.2) = .ok bs ∧
      d.booking A pulse.1 pulse.2 = .ok b ∧ Booking.insertAll s.flags bs s.bookings = .ok booked ∧
      (b.clash? booked).isSome

/-- One pulse of a train that cannot be booked is enough. -/
theorem not_runs_pulseTrain {name : String} {s : Schedule} {starts lengths : List Number}
    {before after : List (Number × Number)} {pulse : Number × Number}
    (hs : d.channel name = .ok s) (htrain : starts.zip lengths = before ++ pulse :: after)
    (h : d.TrainRefused A s before pulse) {u : Unit} :
    ¬ (pulseTrain A name starts lengths).Runs d u d' := by
  intro hrun
  obtain ⟨-, bs, hbs, hbook⟩ := runs_pulseTrain.mp hrun
  rw [htrain] at hbs
  obtain ⟨bs₁, b, bs₂, rfl, hbefore, hpulse⟩ := split_of_forall₂ hbs
  obtain ⟨_, s', hs', hall, -⟩ := book_eq_ok.mp hbook
  obtain rfl := Except.ok.inj (hs.symm.trans hs')
  obtain ⟨booked', hall, -⟩ := Schedule.insertAll_eq_ok.mp hall
  obtain ⟨booked, hbooked, hnone⟩ := Booking.insertAll_of_append hall
  rcases h with ⟨e, hmissing⟩ | ⟨bs, b', booked₁, hbs, hb', hbooked₁, hclash⟩
  · rw [hpulse] at hmissing
    cases hmissing
  · obtain rfl := Except.ok.inj (hbs.symm.trans (mapM_eq_ok.mpr hbefore))
    obtain rfl := Except.ok.inj (hpulse.symm.trans hb')
    obtain rfl := Except.ok.inj (hbooked.symm.trans hbooked₁)
    rw [hnone] at hclash
    cases hclash

/-! ## What is refused changes nothing -/

/-- **A device grants a request as a whole or not at all.** When a request is refused, the device is
what it was: its channels and their order, all bookings, the padding, the sync clock, the program
and its mark. A train is refused for any of its pulses, wherever it stands, and a pulse on each of
some channels for any of them, whether it is unknown, listed twice or has no room. -/
theorem refused_leaves_device (A : Arithmetic) (d : Device) :
    (∀ (r : Request) (e : Error), (r.perform A d).1.result = .error e → (r.perform A d).2 = d) ∧
      (∀ name s starts lengths before pulse after, d.channel name = .ok s →
        starts.zip lengths = before ++ pulse :: after → d.TrainRefused A s before pulse →
        ∃ e, (pulseTrain A name starts lengths d).1.result = .error e ∧
          (pulseTrain A name starts lengths d).2 = d) ∧
      ∀ names frequency dutyCycle,
        (∃ name ∈ names, d.WidthRefused A names (upTime A frequency dutyCycle) name) →
        ∃ e, (pulseWidth A names frequency dutyCycle d).1.result = .error e ∧
          (pulseWidth A names frequency dutyCycle d).2 = d := by
  refine ⟨fun r => allOrNothing_perform r d, ?_, ?_⟩
  · intro name s starts lengths before pulse after hs htrain h
    exact (allOrNothing_pulseTrain name starts lengths).of_not_runs
      fun _ _ => not_runs_pulseTrain hs htrain h
  · rintro names frequency dutyCycle ⟨name, hname, h⟩
    exact (allOrNothing_pulseWidth names frequency dutyCycle).of_not_runs
      fun _ _ => not_runs_pulseWidth hname h

/-- A train on `strobe` whose second pulse has no room, and a pulse that goes to one channel twice,
leave it as it is; so does a channel under a name that is taken. -/
theorem strobe_refuses_as_a_whole :
    ((Request.addChannel "aom" 3).perform .binary64 strobe).1.result =
        .error (.duplicateChannel "pb" "aom") ∧
      ((Request.addChannel "aom" 3).perform .binary64 strobe).2 = strobe ∧
      (∃ e, (pulseTrain .binary64 "aom" [.finite 200, .finite 80] [.finite 10, .finite 10]
          strobe).1.result = .error e ∧
        (pulseTrain .binary64 "aom" [.finite 200, .finite 80] [.finite 10, .finite 10] strobe).2 =
          strobe) ∧
      ∃ e, (pulseWidth .binary64 ["clk", "clk"] (.finite 1000000) (.finite 50) strobe).1.result =
          .error e ∧
        (pulseWidth .binary64 ["clk", "clk"] (.finite 1000000) (.finite 50) strobe).2 = strobe := by
  obtain ⟨hkept, htrain, hwidth⟩ := refused_leaves_device .binary64 strobe
  have htaken : ((Request.addChannel "aom" 3).perform .binary64 strobe).1.result =
      .error (.duplicateChannel "pb" "aom") := by decide +kernel
  have hsecond : strobe.TrainRefused .binary64 { number := 0, bookings := [⟨⟨0, 90⟩, by decide⟩] }
      [(.finite 200, .finite 10)] (.finite 80, .finite 10) :=
    Or.inr ⟨[⟨⟨200, 10⟩, by decide⟩], ⟨⟨80, 10⟩, by decide⟩,
      [⟨⟨0, 90⟩, by decide⟩, ⟨⟨200, 10⟩, by decide⟩], by decide +kernel, by decide +kernel,
      by decide, by decide⟩
  have htwice : strobe.WidthRefused .binary64 ["clk", "clk"]
      (upTime .binary64 (.finite 1000000) (.finite 50)) "clk" :=
    Or.inr ⟨⟨⟨0, 500⟩, by decide⟩, by decide +kernel, Or.inl (by decide)⟩
  exact ⟨htaken, hkept _ _ htaken,
    htrain "aom" _ _ _ [(.finite 200, .finite 10)] (.finite 80, .finite 10) [] rfl rfl hsecond,
    hwidth _ _ _ ⟨"clk", List.mem_cons_self, htwice⟩⟩

end Device

end PulseSequencer
