import Mathlib.Data.List.TakeWhile
import PulseSequencer.Proofs.Overlaps
import PulseSequencer.Proofs.Schedule

/-!
# What can be booked

A booking is compared with its two neighbours, and its place is found by its start alone. Since what
is booked is in order, that is as good as comparing it with every booking, and none is put in the
place of another: bookings are accepted exactly when they are apart from each other and from what is
booked, whatever order they come in, and then all of them stand among the others in order.

* `Booking.Apart`: bookings that do not overlap.
* `Schedule.bookAll`, `Schedule.Request`, `Schedule.Reachable`: what is done to a schedule.

Results:
* `clash?_eq_none_iff_apart`: the neighbours answer for all bookings.
* `insert_eq_ok_iff`, `insertAll_eq_ok_iff`: booking one or some gives all bookings in order.
* `exists_ordered_perm_iff`: which bookings can be put in order.
* **`Schedule.Reachable.books_exactly`**: what a schedule accepts, and what is booked then.
* **`overlap_checks_agree`**: channels and schedules refuse the same overlaps.
-/

namespace PulseSequencer

namespace Booking

/-! ## Bookings apart and in order -/

/-- Two bookings that do not overlap. -/
abbrev Apart (a b : Booking) : Prop := a.toPulse.Apart b.toPulse

variable {flags : Flags} {b : Booking} {bs booked booked' : List Booking}

theorem Ordered.pairwise_apart (h : Ordered booked) : booked.Pairwise Apart := h.imp Or.inl

theorem Ordered.pairwise_start_lt (h : Ordered booked) :
    booked.Pairwise fun a b => a.start < b.start :=
  h.imp fun {a _} hab => Nat.lt_of_lt_of_le a.start_lt_stop hab

/-- Bookings can be put in one order only. -/
theorem Ordered.eq_of_perm (h : Ordered booked) (h' : Ordered booked')
    (hperm : booked.Perm booked') : booked = booked' := by
  refine hperm.eq_of_pairwise (fun a b _ _ hab hba => ?_) h.pairwise_start_lt h'.pairwise_start_lt
  exact absurd hba (Nat.lt_asymm hab)

/-- Of two bookings that are apart the one that does not start later is over first. -/
theorem Apart.stop_le_start {a b : Booking} (h : Apart a b) (hab : a.start ≤ b.start) :
    a.stop ≤ b.start := by
  have hb := b.start_lt_stop
  rcases h with h | h
  · exact h
  · omega

/-- **Bookings can be put in order** when they are apart, and not otherwise. -/
theorem exists_ordered_perm_iff :
    (∃ booked, Ordered booked ∧ booked.Perm bs) ↔ bs.Pairwise Apart := by
  constructor
  · rintro ⟨booked, hord, hperm⟩
    exact (hperm.pairwise_iff fun h => h.symm).mp hord.pairwise_apart
  · intro hapart
    let sorted := bs.mergeSort fun a b => a.start ≤ b.start
    have hperm : sorted.Perm bs := List.mergeSort_perm _ _
    have hstarts : sorted.Pairwise fun a b => decide (a.start ≤ b.start) = true :=
      List.pairwise_mergeSort
        (fun a b c => by simp only [decide_eq_true_eq]; exact Nat.le_trans)
        (fun a b => by simp only [Bool.or_eq_true, decide_eq_true_eq]; exact Nat.le_total _ _) bs
    have hapart' : sorted.Pairwise Apart := (hperm.pairwise_iff fun h => h.symm).mpr hapart
    exact ⟨sorted, hapart'.imp₂ (fun a b h hab => h.stop_le_start (of_decide_eq_true hab)) hstarts,
      hperm⟩

/-! ## Booking one -/

/-- **The neighbours answer for all bookings**: a booking that is apart from each of them clashes
with no neighbour, and one that clashes with no neighbour is apart from each of them. -/
theorem clash?_eq_none_iff_apart (hord : Ordered booked) :
    b.clash? booked = none ↔ ∀ other ∈ booked, b.Apart other := by
  constructor
  · intro h
    have hall : (b :: booked).Pairwise Apart :=
      exists_ordered_perm_iff.mp ⟨_, ordered_insert hord h, insert_perm b booked⟩
    exact (List.pairwise_cons.mp hall).1
  · intro hapart
    refine clash?_eq_none.mpr ⟨fun next hnext => ?_, fun previous hprevious => ?_⟩
    · have hmem : next ∈ booked :=
        (List.dropWhile_suffix _).mem (List.mem_of_mem_head? hnext)
      have hstart := List.head?_dropWhile_not (fun other : Booking => other.start < b.start) booked
      rw [behind, Option.mem_def] at hnext
      rw [hnext] at hstart
      exact (hapart next hmem).stop_le_start (by simpa using hstart)
    · have hbefore : previous ∈ b.before booked := List.mem_of_getLast? hprevious
      have hmem : previous ∈ booked := (List.takeWhile_prefix _).mem hbefore
      have hstart : previous.start < b.start := by
        simpa using List.mem_takeWhile_imp hbefore
      exact Apart.stop_le_start (hapart previous hmem).symm (Nat.le_of_lt hstart)

/-- **Booking one** gives all bookings in order, that one among them. -/
theorem insert_eq_ok_iff (hord : Ordered booked) :
    b.insert flags booked = .ok booked' ↔ Ordered booked' ∧ booked'.Perm (b :: booked) := by
  rw [insert_eq_ok]
  constructor
  · rintro ⟨hclash, rfl⟩
    exact ⟨ordered_insert hord hclash, insert_perm b booked⟩
  · rintro ⟨hord', hperm⟩
    have hall : (b :: booked).Pairwise Apart := exists_ordered_perm_iff.mp ⟨booked', hord', hperm⟩
    have hclash : b.clash? booked = none :=
      (clash?_eq_none_iff_apart hord).mpr (List.pairwise_cons.mp hall).1
    exact ⟨hclash, hord'.eq_of_perm (ordered_insert hord hclash)
      (hperm.trans (insert_perm b booked).symm)⟩

/-! ## Booking some -/

theorem insertAll_cons_eq_ok :
    insertAll flags (b :: bs) booked = .ok booked' ↔
      ∃ mid, b.insert flags booked = .ok mid ∧ insertAll flags bs mid = .ok booked' := by
  unfold insertAll
  rw [List.foldlM_cons, bind_eq_ok]

/-- **Booking some** gives all bookings in order, those among them. -/
theorem insertAll_eq_ok_iff (hord : Ordered booked) :
    insertAll flags bs booked = .ok booked' ↔ Ordered booked' ∧ booked'.Perm (bs ++ booked) := by
  induction bs generalizing booked with
  | nil =>
    constructor
    · intro h
      obtain rfl := Except.ok.inj h
      exact ⟨hord, .refl _⟩
    · rintro ⟨hord', hperm⟩
      exact congrArg Except.ok (hord.eq_of_perm hord' hperm.symm)
  | cons b bs ih =>
    rw [insertAll_cons_eq_ok]
    constructor
    · rintro ⟨mid, hb, hbs⟩
      obtain ⟨hmid, hperm⟩ := (insert_eq_ok_iff hord).mp hb
      obtain ⟨hord', hperm'⟩ := (ih hmid).mp hbs
      exact ⟨hord', hperm'.trans ((hperm.append_left bs).trans List.perm_middle)⟩
    · rintro ⟨hord', hperm⟩
      -- what is booked in between are some of the bookings, so they can be put in order too
      have hall : (b :: bs ++ booked).Pairwise Apart :=
        exists_ordered_perm_iff.mp ⟨booked', hord', hperm⟩
      have hsome : (b :: booked).Pairwise Apart :=
        hall.sublist ((List.sublist_append_right bs booked).cons_cons b)
      obtain ⟨mid, hmid, hpermMid⟩ := exists_ordered_perm_iff.mpr hsome
      refine ⟨mid, (insert_eq_ok_iff hord).mpr ⟨hmid, hpermMid⟩, (ih hmid).mpr ⟨hord', ?_⟩⟩
      exact hperm.trans (List.perm_middle.symm.trans (hpermMid.symm.append_left bs))

/-- Bookings are accepted when they are apart from each other and from what is booked. -/
theorem exists_insertAll_iff (hord : Ordered booked) :
    (∃ booked', insertAll flags bs booked = .ok booked') ↔
      bs.Pairwise Apart ∧ ∀ b ∈ bs, ∀ other ∈ booked, b.Apart other := by
  simp only [insertAll_eq_ok_iff hord]
  rw [exists_ordered_perm_iff, List.pairwise_append]
  constructor
  · rintro ⟨hbs, -, hacross⟩
    exact ⟨hbs, hacross⟩
  · rintro ⟨hbs, hacross⟩
    exact ⟨hbs, hord.pairwise_apart, hacross⟩

end Booking

/-! ## Schedules -/

namespace Schedule

/-- Books some bookings, all of them or none. -/
def bookAll (bs : List Booking) : Action Schedule Unit := do
  let s ← Action.get
  let edited ← s.insertAll bs
  Action.modify fun _ => edited

/-- What can be asked of a schedule. -/
inductive Request where
  | bookAll (bs : List Booking)
  | clear

/-- Does what is asked. -/
def Request.perform : Request → Action Schedule Unit
  | bookAll bs => Schedule.bookAll bs
  | clear => Action.modify Schedule.clear

/-- An empty schedule after some requests, in any order and each of them successful or not. -/
inductive Reachable : Schedule → Prop
  | empty (number : Nat) : Reachable { number }
  | perform {s : Schedule} (r : Request) (h : Reachable s) : Reachable (r.perform s).2

variable {s s' : Schedule} {bs cs : List Booking} {u : Unit}

theorem runs_bookAll : (bookAll bs).Runs s u s' ↔ s.insertAll bs = .ok s' := by
  unfold bookAll
  simp only [Action.runs_bind, Action.runs_get, Action.runs_liftExcept, Action.runs_modify]
  constructor
  · rintro ⟨_, _, ⟨rfl, rfl⟩, _, _, ⟨h, rfl⟩, rfl⟩
    exact h
  · intro h
    exact ⟨s, s, ⟨rfl, rfl⟩, s', s, ⟨h, rfl⟩, rfl⟩

theorem allOrNothing_bookAll (bs : List Booking) : (bookAll bs).AllOrNothing :=
  .bind Action.keeps_get fun _ => .bind (Action.keeps_liftExcept _) fun _ =>
    Action.allOrNothing_modify _

theorem runs_bookAll_iff (hord : Booking.Ordered s.bookings) :
    (bookAll bs).Runs s u s' ↔ s'.number = s.number ∧ Booking.Ordered s'.bookings ∧
      s'.bookings.Perm (bs ++ s.bookings) := by
  rw [runs_bookAll, insertAll_eq_ok]
  simp only [Booking.insertAll_eq_ok_iff hord]
  constructor
  · rintro ⟨booked, ⟨hord', hperm⟩, rfl⟩
    exact ⟨rfl, hord', hperm⟩
  · rintro ⟨hnumber, hord', hperm⟩
    refine ⟨s'.bookings, ⟨hord', hperm⟩, ?_⟩
    rw [← hnumber]

/-- **What is booked stays in order**, whatever is asked. -/
theorem Reachable.ordered (hs : Reachable s) : Booking.Ordered s.bookings := by
  induction hs with
  | empty number => exact List.Pairwise.nil
  | @perform s r _ ih =>
    cases r with
    | clear => exact List.Pairwise.nil
    | bookAll bs =>
      cases hresult : (bookAll bs s).1.result with
      | error e =>
        show Booking.Ordered (bookAll bs s).2.bookings
        rw [allOrNothing_bookAll bs s e hresult]
        exact ih
      | ok u => exact ((runs_bookAll_iff ih).mp ⟨hresult, rfl⟩).2.1

/-- Booking in two goes is booking in one. -/
theorem runs_bookAll_append :
    (bookAll (bs ++ cs)).Runs s u s' ↔
      ∃ mid, (bookAll bs).Runs s () mid ∧ (bookAll cs).Runs mid u s' := by
  simp only [runs_bookAll, insertAll_eq_ok, Booking.insertAll, List.foldlM_append, bind_eq_ok]
  constructor
  · rintro ⟨booked', ⟨booked, hbs, hcs⟩, rfl⟩
    exact ⟨{ s with bookings := booked }, ⟨booked, hbs, rfl⟩, booked', hcs, rfl⟩
  · rintro ⟨_, ⟨booked, hbs, rfl⟩, booked', hcs, rfl⟩
    exact ⟨booked', ⟨booked, hbs, hcs⟩, rfl⟩

/-- **Booking in any number of goes is booking in one.** -/
theorem runs_forM_bookAll (parts : List (List Booking)) :
    (parts.forM bookAll).Runs s u s' ↔ (bookAll parts.flatten).Runs s u s' := by
  induction parts generalizing s with
  | nil =>
    show (pure () : Action Schedule Unit).Runs s u s' ↔ _
    rw [Action.runs_pure, runs_bookAll, List.flatten_nil]
    exact ⟨fun h => h.2 ▸ rfl, fun h => ⟨rfl, (Except.ok.inj h).symm⟩⟩
  | cons bs parts ih =>
    show (bookAll bs >>= fun _ => parts.forM bookAll).Runs s u s' ↔ _
    rw [Action.runs_bind, List.flatten_cons, runs_bookAll_append]
    simp only [ih]
    exact ⟨fun ⟨_, mid, hbs, h⟩ => ⟨mid, hbs, h⟩, fun ⟨mid, hbs, h⟩ => ⟨(), mid, hbs, h⟩⟩

/-- **Booking is exact.** Whatever was asked of a schedule before, it accepts some bookings when
they are apart from each other and from all that is booked, and not otherwise. Then what is booked
are the old and the new ones, in the order of their starts and no two with the same; and a schedule
that refuses them is as it was. Their order makes no difference, neither to whether they are
accepted nor to what is booked then, and nor does booking them in several goes. -/
theorem Reachable.books_exactly (hs : Reachable s) (bs : List Booking) :
    ((∃ s', (bookAll bs).Runs s () s') ↔
        bs.Pairwise Booking.Apart ∧ ∀ b ∈ bs, ∀ other ∈ s.bookings, b.Apart other) ∧
      (∀ s', (bookAll bs).Runs s () s' →
        s'.number = s.number ∧ s'.bookings.Perm (s.bookings ++ bs) ∧
          s'.bookings.Pairwise fun a b => a.start < b.start) ∧
      (∀ e, (bookAll bs s).1.result = .error e → (bookAll bs s).2 = s) ∧
      (∀ cs, bs.Perm cs → ∀ s', (bookAll bs).Runs s () s' ↔ (bookAll cs).Runs s () s') ∧
      ∀ parts : List (List Booking), parts.flatten = bs →
        ∀ s', (parts.forM bookAll).Runs s () s' ↔ (bookAll bs).Runs s () s' := by
  have hord := hs.ordered
  refine ⟨?_, fun s' h => ?_, allOrNothing_bookAll bs s, fun cs hperm s' => ?_,
    fun parts hparts s' => ?_⟩
  · rw [← Booking.exists_insertAll_iff hord]
    simp only [runs_bookAll, insertAll_eq_ok]
    exact ⟨fun ⟨_, booked, h, _⟩ => ⟨booked, h⟩, fun ⟨booked, h⟩ => ⟨_, booked, h, rfl⟩⟩
  · obtain ⟨hnumber, hord', hall⟩ := (runs_bookAll_iff hord).mp h
    exact ⟨hnumber, hall.trans List.perm_append_comm, hord'.pairwise_start_lt⟩
  · have hsame : ∀ booked : List Booking,
        booked.Perm (bs ++ s.bookings) ↔ booked.Perm (cs ++ s.bookings) := fun booked =>
      (hperm.append_right s.bookings).congr_right booked
    rw [runs_bookAll_iff hord, runs_bookAll_iff hord, hsame]
  · rw [runs_forM_bookAll, hparts]

/-- Two bookings, with room for ten ns between them. -/
def spaced : Schedule := ⟨3, [⟨⟨10, 10⟩, by decide⟩, ⟨⟨30, 10⟩, by decide⟩]⟩

/-- It was cleared once, and has refused a train whose second booking is in the way. -/
theorem reachable_spaced : Reachable spaced :=
  .perform (.bookAll [⟨⟨50, 5⟩, by decide⟩, ⟨⟨35, 10⟩, by decide⟩])
    (.perform (.bookAll [⟨⟨30, 10⟩, by decide⟩, ⟨⟨10, 10⟩, by decide⟩])
      (.perform .clear (.perform (.bookAll [⟨⟨0, 90⟩, by decide⟩]) (.empty 3))))

/-- Bookings that fill the room and touch others on both sides are accepted, in this order, in the
other one, and one by one. -/
theorem filled_room_booked :
    Reachable spaced ∧ ∃ bs s', (bookAll bs).Runs spaced () s' ∧ bs.Pairwise Booking.Apart ∧
      s'.bookings.map (·.start) = [0, 10, 20, 30, 40] ∧
        (bookAll bs.reverse).Runs spaced () s' ∧
          ((bs.map fun b => [b]).forM bookAll).Runs spaced () s' ∧
            ∃ c e, (bookAll [c] spaced).1.result = .error e ∧ (bookAll [c] spaced).2 = spaced := by
  let bs : List Booking :=
    [⟨⟨40, 10⟩, by decide⟩, ⟨⟨20, 10⟩, by decide⟩, ⟨⟨0, 10⟩, by decide⟩]
  let c : Booking := ⟨⟨35, 10⟩, by decide⟩
  obtain ⟨haccepted, -, -, hany, hgoes⟩ := reachable_spaced.books_exactly bs
  obtain ⟨-, -, hrefused, -⟩ := reachable_spaced.books_exactly [c]
  have hruns : (bookAll bs).Runs spaced () (bookAll bs spaced).2 := ⟨rfl, rfl⟩
  exact ⟨reachable_spaced, bs, _, hruns, (haccepted.mp ⟨_, hruns⟩).1, rfl,
    (hany _ bs.reverse_perm.symm _).mp hruns, (hgoes _ rfl _).mpr hruns, c, _, rfl, hrefused _ rfl⟩

end Schedule

/-! ## Channels and schedules -/

/-- **The two overlap checks agree.** A channel is refused when two of its entries overlap, and not
otherwise, and two that do are named; empty pulses and pulses in any order included. Pulses that
last can be booked one after the other, from nothing on, exactly when the channel of these pulses
passes the check; and the channel of what is booked then has these very pulses, sorted by their
starts. -/
theorem overlap_checks_agree :
    (∀ c : Channel, c.checkOverlaps = .ok () ↔
        ∀ i j : Fin c.pulses.length, i ≠ j →
          ¬ ((c.pulses.get i).start < (c.pulses.get j).stop ∧
            (c.pulses.get j).start < (c.pulses.get i).stop)) ∧
      (∀ (c : Channel) (e : Error), c.checkOverlaps = .error e →
        ∃ i j : Fin c.pulses.length, i ≠ j ∧
          ((c.pulses.get i).start < (c.pulses.get j).stop ∧
            (c.pulses.get j).start < (c.pulses.get i).stop) ∧
              e = .overlappingPulses c.flags (c.pulses.get i).start (c.pulses.get i).stop
                (c.pulses.get j).start (c.pulses.get j).stop) ∧
      ∀ (number : Nat) (bs : List Booking),
        ((∃ booked, Booking.insertAll (Flags.output number) bs [] = .ok booked) ↔
            (Channel.mk (Flags.output number) (bs.map (·.toPulse))).checkOverlaps = .ok ()) ∧
          ∀ booked, Booking.insertAll (Flags.output number) bs [] = .ok booked →
            ∃ ps, (Schedule.mk number booked).toChannel = ⟨Flags.output number, ps⟩ ∧
              ps.Perm (bs.map (·.toPulse)) ∧ ps.Pairwise fun p q => p.start < q.start := by
  refine ⟨fun c => ?_, fun c e h => ?_, fun number bs => ⟨?_, fun booked h => ?_⟩⟩
  · rw [Channel.checkOverlaps_eq_ok, Channel.clash?_eq_none, Channel.pairwise_apart_iff]
    exact forall₂_congr fun i j => not_and
  · obtain ⟨p, q, hclash, rfl⟩ := Channel.checkOverlaps_eq_error.mp h
    obtain ⟨i, j, ⟨hne, hoverlap⟩, rfl, rfl⟩ := Channel.overlapAt_of_clash? hclash
    exact ⟨i, j, hne, hoverlap, rfl⟩
  · rw [Booking.exists_insertAll_iff List.Pairwise.nil, Channel.checkOverlaps_eq_ok,
      Channel.clash?_eq_none, List.pairwise_map]
    exact and_iff_left fun _ _ _ hother => absurd hother List.not_mem_nil
  · obtain ⟨hord, hperm⟩ := (Booking.insertAll_eq_ok_iff List.Pairwise.nil).mp h
    rw [List.append_nil] at hperm
    exact ⟨booked.map (·.toPulse), rfl, hperm.map _,
      List.pairwise_map.mpr hord.pairwise_start_lt⟩

/-- An empty pulse at the border of another one is accepted, and one inside of it is not; and three
bookings that touch, the last one first, pass both checks. -/
theorem touching_pulses_pass_both_checks :
    Channel.checkOverlaps ⟨0b1, [⟨10, 0⟩, ⟨10, 5⟩, ⟨0, 10⟩]⟩ = .ok () ∧
      Channel.checkOverlaps ⟨0b1, [⟨5, 0⟩, ⟨0, 10⟩]⟩ ≠ .ok () ∧
        ∃ bs booked, Booking.insertAll (Flags.output 3) bs [] = .ok booked ∧
          (Channel.mk (Flags.output 3) (bs.map (·.toPulse))).checkOverlaps = .ok () ∧
            booked.map (·.start) = [0, 10, 20] := by
  let bs : List Booking :=
    [⟨⟨20, 10⟩, by decide⟩, ⟨⟨0, 10⟩, by decide⟩, ⟨⟨10, 10⟩, by decide⟩]
  obtain ⟨hcheck, -, hboth⟩ := overlap_checks_agree
  refine ⟨(hcheck _).mpr (by decide), fun h => absurd ((hcheck _).mp h) (by decide), bs, _, rfl,
    (hboth 3 bs).1.mp ⟨_, rfl⟩, rfl⟩

end PulseSequencer
