import PulseSequencer.Proofs.Action
import PulseSequencer.Schedule

/-!
# Schedules in order

A schedule keeps its bookings in the order of time, none overlapping another, and on the clock.
Booking looks at the two neighbours of a new booking only; in order that is enough.

* `Schedule.Valid`: the bookings are in order, and on the clock.

Results:
* `insert_eq_ok`, `insertAll_eq_ok`: what is booked.
* `ordered_insert`: a booking that clashes with no neighbour goes in its place.
* `Schedule.Valid.insertAll`: booking keeps a schedule valid.
-/

namespace PulseSequencer

namespace Booking

/-- Bookings in the order of time of which none overlaps another. -/
def Ordered (booked : List Booking) : Prop := booked.Pairwise fun a b => a.stop ≤ b.start

theorem start_lt_stop (b : Booking) : b.start < b.stop := Nat.lt_add_of_pos_right b.length_pos

/-! ## Booking one -/

theorem insert_eq_ok {flags : Flags} {b : Booking} {booked booked' : List Booking} :
    b.insert flags booked = .ok booked' ↔
      b.clash? booked = none ∧ booked' = b.before booked ++ b :: b.behind booked := by
  unfold insert
  cases b.clash? booked <;> simp [eq_comm]

theorem clash?_eq_none {b : Booking} {booked : List Booking} :
    b.clash? booked = none ↔
      (∀ next ∈ (b.behind booked).head?, b.stop ≤ next.start) ∧
        ∀ previous ∈ (b.before booked).getLast?, previous.stop ≤ b.start := by
  unfold clash?
  rw [Option.or_eq_none_iff, Option.filter_eq_none_iff, Option.filter_eq_none_iff]
  simp only [decide_eq_true_eq, Nat.not_lt, Option.mem_def]

/-- The bookings with one more are the same bookings and that one. -/
theorem insert_perm (b : Booking) (booked : List Booking) :
    (b.before booked ++ b :: b.behind booked).Perm (b :: booked) := by
  refine List.perm_middle.trans (List.Perm.of_eq ?_)
  rw [before_append_behind]

/-- In order, what stands before the last one is over when that begins. -/
theorem stop_le_of_getLast? {booked : List Booking} (hord : Ordered booked) {last : Booking}
    (hlast : last ∈ booked.getLast?) {other : Booking} (h : other ∈ booked) :
    other.stop ≤ last.stop := by
  rcases List.eq_nil_or_concat booked with rfl | ⟨init, l, rfl⟩
  · exact absurd h List.not_mem_nil
  · rw [List.concat_eq_append] at hord h hlast
    rw [List.getLast?_append, List.getLast?_singleton, Option.some_or, Option.mem_some_iff] at hlast
    obtain rfl := hlast
    rcases List.mem_append.mp h with h | h
    · have hle := (List.pairwise_append.mp hord).2.2 other h l (List.mem_singleton_self l)
      have hlt := start_lt_stop l
      omega
    · rw [List.mem_singleton.mp h]

/-- In order, what stands behind the first one does not start before it. -/
theorem start_le_of_head? {booked : List Booking} (hord : Ordered booked) {first : Booking}
    (hfirst : first ∈ booked.head?) {other : Booking} (h : other ∈ booked) :
    first.start ≤ other.start := by
  cases booked with
  | nil => exact absurd h List.not_mem_nil
  | cons f rest =>
    rw [List.head?_cons, Option.mem_some_iff] at hfirst
    obtain rfl := hfirst
    rcases List.mem_cons.mp h with rfl | h
    · exact le_rfl
    · have hle := List.rel_of_pairwise_cons hord h
      have hlt := start_lt_stop f
      omega

/-- **A booking that clashes with no neighbour goes in its place**: what starts before it is over
when it starts, and what does not starts when it is over. -/
theorem ordered_insert {b : Booking} {booked : List Booking} (hord : Ordered booked)
    (h : b.clash? booked = none) : Ordered (b.before booked ++ b :: b.behind booked) := by
  obtain ⟨hnext, hprevious⟩ := clash?_eq_none.mp h
  have hsplit := hord
  unfold Ordered at hsplit
  rw [← before_append_behind b booked, List.pairwise_append] at hsplit
  obtain ⟨hbefore, hbehind, hacross⟩ := hsplit
  have hover : ∀ other ∈ b.before booked, other.stop ≤ b.start := by
    intro other hother
    obtain ⟨last, hlast⟩ := Option.isSome_iff_exists.mp
      (List.getLast?_isSome.mpr (List.ne_nil_of_mem hother))
    have hle := stop_le_of_getLast? hbefore (Option.mem_def.mpr hlast) hother
    have hend := hprevious last (Option.mem_def.mpr hlast)
    omega
  have hlater : ∀ other ∈ b.behind booked, b.stop ≤ other.start := by
    intro other hother
    obtain ⟨first, hfirst⟩ := Option.isSome_iff_exists.mp
      (List.isSome_head?.mpr (List.ne_nil_of_mem hother))
    have hle := start_le_of_head? hbehind (Option.mem_def.mpr hfirst) hother
    have hend := hnext first (Option.mem_def.mpr hfirst)
    omega
  refine List.pairwise_append.mpr ⟨hbefore, List.pairwise_cons.mpr ⟨hlater, hbehind⟩, ?_⟩
  intro other hother other' hother'
  rcases List.mem_cons.mp hother' with rfl | hother'
  · exact hover other hother
  · exact hacross other hother other' hother'

end Booking

/-! ## Valid schedules -/

/-- The bookings of a schedule are in order, and start and last for whole clock periods. -/
structure Schedule.Valid (clock : Nat) (s : Schedule) : Prop where
  ordered : Booking.Ordered s.bookings
  on_clock : ∀ b ∈ s.bookings, clock ∣ b.start ∧ clock ∣ b.length

namespace Schedule

variable {clock : Nat}

theorem valid_empty (clock number : Nat) : Valid clock { number } :=
  ⟨List.Pairwise.nil, fun _ hb => absurd hb List.not_mem_nil⟩

theorem insertAll_eq_ok {s s' : Schedule} {bs : List Booking} :
    s.insertAll bs = .ok s' ↔
      ∃ booked, Booking.insertAll s.flags bs s.bookings = .ok booked ∧
        s' = { s with bookings := booked } := by
  unfold insertAll
  rw [bind_eq_ok]
  refine exists_congr fun booked => and_congr Iff.rfl ?_
  exact ⟨fun h => (Except.ok.inj h).symm, fun h => h ▸ rfl⟩

theorem number_of_insertAll {s s' : Schedule} {bs : List Booking} (h : s.insertAll bs = .ok s') :
    s'.number = s.number := by
  obtain ⟨booked, -, rfl⟩ := insertAll_eq_ok.mp h
  rfl

/-- **Booking on the clock keeps a schedule valid.** -/
theorem Valid.insertAll {s s' : Schedule} (hs : s.Valid clock) {bs : List Booking}
    (hbs : ∀ b ∈ bs, clock ∣ b.start ∧ clock ∣ b.length) (h : s.insertAll bs = .ok s') :
    s'.Valid clock := by
  obtain ⟨booked, hbooked, rfl⟩ := insertAll_eq_ok.mp h
  have hkept := foldlM_keeps
    (motive := fun booked => Booking.Ordered booked ∧
      ∀ b ∈ booked, clock ∣ b.start ∧ clock ∣ b.length)
    (fun b hb booked booked' hkept hinsert => by
      obtain ⟨hclash, rfl⟩ := Booking.insert_eq_ok.mp hinsert
      refine ⟨Booking.ordered_insert hkept.1 hclash, fun other hother => ?_⟩
      rcases List.mem_cons.mp ((Booking.insert_perm b booked).mem_iff.mp hother) with rfl | hother
      · exact hbs other hb
      · exact hkept.2 other hother)
    ⟨hs.ordered, hs.on_clock⟩ hbooked
  exact ⟨hkept.1, hkept.2⟩

end Schedule

end PulseSequencer
