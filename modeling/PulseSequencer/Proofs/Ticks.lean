import PulseSequencer.Proofs.Arithmetic

/-!
# Exact times on the clock

Times that are rounded to the clock one by one, in exact arithmetic: each is moved by at most half a
clock period, and one that stands halfway between two ticks to the even one. What is rounded apart
may come closer together, or may not add up to what the whole is rounded to.

* `nearestTick`: the tick of the clock nearest to a time. Exact arithmetic rounds to it
  (`roundToClock_exact`).
* `nearestEven_add_half_le`: a number and half of what is at least 2 are rounded to no more than
  their sum with the whole of it.
* `nearestEven_eq`, `nearestEven_half`: where a number is rounded to, between two integers and
  halfway between them.

Results:
* **`nearestTick_add_half_le`**: half a period, wherever it starts, is over with the whole period.
* **`nearestTick_add_rest_iff`**: the parts of a period add up to it again unless it takes an odd
  number of ticks and they stand halfway between two.
-/

namespace PulseSequencer

/-! ## Rounding halves to even -/

theorem nearestEven_le_add_half (q : Rat) : nearestEven q ≤ q + 1 / 2 := by
  have hlow : (q.floor : Rat) ≤ q := Rat.floor_le q
  unfold nearestEven
  simp only
  split_ifs <;> push_cast <;> linarith

/-- A number less than a half away from an integer is rounded to it. -/
theorem nearestEven_eq {q : Rat} {n : Int} (hlow : n - 1 / 2 < q) (hhigh : q < n + 1 / 2) :
    nearestEven q = n := by
  have hup := nearestEven_le_add_half q
  have hdown := sub_half_le_nearestEven q
  have hle : nearestEven q < n + 1 := by
    exact_mod_cast (by linarith : (nearestEven q : Rat) < n + 1)
  have hge : n - 1 < nearestEven q := by
    exact_mod_cast (by linarith : (n : Rat) - 1 < nearestEven q)
  omega

/-- Halfway between two integers a number is rounded to the even one. -/
theorem nearestEven_half (k : Int) : nearestEven (k + 1 / 2) = k + k % 2 := by
  have hfloor : ((k : Rat) + 1 / 2).floor = k := by
    refine le_antisymm ?_ (Rat.le_floor_iff.mpr (by linarith))
    exact Int.lt_add_one_iff.mp (Rat.floor_lt_iff.mpr (by push_cast; linarith))
  unfold nearestEven
  simp only [hfloor, add_sub_cancel_left, lt_irrefl, if_false]
  split <;> omega

/-- **Half of what is at least 2, rounded on its own, does not run over**: below 3 it is rounded
to 1, and from there on the other half is enough for all three roundings. -/
theorem nearestEven_add_half_le {x y z : Rat} (hx : 2 ≤ x) (hz : y + x ≤ z) :
    nearestEven y + nearestEven (x / 2) ≤ nearestEven z := by
  have hy := nearestEven_le_add_half y
  have hhalf := nearestEven_le_add_half (x / 2)
  have hend := sub_half_le_nearestEven z
  rcases lt_or_ge x 3 with hlt | hge
  · have hone : nearestEven (x / 2) < 2 := by
      exact_mod_cast (by linarith : (nearestEven (x / 2) : Rat) < 2)
    have hnext : nearestEven y + 1 ≤ nearestEven z := by
      exact_mod_cast (by linarith : (nearestEven y : Rat) + 1 ≤ nearestEven z)
    omega
  · exact_mod_cast (by linarith : (nearestEven y : Rat) + nearestEven (x / 2) ≤ nearestEven z)

/-- The parts of an integer that do not stand halfway are rounded to what adds up to it. -/
theorem nearestEven_add_rest {q : Rat} (hq : ∀ k : Int, q ≠ k + 1 / 2) (m : Int) :
    nearestEven q + nearestEven (m - q) = m := by
  have hup : nearestEven q < q + 1 / 2 := by
    refine (nearestEven_le_add_half q).lt_of_ne fun h => hq (nearestEven q - 1) ?_
    push_cast
    linarith
  have hdown : q - 1 / 2 < nearestEven q :=
    (sub_half_le_nearestEven q).lt_of_ne fun h => hq (nearestEven q) (by linarith)
  have hrest : nearestEven (m - q) = m - nearestEven q :=
    nearestEven_eq (by push_cast; linarith) (by push_cast; linarith)
  omega

/-- The parts of an integer that stand halfway are both rounded to even. -/
theorem nearestEven_half_add_rest (k m : Int) :
    nearestEven (k + 1 / 2) + nearestEven (m - (k + 1 / 2)) =
      if m % 2 = 0 then m else if k % 2 = 0 then m - 1 else m + 1 := by
  have hrest : (m - (k + 1 / 2) : Rat) = (m - k - 1 : Int) + 1 / 2 := by
    push_cast
    ring
  rw [hrest, nearestEven_half, nearestEven_half]
  split_ifs <;> omega

/-! ## Exact numbers -/

theorem Number.positive?_eq_some_iff {x : Number} {q : Rat} :
    x.positive? = some q ↔ x = .finite q ∧ 0 < q := by
  rw [positive?_eq_some, and_congr_left_iff]
  intro hpos
  cases x with
  | finite r => simp
  | negZero => simpa [value?] using hpos.ne
  | infinite negative => simp [value?]
  | nan => simp [value?]

theorem Arithmetic.exact_div {p q : Rat} (h : q ≠ 0) :
    exact.div (.finite p) (.finite q) = .finite (p / q) := by
  rw [div_finite, quotient_of_ne_zero _ _ h, round_exact]

/-! ## Ticks -/

/-- The tick of the clock nearest to a time, of two equally near ones the even one. -/
def nearestTick (time : Rat) (clock : Nat) : Nat := (nearestEven (time / clock)).toNat * clock

variable {clock : Nat}

theorem nearestTick_zero (clock : Nat) : nearestTick 0 clock = 0 := by
  unfold nearestTick
  rw [zero_div, show nearestEven 0 = 0 from nearestEven_intCast 0]
  exact Nat.zero_mul clock

/-- The number of the nearest tick. -/
theorem nearestTick_eq {time : Rat} (hnonneg : 0 ≤ time) :
    (nearestTick time clock : Int) = nearestEven (time / clock) * clock := by
  have hrounded : 0 ≤ nearestEven (time / clock) :=
    le_nearestEven (by exact_mod_cast div_nonneg hnonneg clock.cast_nonneg)
  unfold nearestTick
  rw [Nat.cast_mul, Int.toNat_of_nonneg hrounded]

/-- **Exact arithmetic rounds to the nearest tick.** -/
theorem roundToClock_exact {time : Rat} {t : Nat} (hnonneg : 0 ≤ time) (hclock : 0 < clock) :
    roundToClock .exact (.finite time) clock = .ok t ↔
      t = nearestTick time clock ∧ nearestTick time clock ≤ maxWord := by
  have hne : (clock : Rat) ≠ 0 := by exact_mod_cast hclock.ne'
  have hdiv : Arithmetic.exact.div (.finite time) (Arithmetic.exact.ofNat clock) =
      .finite (time / clock) := by
    rw [Arithmetic.ofNat_exact, Arithmetic.exact_div hne]
  have hvalue : (Number.finite time).nonneg? = some time :=
    Number.nonneg?_eq_some.mpr ⟨rfl, hnonneg⟩
  have hround : roundToClock .exact (.finite time) clock =
      if nearestTick time clock ≤ maxWord then .ok (nearestTick time clock)
      else .error (.invalidTime (.finite time)) := by
    unfold roundToClock
    rw [hvalue, hdiv]
    rfl
  rw [hround]
  by_cases hword : nearestTick time clock ≤ maxWord
  · simp [hword, eq_comm]
  · simp [hword]

/-- A time of at least a clock period is not rounded to nothing. -/
theorem nearestTick_pos {time : Rat} (hclock : 0 < clock) (h : clock ≤ time) :
    0 < nearestTick time clock := by
  have hpos : (0 : Rat) < clock := by exact_mod_cast hclock
  have hone : 1 ≤ nearestEven (time / clock) :=
    le_nearestEven (by exact_mod_cast (one_le_div hpos).mpr h)
  unfold nearestTick
  exact Nat.mul_pos (by omega) hclock

/-- **Half a period of at least two ticks is over with the whole period**, although the start, the
half and the end are rounded to the clock each on its own. -/
theorem nearestTick_add_half_le {start period stop : Rat} (hclock : 0 < clock)
    (hstart : 0 ≤ start) (hperiod : 2 * clock ≤ period) (hstop : start + period ≤ stop) :
    nearestTick start clock + nearestTick (period / 2) clock ≤ nearestTick stop clock := by
  have hpos : (0 : Rat) < clock := by exact_mod_cast hclock
  have hticks := nearestEven_add_half_le (y := start / clock) (z := stop / clock)
    ((le_div_iff₀ hpos).mpr hperiod)
    (by rw [← add_div]; exact div_le_div_of_nonneg_right hstop hpos.le)
  rw [div_right_comm] at hticks
  have hscaled := mul_le_mul_of_nonneg_right hticks (Int.natCast_nonneg clock)
  rw [add_mul, ← nearestTick_eq hstart, ← nearestTick_eq (by linarith),
    ← nearestTick_eq (by linarith)] at hscaled
  exact_mod_cast hscaled

/-- The parts of a period add up to what their numbers of ticks do. -/
theorem nearestTick_add_rest_eq {time : Rat} {ticks : Nat} (hclock : 0 < clock)
    (hnonneg : 0 ≤ time) (hle : time ≤ ticks * clock) :
    ((nearestTick time clock + nearestTick (ticks * clock - time) clock : Nat) : Int) =
      (nearestEven (time / clock) + nearestEven ((ticks : Int) - time / clock)) * clock := by
  have hne : (clock : Rat) ≠ 0 := by exact_mod_cast hclock.ne'
  have hrest : (ticks * clock - time) / clock = (ticks : Int) - time / clock := by
    rw [sub_div, mul_div_cancel_right₀ _ hne, Int.cast_natCast]
  rw [Nat.cast_add, nearestTick_eq hnonneg, nearestTick_eq (sub_nonneg.mpr hle), hrest, add_mul]

/-- **The parts of a period, rounded to the clock, add up to it again** unless they stand halfway
between two ticks. -/
theorem nearestTick_add_rest {time : Rat} {ticks : Nat} (hclock : 0 < clock)
    (hnonneg : 0 ≤ time) (hle : time ≤ ticks * clock)
    (hnot : ∀ k : Nat, time ≠ (k + 1 / 2) * clock) :
    nearestTick time clock + nearestTick (ticks * clock - time) clock = ticks * clock := by
  have hne : (clock : Rat) ≠ 0 := by exact_mod_cast hclock.ne'
  have hquotient : 0 ≤ time / clock := div_nonneg hnonneg clock.cast_nonneg
  have hparts := nearestEven_add_rest (q := time / clock) (fun k hk => ?_) ticks
  · have hsum := nearestTick_add_rest_eq hclock hnonneg hle
    rw [hparts] at hsum
    exact_mod_cast hsum
  · have hk0 : 0 ≤ k := by
      by_contra hneg
      have hk1 : (k : Rat) ≤ -1 := by exact_mod_cast (by omega : k ≤ -1)
      linarith
    obtain ⟨k, rfl⟩ := Int.eq_ofNat_of_zero_le hk0
    exact hnot k ((div_eq_iff hne).mp (by rw [hk, Int.cast_natCast]))

/-- **The parts of a period that stand halfway between two ticks** are both rounded to the even one.
They add up to a period of an even number of ticks, and miss one of an odd number by a tick. -/
theorem nearestTick_half_add_rest {k ticks : Nat} (hclock : 0 < clock) (hk : k < ticks) :
    nearestTick ((k + 1 / 2) * clock) clock +
        nearestTick (ticks * clock - (k + 1 / 2) * clock) clock =
      (if ticks % 2 = 0 then ticks else if k % 2 = 0 then ticks - 1 else ticks + 1) * clock := by
  have hne : (clock : Rat) ≠ 0 := by exact_mod_cast hclock.ne'
  have hk' : (k + 1 / 2 : Rat) ≤ ticks := by
    have : (k + 1 : Rat) ≤ ticks := by exact_mod_cast hk
    linarith
  have hnonneg : (0 : Rat) ≤ (k + 1 / 2) * clock := by positivity
  have hsum := nearestTick_add_rest_eq hclock hnonneg
    (mul_le_mul_of_nonneg_right hk' clock.cast_nonneg)
  have hparts := nearestEven_half_add_rest k ticks
  rw [Int.cast_natCast] at hparts
  rw [mul_div_cancel_right₀ _ hne, hparts] at hsum
  have hticks : (if (ticks : Int) % 2 = 0 then (ticks : Int)
      else if (k : Int) % 2 = 0 then (ticks : Int) - 1 else ticks + 1) =
      (if ticks % 2 = 0 then ticks else if k % 2 = 0 then ticks - 1 else ticks + 1 : Nat) := by
    split_ifs <;> omega
  rw [hticks] at hsum
  exact_mod_cast hsum

/-- A time between two ticks that is no more than a third is before it. -/
theorem lt_of_half_le {k ticks : Nat} (hclock : 0 < clock)
    (h : ((k + 1 / 2) * clock : Rat) ≤ ticks * clock) : k < ticks := by
  have hpos : (0 : Rat) < clock := by exact_mod_cast hclock
  have hle : (k + 1 / 2 : Rat) ≤ ticks := le_of_mul_le_mul_right h hpos
  exact_mod_cast (by linarith : (k : Rat) < ticks)

/-- **When the parts of a period add up to it again**: unless it takes an odd number of ticks and
they stand halfway between two. -/
theorem nearestTick_add_rest_iff {time : Rat} {ticks : Nat} (hclock : 0 < clock)
    (hnonneg : 0 ≤ time) (hle : time ≤ ticks * clock) :
    nearestTick time clock + nearestTick (ticks * clock - time) clock = ticks * clock ↔
      ¬ (Odd ticks ∧ ∃ k : Nat, time = (k + 1 / 2) * clock) := by
  by_cases hhalf : ∃ k : Nat, time = (k + 1 / 2) * clock
  · obtain ⟨k, rfl⟩ := hhalf
    rw [nearestTick_half_add_rest hclock (lt_of_half_le hclock hle)]
    rcases Nat.even_or_odd ticks with heven | hodd
    · rw [if_pos (Nat.even_iff.mp heven)]
      exact iff_of_true rfl fun h => Nat.not_odd_iff_even.mpr heven h.1
    · refine iff_of_false (fun h => ?_) fun h => h ⟨hodd, k, rfl⟩
      have hticks := Nat.eq_of_mul_eq_mul_right hclock h
      have hodd' := Nat.odd_iff.mp hodd
      rw [if_neg (by omega)] at hticks
      split at hticks <;> omega
  · exact iff_of_true
      (nearestTick_add_rest hclock hnonneg hle fun k hk => hhalf ⟨k, hk⟩) fun h => hhalf h.2

end PulseSequencer
