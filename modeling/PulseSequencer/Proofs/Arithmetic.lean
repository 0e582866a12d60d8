import Mathlib.Tactic
import PulseSequencer.Clock
import PulseSequencer.Number.Binary64

/-!
# Counts in rounded arithmetic

A time is a count of ns, and what is computed from counts is rounded. Below `2^53` that does no harm
to counts: a result keeps its place among them, so a count comes out as it is; and a quotient of
counts that is above a third one stays above it, however little that is.

* `Arithmetic.Faithful`: arithmetic of which both hold. Exact arithmetic is (`faithful_exact`).
* `nearestEven_le`, `le_nearestEven`, `sub_half_le_nearestEven`: how rationals are rounded.
* `Number.le_ceilWord`, `Number.ceilWord_le`: the least count that a number fits into.
* `two_pow_floorLog2_le`: the leading binary digit is at most the number.
* `Binary64.exists_nearest_eq`: below `2^53` the unit of the last place is `1 / 2^k`, and at most
  one part in `2^52`.

Results:
* **`faithful_binary64`**: binary64 is faithful.
* `Faithful.round_natCast`: a count is kept.
* `Faithful.ceilWord_div`: the least count of periods that a time fits into.
* `Faithful.roundToClock_between`, `Faithful.roundToClock_natCast`: rounding to the clock keeps the
  place among the multiples of the period, and a multiple as it is.
-/

namespace PulseSequencer

/-! ## Rounding to an integer -/

theorem nearestEven_le {q : Rat} {n : Int} (h : q ≤ n) : nearestEven q ≤ n := by
  rcases lt_or_eq_of_le h with hlt | rfl
  · have hfloor : q.floor < n := Rat.floor_lt_iff.mpr hlt
    rcases nearestEven_eq_floor_or q with heq | heq <;> omega
  · exact (nearestEven_intCast n).le

theorem le_nearestEven {q : Rat} {n : Int} (h : (n : Rat) ≤ q) : n ≤ nearestEven q := by
  have hfloor : n ≤ q.floor := Rat.le_floor_iff.mpr h
  rcases nearestEven_eq_floor_or q with heq | heq <;> omega

theorem sub_half_le_nearestEven (q : Rat) : q - 1 / 2 ≤ nearestEven q := by
  have hlow : q - 1 < q.floor := Rat.lt_floor
  unfold nearestEven
  simp only
  split_ifs <;> push_cast <;> linarith

/-! ## Counting up -/

/-- A number that is not too large fits into its count. -/
theorem Number.le_ceilWord {r : Rat} (h : r ≤ maxWord) : r ≤ (finite r).ceilWord := by
  have hup : r ≤ ((r.ceil.toNat : Int) : Rat) :=
    Rat.le_ceil.trans (by exact_mod_cast Int.self_le_toNat r.ceil)
  have hmin : (min (r.ceil.toNat : Rat) maxWord) = ((finite r).ceilWord : Rat) := by
    rw [ceilWord, Nat.cast_min]
  rw [← hmin]
  exact le_min (by exact_mod_cast hup) h

/-- The count of a number is the least that it fits into. -/
theorem Number.ceilWord_le {r : Rat} {n : Nat} (h : r ≤ n) : (finite r).ceilWord ≤ n := by
  have hceil : r.ceil ≤ n := Rat.ceil_le_iff.mpr (by exact_mod_cast h)
  exact (Nat.min_le_left _ _).trans (by omega)

/-! ## The leading digit -/

/-- **The leading binary digit is at most the number.** -/
theorem two_pow_floorLog2_le {q : Rat} (hq : 0 < q) : (2 : Rat) ^ floorLog2 q ≤ q := by
  unfold floorLog2 leadingExponent
  split
  · assumption
  · have hnum : 0 < q.num := Rat.num_pos.mpr hq
    have hlow : (2 : Rat) ^ (q.num.natAbs.log2 : Int) ≤ q.num := by
      have h := Nat.log2_self_le (Int.natAbs_ne_zero.mpr hnum.ne')
      have habs : (q.num.natAbs : Int) = q.num := Int.natAbs_of_nonneg hnum.le
      rw [zpow_natCast, ← habs]
      exact_mod_cast h
    have hhigh : (q.den : Rat) ≤ 2 ^ (q.den.log2 + 1 : Int) := by
      have h : q.den < 2 ^ (q.den.log2 + 1) := Nat.lt_log2_self
      exact_mod_cast h.le
    have hden : (0 : Rat) < q.den := by exact_mod_cast q.den_pos
    calc (2 : Rat) ^ ((q.num.natAbs.log2 : Int) - q.den.log2 - 1)
        = 2 ^ (q.num.natAbs.log2 : Int) / 2 ^ (q.den.log2 + 1 : Int) := by
          rw [← zpow_sub₀ (by norm_num)]
          congr 1
          ring
      _ ≤ q.num / q.den := div_le_div₀ (by exact_mod_cast hnum.le) hlow hden hhigh
      _ = q := Rat.num_div_den q

/-! ## Arithmetic that is faithful to counts -/

/-- Arithmetic in which a result below `2^53` keeps its place among the counts, and a quotient of
counts below `2^53` stays above what it is above. -/
structure Arithmetic.Faithful (A : Arithmetic) : Prop where
  between : ∀ q : Rat, 0 ≤ q → q < 2 ^ 53 → ∃ r, A.round q = .finite r ∧
    ∀ n : Nat, (q ≤ n → r ≤ n) ∧ ((n : Rat) ≤ q → n ≤ r)
  above : ∀ a b n : Nat, a < 2 ^ 53 → b < 2 ^ 53 → (n : Rat) < a / b →
    ∃ r, A.round (a / b) = .finite r ∧ n < r

/-- Exact arithmetic is faithful. -/
theorem Arithmetic.faithful_exact : exact.Faithful where
  between q _ _ := ⟨q, rfl, fun _ => ⟨id, id⟩⟩
  above a b _ _ _ h := ⟨a / b, rfl, h⟩

namespace Binary64

/-- Below `2^53` the unit of the last place is `1 / 2^k`, and no more than one part in `2^52` unless
it is the least there is. -/
theorem exists_nearest_eq {q : Rat} (hpos : 0 < q) (hlt : q < 2 ^ 53) :
    ∃ k : Nat, nearest q = nearestEven (q * 2 ^ k) / 2 ^ k ∧ (2 ^ 52 ≤ q * 2 ^ k ∨ k = 1074) := by
  have habs : q.abs = q := Rat.abs_of_nonneg hpos.le
  have hlead := two_pow_floorLog2_le hpos
  have hle : floorLog2 q - 52 ≤ 0 := by
    have h : (2 : Rat) ^ floorLog2 q < 2 ^ (53 : Int) := lt_of_le_of_lt hlead hlt
    have := (zpow_lt_zpow_iff_right₀ (by norm_num : (1 : Rat) < 2)).mp h
    omega
  obtain ⟨k, hk⟩ : ∃ k : Nat, lastPlace q = -(k : Int) := by
    refine ⟨(-lastPlace q).toNat, ?_⟩
    unfold lastPlace
    omega
  have hunit : (2 : Rat) ^ lastPlace q = 1 / 2 ^ k := by
    rw [hk, zpow_neg, zpow_natCast, one_div]
  refine ⟨k, ?_, ?_⟩
  · unfold nearest
    simp only [habs, hunit]
    rw [div_div_eq_mul_div, div_one, mul_one_div]
  · rcases max_cases (floorLog2 q - 52) (-1074) with ⟨hmax, -⟩ | ⟨hmax, -⟩
    · left
      have he : floorLog2 q = 52 - (k : Int) := by
        unfold lastPlace at hk
        omega
      rw [he, zpow_sub₀ (by norm_num), zpow_natCast] at hlead
      exact (div_le_iff₀ (by positivity)).mp hlead
    · right
      unfold lastPlace at hk
      omega

theorem nearest_le {q : Rat} (hpos : 0 < q) (hlt : q < 2 ^ 53) {n : Nat} (h : q ≤ n) :
    nearest q ≤ n := by
  obtain ⟨k, hk, -⟩ := exists_nearest_eq hpos hlt
  have hscaled : q * 2 ^ k ≤ ((n * 2 ^ k : Nat) : Int) := by
    push_cast
    exact mul_le_mul_of_nonneg_right h (by positivity)
  rw [hk, div_le_iff₀ (by positivity)]
  exact_mod_cast nearestEven_le hscaled

theorem le_nearest {q : Rat} (hpos : 0 < q) (hlt : q < 2 ^ 53) {n : Nat} (h : (n : Rat) ≤ q) :
    (n : Rat) ≤ nearest q := by
  obtain ⟨k, hk, -⟩ := exists_nearest_eq hpos hlt
  have hscaled : (((n * 2 ^ k : Nat) : Int) : Rat) ≤ q * 2 ^ k := by
    push_cast
    exact mul_le_mul_of_nonneg_right h (by positivity)
  rw [hk, le_div_iff₀ (by positivity)]
  exact_mod_cast le_nearestEven hscaled

theorem round_of_pos {q : Rat} (hpos : 0 < q) (hlt : q < 2 ^ 53) :
    round q = .finite (nearest q) := by
  have hle : nearest q ≤ (2 ^ 53 : Nat) := nearest_le hpos hlt (by exact_mod_cast hlt.le)
  have hnonneg : 0 ≤ nearest q := by exact_mod_cast le_nearest hpos hlt (n := 0) hpos.le
  have hsmall : ¬ (2 : Rat) ^ (1024 : Int) ≤ (nearest q).abs := by
    rw [Rat.abs_of_nonneg hnonneg, not_le]
    have hexponent : (2 : Rat) ^ (53 : Int) < 2 ^ (1024 : Int) :=
      zpow_lt_zpow_right₀ (by norm_num) (by norm_num)
    exact lt_of_le_of_lt (by exact_mod_cast hle) hexponent
  unfold round
  rw [if_neg hpos.ne', if_neg hsmall, if_neg fun h => absurd h.2 (not_lt.mpr hpos.le)]

/-- A quotient of counts is further above a count than half a unit of its last place. -/
theorem lt_nearest_div {a b n : Nat} (ha : a < 2 ^ 53) (hb : b < 2 ^ 53) (hbpos : 0 < b)
    (h : (n : Rat) < a / b) (hlt : (a / b : Rat) < 2 ^ 53) : (n : Rat) < nearest (a / b) := by
  obtain ⟨k, hk, hunit⟩ := exists_nearest_eq (lt_of_le_of_lt (by positivity) h) hlt
  have hbpos' : (0 : Rat) < b := by exact_mod_cast hbpos
  have hunit' : (0 : Rat) < 2 ^ k := by positivity
  have hfar : (n + 1 / b : Rat) ≤ a / b := by
    have h' : n * b + 1 ≤ a := by
      rw [lt_div_iff₀ hbpos'] at h
      exact_mod_cast h
    rw [le_div_iff₀ hbpos', add_mul, one_div, inv_mul_cancel₀ hbpos'.ne']
    exact_mod_cast h'
  have hhalf : (1 / 2 : Rat) < 1 / b * 2 ^ k := by
    rw [one_div_mul_eq_div, lt_div_iff₀ hbpos']
    rcases hunit with hunit | rfl
    · rw [div_mul_eq_mul_div, le_div_iff₀ hbpos'] at hunit
      have ha' : (a : Rat) < 2 ^ 53 := by exact_mod_cast ha
      have := mul_lt_mul_of_pos_right ha' hunit'
      linarith
    · have hb' : (b : Rat) < 2 ^ 53 := by exact_mod_cast hb
      have hleast : (2 : Rat) ^ 53 < 2 ^ 1074 := pow_lt_pow_right₀ (by norm_num) (by norm_num)
      exact lt_of_le_of_lt (by linarith) (hb'.trans hleast)
  rw [hk, lt_div_iff₀ hunit']
  calc (n : Rat) * 2 ^ k
      < n * 2 ^ k + (1 / b * 2 ^ k - 1 / 2) := by linarith
    _ = (n + 1 / b) * 2 ^ k - 1 / 2 := by ring
    _ ≤ a / b * 2 ^ k - 1 / 2 := by
      linarith [mul_le_mul_of_nonneg_right hfar hunit'.le]
    _ ≤ nearestEven (a / b * 2 ^ k) := sub_half_le_nearestEven _

end Binary64

/-- **Binary64 is faithful to counts.** -/
theorem Arithmetic.faithful_binary64 : binary64.Faithful where
  between q hnonneg hlt := by
    rcases hnonneg.eq_or_lt with rfl | hpos
    · exact ⟨0, rfl, fun _ => ⟨id, id⟩⟩
    · exact ⟨Binary64.nearest q, Binary64.round_of_pos hpos hlt,
        fun _ => ⟨Binary64.nearest_le hpos hlt, Binary64.le_nearest hpos hlt⟩⟩
  above a b n ha hb h := by
    have hbpos : 0 < b := by
      refine Nat.pos_of_ne_zero fun hzero => ?_
      rw [hzero, Nat.cast_zero, div_zero] at h
      exact absurd h (not_lt.mpr n.cast_nonneg)
    have hlt : (a / b : Rat) < 2 ^ 53 :=
      lt_of_le_of_lt (div_le_self a.cast_nonneg (by exact_mod_cast hbpos)) (by exact_mod_cast ha)
    exact ⟨_, Binary64.round_of_pos (lt_of_le_of_lt n.cast_nonneg h) hlt,
      Binary64.lt_nearest_div ha hb hbpos h hlt⟩

/-! ## Counts and times -/

theorem roundToClock_of_div {A : Arithmetic} {time r : Rat} {clock : Nat} (hnonneg : 0 ≤ time)
    (hdiv : A.div (.finite time) (A.ofNat clock) = .finite r)
    (hword : (nearestEven r).toNat * clock ≤ maxWord) :
    roundToClock A (.finite time) clock = .ok ((nearestEven r).toNat * clock) := by
  have htime : (Number.finite time).nonneg? = some time :=
    Number.nonneg?_eq_some.mpr ⟨rfl, hnonneg⟩
  unfold roundToClock
  rw [htime, hdiv]
  simp only [Option.isNone_some, Bool.false_eq_true, if_false, if_pos hword]

/-- A period has a multiple from `2^53` on that is still a time on a board. -/
theorem exists_multiple_fits {clock : Nat} (hpos : 0 < clock) (hclock : clock < 2 ^ 53) :
    ∃ m, 2 ^ 53 ≤ m * clock ∧ m * clock ≤ maxWord := by
  have hend : 2 ^ 53 < (2 ^ 53 / clock + 1) * clock :=
    Nat.lt_mul_of_div_lt (Nat.lt_succ_self _) hpos
  have hdiv := Nat.div_mul_le_self (2 ^ 53) clock
  refine ⟨2 ^ 53 / clock + 1, hend.le, ?_⟩
  rw [Nat.add_mul, Nat.one_mul]
  unfold maxWord
  omega

namespace Arithmetic.Faithful

variable {A : Arithmetic} (hA : A.Faithful)

include hA

/-- A count is kept. -/
theorem round_natCast {n : Nat} (h : n < 2 ^ 53) : A.round n = .finite n := by
  obtain ⟨r, hr, hplace⟩ := hA.between n n.cast_nonneg (by exact_mod_cast h)
  rw [hr, le_antisymm ((hplace n).1 le_rfl) ((hplace n).2 le_rfl)]

theorem ofNat_eq {n : Nat} (h : n < 2 ^ 53) : A.ofNat n = .finite n := hA.round_natCast h

/-- The product of two counts is kept. -/
theorem mul_ofNat {k n : Nat} (hk : k < 2 ^ 53) (h : k * n < 2 ^ 53) :
    A.mul (A.ofNat k) (.finite n) = .finite (k * n : Nat) := by
  rw [hA.ofNat_eq hk, mul_finite, ← Nat.cast_mul]
  exact hA.round_natCast h

/-- **The least count of periods that a time fits into.** -/
theorem ceilWord_div {time period : Nat} (htime : time < 2 ^ 53) (hperiod : period < 2 ^ 53)
    (hpos : 0 < period) :
    time ≤ (A.div (A.ofNat time) (.finite period)).ceilWord * period ∧
      (A.div (A.ofNat time) (.finite period)).ceilWord * period < time + period := by
  have hpos' : (0 : Rat) < period := by exact_mod_cast hpos
  have hle : (time / period : Rat) ≤ time :=
    div_le_self time.cast_nonneg (by exact_mod_cast hpos)
  obtain ⟨r, hr, hplace⟩ := hA.between (time / period) (by positivity)
    (lt_of_le_of_lt hle (by exact_mod_cast htime))
  have hdiv : A.div (A.ofNat time) (.finite period) = .finite r := by
    rw [hA.ofNat_eq htime, div_finite, quotient_of_ne_zero A _ hpos'.ne', hr]
  have hword : r ≤ maxWord := by
    refine ((hplace time).1 hle).trans ?_
    unfold maxWord
    exact_mod_cast (by omega : time ≤ 0xFFFFFFFFFFFFFFFF)
  rw [hdiv]
  constructor
  · by_contra hless
    have habove : ((Number.finite r).ceilWord : Rat) < time / period := by
      rw [lt_div_iff₀ hpos']
      exact_mod_cast Nat.not_le.mp hless
    obtain ⟨r', hr', hcount⟩ := hA.above time period _ htime hperiod habove
    obtain rfl : r = r' := Number.finite.inj (hr.symm.trans hr')
    exact absurd hcount (not_lt.mpr (Number.le_ceilWord hword))
  · by_contra hmore
    obtain ⟨before, hcount⟩ : ∃ before, (Number.finite r).ceilWord = before + 1 :=
      Nat.exists_eq_succ_of_ne_zero fun hzero => by
        rw [hzero, Nat.zero_mul] at hmore
        omega
    have hfits : time ≤ before * period := by
      rw [hcount, Nat.succ_mul] at hmore
      omega
    have hbefore : r ≤ before :=
      (hplace before).1 ((div_le_iff₀ hpos').mpr (by exact_mod_cast hfits))
    have := Number.ceilWord_le hbefore
    omega

/-- **Rounding to the clock keeps the place of a time among the multiples of the period.** -/
theorem roundToClock_between {time : Rat} {clock : Nat} (hnonneg : 0 ≤ time)
    (htime : time < 2 ^ 53) (hpos : 0 < clock) (hclock : clock < 2 ^ 53) :
    ∃ t, roundToClock A (.finite time) clock = .ok t ∧
      ∀ n, clock ∣ n → (time ≤ n → t ≤ n) ∧ ((n : Rat) ≤ time → n ≤ t) := by
  have hpos' : (0 : Rat) < clock := by exact_mod_cast hpos
  have hlt : time / clock < 2 ^ 53 :=
    lt_of_le_of_lt (div_le_self hnonneg (by exact_mod_cast hpos)) htime
  obtain ⟨r, hr, hplace⟩ := hA.between (time / clock) (by positivity) hlt
  have hrounded : ∀ m : Nat, (time ≤ m * clock → (nearestEven r).toNat ≤ m) ∧
      ((m * clock : Rat) ≤ time → m ≤ (nearestEven r).toNat) := by
    intro m
    refine ⟨fun h => ?_, fun h => ?_⟩
    · have := nearestEven_le (n := m) ((hplace m).1 ((div_le_iff₀ hpos').mpr h))
      omega
    · have := le_nearestEven (n := m) ((hplace m).2 ((le_div_iff₀ hpos').mpr h))
      omega
  have hdiv : A.div (.finite time) (A.ofNat clock) = .finite r := by
    rw [hA.ofNat_eq hclock, div_finite, quotient_of_ne_zero A _ hpos'.ne', hr]
  refine ⟨(nearestEven r).toNat * clock, roundToClock_of_div hnonneg hdiv ?_, ?_⟩
  · obtain ⟨m, hend, hword⟩ := exists_multiple_fits hpos hclock
    have hfew := (hrounded m).1 (htime.le.trans (by exact_mod_cast hend))
    exact (Nat.mul_le_mul_right clock hfew).trans hword
  · rintro n ⟨m, rfl⟩
    rw [Nat.mul_comm clock m]
    push_cast
    exact ⟨fun h => Nat.mul_le_mul_right clock ((hrounded m).1 h),
      fun h => Nat.mul_le_mul_right clock ((hrounded m).2 h)⟩

/-- A multiple of the period is on the clock as it is. -/
theorem roundToClock_natCast {t clock : Nat} (ht : t < 2 ^ 53) (hpos : 0 < clock)
    (hclock : clock < 2 ^ 53) (hdvd : clock ∣ t) : roundToClock A (.finite t) clock = .ok t := by
  have hnonneg : (0 : Rat) ≤ t := t.cast_nonneg
  obtain ⟨t', hrun, hplace⟩ := hA.roundToClock_between hnonneg (by exact_mod_cast ht) hpos hclock
  rw [hrun, Nat.le_antisymm ((hplace t hdvd).1 le_rfl) ((hplace t hdvd).2 le_rfl)]

end Arithmetic.Faithful

end PulseSequencer
