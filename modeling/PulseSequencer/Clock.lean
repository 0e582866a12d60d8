import PulseSequencer.Error

/-!
# Board clocks

Every time on a board is a whole number of clock periods, in ns and below `2^64`.

* `roundToClock`: the multiple of the period nearest to a time, halves to the even multiple.
* `clockPeriod`: the period of a clock frequency in whole ns.
-/

namespace PulseSequencer

variable (A : Arithmetic)

/-- The multiple of `clock` nearest to `time`. -/
def roundToClock (time : Number) (clock : Nat) : Except Error Nat :=
  if time.nonneg?.isNone then .error (.invalidTime time)
  else
    match A.div time (A.ofNat clock) with
    | .finite periods =>
      let rounded := (nearestEven periods).toNat * clock
      if rounded ≤ maxWord then .ok rounded else .error (.invalidTime time)
    | .infinite _ => .error (.invalidTime time)
    | .negZero => .ok 0
    | .nan => .ok 0

/-- The period in ns of a clock of `frequency` Hz: a whole number, at least 1. -/
def clockPeriod (frequency : Number) : Except Error Nat :=
  if frequency.positive?.isNone then .error (.invalidClock (.notPositive frequency))
  else
    match (A.div (.finite 1000000000) frequency).nearestWord with
    | 0 => .error (.invalidClock (.tooFast frequency))
    | period => .ok period

theorem roundToClock_le {time : Number} {clock t : Nat} (h : roundToClock A time clock = .ok t) :
    t ≤ maxWord := by
  unfold roundToClock at h
  grind [maxWord]

theorem dvd_roundToClock {time : Number} {clock t : Nat} (h : roundToClock A time clock = .ok t) :
    clock ∣ t := by
  unfold roundToClock at h
  grind [Nat.dvd_mul_left, Nat.dvd_zero]

theorem clockPeriod_pos {frequency : Number} {period : Nat}
    (h : clockPeriod A frequency = .ok period) : 0 < period := by
  unfold clockPeriod at h
  grind

end PulseSequencer
