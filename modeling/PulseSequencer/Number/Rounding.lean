/-!
# Rounding rationals

Rules that send a rational to an integer near it, and the place of its leading digit.

* `nearestEven`: the nearest integer, halves to the even one (`nearestEven_intCast`).
* `nearestUp`: the nearest integer, halves upward (`nearestUp_intCast`).
* `floorLog2`, `floorLog10`: the exponent of the leading binary or decimal digit of a positive
  rational, from the digit counts of numerator and denominator.
-/

namespace PulseSequencer

/-- The integer nearest to `q`; of two equally near ones the even one. -/
def nearestEven (q : Rat) : Int :=
  let low := q.floor
  if q - low < 1 / 2 then low
  else if 1 / 2 < q - low then low + 1
  else if low % 2 = 0 then low else low + 1

/-- The integer nearest to `q`; of two equally near ones the larger. -/
def nearestUp (q : Rat) : Int := (q + 1 / 2).floor

/-- An integer is its own nearest integer. -/
theorem nearestEven_intCast (n : Int) : nearestEven n = n := by
  have h : (n : Rat) - n < 1 / 2 := by grind
  unfold nearestEven
  rw [Rat.floor_intCast, if_pos h]

/-- The fractional part `q - ⌊q⌋` decides between the two integers around `q`. -/
theorem nearestEven_eq_floor_or (q : Rat) :
    nearestEven q = q.floor ∨ nearestEven q = q.floor + 1 := by
  unfold nearestEven
  grind

/-- An integer is its own nearest integer. -/
theorem nearestUp_intCast (n : Int) : nearestUp n = n := by
  have lower : n ≤ ((n : Rat) + 1 / 2).floor := Rat.le_floor_iff.mpr (by grind)
  have upper : ((n : Rat) + 1 / 2).floor < n + 1 := by
    rw [Rat.floor_lt_iff]
    have : ((n + 1 : Int) : Rat) = (n : Rat) + 1 := Rat.intCast_add n 1
    grind
  unfold nearestUp
  omega

/-- Given an exponent `e` with `b ^ (e - 1) < q < b ^ (e + 1)`, the one with
`b ^ e' ≤ q < b ^ (e' + 1)`. -/
def leadingExponent (b : Rat) (e : Int) (q : Rat) : Int :=
  if b ^ e ≤ q then e else e - 1

/-- `⌊log₂ q⌋` for a positive `q`. -/
def floorLog2 (q : Rat) : Int :=
  leadingExponent 2 ((q.num.natAbs.log2 : Int) - q.den.log2) q

/-- The number of decimal digits of `n`. -/
def digitCount (n : Nat) : Nat := (Nat.toDigits 10 n).length

/-- `⌊log₁₀ q⌋` for a positive `q`. -/
def floorLog10 (q : Rat) : Int :=
  leadingExponent 10 ((digitCount q.num.natAbs : Int) - digitCount q.den) q

end PulseSequencer
