import PulseSequencer.Number.Rounding

/-!
# Numbers and the arithmetic on them

Times and frequencies reach the library as numbers that may also be infinite or no number at all.
What is computed from them is computed exactly and then rounded once per operation; how results
are rounded is an `Arithmetic`.

* `Number`: a rational, a zero written with a minus sign, an infinity, or no number.
* `Arithmetic`: a rounding of exact results. `Arithmetic.exact` keeps every rational.
* `Number.nonneg?`, `Number.positive?`: the finite values a time or a frequency may take.
* `Number.ceilWord`, `Number.nearestWord`: a number as a 64-bit count, the way out of the numbers.
-/

namespace PulseSequencer

/-- A number as given or computed: `negZero` is a zero that carries a minus sign. -/
inductive Number where
  | finite (value : Rat)
  | negZero
  | infinite (negative : Bool)
  | nan
  deriving DecidableEq, Inhabited

/-- The largest value of a 64-bit word, which bounds every time on a board. -/
def maxWord : Nat := 0xFFFFFFFFFFFFFFFF

namespace Number

/-- The rational a finite number stands for. -/
def value? : Number → Option Rat
  | finite q => some q
  | negZero => some 0
  | infinite _ => none
  | nan => none

/-- The rational a finite number `≥ 0` stands for. -/
def nonneg? (x : Number) : Option Rat := x.value?.filter (0 ≤ ·)

/-- The rational a finite number `> 0` stands for. -/
def positive? (x : Number) : Option Rat := x.value?.filter (0 < ·)

/-- `x < y`; never, if one of the two is no number. -/
def below : Number → Number → Bool
  | nan, _ => false
  | _, nan => false
  | infinite s, infinite t => s && !t
  | infinite s, _ => s
  | _, infinite t => !t
  | x, y => x.value?.getD 0 < y.value?.getD 0

/-- The least count that is not below `x`, cut off at the ends of a 64-bit word. -/
def ceilWord : Number → Nat
  | finite q => min q.ceil.toNat maxWord
  | negZero => 0
  | infinite negative => if negative then 0 else maxWord
  | nan => 0

/-- The count nearest to a number, halves upward, cut off at the ends of a 64-bit word. -/
def nearestWord : Number → Nat
  | finite q => min (nearestUp q).toNat maxWord
  | negZero => 0
  | infinite negative => if negative then 0 else maxWord
  | nan => 0

@[simp] theorem value?_finite (q : Rat) : (finite q).value? = some q := rfl

theorem nonneg?_eq_some {x : Number} {q : Rat} :
    x.nonneg? = some q ↔ x.value? = some q ∧ 0 ≤ q := by
  simp [nonneg?, Option.filter_eq_some_iff]

theorem positive?_eq_some {x : Number} {q : Rat} :
    x.positive? = some q ↔ x.value? = some q ∧ 0 < q := by
  simp [positive?, Option.filter_eq_some_iff]

end Number

/-- A way to keep the results of arithmetic: `round q` is the number kept for the exact
result `q`. -/
structure Arithmetic where
  round : Rat → Number

namespace Arithmetic

/-- Arithmetic on rationals, in which nothing is lost. -/
def exact : Arithmetic := ⟨.finite⟩

variable (A : Arithmetic)

/-- A count as a number. -/
def ofNat (n : Nat) : Number := A.round n

/-- The sum; opposite infinities have none. -/
def add : Number → Number → Number
  | .nan, _ => .nan
  | _, .nan => .nan
  | .infinite s, .infinite t => if s = t then .infinite s else .nan
  | .infinite s, _ => .infinite s
  | _, .infinite t => .infinite t
  | x, y => A.round (x.value?.getD 0 + y.value?.getD 0)

/-- The difference; equal infinities have none. -/
def sub : Number → Number → Number
  | .nan, _ => .nan
  | _, .nan => .nan
  | .infinite s, .infinite t => if s = t then .nan else .infinite s
  | .infinite s, _ => .infinite s
  | _, .infinite t => .infinite !t
  | x, y => A.round (x.value?.getD 0 - y.value?.getD 0)

/-- An infinity of sign `s` times `q`: a zero times an infinity has no value. -/
def scaleInfinity (s : Bool) (q : Rat) : Number :=
  if q = 0 then .nan else .infinite (s != decide (q < 0))

/-- The product. -/
def mul : Number → Number → Number
  | .nan, _ => .nan
  | _, .nan => .nan
  | .infinite s, .infinite t => .infinite (s != t)
  | .infinite s, y => scaleInfinity s (y.value?.getD 0)
  | x, .infinite t => scaleInfinity t (x.value?.getD 0)
  | x, y => A.round (x.value?.getD 0 * y.value?.getD 0)

/-- The quotient `p / q` of rationals: over zero it is infinite, zero over zero has no value. -/
def quotient (p q : Rat) : Number :=
  if q = 0 then (if p = 0 then .nan else .infinite (p < 0)) else A.round (p / q)

/-- The quotient; two infinities have none. -/
def div : Number → Number → Number
  | .nan, _ => .nan
  | _, .nan => .nan
  | .infinite _, .infinite _ => .nan
  | .infinite s, y => .infinite (s != decide (y.value?.getD 0 < 0))
  | _, .infinite _ => .finite 0
  | x, y => A.quotient (x.value?.getD 0) (y.value?.getD 0)

@[simp] theorem add_finite (p q : Rat) : A.add (.finite p) (.finite q) = A.round (p + q) := rfl

@[simp] theorem sub_finite (p q : Rat) : A.sub (.finite p) (.finite q) = A.round (p - q) := rfl

@[simp] theorem mul_finite (p q : Rat) : A.mul (.finite p) (.finite q) = A.round (p * q) := rfl

@[simp] theorem div_finite (p q : Rat) : A.div (.finite p) (.finite q) = A.quotient p q := rfl

theorem quotient_of_ne_zero (p : Rat) {q : Rat} (h : q ≠ 0) :
    A.quotient p q = A.round (p / q) := if_neg h

@[simp] theorem round_exact (q : Rat) : exact.round q = .finite q := rfl

@[simp] theorem ofNat_exact (n : Nat) : exact.ofNat n = .finite n := rfl

end Arithmetic

end PulseSequencer
