import PulseSequencer.Number.Basic

/-!
# Binary64

The numbers `k · 2^e` with a significand `k` of at most 53 bits and `-1074 ≤ e`, below `2^1024`.
`Binary64.round` sends a rational to the nearest of them, of two equally near ones to the one with
the even significand; from `2^1024` on it is infinite. `Arithmetic.binary64` rounds every result
this way.
-/

namespace PulseSequencer

namespace Binary64

/-- The exponent of the last place of a positive `q`: 52 places behind its leading one, and
nowhere below `-1074`. -/
def lastPlace (q : Rat) : Int := max (floorLog2 q - 52) (-1074)

/-- The multiple of the last place's unit nearest to `q`, halves to the even multiple. -/
def nearest (q : Rat) : Rat :=
  let unit : Rat := 2 ^ lastPlace q.abs
  nearestEven (q / unit) * unit

/-- The binary64 number nearest to `q`. A negative `q` that vanishes leaves its sign behind. -/
def round (q : Rat) : Number :=
  if q = 0 then .finite 0
  else if (2 : Rat) ^ (1024 : Int) ≤ (nearest q).abs then .infinite (q < 0)
  else if nearest q = 0 ∧ q < 0 then .negZero
  else .finite (nearest q)

end Binary64

/-- Arithmetic that rounds each result to binary64. -/
def Arithmetic.binary64 : Arithmetic := ⟨Binary64.round⟩

end PulseSequencer
