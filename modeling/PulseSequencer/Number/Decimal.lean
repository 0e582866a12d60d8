import PulseSequencer.Number.Binary64

/-!
# Numbers in decimal

A number is written with the fewest significant digits that read back as the same binary64 number,
and of the candidates with that many digits the one nearest to it, a tie going up. The digits are
laid out around the decimal point without an exponent, however long that gets.

* `Decimal`: digits with an exponent of ten.
* `Decimal.shortest`: the digits of a positive rational.
* `Decimal.text`, `Number.text`: the layout.
-/

namespace PulseSequencer

/-- The decimal `digits · 10 ^ exponent`. -/
structure Decimal where
  digits : Nat
  exponent : Int
  deriving DecidableEq, Inhabited

namespace Decimal

/-- The rational a decimal stands for. -/
def value (d : Decimal) : Rat := d.digits * 10 ^ d.exponent

/-- The two neighbours of a positive `q` among the decimals of `n + 1` significant digits: the
last one that is not above `q`, and the one that follows it. -/
def neighbours (q : Rat) (n : Nat) : Decimal × Decimal :=
  let exponent := floorLog10 q - n
  let low := (q / 10 ^ exponent).floor.toNat
  (⟨low, exponent⟩, ⟨low + 1, exponent⟩)

/-- The neighbour of `q` among the decimals of `n + 1` digits that reads back as `q` does. If both
do it is the nearer one, and the upper one if they are equally near. -/
def readingBack? (q : Rat) (n : Nat) : Option Decimal :=
  let (low, high) := neighbours q n
  let back (d : Decimal) : Bool := Binary64.round d.value = Binary64.round q
  match back low, back high with
  | true, true => some (if q - low.value < high.value - q then low else high)
  | true, false => some low
  | false, true => some high
  | false, false => none

/-- The fewest digits of a positive `q` that read back; 17 always do. -/
def shortest (q : Rat) : Decimal :=
  ((List.range 17).findSome? (readingBack? q)).getD (neighbours q 16).1

/-- The digits after the point: `frac` written in `places` digits, without trailing zeros. -/
def fractionText (places frac : Nat) : String :=
  let digits := (Nat.toDigits 10 frac).leftpad places '0'
  String.ofList (digits.reverse.dropWhile (· = '0')).reverse

/-- All digits of a decimal in their places, with a point only before a fraction. -/
def text (d : Decimal) : String :=
  let scale := Nat.pow 10 d.exponent.natAbs
  if 0 ≤ d.exponent then toString (d.digits * scale)
  else
    let whole := toString (d.digits / scale)
    let fraction := fractionText d.exponent.natAbs (d.digits % scale)
    if fraction = "" then whole else whole ++ "." ++ fraction

end Decimal

/-- The text of a number. -/
def Number.text : Number → String
  | .finite q =>
    if q = 0 then "0"
    else if q < 0 then "-" ++ (Decimal.shortest (-q)).text
    else (Decimal.shortest q).text
  | .negZero => "-0"
  | .infinite negative => if negative then "-inf" else "inf"
  | .nan => "NaN"

end PulseSequencer
