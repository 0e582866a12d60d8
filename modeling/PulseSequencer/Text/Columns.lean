/-!
# Text in columns

Counts aligned to a width: decimal ones to the right, binary ones filled up with zeros. A count too
long for its column is written in full.
-/

namespace PulseSequencer

namespace Text

/-- `s` with `fill` before it up to `width` characters. -/
def padLeft (width : Nat) (fill : Char) (s : String) : String :=
  String.ofList (s.toList.leftpad width fill)

/-- The binary digits of `n`, most significant first, with zeros before them up to `width`. -/
def binary (width n : Nat) : String :=
  padLeft width '0' (String.ofList (Nat.toDigits 2 n))

/-- `n` in decimal, to the right of a column of `width`. -/
def aligned (width n : Nat) : String := padLeft width ' ' (toString n)

theorem toList_padLeft (width : Nat) (fill : Char) (s : String) :
    (padLeft width fill s).toList = List.replicate (width - s.length) fill ++ s.toList := by
  simp [padLeft, List.leftpad, String.length_toList]

end Text

end PulseSequencer
