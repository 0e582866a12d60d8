import PulseSequencer.Text.Hidden

/-!
# Quoted text

A text between double quotes in which every character can be told apart: quote, backslash, tab,
line ends and the zero character have escapes of two characters, any other character that does not
show is written as its code point in hexadecimal.
-/

namespace PulseSequencer

namespace Text

/-- The code point of `c` in lower-case hexadecimal, between braces. -/
def codePoint (c : Char) : String :=
  "\\u\x7b" ++ String.ofList (Nat.toDigits 16 c.toNat) ++ "\x7d"

/-- What is written for one character of a quoted text. -/
def escape (c : Char) : String :=
  match c with
  | '\x00' => "\\0"
  | '\t' => "\\t"
  | '\r' => "\\r"
  | '\n' => "\\n"
  | '\"' => "\\\""
  | '\\' => "\\\\"
  | c => if isHidden c then codePoint c else c.toString

/-- A text between double quotes. -/
def quote (s : String) : String :=
  "\"" ++ String.join (s.toList.map escape) ++ "\""

end Text

end PulseSequencer
