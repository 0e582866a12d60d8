import PulseSequencer.Error

/-!
# Identifiers

The names of devices and channels: an ASCII letter or underscore, then letters, digits and
underscores.
-/

namespace PulseSequencer

namespace Text

/-- Whether an identifier may start with `c`. -/
def isNameStart (c : Char) : Bool := c.isAlpha || c = '_'

/-- Whether an identifier may go on with `c`. -/
def isNamePart (c : Char) : Bool := c.isAlphanum || c = '_'

/-- Whether `s` is an identifier. -/
def isIdentifier (s : String) : Bool :=
  match s.toList with
  | [] => false
  | c :: rest => isNameStart c && rest.all isNamePart

/-- Refuses a name that is not an identifier. -/
def checkName (name : String) : Except Error Unit := ensure (isIdentifier name) (.invalidName name)

end Text

end PulseSequencer
