import PulseSequencer.Board
import PulseSequencer.Program.Basic

/-!
# Short pulses

An instruction takes a board at least five clock periods. A shorter pulse is put into the flags
word: a field of three bits that holds `N > 0` makes the outputs high for `N` clock periods only,
and low for the rest of the instruction. A field of zero leaves the outputs as the flags say.

`Program.encodeShort` puts the length of every instruction of at most five periods into its field
and stretches it to five. All-low instructions that follow a short pulse are absorbed into it, and
branches are renumbered accordingly. It goes through a program once, from the front, and changes
only the instruction put out last:

* `Encoding`: what has been put out so far, and what is kept to tell the lengths and the branches.
* `Encoding.step`: the next instruction, put out by itself or absorbed into the last one.
* `encode`, `retarget`: all of them, and the branches when all are there.
-/

namespace PulseSequencer

namespace ShortPulse

/-- The number of clock periods that an instruction takes at least. -/
def minPeriods : Nat := 5

/-- The least length of an instruction. -/
def minLength (clock : Nat) : Nat := minPeriods * clock

/-- The short pulse field at `bit`: the number of clock periods that the outputs are high. -/
def periods (flags : Flags) (bit : Nat) : Nat := ((flags >>> bit) &&& (7 : Flags)).toNat

/-- Whether some instruction is no longer than the least length. -/
def hasShort (clock : Nat) (p : Program) : Bool := p.any fun i => i.length ≤ minLength clock

/-! ## One instruction after another -/

/-- What has been made of the instructions so far. -/
structure Encoding where
  /-- The instructions put out. -/
  instructions : Array Instruction := #[]
  /-- For each of them, how long the instructions lasted that it is made of. -/
  spans : Array Nat := #[]
  /-- For each instruction gone through, the number of the one that it has become part of. -/
  index : Array Nat := #[]
  /-- The instructions that lost their pulse: shorter than one clock period, they are left with an
  empty field. -/
  lost : Array Instruction := #[]
  deriving DecidableEq

/-- `i` as a short pulse, if it is short: its whole clock periods are in the field, and it has the
least length. -/
def shorten (b : Board) (i : Instruction) : Instruction :=
  if i.length ≤ minLength b.clock then
    { i with
      flags := i.flags ||| (BitVec.ofNat wordBits (i.length / b.clock) <<< b.bit)
      length := minLength b.clock }
  else i

/-- `last` with `i` absorbed, where all that it is made of lasted for `span`, `i` included. If `i`
does more than proceed, `last` does so in its place. -/
def takeIn (b : Board) (span : Nat) (i last : Instruction) : Instruction where
  flags := last.flags
  opcode := if i.opcode = .proceed then last.opcode else i.opcode
  data := if i.opcode = .proceed then last.data else i.data
  length := max span (minLength b.clock)

namespace Encoding

/-- Whether `i` is absorbed: an all-low instruction behind a short pulse. -/
def absorbs (b : Board) (e : Encoding) (i : Instruction) : Bool :=
  i.flags = 0 && e.instructions.back?.any fun last => 0 < periods last.flags b.bit

/-- Absorbs `i` into the last instruction, of which the whole span is stretched anew. -/
def absorb (b : Board) (e : Encoding) (i : Instruction) : Encoding :=
  let last := e.instructions.size - 1
  let spans := e.spans.modify last (· + i.length)
  { e with
    instructions := e.instructions.modify last (takeIn b (spans.back?.getD 0) i)
    spans
    index := e.index.push last }

/-- Puts out `i` by itself. -/
def push (b : Board) (e : Encoding) (i : Instruction) : Encoding where
  instructions := e.instructions.push (shorten b i)
  spans := e.spans.push i.length
  index := e.index.push e.instructions.size
  lost := if i.length ≤ minLength b.clock ∧ i.length / b.clock = 0 then e.lost.push i else e.lost

/-- Goes on with the next instruction. -/
def step (b : Board) (e : Encoding) (i : Instruction) : Encoding :=
  if e.absorbs b i then e.absorb b i else e.push b i

end Encoding

/-- Goes through a program, its branches left as they are. -/
def encode (b : Board) (p : Program) : Encoding := p.foldl (Encoding.step b) {}

/-- `i` with the target of a branch replaced by the number that `index` has for it. -/
def retarget (index : List Nat) (i : Instruction) : Instruction :=
  if i.opcode = .branch then { i with data := index[i.data]?.getD i.data } else i

/-- The instructions of a program that lose their pulse. -/
def lost (b : Board) (p : Program) : List Instruction := (encode b p).lost.toList

end ShortPulse

/-- The program in which every instruction takes at least five clock periods, with the shorter
ones as short pulses. -/
def Program.encodeShort (b : Board) (p : Program) : Program :=
  let e := ShortPulse.encode b p
  e.instructions.toList.map (ShortPulse.retarget e.index.toList)

end PulseSequencer
