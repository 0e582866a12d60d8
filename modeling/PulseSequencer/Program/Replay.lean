import PulseSequencer.Program.Basic

/-!
# Replay

The flags of a program sampled at regular ticks, found in one walk along the instructions. The
short pulse field of a flags word is sampled as it stands.
-/

namespace PulseSequencer

namespace Program

/-- A walk along a program: the flags of the instruction reached, its end, and what follows. -/
structure Walk where
  flags : Flags
  stop : Nat
  rest : Program

namespace Walk

/-- The walk before the first instruction. -/
def start (p : Program) : Walk := ⟨0, 0, p⟩

/-- The walk from an instruction that stops at `stop` on to the one that runs at `time`; at the end
of the program it stays with the last instruction. -/
def advance (time : Nat) (flags : Flags) (stop : Nat) : Program → Walk
  | [] => ⟨flags, stop, []⟩
  | i :: rest =>
    if stop ≤ time then advance time i.flags (stop + i.length) rest else ⟨flags, stop, i :: rest⟩

/-- The walk on to the instruction that runs at `time`. -/
def goTo (time : Nat) (w : Walk) : Walk := advance time w.flags w.stop w.rest

/-- The flags at `time` and at the `count - 1` ticks behind it. -/
def samples (tick : Nat) : (count time : Nat) → Walk → List Flags
  | 0, _, _ => []
  | count + 1, time, w =>
    let w := w.goTo time
    w.flags :: samples tick count (time + tick) w

end Walk

/-- The flags of a program at every multiple of `tick` that a whole tick follows. -/
def replay (p : Program) (tick : Nat) : List Flags :=
  (Walk.start p).samples tick (p.duration / tick) 0

/-- The replay of a program, which takes a tick that is not zero. -/
def replayEvery (p : Program) (tick : Nat) : Except Misuse (List Flags) :=
  if tick = 0 then .error .zeroTick else .ok (p.replay tick)

end Program

end PulseSequencer
