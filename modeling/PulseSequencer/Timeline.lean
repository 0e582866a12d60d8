import PulseSequencer.Channel
import PulseSequencer.Program.Basic

/-!
# Timelines

The edges of all pulses in the order of time, and the program that follows them. At an edge the
outputs of its flags toggle, at the start of a pulse and again at its end.

* `edges`: every edge, after a first one at time zero that toggles nothing.
* `steps`: what toggles, and the time up to the next edge. Edges at one time stay apart, all but
  the last of them with a step of no length.
* `Program.ofSteps`: an instruction for each step that lasts.
-/

namespace PulseSequencer

/-- At `time`, the outputs of `update` toggle. -/
structure Edge where
  time : Nat
  update : Flags
  deriving DecidableEq

/-- The outputs of `update` toggle, and nothing else happens for `length`. -/
structure Step where
  length : Nat
  update : Flags
  deriving DecidableEq

/-- The edges of a channel, pulse by pulse. -/
def Channel.edges (c : Channel) : List Edge :=
  c.pulses.flatMap fun p => [⟨p.start, c.flags⟩, ⟨p.stop, c.flags⟩]

/-- All edges in the order of time. Edges at one time stand in the order of the channels and
their pulses. -/
def edges (channels : List Channel) : List Edge :=
  (⟨0, 0⟩ :: channels.flatMap Channel.edges).mergeSort fun a b => a.time ≤ b.time

/-- The edges are those of the channels and the one at time zero. -/
theorem edges_perm (channels : List Channel) :
    (edges channels).Perm (⟨0, 0⟩ :: channels.flatMap Channel.edges) :=
  List.mergeSort_perm _ _

/-- The edges stand in the order of time. -/
theorem pairwise_edges (channels : List Channel) :
    (edges channels).Pairwise fun a b => a.time ≤ b.time := by
  have sorted := @List.pairwise_mergeSort Edge (fun a b => a.time ≤ b.time)
    (fun a b c => by simp only [decide_eq_true_eq]; exact Nat.le_trans)
    (fun a b => by simp only [Bool.or_eq_true, decide_eq_true_eq]; exact Nat.le_total _ _)
    (⟨0, 0⟩ :: channels.flatMap Channel.edges)
  exact sorted.imp fun h => of_decide_eq_true h

/-- The steps from edge to edge; the last one lasts for `padding`. -/
def Step.ofEdges (padding : Nat) : List Edge → List Step
  | [] => []
  | [a] => [⟨padding, a.update⟩]
  | a :: b :: rest => ⟨b.time - a.time, a.update⟩ :: ofEdges padding (b :: rest)

/-- There is a step for each edge. -/
theorem Step.length_ofEdges (padding : Nat) (es : List Edge) :
    (Step.ofEdges padding es).length = es.length := by
  induction es with
  | nil => rfl
  | cons a rest ih =>
    cases rest with
    | nil => rfl
    | cons b rest => simp [ofEdges, ih]

/-- The steps of some channels, with all outputs low for `padding` after the last edge. -/
def steps (channels : List Channel) (padding : Nat) : List Step :=
  Step.ofEdges padding (edges channels)

/-- The steps with the lengths and updates of two lists. -/
def Step.ofLists (lengths : List Nat) (updates : List Flags) : Except Misuse (List Step) :=
  if lengths.length = updates.length then .ok (List.zipWith Step.mk lengths updates)
  else .error (.stepCounts lengths.length updates.length)

namespace Program

/-- The instructions of some steps that begin with the outputs at `flags`: one for each step that
lasts, with all toggles up to it applied. -/
def ofStepsFrom (flags : Flags) : List Step → Program
  | [] => []
  | s :: rest =>
    let flags := flags ^^^ s.update
    if s.length = 0 then ofStepsFrom flags rest
    else .proceed flags s.length :: ofStepsFrom flags rest

/-- The program of some steps, which begin with all outputs low. -/
def ofSteps (steps : List Step) : Program := ofStepsFrom 0 steps

end Program

end PulseSequencer
