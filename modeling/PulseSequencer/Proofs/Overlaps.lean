import PulseSequencer.Proofs.FrontEnd
import PulseSequencer.Proofs.Rearranged
import PulseSequencer.Proofs.Refusals

/-!
# The overlap check of channels

A channel is checked by sorting its pulses and comparing neighbours. That finds an overlap whenever
there is one: in the order of start and stop, a pulse that is apart from a later one is over when
that one starts. So an empty pulse may stand where another one starts or stops, and nowhere inside
of it.

* `Pulse.Overlaps`: each of two pulses starts before the other one stops.
* `Channel.OverlapAt`: two entries of a channel that overlap, by their places in it.

Results:
* `clash?_eq_none`: a channel passes the check exactly when its pulses are apart.
* `overlapAt_of_clash?`: what the check finds are two entries that overlap.
* `pairwise_apart_iff`: pulses are apart when no two entries overlap.
-/

namespace PulseSequencer

namespace Pulse

/-- Each of two pulses starts before the other one stops. -/
def Overlaps (p q : Pulse) : Prop := p.start < q.stop ∧ q.start < p.stop

instance (p q : Pulse) : Decidable (p.Overlaps q) := inferInstanceAs (Decidable (_ ∧ _))

instance (p q : Pulse) : Decidable (p.Apart q) := inferInstanceAs (Decidable (_ ∨ _))

theorem apart_iff {p q : Pulse} : p.Apart q ↔ ¬ p.Overlaps q := by
  unfold Apart Overlaps
  omega

/-- In the order of start and stop, a pulse that is apart from a later one is over when that one
starts. -/
theorem Apart.stop_le_start {p q : Pulse} (h : p.Apart q) (hpq : p.upTo q = true) :
    p.stop ≤ q.start := by
  have hp := p.start_le_stop
  have hq := q.start_le_stop
  simp only [upTo, Bool.or_eq_true, Bool.and_eq_true, decide_eq_true_eq] at hpq
  unfold Apart at h
  omega

/-- The first clash stands between neighbours. -/
theorem split_of_firstClash : ∀ {ps : List Pulse} {p q : Pulse}, firstClash ps = some (p, q) →
    ∃ before after, ps = before ++ p :: q :: after ∧ q.start < p.stop
  | [], _, _, h => by cases h
  | [_], _, _, h => by cases h
  | p :: q :: rest, p', q', h => by
    rw [firstClash] at h
    split at h
    · rename_i hlt
      cases h
      exact ⟨[], rest, rfl, hlt⟩
    · obtain ⟨before, after, hsplit, hlt⟩ := split_of_firstClash h
      exact ⟨p :: before, after, congrArg (p :: ·) hsplit, hlt⟩

end Pulse

/-- In the order of start and stop, one of two pulses that starts before the other is over overlaps
it. -/
theorem Pulse.Overlaps.of_upTo {p q : Pulse} (hpq : p.upTo q = true) (h : q.start < p.stop) :
    p.Overlaps q := by
  by_contra hnot
  have hle := (Pulse.apart_iff.mpr hnot).stop_le_start hpq
  omega

namespace Channel

variable {c : Channel}

/-- The entries at two different places of a channel overlap. -/
def OverlapAt (c : Channel) (i j : Fin c.pulses.length) : Prop :=
  i ≠ j ∧ (c.pulses.get i).Overlaps (c.pulses.get j)

instance (i j : Fin c.pulses.length) : Decidable (c.OverlapAt i j) :=
  inferInstanceAs (Decidable (_ ∧ _))

/-- **The overlap check is exact**: a channel passes it when its pulses are apart, and not
otherwise. -/
theorem clash?_eq_none : c.clash? = none ↔ c.pulses.Pairwise Pulse.Apart := by
  refine ⟨pairwise_apart_of_clash?, fun h => Pulse.firstClash_eq_none ?_⟩
  have hsorted : (c.pulses.mergeSort Pulse.upTo).Pairwise Pulse.Apart :=
    ((List.mergeSort_perm _ _).pairwise_iff Pulse.Apart.symm).mpr h
  exact hsorted.imp₂ (fun _ _ hapart hpq => hapart.stop_le_start hpq) (pairwise_sorted _)

/-- Pulses are apart when no two entries overlap. -/
theorem pairwise_apart_iff :
    c.pulses.Pairwise Pulse.Apart ↔ ∀ i j : Fin c.pulses.length, ¬ c.OverlapAt i j := by
  rw [List.pairwise_iff_get]
  constructor
  · rintro h i j ⟨hne, hoverlap⟩
    rcases lt_or_gt_of_ne hne with hij | hji
    · exact Pulse.apart_iff.mp (h i j hij) hoverlap
    · exact Pulse.apart_iff.mp (h j i hji).symm hoverlap
  · intro h i j hij
    exact Pulse.apart_iff.mpr fun hoverlap => h i j ⟨hij.ne, hoverlap⟩

end Channel

/-- Neighbours in a list stand at two places of every list with the same elements. -/
theorem exists_places_of_perm {α : Type} {xs before after : List α} {a b : α}
    (h : xs.Perm (before ++ a :: b :: after)) :
    ∃ i j : Fin xs.length, i ≠ j ∧ xs.get i = a ∧ xs.get j = b := by
  have hfirst : xs.Perm (a :: (before ++ b :: after)) := h.trans List.perm_middle
  obtain ⟨i, hi, rfl⟩ := List.getElem_of_mem (hfirst.mem_iff.mpr List.mem_cons_self)
  have hrest : (xs.eraseIdx i).Perm (before ++ b :: after) :=
    ((List.getElem_cons_eraseIdx_perm hi).trans hfirst).cons_inv
  have hb : b ∈ xs.eraseIdx i :=
    hrest.mem_iff.mpr (List.mem_append_right before List.mem_cons_self)
  obtain ⟨j, hj, hne, rfl⟩ := List.mem_eraseIdx_iff_getElem.mp hb
  exact ⟨⟨i, hi⟩, ⟨j, hj⟩, fun hij => hne (Fin.mk.inj hij).symm, rfl, rfl⟩

namespace Channel

/-- **What the check finds is an overlap** of two entries. -/
theorem overlapAt_of_clash? {c : Channel} {p q : Pulse} (h : c.clash? = some (p, q)) :
    ∃ i j : Fin c.pulses.length, c.OverlapAt i j ∧ c.pulses.get i = p ∧ c.pulses.get j = q := by
  obtain ⟨before, after, hsplit, hlt⟩ := Pulse.split_of_firstClash h
  have hperm : c.pulses.Perm (before ++ p :: q :: after) :=
    hsplit ▸ (List.mergeSort_perm c.pulses Pulse.upTo).symm
  have hsorted : (before ++ p :: q :: after).Pairwise fun p q => p.upTo q = true :=
    hsplit ▸ pairwise_sorted c.pulses
  have hpq : p.upTo q = true :=
    List.rel_of_pairwise_cons (List.pairwise_append.mp hsorted).2.1 List.mem_cons_self
  obtain ⟨i, j, hne, rfl, rfl⟩ := exists_places_of_perm hperm
  exact ⟨i, j, ⟨hne, Pulse.Overlaps.of_upTo hpq hlt⟩, rfl, rfl⟩

end Channel

end PulseSequencer
