import PulseSequencer.Proofs.Device.SyncPhase
import PulseSequencer.Proofs.Overlaps

/-!
# Channels with a sync clock

What becomes of the channels that a sync clock is put out for. Their pulses keep their starts, and
those that stop with the last edge are drawn out to the end of the last sync period. As long as no
two pulses of a channel stop last, they stay apart. Pulses that last cannot do so together; but an
empty pulse may stop last, alone or as one that lasts does, and is drawn out like any other. It
lasts then, on an output that may not have been high before, and overlaps what it has touched.

* `Pulse.DrawnOut`, `Channel.DrawnOut`: a pulse or a channel with what stops last drawn out.

Results:
* `apart_drawOut_iff`, `pairwise_drawOut_iff`: which pulses stay apart.
* `lasting_drawOut_iff`: which channels of empty pulses do not stay dark.
* **`withSyncOut_draws_out`**: what becomes of each channel, and which of them stay valid.
* **`sync_clock_revives_pulses`**: empty pulses that last when a sync clock is put out.
-/

namespace PulseSequencer

/-! ## Pulses drawn out -/

/-- The pulse `q` is `p`, drawn out to stop at `stop` if it stops at `last`. -/
structure Pulse.DrawnOut (last stop : Nat) (p q : Pulse) : Prop where
  start_eq : q.start = p.start
  length_le : p.length ≤ q.length
  kept : p.stop ≠ last → q = p
  stop_eq : p.stop = last → q.stop = stop

/-- The channel `d` has the pulses of `c`, drawn out if they stop at `last`. -/
structure Channel.DrawnOut (last stop : Nat) (c d : Channel) : Prop where
  flags_eq : d.flags = c.flags
  pulses : List.Forall₂ (Pulse.DrawnOut last stop) c.pulses d.pulses

variable {last stop : Nat}

theorem Pulse.drawnOut_drawOut (hle : last ≤ stop) (p : Pulse) :
    p.DrawnOut last stop (p.drawOut last stop) := by
  have hstart := p.start_le_stop
  refine ⟨?_, ?_, fun hp => if_neg hp, fun hp => stop_drawOut_eq hp hle⟩
  · unfold drawOut
    split <;> rfl
  · unfold drawOut
    split
    · unfold Pulse.stop at *
      dsimp only
      omega
    · exact le_rfl

theorem Channel.drawnOut_drawOut (hle : last ≤ stop) (c : Channel) :
    c.DrawnOut last stop (c.drawOut last stop) := by
  refine ⟨rfl, ?_⟩
  unfold drawOut
  rw [List.forall₂_map_right_iff]
  exact List.forall₂_same.mpr fun p _ => p.drawnOut_drawOut hle

/-- Drawing out to the same end changes nothing. -/
theorem Channel.drawOut_self (c : Channel) : c.drawOut last last = c := by
  have hsame : ∀ p : Pulse, p.drawOut last last = p := by
    intro p
    unfold Pulse.drawOut
    split
    · rename_i hp
      rw [← hp]
      unfold Pulse.stop
      rw [Nat.add_sub_cancel_left]
    · rfl
  unfold drawOut
  rw [List.map_congr_left fun p _ => hsame p, List.map_id']

/-- **Two pulses that are apart stay so** unless both of them stop last. -/
theorem apart_drawOut_iff {p q : Pulse} (hapart : p.Apart q) (hp : p.stop ≤ last)
    (hq : q.stop ≤ last) (hlt : last < stop) :
    (p.drawOut last stop).Apart (q.drawOut last stop) ↔ ¬ (p.stop = last ∧ q.stop = last) := by
  have hpstart := p.start_le_stop
  have hqstart := q.start_le_stop
  have hpdrawn := p.drawnOut_drawOut hlt.le
  have hqdrawn := q.drawnOut_drawOut hlt.le
  unfold Pulse.Apart at hapart ⊢
  rw [hpdrawn.start_eq, hqdrawn.start_eq]
  -- nothing starts behind `last`, so a pulse that alone is drawn out touches nothing new
  by_cases hplast : p.stop = last
  · rw [hpdrawn.stop_eq hplast]
    by_cases hqlast : q.stop = last
    · rw [hqdrawn.stop_eq hqlast]
      omega
    · rw [hqdrawn.kept hqlast]
      omega
  · rw [hpdrawn.kept hplast]
    by_cases hqlast : q.stop = last
    · rw [hqdrawn.stop_eq hqlast]
      omega
    · rw [hqdrawn.kept hqlast]
      omega

/-- **Pulses that are apart stay so** if no two of them stop last. -/
theorem pairwise_drawOut_iff {ps : List Pulse} (hapart : ps.Pairwise Pulse.Apart)
    (hlast : ∀ p ∈ ps, p.stop ≤ last) (hlt : last < stop) :
    (ps.map (Pulse.drawOut last stop)).Pairwise Pulse.Apart ↔
      ps.Pairwise fun p q => ¬ (p.stop = last ∧ q.stop = last) := by
  have hpair : ∀ p ∈ ps, ∀ q ∈ ps, p.Apart q →
      ((p.drawOut last stop).Apart (q.drawOut last stop) ↔
        ¬ (p.stop = last ∧ q.stop = last)) := fun p hp q hq h =>
    apart_drawOut_iff h (hlast p hp) (hlast q hq) hlt
  rw [List.pairwise_map]
  constructor
  · intro h
    exact (h.and hapart).imp_of_mem fun hp hq hpq => (hpair _ hp _ hq hpq.2).mp hpq.1
  · intro h
    exact (h.and hapart).imp_of_mem fun hp hq hpq => (hpair _ hp _ hq hpq.2).mpr hpq.1

/-- Of pulses that last and are apart, no two stop at one time. -/
theorem pairwise_not_stop {ps : List Pulse} (hapart : ps.Pairwise Pulse.Apart)
    (hlasts : ∀ p ∈ ps, 0 < p.length) :
    ps.Pairwise fun p q => ¬ (p.stop = last ∧ q.stop = last) := by
  refine hapart.imp_of_mem fun {p q} hp hq hpq => ?_
  have hplength := hlasts p hp
  have hqlength := hlasts q hq
  unfold Pulse.Apart Pulse.stop at *
  omega

/-- **Empty pulses stay empty** unless one of them stops last. -/
theorem lasting_drawOut_iff {ps : List Pulse} (hempty : ∀ p ∈ ps, p.length = 0)
    (hle : last ≤ stop) :
    (∃ q ∈ ps.map (Pulse.drawOut last stop), 0 < q.length) ↔
      last < stop ∧ ∃ p ∈ ps, p.stop = last := by
  have hdrawn : ∀ p ∈ ps, p.stop = last →
      (p.drawOut last stop).start = last ∧ (p.drawOut last stop).stop = stop := by
    intro p hp hlast
    have hstart := (p.drawnOut_drawOut hle).start_eq
    have hlength := hempty p hp
    refine ⟨?_, stop_drawOut_eq hlast hle⟩
    unfold Pulse.stop at hlast
    omega
  constructor
  · rintro ⟨q, hq, hlength⟩
    obtain ⟨p, hp, rfl⟩ := List.mem_map.mp hq
    by_cases hlast : p.stop = last
    · obtain ⟨hstart, hstop⟩ := hdrawn p hp hlast
      unfold Pulse.stop at hstop
      exact ⟨by omega, p, hp, hlast⟩
    · rw [(p.drawnOut_drawOut hle).kept hlast, hempty p hp] at hlength
      exact absurd hlength (lt_irrefl 0)
  · rintro ⟨hlt, p, hp, hlast⟩
    obtain ⟨hstart, hstop⟩ := hdrawn p hp hlast
    refine ⟨_, List.mem_map_of_mem hp, ?_⟩
    unfold Pulse.stop at hstop
    omega

/-! ## Channels drawn out for a sync clock -/

/-- A valid channel stays valid unless two of its pulses stop last. -/
theorem Channel.checkOverlaps_drawOut_iff {c : Channel} (hc : c.checkOverlaps = .ok ())
    (hlast : ∀ p ∈ c.pulses, p.stop ≤ last) (hle : last ≤ stop) :
    (c.drawOut last stop).checkOverlaps = .ok () ↔
      stop = last ∨ c.pulses.Pairwise fun p q => ¬ (p.stop = last ∧ q.stop = last) := by
  rcases hle.eq_or_lt with rfl | hlt
  · rw [c.drawOut_self]
    exact iff_of_true hc (Or.inl rfl)
  · rw [checkOverlaps_eq_ok, clash?_eq_none] at hc ⊢
    rw [or_iff_right hlt.ne']
    exact pairwise_drawOut_iff hc hlast hlt

/-- **What a sync clock does to the channels it is put out for.** For channels that are valid each:
the sync clock is valid, and of the given channels each pulse that stops with the last edge is drawn
out to one common end, and every other one is left as it is. If the end moves, a channel stays valid
unless two of its pulses stop last, which those that last cannot do; and if all its pulses are
empty, they stay so unless one of them stops last. -/
theorem withSyncOut_draws_out {A : Arithmetic} {channels channels' : List Channel}
    {number clock : Nat} {frequency : Number}
    (hchecked : ∀ c ∈ channels, c.checkOverlaps = .ok ())
    (h : (withSyncOut A channels number frequency clock).result = .ok channels') :
    ∃ stop sync, lastEdge channels ≤ stop ∧
      channels' = channels.map (Channel.drawOut (lastEdge channels) stop) ++ [sync] ∧
      sync.flags = Flags.output number ∧ sync.checkOverlaps = .ok () ∧
      ∀ c ∈ channels,
        c.DrawnOut (lastEdge channels) stop (c.drawOut (lastEdge channels) stop) ∧
        ((c.drawOut (lastEdge channels) stop).checkOverlaps = .ok () ↔
          stop = lastEdge channels ∨
            c.pulses.Pairwise fun p q =>
              ¬ (p.stop = lastEdge channels ∧ q.stop = lastEdge channels)) ∧
        ((∀ p ∈ c.pulses, 0 < p.length) →
          (c.drawOut (lastEdge channels) stop).checkOverlaps = .ok ()) ∧
        ((∀ p ∈ c.pulses, p.length = 0) →
          ((∃ q ∈ (c.drawOut (lastEdge channels) stop).pulses, 0 < q.length) ↔
            lastEdge channels < stop ∧ ∃ p ∈ c.pulses, p.stop = lastEdge channels)) := by
  obtain ⟨period, rounded, sync, -, -, hsync, rfl⟩ := withSyncOut_eq_ok.mp h
  obtain ⟨-, -, -, ss, ls, -, -, hpulses, hclash⟩ := ofTimes_eq_ok.mp hsync
  have hle : lastEdge channels ≤ max rounded (lastEdge channels) := le_max_right _ _
  refine ⟨_, sync, hle, rfl, by rw [hpulses], Channel.checkOverlaps_eq_ok.mpr hclash,
    fun c hc => ?_⟩
  have hlast : ∀ p ∈ c.pulses, p.stop ≤ lastEdge channels := fun p hp => stop_le_lastEdge hc hp
  have hvalid := Channel.checkOverlaps_drawOut_iff (hchecked c hc) hlast hle
  have hapart := Channel.clash?_eq_none.mp (Channel.checkOverlaps_eq_ok.mp (hchecked c hc))
  exact ⟨c.drawnOut_drawOut hle, hvalid,
    fun hlasts => hvalid.mpr (Or.inr (pairwise_not_stop hapart hlasts)),
    fun hempty => lasting_drawOut_iff hempty hle⟩

/-- Of channels that take 250 ns, a sync clock of 10 MHz makes 300. -/
theorem result_withSyncOut_300 {channels : List Channel} (h : lastEdge channels = 250) :
    (withSyncOut .binary64 channels 3 (.finite 10) 2).result =
      .ok (channels.map (Channel.drawOut 250 300) ++
        [⟨Flags.output 3, [⟨0, 50⟩, ⟨100, 50⟩, ⟨200, 50⟩]⟩]) := by
  have hperiod : syncPeriod .binary64 (.finite 10) 2 = .ok (.finite 100) := by decide +kernel
  have hcount : (Arithmetic.binary64.div (Arithmetic.binary64.ofNat (lastEdge channels))
      (.finite 100)).ceilWord = 3 := by
    rw [h]
    decide +kernel
  have hstop : roundToClock .binary64
      (Arithmetic.binary64.mul (Arithmetic.binary64.ofNat 3) (.finite 100)) 2 = .ok 300 := by
    decide +kernel
  have hclock : Channel.clockOut .binary64 3 3 (.finite 100) 2 =
      .ok ⟨Flags.output 3, [⟨0, 50⟩, ⟨100, 50⟩, ⟨200, 50⟩]⟩ := by
    refine ofTimes_eq_ok.mpr
      ⟨rfl, by decide, by decide, [0, 100, 200], [50, 50, 50], ?_, ?_, rfl, by cbv⟩
    · exact .cons (by decide +kernel) (.cons (by decide +kernel) (.cons (by decide +kernel) .nil))
    · exact .cons (by decide +kernel) (.cons (by decide +kernel) (.cons (by decide +kernel) .nil))
  exact withSyncOut_eq_ok.mpr ⟨.finite 100, 300, _, hperiod, by rw [hcount]; exact hstop,
    by rw [hcount]; exact hclock, by rw [h]; rfl⟩

/-- An empty pulse that stops early stays as it is, and the one that stops last is drawn out. -/
theorem sync_clock_draws_out :
    ∃ channels channels' : List Channel, (∀ c ∈ channels, c.checkOverlaps = .ok ()) ∧
      (withSyncOut .binary64 channels 3 (.finite 10) 2).result = .ok channels' ∧
      ∃ c ∈ channels', c.pulses = [⟨0, 0⟩, ⟨0, 300⟩] ∧ c.checkOverlaps = .ok () := by
  let channels : List Channel := [⟨Flags.output 0, [⟨0, 0⟩, ⟨0, 250⟩]⟩]
  have hchecked : ∀ c ∈ channels, c.checkOverlaps = .ok () :=
    List.forall_mem_singleton.mpr (by cbv)
  have hlast : lastEdge channels = 250 := rfl
  have hresult := result_withSyncOut_300 hlast
  obtain ⟨stop, sync, -, hchannels, -, -, hdrawn⟩ := withSyncOut_draws_out hchecked hresult
  obtain ⟨-, hvalid, -, -⟩ := hdrawn _ List.mem_cons_self
  have hfirst := (List.cons.inj hchannels).1
  refine ⟨channels, _, hchecked, hresult, _, List.mem_cons_self, rfl, ?_⟩
  rw [hfirst]
  exact hvalid.mpr (Or.inr (by decide))

/-- **Empty pulses that last once a sync clock is put out.** A pulse of half a ns is empty on a
clock of 2 ns. With the last edge it is drawn out by 50 ns: on an output that was never high, and
over the end of another pulse of its channel, which is no valid channel any more. -/
theorem sync_clock_revives_pulses :
    Channel.ofTimes .binary64 1 [.finite 250] [.finite (1 / 2)] 2 =
        .ok ⟨Flags.output 1, [⟨250, 0⟩]⟩ ∧
      (∃ channels channels' : List Channel, (∀ c ∈ channels, c.checkOverlaps = .ok ()) ∧
        ⟨Flags.output 1, [⟨250, 0⟩]⟩ ∈ channels ∧
        (withSyncOut .binary64 channels 3 (.finite 10) 2).result = .ok channels' ∧
        ⟨Flags.output 1, [⟨250, 50⟩]⟩ ∈ channels') ∧
      ∃ channels channels' : List Channel, (∀ c ∈ channels, c.checkOverlaps = .ok ()) ∧
        (withSyncOut .binary64 channels 3 (.finite 10) 2).result = .ok channels' ∧
        ∃ c ∈ channels', c.checkOverlaps =
          .error (.overlappingPulses (Flags.output 0) 0 300 250 300) := by
  refine ⟨?_, ⟨[⟨Flags.output 0, [⟨0, 250⟩]⟩, ⟨Flags.output 1, [⟨250, 0⟩]⟩], _, ?_,
    List.mem_cons_of_mem _ List.mem_cons_self, result_withSyncOut_300 rfl,
    List.mem_cons_of_mem _ List.mem_cons_self⟩,
    [⟨Flags.output 0, [⟨0, 250⟩, ⟨250, 0⟩]⟩], _, ?_, result_withSyncOut_300 rfl, _,
    List.mem_cons_self, ?_⟩
  · refine ofTimes_eq_ok.mpr ⟨rfl, by decide, by decide, [250], [0], ?_, ?_, rfl, by cbv⟩
    · exact .cons (by decide +kernel) .nil
    · exact .cons (by decide +kernel) .nil
  · exact List.forall_mem_cons.mpr ⟨by cbv, List.forall_mem_singleton.mpr (by cbv)⟩
  · exact List.forall_mem_singleton.mpr (by cbv)
  · cbv

end PulseSequencer
