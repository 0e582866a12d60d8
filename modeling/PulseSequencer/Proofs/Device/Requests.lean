import PulseSequencer.Device.Compile
import PulseSequencer.Device.Edit
import PulseSequencer.Proofs.Action

/-!
# What devices do

The operations of a device as requests that come in any order, and what each of them does: the
conditions under which it succeeds, and the device it leaves then. A request that fails leaves the
device as it was. Later modules reason from these equations and do not open the operations again.

* `Device.Request`, `Request.perform`: one operation with its arguments.
* `Device.Reachable`: a new device after any requests, successful or not.
* `Device.performAll`: a device after the requests of a list.

Results:
* `runs_addChannel`, …, `runs_compile`: each operation.
* `allOrNothing_perform`: a request that fails changes nothing.
* `Reachable.keeps`, `performAll_keeps`: what a device has and every successful request keeps
  holds after any requests.
-/

namespace PulseSequencer

namespace Device

/-! ## Requests -/

/-- What can be asked of a device. -/
inductive Request where
  | addChannel (name : String) (number : Nat)
  | high (name : String) (time duration : Number)
  | pulseTrain (name : String) (starts lengths : List Number)
  | setPadding (time : Number)
  | addSyncOut (name : String) (frequency : Number)
  | pulseWidth (names : List String) (frequency dutyCycle : Number)
  | compile (loop : Option Nat)
  | clearEdits
  | clearProgram

/-- Does what is asked. -/
def Request.perform (A : Arithmetic) : Request → Action Device Unit
  | addChannel name number => Device.addChannel name number
  | high name time duration => Device.high A name time duration
  | pulseTrain name starts lengths => Device.pulseTrain A name starts lengths
  | setPadding time => Device.setPadding A time
  | addSyncOut name frequency => Device.addSyncOut A name frequency
  | pulseWidth names frequency dutyCycle => Device.pulseWidth A names frequency dutyCycle
  | compile loop => Device.compile A loop >>= fun _ => pure ()
  | clearEdits => Device.clearEdits
  | clearProgram => Device.clearProgram

/-- A new device after some requests, in any order and each of them successful or not. -/
inductive Reachable (A : Arithmetic) : Device → Prop
  | create {name : String} {frequency : Number} {bit : Nat} {d : Device}
      (h : Device.create A name frequency bit = .ok d) : Reachable A d
  | perform {d : Device} (r : Request) (h : Reachable A d) : Reachable A (r.perform A d).2

/-- A device after some requests in order, each of them successful or not. -/
def performAll (A : Arithmetic) (rs : List Request) (d : Device) : Device :=
  rs.foldl (fun d r => (r.perform A d).2) d

variable {A : Arithmetic} {d d' : Device} {u : Unit}

/-! ## Pieces of the operations -/

theorem create_eq_ok {name : String} {frequency : Number} {bit : Nat} :
    Device.create A name frequency bit = .ok d ↔
      Text.checkName name = .ok () ∧ ∃ period board, clockPeriod A frequency = .ok period ∧
        Board.of period bit = .ok board ∧ d = { name, board } := by
  have hboard : ∀ period board, (Board.of period bit).mapError BoardFault.toError = .ok board ↔
      Board.of period bit = .ok board := by
    intro period board
    cases Board.of period bit <;> simp [Except.mapError]
  unfold create
  simp only [bind_eq_ok, hboard]
  constructor
  · rintro ⟨_, hname, period, hperiod, board, hb, h⟩
    exact ⟨hname, period, board, hperiod, hb, (Except.ok.inj h).symm⟩
  · rintro ⟨hname, period, board, hperiod, hb, rfl⟩
    exact ⟨(), hname, period, hperiod, board, hb, rfl⟩

theorem channel_eq_ok {name : String} {s : Schedule} :
    d.channel name = .ok s ↔ d.channels.get? name = some s := by
  unfold channel
  cases d.channels.get? name <;> simp

theorem booking_eq_ok {time duration : Number} {b : Booking} :
    d.booking A time duration = .ok b ↔
      d.ticks A time = .ok b.start ∧ d.ticks A duration = .ok b.length ∧
        b.start + b.length ≤ maxWord := by
  unfold booking
  simp only [bind_eq_ok]
  constructor
  · rintro ⟨start, hstart, length, hlength, h⟩
    split at h
    · obtain ⟨_, hword, h⟩ := bind_eq_ok.mp h
      obtain rfl := Except.ok.inj h
      exact ⟨hstart, hlength, ensure_eq_ok.mp hword⟩
    · exact absurd h (by simp)
  · rintro ⟨hstart, hlength, hword⟩
    refine ⟨b.start, hstart, b.length, hlength, ?_⟩
    rw [dif_pos b.length_pos, bind_eq_ok]
    exact ⟨(), ensure_eq_ok.mpr hword, rfl⟩

theorem book_eq_ok {name : String} {bs : List Booking} :
    d.book name bs = .ok d' ↔
      ∃ s s', d.channel name = .ok s ∧ s.insertAll bs = .ok s' ∧
        d' = { d with channels := d.channels.put name s', fresh := false } := by
  unfold book
  simp only [bind_eq_ok]
  constructor
  · rintro ⟨s, hs, s', hs', h⟩
    exact ⟨s, s', hs, hs', (Except.ok.inj h).symm⟩
  · rintro ⟨s, s', hs, hs', rfl⟩
    exact ⟨s, hs, s', hs', rfl⟩

/-! ## The operations -/

theorem runs_addChannel {name : String} {number : Nat} :
    (addChannel name number).Runs d u d' ↔
      Text.checkName name = .ok () ∧ number < d.outputLimit ∧ d.channels.get? name = none ∧
        (∀ e ∈ d.channels, e.2.number ≠ number) ∧
        d' = { d with channels := d.channels.put name { number } } := by
  unfold addChannel
  simp only [Action.runs_bind, Action.runs_liftExcept, Action.runs_get, ensure_eq_ok]
  constructor
  · rintro ⟨_, _, ⟨hname, rfl⟩, _, _, ⟨rfl, rfl⟩, _, _, ⟨hnumber, rfl⟩, _, _, ⟨hnew, rfl⟩, h⟩
    split at h
    · exact absurd (Action.runs_liftExcept.mp h).1 (by simp)
    · rename_i hnone
      refine ⟨hname, hnumber, hnew, fun e he => ?_, Action.runs_modify.mp h⟩
      simpa using List.find?_eq_none.mp hnone e he
  · rintro ⟨hname, hnumber, hnew, hother, rfl⟩
    refine ⟨(), d, ⟨hname, rfl⟩, d, d, ⟨rfl, rfl⟩, (), d, ⟨hnumber, rfl⟩, (), d, ⟨hnew, rfl⟩, ?_⟩
    split
    · rename_i other schedule hfound
      have hsame : schedule.number = number := by simpa using List.find?_some hfound
      exact absurd hsame (hother _ (List.mem_of_find?_eq_some hfound))
    · exact Action.runs_modify.mpr rfl

theorem runs_bookAll {name : String} {bs : List Booking} :
    (bookAll name bs).Runs d u d' ↔ d.book name bs = .ok d' := by
  unfold bookAll
  simp only [Action.runs_bind, Action.runs_liftExcept, Action.runs_get, Action.runs_modify]
  constructor
  · rintro ⟨_, _, ⟨rfl, rfl⟩, edited, _, ⟨h, rfl⟩, rfl⟩
    exact h
  · intro h
    exact ⟨d, d, ⟨rfl, rfl⟩, d', d, ⟨h, rfl⟩, rfl⟩

theorem runs_high {name : String} {time duration : Number} :
    (high A name time duration).Runs d u d' ↔
      ∃ b, d.booking A time duration = .ok b ∧ d.book name [b] = .ok d' := by
  unfold high
  simp only [Action.runs_bind, Action.runs_liftExcept, Action.runs_get, runs_bookAll]
  constructor
  · rintro ⟨_, _, ⟨rfl, rfl⟩, b, _, ⟨hb, rfl⟩, h⟩
    exact ⟨b, hb, h⟩
  · rintro ⟨b, hb, h⟩
    exact ⟨d, d, ⟨rfl, rfl⟩, b, d, ⟨hb, rfl⟩, h⟩

theorem runs_pulseTrain {name : String} {starts lengths : List Number} :
    (pulseTrain A name starts lengths).Runs d u d' ↔
      starts.length = lengths.length ∧ ∃ bs,
        List.Forall₂ (fun x b => d.booking A x.1 x.2 = .ok b) (starts.zip lengths) bs ∧
          d.book name bs = .ok d' := by
  unfold pulseTrain
  simp only [Action.runs_bind, Action.runs_liftExcept, Action.runs_get, runs_bookAll, ensure_eq_ok,
    Action.runs_mapM]
  constructor
  · rintro ⟨_, _, ⟨hsame, rfl⟩, _, _, ⟨rfl, rfl⟩, bs, _, ⟨hbs, rfl⟩, h⟩
    exact ⟨hsame, bs, hbs, h⟩
  · rintro ⟨hsame, bs, hbs, h⟩
    exact ⟨(), d, ⟨hsame, rfl⟩, d, d, ⟨rfl, rfl⟩, bs, d, ⟨hbs, rfl⟩, h⟩

theorem runs_setPadding {time : Number} :
    (setPadding A time).Runs d u d' ↔
      ∃ padding, d.ticks A time = .ok padding ∧ d' = { d with padding, fresh := false } := by
  unfold setPadding
  simp only [Action.runs_bind, Action.runs_liftExcept, Action.runs_get, Action.runs_modify]
  constructor
  · rintro ⟨_, _, ⟨rfl, rfl⟩, padding, _, ⟨h, rfl⟩, rfl⟩
    exact ⟨padding, h, rfl⟩
  · rintro ⟨padding, h, rfl⟩
    exact ⟨d, d, ⟨rfl, rfl⟩, padding, d, ⟨h, rfl⟩, rfl⟩

theorem runs_addSyncOut {name : String} {frequency : Number} :
    (addSyncOut A name frequency).Runs d u d' ↔
      (∃ s, d.channel name = .ok s) ∧
        (∃ period, syncPeriod A frequency d.board.clock = .ok period) ∧
        d' = { d with syncOut := some ⟨name, frequency⟩, fresh := false } := by
  unfold addSyncOut
  simp only [Action.runs_bind, Action.runs_liftExcept, Action.runs_get, Action.runs_modify]
  constructor
  · rintro ⟨_, _, ⟨rfl, rfl⟩, s, _, ⟨hs, rfl⟩, period, _, ⟨hperiod, rfl⟩, rfl⟩
    exact ⟨⟨s, hs⟩, ⟨period, hperiod⟩, rfl⟩
  · rintro ⟨⟨s, hs⟩, ⟨period, hperiod⟩, rfl⟩
    exact ⟨d, d, ⟨rfl, rfl⟩, s, d, ⟨hs, rfl⟩, period, d, ⟨hperiod, rfl⟩, rfl⟩

/-- The time that a pulse lasts for `dutyCycle` percent of a period. -/
def upTime (A : Arithmetic) (frequency dutyCycle : Number) : Number :=
  A.mul (A.div dutyCycle (.finite 100)) (A.div (.finite 1000000000) frequency)

/-- The rest of the period. -/
def restTime (A : Arithmetic) (frequency dutyCycle : Number) : Number :=
  A.sub (A.div (.finite 1000000000) frequency) (upTime A frequency dutyCycle)

/-- Checks that a channel is there. -/
theorem runs_known (d : Device) (name : String) (d₁ : Device) (u : Unit) (d₂ : Device) :
    (do let _ ← (liftM (d.channel name) : Action Device Schedule)).Runs d₁ u d₂ ↔
      (∃ s, d.channel name = .ok s) ∧ d₂ = d₁ := by
  simp only [Action.runs_discard, Action.runs_liftExcept, exists_and_right]

theorem runs_pulseWidth {names : List String} {frequency dutyCycle : Number} :
    (pulseWidth A names frequency dutyCycle).Runs d u d' ↔
      frequency.positive?.isSome ∧ isPercentage dutyCycle ∧
        ∃ padding length edited, d.ticks A (restTime A frequency dutyCycle) = .ok padding ∧
          (∀ name ∈ names, ∃ s, d.channel name = .ok s) ∧
          d.ticks A (upTime A frequency dutyCycle) = .ok length ∧
          (if 0 < length then ∃ b, d.booking A (.finite 0) (upTime A frequency dutyCycle) = .ok b ∧
              d.bookOnEach names b = .ok edited
            else edited = d) ∧
          d' = { edited with padding, fresh := false } := by
  unfold pulseWidth
  simp only [Action.runs_bind, Action.runs_liftExcept, Action.runs_get, ensure_eq_ok]
  constructor
  · rintro ⟨_, _, ⟨hfrequency, rfl⟩, _, _, ⟨hduty, rfl⟩, _, _, ⟨rfl, rfl⟩, padding, _,
      ⟨hpadding, rfl⟩, _, d₁, hnames, length, _, ⟨hlength, rfl⟩, h⟩
    obtain ⟨hnames, rfl⟩ := (Action.runs_forM (runs_known _)).mp hnames
    by_cases hpos : 0 < length
    · rw [if_pos hpos] at h
      simp only [Action.runs_bind] at h
      obtain ⟨b, _, hb, edited, _, hedited, h⟩ := h
      obtain ⟨hb, rfl⟩ := Action.runs_liftExcept.mp hb
      obtain ⟨hedited, rfl⟩ := Action.runs_liftExcept.mp hedited
      refine ⟨hfrequency, hduty, padding, length, edited, hpadding, hnames, hlength, ?_,
        Action.runs_modify.mp h⟩
      rw [if_pos hpos]
      exact ⟨b, hb, hedited⟩
    · rw [if_neg hpos] at h
      simp only [Action.runs_bind] at h
      obtain ⟨_, _, hnote, _, _, hedited, h⟩ := h
      obtain ⟨-, rfl⟩ := Action.runs_liftLogged.mp hnote
      obtain ⟨rfl, rfl⟩ := Action.runs_pure.mp hedited
      refine ⟨hfrequency, hduty, padding, length, _, hpadding, hnames, hlength, ?_,
        Action.runs_modify.mp h⟩
      rw [if_neg hpos]
  · rintro ⟨hfrequency, hduty, padding, length, edited, hpadding, hnames, hlength, hedited, rfl⟩
    refine ⟨(), d, ⟨hfrequency, rfl⟩, (), d, ⟨hduty, rfl⟩, d, d, ⟨rfl, rfl⟩, padding, d,
      ⟨hpadding, rfl⟩, (), d, (Action.runs_forM (runs_known d)).mpr ⟨hnames, rfl⟩, length, d,
      ⟨hlength, rfl⟩, ?_⟩
    by_cases hpos : 0 < length
    · rw [if_pos hpos] at hedited ⊢
      obtain ⟨b, hb, hedited⟩ := hedited
      simp only [Action.runs_bind]
      exact ⟨b, d, Action.runs_liftExcept.mpr ⟨hb, rfl⟩, edited, d,
        Action.runs_liftExcept.mpr ⟨hedited, rfl⟩, Action.runs_modify.mpr rfl⟩
    · rw [if_neg hpos] at hedited ⊢
      simp only [Action.runs_bind]
      exact ⟨(), d, Action.runs_liftLogged.mpr ⟨rfl, rfl⟩, d, d, Action.runs_pure.mpr ⟨rfl, rfl⟩,
        Action.runs_modify.mpr (hedited ▸ rfl)⟩

theorem runs_clearEdits : clearEdits.Runs d u d' ↔
    d' = { d with
      channels := d.channels.map fun (name, schedule) => (name, schedule.clear)
      syncOut := none
      fresh := false } :=
  Action.runs_modify

theorem runs_clearProgram :
    clearProgram.Runs d u d' ↔ d' = { d with program := none, fresh := false } :=
  Action.runs_modify

theorem runs_compile {loop : Option Nat} {t : Nat} :
    (compile A loop).Runs d t d' ↔
      ∃ p, (d.assemble A loop).result = .ok p ∧ t = p.duration ∧
        d' = { d with program := some p, fresh := true } := by
  unfold compile
  simp only [Action.runs_bind, Action.runs_liftLogged, Action.runs_get, Action.runs_modify,
    Action.runs_pure, Logged.result_note]
  constructor
  · rintro ⟨_, _, ⟨rfl, rfl⟩, p, _, ⟨hp, rfl⟩, _, _, ⟨-, rfl⟩, _, _, rfl, rfl, rfl⟩
    exact ⟨p, hp, rfl, rfl⟩
  · rintro ⟨p, hp, rfl, rfl⟩
    exact ⟨d, d, ⟨rfl, rfl⟩, p, d, ⟨hp, rfl⟩, (), d, ⟨trivial, rfl⟩, (), _, rfl, rfl, rfl⟩

theorem runs_perform_compile {loop : Option Nat} :
    ((Request.compile loop).perform A).Runs d () d' ↔
      ∃ p, (d.assemble A loop).result = .ok p ∧
        d' = { d with program := some p, fresh := true } := by
  unfold Request.perform
  rw [Action.runs_discard]
  simp only [runs_compile]
  constructor
  · rintro ⟨_, p, hp, -, rfl⟩
    exact ⟨p, hp, rfl⟩
  · rintro ⟨p, hp, rfl⟩
    exact ⟨p.duration, p, hp, rfl, rfl⟩

/-! ## All or nothing -/

theorem allOrNothing_bookAll (name : String) (bs : List Booking) :
    (bookAll name bs).AllOrNothing :=
  .bind Action.keeps_get fun _ =>
  .bind (Action.keeps_liftExcept _) fun _ => Action.allOrNothing_modify _

theorem allOrNothing_addChannel (name : String) (number : Nat) :
    (addChannel name number).AllOrNothing := by
  refine .bind (Action.keeps_liftExcept _) fun _ => .bind Action.keeps_get fun d =>
    .bind (Action.keeps_liftExcept _) fun _ => .bind (Action.keeps_liftExcept _) fun _ => ?_
  split
  · exact (Action.keeps_liftExcept _).allOrNothing
  · exact Action.allOrNothing_modify _

theorem allOrNothing_pulseTrain (name : String) (starts lengths : List Number) :
    (pulseTrain A name starts lengths).AllOrNothing :=
  .bind (Action.keeps_liftExcept _) fun _ => .bind Action.keeps_get fun _ =>
  .bind (Action.Keeps.mapM (fun _ => Action.keeps_liftExcept _) _) fun _ =>
    allOrNothing_bookAll name _

theorem allOrNothing_pulseWidth (names : List String) (frequency dutyCycle : Number) :
    (pulseWidth A names frequency dutyCycle).AllOrNothing := by
  have hknown : ∀ (d : Device) (name : String),
      (do let _ ← (liftM (d.channel name) : Action Device Schedule)).Keeps := fun d name =>
    (Action.keeps_liftExcept _).bind fun _ => Action.keeps_pure ()
  refine .bind (Action.keeps_liftExcept _) fun _ => .bind (Action.keeps_liftExcept _) fun _ =>
    .bind Action.keeps_get fun d => .bind (Action.keeps_liftExcept _) fun padding =>
    .bind (Action.Keeps.forM (hknown d) names) fun _ =>
    .bind (Action.keeps_liftExcept _) fun length => ?_
  by_cases hpos : 0 < length
  · rw [if_pos hpos]
    exact .bind (Action.keeps_liftExcept _) fun _ => .bind (Action.keeps_liftExcept _) fun _ =>
      Action.allOrNothing_modify _
  · rw [if_neg hpos]
    exact .bind (Action.keeps_liftLogged _) fun _ => .bind (Action.keeps_pure _) fun _ =>
      Action.allOrNothing_modify _

theorem allOrNothing_compile (loop : Option Nat) : (compile A loop).AllOrNothing :=
  .bind Action.keeps_get fun _ => .bind (Action.keeps_liftLogged _) fun p =>
  .bind (Action.keeps_liftLogged _) fun _ =>
    (Action.allOrNothing_modify _).pure fun _ => p.duration

/-- **A request that fails changes nothing.** -/
theorem allOrNothing_perform (r : Request) : (r.perform A).AllOrNothing := by
  cases r with
  | addChannel name number => exact allOrNothing_addChannel name number
  | high name time duration =>
    exact .bind Action.keeps_get fun _ => .bind (Action.keeps_liftExcept _) fun b =>
      allOrNothing_bookAll name [b]
  | pulseTrain name starts lengths => exact allOrNothing_pulseTrain name starts lengths
  | setPadding time =>
    exact .bind Action.keeps_get fun _ => .bind (Action.keeps_liftExcept _) fun _ =>
      Action.allOrNothing_modify _
  | addSyncOut name frequency =>
    exact .bind Action.keeps_get fun _ => .bind (Action.keeps_liftExcept _) fun _ =>
      .bind (Action.keeps_liftExcept _) fun _ => Action.allOrNothing_modify _
  | pulseWidth names frequency dutyCycle => exact allOrNothing_pulseWidth names frequency dutyCycle
  | compile loop => exact (allOrNothing_compile loop).pure fun _ => ()
  | clearEdits => exact Action.allOrNothing_modify _
  | clearProgram => exact Action.allOrNothing_modify _

/-- What every successful request keeps holds after a request that may have failed. -/
theorem perform_keeps {motive : Device → Prop} {r : Request} (hd : motive d)
    (hperform : ∀ d', (r.perform A).Runs d () d' → motive d') : motive (r.perform A d).2 := by
  cases hresult : (r.perform A d).1.result with
  | error e => exact (allOrNothing_perform r d e hresult).symm ▸ hd
  | ok u => exact hperform _ ⟨hresult, rfl⟩

/-- **The induction over requests**: what a new device has, and every successful request keeps,
holds of all reachable devices. -/
theorem Reachable.keeps {motive : Device → Prop}
    (hcreate : ∀ name frequency bit d, Device.create A name frequency bit = .ok d → motive d)
    (hperform : ∀ (r : Request) d d', motive d → (r.perform A).Runs d () d' → motive d')
    (h : Reachable A d) : motive d := by
  induction h with
  | create h => exact hcreate _ _ _ _ h
  | @perform d r _ ih => exact perform_keeps ih fun d' => hperform r d d' ih

/-- The same from any device on, over a list of requests. -/
theorem performAll_keeps {motive : Device → Prop}
    (hperform : ∀ (r : Request) d d', motive d → (r.perform A).Runs d () d' → motive d')
    (hd : motive d) (rs : List Request) : motive (d.performAll A rs) := by
  induction rs generalizing d with
  | nil => exact hd
  | cons r rs ih => exact ih (perform_keeps hd fun d' => hperform r d d' hd)

theorem Reachable.of_runs (h : Reachable A d) {r : Request} (hr : (r.perform A).Runs d () d') :
    Reachable A d' :=
  hr.2 ▸ .perform r h

/-- Requests lead from reachable devices to reachable ones. -/
theorem Reachable.performAll (h : Reachable A d) (rs : List Request) :
    Reachable A (d.performAll A rs) := by
  induction rs generalizing d with
  | nil => exact h
  | cons r rs ih => exact ih (.perform r h)

end Device

end PulseSequencer
