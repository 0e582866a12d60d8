import PulseSequencer.Experiment
import PulseSequencer.Proofs.Device.Invariant
import PulseSequencer.Proofs.Elements

/-!
# Devices do not see each other

Orders to the devices of an experiment, each addressed by the name of a device. A device answers the
orders addressed to it, and is left by them, as if there were no other devices and no other orders.
So clients with different devices may take turns in any way.

* `Interleaved`: two lists merged, each in its own order.
* `Action.answers`, `Action.afterAll`: what orders are answered, one behind the other, and the state
  they leave.
* `Operation`, `Order`: what is asked of a device, and with its address.

Results:
* `Action.interleaved_answers`: independent orders in turns.
* `perform_of_device`, `device_perform_of_ne`, `perform_of_unknown`: one order, for the device it is
  addressed to, for the others, and for none.
* `answersOf_answers`: a device among others, over all orders.
* **`devices_independent`**: both, and what is asked of unknown devices.
-/

namespace PulseSequencer

/-- Two lists merged, each in its own order. -/
inductive Interleaved {α : Type} : List α → List α → List α → Prop
  | nil : Interleaved [] [] []
  | left {x : α} {xs ys zs : List α} (h : Interleaved xs ys zs) :
      Interleaved (x :: xs) ys (x :: zs)
  | right {y : α} {xs ys zs : List α} (h : Interleaved xs ys zs) :
      Interleaved xs (y :: ys) (y :: zs)

/-! ## Orders one behind the other -/

namespace Action

variable {ι σ α β : Type}

/-- The answers to some orders, each with the order it is given to. An order is carried out in the
state that the ones before it leave, whether they have a value or fail. -/
def answers (act : ι → Action σ α) : List ι → σ → List (ι × Logged α)
  | [], _ => []
  | i :: is, s => (i, (act i s).1) :: answers act is (act i s).2

/-- The state that some orders leave. -/
def afterAll (act : ι → Action σ α) (is : List ι) (s : σ) : σ :=
  is.foldl (fun s i => (act i s).2) s

variable {act : ι → Action σ α}

@[simp] theorem answers_nil (s : σ) : answers act [] s = [] := rfl

@[simp] theorem answers_cons (i : ι) (is : List ι) (s : σ) :
    answers act (i :: is) s = (i, (act i s).1) :: answers act is (act i s).2 := rfl

@[simp] theorem afterAll_nil (s : σ) : afterAll act [] s = s := rfl

@[simp] theorem afterAll_cons (i : ι) (is : List ι) (s : σ) :
    afterAll act (i :: is) s = afterAll act is (act i s).2 := rfl

/-- What follows as a value does not change the state. -/
theorem snd_bind_pure (x : Action σ α) (f : α → β) (s : σ) :
    ((x >>= fun a => pure (f a)) s).2 = (x s).2 := by
  cases h : (x s).1.result with
  | error e => rw [bind_apply_of_error h]
  | ok a =>
    rw [bind_apply_of_ok h]
    rfl

/-- Orders that do not see an action are answered as if it had not been, and leave the same state
when it follows them. -/
theorem answers_of_independent {x : Action σ β} {is : List ι}
    (h : ∀ i ∈ is, x.Independent (act i)) (s : σ) :
    answers act is (x s).2 = answers act is s ∧
      afterAll act is (x s).2 = (x (afterAll act is s)).2 := by
  induction is generalizing s with
  | nil => exact ⟨rfl, rfl⟩
  | cons i is ih =>
    have hi := h i List.mem_cons_self
    obtain ⟨hanswers, hafter⟩ := ih (fun j hj => h j (List.mem_cons_of_mem i hj)) (act i s).2
    rw [answers_cons, answers_cons, afterAll_cons, afterAll_cons, hi.right, hi.comm, hanswers,
      hafter]
    exact ⟨rfl, rfl⟩

/-- **Independent orders may take turns**: the answers are those to either part alone, and the state
is the one that the parts leave one behind the other. -/
theorem interleaved_answers {xs ys zs : List ι}
    (h : ∀ x ∈ xs, ∀ y ∈ ys, (act x).Independent (act y)) (hzs : Interleaved xs ys zs) (s : σ) :
    Interleaved (answers act xs s) (answers act ys s) (answers act zs s) ∧
      afterAll act zs s = afterAll act ys (afterAll act xs s) := by
  induction hzs generalizing s with
  | nil => exact ⟨.nil, rfl⟩
  | @left x xs ys zs _ ih =>
    obtain ⟨hanswers, hafter⟩ := ih (fun x' hx' => h x' (List.mem_cons_of_mem x hx')) (act x s).2
    have hys := answers_of_independent (h x List.mem_cons_self) s
    rw [hys.1] at hanswers
    exact ⟨.left hanswers, hafter⟩
  | @right y xs ys zs _ ih =>
    obtain ⟨hanswers, hafter⟩ :=
      ih (fun x hx y' hy' => h x hx y' (List.mem_cons_of_mem y hy')) (act y s).2
    have hxs := answers_of_independent (fun x hx => (h x hx y List.mem_cons_self).symm) s
    rw [hxs.1] at hanswers
    rw [hxs.2] at hafter
    exact ⟨.right hanswers, hafter⟩

end Action

namespace Experiment

/-! ## Orders to devices -/

/-- What can be asked of a device in an experiment. -/
inductive Operation where
  | request (r : Device.Request)
  | compile (loop : Option Nat)
  | clear

/-- Does what is asked. A compilation answers with the duration of the program. -/
def Operation.perform (A : Arithmetic) : Operation → Action Device (Option Nat)
  | request r => do
    r.perform A
    return none
  | compile loop => do return some (← Device.compile A loop)
  | clear => do
    clearDevice
    return none

/-- What is asked of the device called `device`. -/
structure Order where
  device : String
  operation : Operation

/-- Carries out an order. -/
def Order.perform (A : Arithmetic) (o : Order) : Action Experiment (Option Nat) :=
  onDevice o.device (o.operation.perform A)

/-- What is asked of the device called `name`, in order. -/
def operationsOn (name : String) (orders : List Order) : List Operation :=
  (orders.filter (·.device = name)).map Order.operation

/-- What the device called `name` answers, and to what. -/
def answersOf (name : String) (answered : List (Order × Logged (Option Nat))) :
    List (Operation × Logged (Option Nat)) :=
  (answered.filter (·.1.device = name)).map fun (o, answer) => (o.operation, answer)

variable {A : Arithmetic} {e : Experiment} {d : Device} {name : String} {o : Order}

theorem device_eq_ok : e.device name = .ok d ↔ e.find? (·.name = name) = some d := by
  unfold device
  cases e.find? (·.name = name) <;> simp

/-- Nothing renames a device. -/
theorem name_perform (op : Operation) (d : Device) : (op.perform A d).2.name = d.name := by
  have hrequest : ∀ r : Device.Request, (r.perform A d).2.name = d.name := fun r =>
    Device.perform_keeps (motive := fun d' => d'.name = d.name) rfl
      fun _ h => (Device.identity_perform h).1
  cases op with
  | request r => exact (congrArg Device.name (Action.snd_bind_pure _ _ d)).trans (hrequest r)
  | compile loop =>
    have hsame : ((Operation.compile loop).perform A d).2 =
        ((Device.Request.compile loop).perform A d).2 :=
      (Action.snd_bind_pure _ _ d).trans (Action.snd_bind_pure _ _ d).symm
    exact (congrArg Device.name hsame).trans (hrequest (.compile loop))
  | clear => rfl

/-! ## One order -/

theorem names_perform (o : Order) (e : Experiment) :
    (o.perform A e).2.map Device.name = e.map Device.name :=
  Action.map_onFirst (name_perform o.operation)

/-- The device that an order is addressed to. -/
theorem perform_of_device (h : e.device o.device = .ok d) :
    (o.perform A e).1 = (o.operation.perform A d).1 ∧
      (o.perform A e).2.device o.device = .ok (o.operation.perform A d).2 := by
  rw [device_eq_ok] at h ⊢
  exact ⟨Action.onFirst_of_find? h,
    Action.find?_onFirst (fun d => by rw [name_perform o.operation d]) h⟩

/-- The devices that it is not addressed to. -/
theorem device_perform_of_ne (h : o.device ≠ name) :
    (o.perform A e).2.device name = e.device name := by
  have hfind : (o.perform A e).2.find? (·.name = name) = e.find? (·.name = name) :=
    Action.find?_onFirst_of_ne (fun d => by rw [name_perform o.operation d])
      fun _ hd hd' => h ((of_decide_eq_true hd).symm.trans (of_decide_eq_true hd'))
  unfold device
  rw [hfind]

/-- An order to a device that is not there. -/
theorem perform_of_unknown (h : o.device ∉ e.map Device.name) :
    o.perform A e = (⟨.error (.unknownDevice o.device), []⟩, e) :=
  Action.onFirst_of_forall_not fun d hd => by
    have hne : d.name ≠ o.device := fun hname => h (hname ▸ List.mem_map_of_mem hd)
    simpa using hne

/-- Orders to different devices. -/
theorem independent_perform {o o' : Order} (h : o.device ≠ o'.device) :
    (o.perform A).Independent (o'.perform A) :=
  Action.independent_onFirst (fun d => by rw [name_perform o'.operation d])
    (fun d => by rw [name_perform o.operation d])
    fun _ hd hd' => h ((of_decide_eq_true hd).symm.trans (of_decide_eq_true hd'))

/-! ## All orders -/

theorem names_afterAll (orders : List Order) (e : Experiment) :
    (Action.afterAll (Order.perform A) orders e).map Device.name = e.map Device.name := by
  induction orders generalizing e with
  | nil => rfl
  | cons o orders ih => exact (ih _).trans (names_perform o e)

/-- **A device among others**: what it answers, and how it is left, comes from what is asked of it
alone. -/
theorem answersOf_answers (orders : List Order) (h : e.device name = .ok d) :
    answersOf name (Action.answers (Order.perform A) orders e) =
        Action.answers (Operation.perform A) (operationsOn name orders) d ∧
      (Action.afterAll (Order.perform A) orders e).device name =
        .ok (Action.afterAll (Operation.perform A) (operationsOn name orders) d) := by
  induction orders generalizing e d with
  | nil => exact ⟨rfl, h⟩
  | cons o orders ih =>
    by_cases hname : o.device = name
    · subst hname
      obtain ⟨hanswer, hdevice⟩ := perform_of_device (A := A) h
      obtain ⟨hanswers, hafter⟩ := ih hdevice
      constructor
      · simp only [answersOf, operationsOn, Action.answers_cons, List.filter_cons, decide_true,
          if_true, List.map_cons, hanswer] at hanswers ⊢
        rw [hanswers]
      · simpa [operationsOn] using hafter
    · obtain ⟨hanswers, hafter⟩ := ih ((device_perform_of_ne hname).trans h)
      constructor
      · simpa [answersOf, operationsOn, hname] using hanswers
      · simpa [operationsOn, hname] using hafter

/-- Devices that are not there stay unknown. -/
theorem answer_of_unknown {orders : List Order} {answer : Logged (Option Nat)}
    (h : (o, answer) ∈ Action.answers (Order.perform A) orders e)
    (hname : o.device ∉ e.map Device.name) :
    answer = ⟨.error (.unknownDevice o.device), []⟩ := by
  induction orders generalizing e with
  | nil => exact absurd h List.not_mem_nil
  | cons o' orders ih =>
    rcases List.mem_cons.mp h with h | h
    · obtain ⟨rfl, rfl⟩ := Prod.mk.inj h
      rw [perform_of_unknown hname]
    · exact ih h (by rwa [names_perform])

/-- **Devices are independent.** Whatever is asked of the devices of an experiment, in any order and
successfully or not: the devices stay the same ones, in their order; each of them gives the answers,
and is left in the state, that come from what is asked of it alone; and a device that is not there
answers that it is not. So when two clients ask different devices, taking turns in any way, each of
them gets the answers it would get alone, and the experiment is left as by one client behind the
other. -/
theorem devices_independent (A : Arithmetic) (e : Experiment) (orders : List Order) :
    (Action.afterAll (Order.perform A) orders e).map Device.name = e.map Device.name ∧
      (∀ name d, e.device name = .ok d →
        answersOf name (Action.answers (Order.perform A) orders e) =
            Action.answers (Operation.perform A) (operationsOn name orders) d ∧
          (Action.afterAll (Order.perform A) orders e).device name =
            .ok (Action.afterAll (Operation.perform A) (operationsOn name orders) d)) ∧
      (∀ o answer, (o, answer) ∈ Action.answers (Order.perform A) orders e →
        o.device ∉ e.map Device.name → answer = ⟨.error (.unknownDevice o.device), []⟩) ∧
      ∀ xs ys, (∀ x ∈ xs, ∀ y ∈ ys, x.device ≠ y.device) → Interleaved xs ys orders →
        Interleaved (Action.answers (Order.perform A) xs e) (Action.answers (Order.perform A) ys e)
            (Action.answers (Order.perform A) orders e) ∧
          Action.afterAll (Order.perform A) orders e =
            Action.afterAll (Order.perform A) ys (Action.afterAll (Order.perform A) xs e) := by
  refine ⟨names_afterAll orders e, fun _ _ => answersOf_answers orders,
    fun _ _ => answer_of_unknown, fun xs ys hdevices horders => ?_⟩
  exact Action.interleaved_answers
    (fun x hx y hy => independent_perform (hdevices x hx y hy)) horders e

/-- Two devices with nothing on them. -/
def pair : Experiment := [Device.bare, { Device.bare with name := "second" }]

/-- Two clients that book on channels of one name. -/
def turns : List Order :=
  [⟨"pb", .request (.addChannel "aom" 0)⟩, ⟨"second", .request (.addChannel "aom" 3)⟩,
    ⟨"pb", .request (.addChannel "aom" 1)⟩, ⟨"second", .compile none⟩, ⟨"third", .clear⟩]

/-- Each client of `turns` has its channel on its own device. -/
theorem pair_takes_turns :
    pair.device "second" = .ok { Device.bare with name := "second" } ∧
      (Action.afterAll (Order.perform .binary64) turns pair).device "second" =
        .ok (Action.afterAll (Operation.perform .binary64)
          [.request (.addChannel "aom" 3), .compile none]
          { Device.bare with name := "second" }) ∧
      Interleaved [turns[0], turns[2]] [turns[1], turns[3], turns[4]] turns ∧
      Action.afterAll (Order.perform .binary64) turns pair =
        Action.afterAll (Order.perform .binary64) [turns[1], turns[3], turns[4]]
          (Action.afterAll (Order.perform .binary64) [turns[0], turns[2]] pair) := by
  obtain ⟨-, hdevice, -, hclients⟩ := devices_independent .binary64 pair turns
  have hsecond : pair.device "second" = .ok { Device.bare with name := "second" } := rfl
  have hturns : Interleaved [turns[0], turns[2]] [turns[1], turns[3], turns[4]] turns :=
    .left (.right (.left (.right (.right .nil))))
  exact ⟨hsecond, (hdevice "second" _ hsecond).2, hturns, (hclients _ _ (by decide) hturns).2⟩

end Experiment

end PulseSequencer
