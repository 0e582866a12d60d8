import PulseSequencer.Error
import PulseSequencer.Notice

/-!
# Results with notices, and actions on a state

* `Logged α`: a result of type `α` or an error, with the notices given on the way. Notices survive
  an error. Taking the result forgets them and commutes with sequencing (`result_bind`).
* `Action σ α`: a step on a state `σ` with such a result. What was written to the state before an
  error stays written: an action has to see for itself that it fails before it writes.
* `Action.onFirst`, `Action.forEach`: an action on one element of a list, and on all of them in
  order up to the first that fails.
-/

namespace PulseSequencer

/-- A result and the notices given on the way to it. -/
structure Logged (α : Type) where
  result : Except Error α
  notices : List Notice

namespace Logged

variable {α β : Type}

/-- Goes on with `f` where there is a value; the notices add up. -/
def bind (x : Logged α) (f : α → Logged β) : Logged β :=
  match x.result with
  | .ok a => ⟨(f a).result, x.notices ++ (f a).notices⟩
  | .error e => ⟨.error e, x.notices⟩

instance : Monad Logged where
  pure a := ⟨.ok a, []⟩
  bind := bind

instance : MonadLift (Except Error) Logged where
  monadLift r := ⟨r, []⟩

/-- Gives one notice. -/
def note (n : Notice) : Logged Unit := ⟨.ok (), [n]⟩

/-- Gives some notices. -/
def noteAll (ns : List Notice) : Logged Unit := ⟨.ok (), ns⟩

@[simp] theorem result_pure (a : α) : (pure a : Logged α).result = .ok a := rfl

@[simp] theorem notices_pure (a : α) : (pure a : Logged α).notices = [] := rfl

@[simp] theorem result_bind (x : Logged α) (f : α → Logged β) :
    (x >>= f).result = x.result >>= fun a => (f a).result := by
  show (bind x f).result = _
  unfold bind
  cases x.result <;> rfl

@[simp] theorem result_lift (r : Except Error α) :
    (liftM r : Logged α).result = r := rfl

@[simp] theorem result_note (n : Notice) : (note n).result = .ok () := rfl

@[simp] theorem result_noteAll (ns : List Notice) : (noteAll ns).result = .ok () := rfl

end Logged

/-- A step on a state of type `σ` that may fail and may give notices. -/
def Action (σ α : Type) : Type := σ → Logged α × σ

namespace Action

variable {σ α β : Type}

/-- Goes on with `f` in the state that `x` leaves, where `x` has a value. -/
def bind (x : Action σ α) (f : α → Action σ β) : Action σ β := fun s =>
  let first := x s
  match first.1.result with
  | .ok a =>
    let second := f a first.2
    (⟨second.1.result, first.1.notices ++ second.1.notices⟩, second.2)
  | .error e => (⟨.error e, first.1.notices⟩, first.2)

instance : Monad (Action σ) where
  pure a := fun s => (pure a, s)
  bind := bind

instance : MonadLift Logged (Action σ) where
  monadLift x := fun s => (x, s)

/-- The state. -/
def get : Action σ σ := fun s => (pure s, s)

/-- A function of the state. -/
def read (f : σ → α) : Action σ α := fun s => (pure (f s), s)

/-- Changes the state. -/
def modify (f : σ → σ) : Action σ Unit := fun s => (pure (), f s)

theorem bind_apply_of_ok {x : Action σ α} {f : α → Action σ β} {s : σ} {a : α}
    (h : (x s).1.result = .ok a) :
    (x >>= f) s =
      (⟨(f a (x s).2).1.result, (x s).1.notices ++ (f a (x s).2).1.notices⟩, (f a (x s).2).2) := by
  show bind x f s = _
  unfold bind
  simp only [h]

theorem bind_apply_of_error {x : Action σ α} {f : α → Action σ β} {s : σ} {e : Error}
    (h : (x s).1.result = .error e) :
    (x >>= f) s = (⟨.error e, (x s).1.notices⟩, (x s).2) := by
  show bind x f s = _
  unfold bind
  simp only [h]

@[simp] theorem pure_apply (a : α) (s : σ) : (pure a : Action σ α) s = (pure a, s) := rfl

@[simp] theorem get_apply (s : σ) : (get : Action σ σ) s = (pure s, s) := rfl

@[simp] theorem read_apply (f : σ → α) (s : σ) : (read f) s = (pure (f s), s) := rfl

@[simp] theorem modify_apply (f : σ → σ) (s : σ) : (modify f) s = (pure (), f s) := rfl

@[simp] theorem liftLogged_apply (x : Logged α) (s : σ) :
    (liftM x : Action σ α) s = (x, s) := rfl

@[simp] theorem liftExcept_apply (r : Except Error α) (s : σ) :
    (liftM r : Action σ α) s = (⟨r, []⟩, s) := rfl

/-- An action on the first element that `p` picks out, or the error `missing`. -/
def onFirst (p : σ → Bool) (missing : Error) (act : Action σ α) : Action (List σ) α
  | [] => (⟨.error missing, []⟩, [])
  | s :: rest =>
    if p s then
      let (x, s') := act s
      (x, s' :: rest)
    else
      let (x, rest') := onFirst p missing act rest
      (x, s :: rest')

/-- An action on every element in order; the first error ends it. -/
def forEach (act : Action σ Unit) : Action (List σ) Unit
  | [] => (pure (), [])
  | s :: rest =>
    let first := act s
    match first.1.result with
    | .ok () =>
      let others := forEach act rest
      (⟨others.1.result, first.1.notices ++ others.1.notices⟩, first.2 :: others.2)
    | .error e => (⟨.error e, first.1.notices⟩, first.2 :: rest)

end Action

end PulseSequencer
