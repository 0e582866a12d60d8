import Mathlib.Tactic
import PulseSequencer.Action

/-!
# Runs of actions

What an action has done when it has a value, piece by piece: the value and the state of a sequence
come from those of its parts. Notices are followed in the same way.

* `Action.Runs`: an action has a value and leaves a state.
* `Action.Keeps`: an action that never touches the state.
* `Action.AllOrNothing`: an action that leaves the state as it was when it fails.
* `Logged.Notes`, `Action.Notes`: all notices given have some property.

Results:
* `runs_bind`, `Notes.bind`: sequences.
* `AllOrNothing.bind`: what only looks at the state may go ahead of what changes it.
* `mapM_eq_ok`, `foldlM_keeps`: lists of results, one by one.
-/

namespace PulseSequencer

/-! ## Results of lists -/

/-- A list of results has a value when each of them does. -/
theorem mapM_eq_ok {α β : Type} {f : α → Except Error β} {xs : List α} {ys : List β} :
    xs.mapM f = .ok ys ↔ List.Forall₂ (fun x y => f x = .ok y) xs ys := by
  induction xs generalizing ys with
  | nil =>
    rw [List.mapM_nil, List.forall₂_nil_left_iff]
    exact ⟨fun h => (Except.ok.inj h).symm, fun h => h ▸ rfl⟩
  | cons x xs ih =>
    rw [List.mapM_cons, bind_eq_ok]
    constructor
    · rintro ⟨y, hy, h⟩
      obtain ⟨ys', hys, h⟩ := bind_eq_ok.mp h
      obtain rfl := Except.ok.inj h
      exact List.Forall₂.cons hy (ih.mp hys)
    · intro h
      obtain ⟨y, ys', hy, hys, rfl⟩ := List.forall₂_cons_left_iff.mp h
      exact ⟨y, hy, bind_eq_ok.mpr ⟨ys', ih.mpr hys, rfl⟩⟩

/-- Every value of a list of results comes from one of its elements. -/
theorem exists_of_mem_forall₂ {α β : Type} {R : α → β → Prop} {xs : List α} {ys : List β}
    (h : List.Forall₂ R xs ys) {y : β} (hy : y ∈ ys) : ∃ x ∈ xs, R x y := by
  induction h with
  | nil => exact absurd hy List.not_mem_nil
  | cons hxy _ ih =>
    rcases List.mem_cons.mp hy with rfl | hy
    · exact ⟨_, List.mem_cons_self, hxy⟩
    · obtain ⟨x, hx, hxy⟩ := ih hy
      exact ⟨x, List.mem_cons_of_mem _ hx, hxy⟩

/-- The results of a list, split at one of its elements. -/
theorem split_of_forall₂ {α β : Type} {R : α → β → Prop} {before after : List α} {x : α}
    {ys : List β} (h : List.Forall₂ R (before ++ x :: after) ys) :
    ∃ ys₁ y ys₂, ys = ys₁ ++ y :: ys₂ ∧ List.Forall₂ R before ys₁ ∧ R x y := by
  induction before generalizing ys with
  | nil =>
    obtain ⟨y, ys₂, hxy, -, rfl⟩ := List.forall₂_cons_left_iff.mp h
    exact ⟨[], y, ys₂, rfl, .nil, hxy⟩
  | cons x' before ih =>
    obtain ⟨y', ys', hxy', hrest, rfl⟩ := List.forall₂_cons_left_iff.mp h
    obtain ⟨ys₁, y, ys₂, rfl, hbefore, hxy⟩ := ih hrest
    exact ⟨y' :: ys₁, y, ys₂, rfl, .cons hxy' hbefore, hxy⟩

/-- What every step of a fold keeps, the whole fold does. -/
theorem foldlM_keeps {α β : Type} {f : β → α → Except Error β} {motive : β → Prop} {xs : List α}
    (hstep : ∀ a ∈ xs, ∀ b b', motive b → f b a = .ok b' → motive b') {b b' : β}
    (hb : motive b) (h : xs.foldlM f b = .ok b') : motive b' := by
  induction xs generalizing b with
  | nil =>
    obtain rfl := Except.ok.inj h
    exact hb
  | cons a xs ih =>
    rw [List.foldlM_cons] at h
    obtain ⟨b₁, hb₁, h⟩ := bind_eq_ok.mp h
    exact ih (fun a' ha' => hstep a' (List.mem_cons_of_mem a ha'))
      (hstep a List.mem_cons_self b b₁ hb hb₁) h

/-! ## Notices of results -/

namespace Logged

variable {α β : Type}

/-- All notices have `P`. -/
def Notes (P : Notice → Prop) (x : Logged α) : Prop := ∀ n ∈ x.notices, P n

variable {P : Notice → Prop}

theorem notes_pure (a : α) : Notes P (pure a : Logged α) := fun _ hn => absurd hn List.not_mem_nil

theorem notes_lift (r : Except Error α) : Notes P (liftM r : Logged α) := fun _ hn =>
  absurd hn List.not_mem_nil

theorem notes_note {n : Notice} (h : P n) : Notes P (note n) := fun _ hn =>
  List.mem_singleton.mp hn ▸ h

theorem notes_noteAll {ns : List Notice} (h : ∀ n ∈ ns, P n) : Notes P (noteAll ns) := h

theorem Notes.bind {x : Logged α} {f : α → Logged β} (hx : x.Notes P)
    (hf : ∀ a, x.result = .ok a → (f a).Notes P) : (x >>= f).Notes P := by
  show Notes P (Logged.bind x f)
  unfold Logged.bind
  cases h : x.result with
  | error e => exact hx
  | ok a =>
    intro n hn
    rcases List.mem_append.mp hn with hn | hn
    · exact hx n hn
    · exact hf a h n hn

end Logged

namespace Action

variable {σ α β : Type}

instance : LawfulMonad (Action σ) := by
  refine LawfulMonad.mk' _ (fun x => ?_) (fun a f => rfl) fun x f g => ?_
  · funext s
    show bind x (fun a => pure a) s = x s
    unfold bind
    rcases x s with ⟨⟨_ | a, notices⟩, s₁⟩ <;> simp
  · funext s
    show bind (bind x f) g s = bind x (fun a => bind (f a) g) s
    unfold bind
    rcases x s with ⟨⟨_ | a, notices⟩, s₁⟩
    · rfl
    · dsimp only
      rcases f a s₁ with ⟨⟨_ | b, notices'⟩, s₂⟩ <;> simp

/-- The result of a sequence comes from the results of its parts. -/
theorem result_bind_apply (x : Action σ α) (f : α → Action σ β) (s : σ) :
    ((x >>= f) s).1.result = (x s).1.result >>= fun a => (f a (x s).2).1.result := by
  cases h : (x s).1.result with
  | error e =>
    rw [bind_apply_of_error h]
    rfl
  | ok a =>
    rw [bind_apply_of_ok h]
    rfl

/-! ## Runs -/

/-- In state `s` the action has the value `a` and leaves `s'`. -/
def Runs (x : Action σ α) (s : σ) (a : α) (s' : σ) : Prop :=
  (x s).1.result = .ok a ∧ (x s).2 = s'

theorem runs_bind {x : Action σ α} {f : α → Action σ β} {s s' : σ} {b : β} :
    (x >>= f).Runs s b s' ↔ ∃ a s₁, x.Runs s a s₁ ∧ (f a).Runs s₁ b s' := by
  constructor
  · rintro ⟨hb, hs⟩
    cases hx : (x s).1.result with
    | error e =>
      rw [bind_apply_of_error hx] at hb
      exact absurd hb (by simp)
    | ok a =>
      rw [bind_apply_of_ok hx] at hb hs
      exact ⟨a, (x s).2, ⟨hx, rfl⟩, hb, hs⟩
  · rintro ⟨a, _, ⟨hx, rfl⟩, hb, hs⟩
    unfold Runs
    rw [bind_apply_of_ok hx]
    exact ⟨hb, hs⟩

@[simp] theorem runs_pure {a b : α} {s s' : σ} :
    (pure a : Action σ α).Runs s b s' ↔ b = a ∧ s' = s := by
  unfold Runs
  simp [eq_comm]

/-- Forgetting the value. -/
theorem runs_discard {x : Action σ α} {s s' : σ} {u : Unit} :
    (do let _ ← x : Action σ Unit).Runs s u s' ↔ ∃ a, x.Runs s a s' := by
  simp only [runs_bind, runs_pure]
  constructor
  · rintro ⟨a, _, h, -, rfl⟩
    exact ⟨a, h⟩
  · rintro ⟨a, h⟩
    exact ⟨a, s', h, trivial, rfl⟩

@[simp] theorem runs_get {s s₁ s' : σ} :
    (get : Action σ σ).Runs s s₁ s' ↔ s₁ = s ∧ s' = s := by
  unfold Runs
  simp [eq_comm]

@[simp] theorem runs_modify {f : σ → σ} {s s' : σ} {u : Unit} :
    (modify f).Runs s u s' ↔ s' = f s := by
  unfold Runs
  simp [eq_comm]

@[simp] theorem runs_liftExcept {r : Except Error α} {a : α} {s s' : σ} :
    (liftM r : Action σ α).Runs s a s' ↔ r = .ok a ∧ s' = s := by
  unfold Runs
  simp [eq_comm]

@[simp] theorem runs_liftLogged {x : Logged α} {a : α} {s s' : σ} :
    (liftM x : Action σ α).Runs s a s' ↔ x.result = .ok a ∧ s' = s := by
  unfold Runs
  simp [eq_comm]

theorem runs_mapM {f : α → Except Error β} {xs : List α} {ys : List β} {s s' : σ} :
    (xs.mapM fun x => (liftM (f x) : Action σ β)).Runs s ys s' ↔
      List.Forall₂ (fun x y => f x = .ok y) xs ys ∧ s' = s := by
  induction xs generalizing ys s s' with
  | nil => simp
  | cons x xs ih =>
    simp only [List.mapM_cons, runs_bind, runs_liftExcept, runs_pure, ih,
      List.forall₂_cons_left_iff]
    constructor
    · rintro ⟨y, _, ⟨hy, rfl⟩, ys', _, ⟨hys, rfl⟩, rfl, rfl⟩
      exact ⟨⟨y, ys', hy, hys, rfl⟩, rfl⟩
    · rintro ⟨⟨y, ys', hy, hys, rfl⟩, rfl⟩
      exact ⟨y, s', ⟨hy, rfl⟩, ys', s', ⟨hys, rfl⟩, rfl, rfl⟩

/-- What is checked of each of some elements. -/
theorem runs_forM {f : α → Action σ Unit} {P : α → Prop}
    (hf : ∀ a s u s', (f a).Runs s u s' ↔ P a ∧ s' = s) {xs : List α} {s s' : σ} {u : Unit} :
    (xs.forM f).Runs s u s' ↔ (∀ a ∈ xs, P a) ∧ s' = s := by
  induction xs with
  | nil => simp [List.forM]
  | cons x xs ih =>
    show (f x >>= fun _ => xs.forM f).Runs s u s' ↔ _
    simp only [runs_bind, hf, List.forall_mem_cons]
    constructor
    · rintro ⟨_, _, ⟨hx, rfl⟩, hxs⟩
      obtain ⟨hall, rfl⟩ := ih.mp hxs
      exact ⟨⟨hx, hall⟩, rfl⟩
    · rintro ⟨⟨hx, hall⟩, rfl⟩
      exact ⟨(), s', ⟨hx, rfl⟩, ih.mpr ⟨hall, rfl⟩⟩

/-! ## All or nothing -/

/-- The action never touches the state. -/
def Keeps (x : Action σ α) : Prop := ∀ s, (x s).2 = s

/-- When the action fails the state is what it was. -/
def AllOrNothing (x : Action σ α) : Prop := ∀ s e, (x s).1.result = .error e → (x s).2 = s

theorem keeps_pure (a : α) : Keeps (pure a : Action σ α) := fun _ => rfl

theorem keeps_get : Keeps (get : Action σ σ) := fun _ => rfl

theorem keeps_liftExcept (r : Except Error α) : Keeps (liftM r : Action σ α) := fun _ => rfl

theorem keeps_liftLogged (x : Logged α) : Keeps (liftM x : Action σ α) := fun _ => rfl

theorem Keeps.bind {x : Action σ α} {f : α → Action σ β} (hx : x.Keeps) (hf : ∀ a, (f a).Keeps) :
    (x >>= f).Keeps := by
  intro s
  cases h : (x s).1.result with
  | error e =>
    rw [bind_apply_of_error h]
    exact hx s
  | ok a =>
    rw [bind_apply_of_ok h]
    exact (hf a _).trans (hx s)

/-- What is done for each of some elements keeps the state when it does for each one. -/
theorem Keeps.forM {f : α → Action σ Unit} (hf : ∀ a, (f a).Keeps) :
    ∀ xs : List α, (xs.forM f).Keeps
  | [] => keeps_pure ()
  | x :: xs => (hf x).bind fun _ => Keeps.forM hf xs

theorem Keeps.mapM {f : α → Action σ β} (hf : ∀ a, (f a).Keeps) (xs : List α) :
    (xs.mapM f).Keeps := by
  induction xs with
  | nil => exact keeps_pure []
  | cons x xs ih =>
    rw [List.mapM_cons]
    exact (hf x).bind fun y => ih.bind fun ys => keeps_pure (y :: ys)

theorem Keeps.allOrNothing {x : Action σ α} (h : x.Keeps) : x.AllOrNothing := fun s _ _ => h s

theorem allOrNothing_modify (f : σ → σ) : (modify f).AllOrNothing := fun _ _ h =>
  absurd h (by simp)

/-- What follows a change of the state must not fail. -/
theorem AllOrNothing.pure {x : Action σ α} (hx : x.AllOrNothing) (f : α → β) :
    (x >>= fun a => (Pure.pure (f a) : Action σ β)).AllOrNothing := by
  intro s e he
  cases h : (x s).1.result with
  | error e' =>
    rw [bind_apply_of_error h]
    exact hx s e' h
  | ok a =>
    rw [bind_apply_of_ok h] at he
    exact absurd he (by simp)

/-- What only looks at the state may go ahead of what changes it. -/
theorem AllOrNothing.bind {x : Action σ α} {f : α → Action σ β} (hx : x.Keeps)
    (hf : ∀ a, (f a).AllOrNothing) : (x >>= f).AllOrNothing := by
  intro s e he
  cases h : (x s).1.result with
  | error e' =>
    rw [bind_apply_of_error h]
    exact hx s
  | ok a =>
    rw [bind_apply_of_ok h] at he ⊢
    exact (hf a _ e he).trans (hx s)

/-- An all-or-nothing action that does not succeed fails, and leaves the state as it was. -/
theorem AllOrNothing.of_not_runs {x : Action σ α} (hx : x.AllOrNothing) {s : σ}
    (h : ∀ a s', ¬ x.Runs s a s') : ∃ e, (x s).1.result = .error e ∧ (x s).2 = s := by
  cases hresult : (x s).1.result with
  | error e => exact ⟨e, rfl, hx s e hresult⟩
  | ok a => exact absurd ⟨hresult, rfl⟩ (h a (x s).2)

/-! ## Notices -/

/-- All notices that the action gives in state `s` have `P`. -/
def Notes (P : Notice → Prop) (x : Action σ α) (s : σ) : Prop := (x s).1.Notes P

variable {P : Notice → Prop}

theorem notes_pure (a : α) (s : σ) : Notes P (pure a : Action σ α) s := Logged.notes_pure a

theorem notes_get (s : σ) : Notes P (get : Action σ σ) s := Logged.notes_pure s

theorem notes_modify (f : σ → σ) (s : σ) : Notes P (modify f) s := Logged.notes_pure ()

theorem notes_liftExcept (r : Except Error α) (s : σ) : Notes P (liftM r : Action σ α) s :=
  Logged.notes_lift r

theorem notes_liftLogged {x : Logged α} (h : x.Notes P) (s : σ) :
    Notes P (liftM x : Action σ α) s := h

theorem Notes.bind {x : Action σ α} {f : α → Action σ β} {s : σ} (hx : x.Notes P s)
    (hf : ∀ a s₁, x.Runs s a s₁ → (f a).Notes P s₁) : (x >>= f).Notes P s := by
  unfold Notes at hx ⊢
  cases h : (x s).1.result with
  | error e =>
    rw [bind_apply_of_error h]
    exact hx
  | ok a =>
    rw [bind_apply_of_ok h]
    intro n hn
    rcases List.mem_append.mp hn with hn | hn
    · exact hx n hn
    · exact hf a _ ⟨h, rfl⟩ n hn

theorem Notes.forM {f : α → Action σ Unit} (hf : ∀ a s, (f a).Notes P s) :
    ∀ (xs : List α) (s : σ), (xs.forM f).Notes P s
  | [], s => notes_pure () s
  | x :: xs, s => (hf x s).bind fun _ s₁ _ => Notes.forM hf xs s₁

theorem Notes.mapM {f : α → Action σ β} (hf : ∀ a s, (f a).Notes P s) (xs : List α) (s : σ) :
    (xs.mapM f).Notes P s := by
  induction xs generalizing s with
  | nil => exact notes_pure [] s
  | cons x xs ih =>
    rw [List.mapM_cons]
    exact (hf x s).bind fun y s₁ _ => (ih s₁).bind fun ys s₂ _ => notes_pure (y :: ys) s₂

end Action

end PulseSequencer
