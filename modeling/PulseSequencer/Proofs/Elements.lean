import PulseSequencer.Proofs.Action

/-!
# Actions on the elements of a list

What an action on a list has done when it acts on one element, or on all of them in order up to the
first on which it fails.

* `Action.Fails`: an action fails and leaves a state, as `Action.Runs` for one that has a value.
* `Action.Independent`: two actions that do not see each other.

Results:
* `runs_forEach`, `fails_forEach`: all elements are acted on, or those before one that fails.
* `find?_onFirst`, `find?_onFirst_of_ne`: the element that is acted on, and the others.
* `independent_onFirst`: actions on different elements do not see each other.
-/

namespace PulseSequencer

namespace Action

variable {σ α β γ : Type}

/-! ## Failing -/

/-- In state `s` the action fails with `e` and leaves `s'`. -/
def Fails (x : Action σ α) (s : σ) (e : Error) (s' : σ) : Prop :=
  (x s).1.result = .error e ∧ (x s).2 = s'

/-- Every action has a value or fails. -/
theorem runs_or_fails (x : Action σ α) (s : σ) :
    (∃ a s', x.Runs s a s') ∨ ∃ e s', x.Fails s e s' := by
  cases h : (x s).1.result with
  | ok a => exact Or.inl ⟨a, _, h, rfl⟩
  | error e => exact Or.inr ⟨e, _, h, rfl⟩

/-- A sequence fails where the first step does, or else the second. -/
theorem fails_bind {x : Action σ α} {f : α → Action σ β} {s s' : σ} {e : Error} :
    (x >>= f).Fails s e s' ↔ x.Fails s e s' ∨ ∃ a s₁, x.Runs s a s₁ ∧ (f a).Fails s₁ e s' := by
  unfold Fails
  cases hx : (x s).1.result with
  | error e₁ =>
    rw [bind_apply_of_error hx]
    constructor
    · rintro ⟨h, hs⟩
      exact Or.inl ⟨congrArg _ (Except.error.inj h), hs⟩
    · rintro (⟨h, hs⟩ | ⟨a, s₁, ⟨hok, -⟩, -⟩)
      · exact ⟨congrArg _ (Except.error.inj h), hs⟩
      · rw [hx] at hok
        cases hok
  | ok a =>
    rw [bind_apply_of_ok hx]
    constructor
    · exact fun h => Or.inr ⟨a, _, ⟨hx, rfl⟩, h⟩
    · rintro (⟨h, -⟩ | ⟨a₁, s₁, ⟨hok, rfl⟩, h⟩)
      · cases h
      · obtain rfl := Except.ok.inj (hx.symm.trans hok)
        exact h

@[simp] theorem not_fails_pure {a : α} {s s' : σ} {e : Error} :
    ¬ (pure a : Action σ α).Fails s e s' := fun h => absurd h.1 (by simp)

@[simp] theorem not_fails_read {f : σ → α} {s s' : σ} {e : Error} :
    ¬ (read f).Fails s e s' := fun h => absurd h.1 (by simp)

@[simp] theorem runs_read {f : σ → α} {a : α} {s s' : σ} :
    (read f).Runs s a s' ↔ a = f s ∧ s' = s := by
  unfold Runs
  simp [eq_comm]

theorem fails_discard {x : Action σ α} {s s' : σ} {e : Error} :
    (do let _ ← x : Action σ Unit).Fails s e s' ↔ x.Fails s e s' := by
  rw [fails_bind]
  exact or_iff_left fun ⟨_, _, _, h⟩ => not_fails_pure h

/-- An all-or-nothing action that fails leaves the state as it was. -/
theorem AllOrNothing.fails_iff {x : Action σ α} (hx : x.AllOrNothing) {s s' : σ} {e : Error} :
    x.Fails s e s' ↔ (x s).1.result = .error e ∧ s' = s := by
  refine and_congr_right fun h => ?_
  rw [hx s e h]
  exact eq_comm

/-! ## Independence -/

/-- Neither action sees the other: each is answered as if the other had not been, and they leave the
same state in either order. -/
structure Independent (x : Action σ α) (y : Action σ β) : Prop where
  left : ∀ s, (x (y s).2).1 = (x s).1
  right : ∀ s, (y (x s).2).1 = (y s).1
  comm : ∀ s, (y (x s).2).2 = (x (y s).2).2

theorem Independent.symm {x : Action σ α} {y : Action σ β} (h : x.Independent y) :
    y.Independent x :=
  ⟨h.right, h.left, fun s => (h.comm s).symm⟩

/-! ## Every element in order -/

section

variable {act : Action σ Unit} {s : σ} {rest xs xs' : List σ} {u : Unit} {e : Error}

theorem forEach_cons_of_ok (h : (act s).1.result = .ok u) :
    forEach act (s :: rest) =
      (⟨(forEach act rest).1.result, (act s).1.notices ++ (forEach act rest).1.notices⟩,
        (act s).2 :: (forEach act rest).2) := by
  rw [forEach]
  simp only [h]

theorem forEach_cons_of_error (h : (act s).1.result = .error e) :
    forEach act (s :: rest) = (⟨.error e, (act s).1.notices⟩, (act s).2 :: rest) := by
  rw [forEach]
  simp only [h]

/-- The step of a success: the first element, and the rest behind it. -/
theorem runs_forEach_cons :
    (forEach act).Runs (s :: rest) u xs' ↔
      ∃ s' rest', act.Runs s () s' ∧ (forEach act).Runs rest () rest' ∧ xs' = s' :: rest' := by
  cases h : (act s).1.result with
  | error e =>
    unfold Runs
    rw [forEach_cons_of_error h]
    constructor
    · rintro ⟨hok, -⟩
      cases hok
    · rintro ⟨s', rest', ⟨hok, -⟩, -⟩
      rw [h] at hok
      cases hok
  | ok u₁ =>
    unfold Runs
    rw [forEach_cons_of_ok h]
    constructor
    · rintro ⟨hrest, rfl⟩
      exact ⟨_, _, ⟨h, rfl⟩, ⟨hrest, rfl⟩, rfl⟩
    · rintro ⟨_, _, ⟨-, rfl⟩, ⟨hrest, rfl⟩, rfl⟩
      exact ⟨hrest, rfl⟩

/-- The step of a failure: on the first element, or on one of the rest behind it. -/
theorem fails_forEach_cons :
    (forEach act).Fails (s :: rest) e xs' ↔
      (∃ s', act.Fails s e s' ∧ xs' = s' :: rest) ∨
        ∃ s' rest', act.Runs s () s' ∧ (forEach act).Fails rest e rest' ∧ xs' = s' :: rest' := by
  cases h : (act s).1.result with
  | error e₁ =>
    unfold Fails
    rw [forEach_cons_of_error h]
    constructor
    · rintro ⟨herror, rfl⟩
      exact Or.inl ⟨_, ⟨h.trans herror, rfl⟩, rfl⟩
    · rintro (⟨_, ⟨herror, rfl⟩, rfl⟩ | ⟨_, _, ⟨hok, -⟩, -⟩)
      · exact ⟨h.symm.trans herror, rfl⟩
      · rw [h] at hok
        cases hok
  | ok u₁ =>
    unfold Fails
    rw [forEach_cons_of_ok h]
    constructor
    · rintro ⟨hrest, rfl⟩
      exact Or.inr ⟨_, _, ⟨h, rfl⟩, ⟨hrest, rfl⟩, rfl⟩
    · rintro (⟨_, ⟨herror, -⟩, -⟩ | ⟨_, _, ⟨-, rfl⟩, ⟨hrest, rfl⟩, rfl⟩)
      · rw [h] at herror
        cases herror
      · exact ⟨hrest, rfl⟩

/-- **An action on every element** has a value when it has one on each of them. -/
theorem runs_forEach :
    (forEach act).Runs xs u xs' ↔ List.Forall₂ (fun s s' => act.Runs s () s') xs xs' := by
  induction xs generalizing xs' with
  | nil =>
    rw [List.forall₂_nil_left_iff]
    exact ⟨fun h => h.2.symm, fun h => ⟨rfl, h.symm⟩⟩
  | cons s rest ih =>
    simp only [runs_forEach_cons, ih, List.forall₂_cons_left_iff]

/-- **It fails on the first element on which it has none**: those before have been acted on, and
those behind are what they were. -/
theorem fails_forEach :
    (forEach act).Fails xs e xs' ↔
      ∃ before s after before' s', xs = before ++ s :: after ∧
        List.Forall₂ (fun s s' => act.Runs s () s') before before' ∧ act.Fails s e s' ∧
        xs' = before' ++ s' :: after := by
  induction xs generalizing xs' with
  | nil =>
    constructor
    · exact fun h => absurd h.1 (by simp [forEach])
    · rintro ⟨before, s, after, -, -, hnil, -⟩
      exact absurd hnil (by simp)
  | cons s₁ rest ih =>
    rw [fails_forEach_cons]
    constructor
    · rintro (⟨s', hfails, rfl⟩ | ⟨s₁', rest', hruns, hrest, rfl⟩)
      · exact ⟨[], s₁, rest, [], s', rfl, .nil, hfails, rfl⟩
      · obtain ⟨before, s, after, before', s', rfl, hbefore, hfails, rfl⟩ := ih.mp hrest
        exact ⟨s₁ :: before, s, after, s₁' :: before', s', rfl, .cons hruns hbefore, hfails, rfl⟩
    · rintro ⟨before, s, after, before', s', hsplit, hbefore, hfails, rfl⟩
      cases hbefore with
      | nil =>
        obtain ⟨rfl, rfl⟩ := List.cons.inj hsplit
        exact Or.inl ⟨s', hfails, rfl⟩
      | @cons s₂ s₂' before before' hruns hbefore =>
        obtain ⟨rfl, rfl⟩ := List.cons.inj hsplit
        exact Or.inr ⟨s₂', _, hruns,
          ih.mpr ⟨before, s, after, before', s', rfl, hbefore, hfails, rfl⟩, rfl⟩

end

/-! ## One element -/

section

variable {p q : σ → Bool} {missing missing' : Error} {act : Action σ α} {act' : Action σ β} {s : σ}
  {rest xs : List σ}

theorem onFirst_cons_of_pos (h : p s = true) :
    onFirst p missing act (s :: rest) = ((act s).1, (act s).2 :: rest) := by
  rw [onFirst, if_pos h]

theorem onFirst_cons_of_neg (h : ¬ p s = true) :
    onFirst p missing act (s :: rest) =
      ((onFirst p missing act rest).1, s :: (onFirst p missing act rest).2) := by
  rw [onFirst, if_neg h]

/-- Without an element to act on the list stays as it is. -/
theorem onFirst_of_forall_not (h : ∀ s ∈ xs, ¬ p s = true) :
    onFirst p missing act xs = (⟨.error missing, []⟩, xs) := by
  induction xs with
  | nil => rfl
  | cons s rest ih =>
    rw [onFirst_cons_of_neg (h s List.mem_cons_self),
      ih fun s' hs' => h s' (List.mem_cons_of_mem s hs')]

/-- The answer is that of the element acted on. -/
theorem onFirst_of_find? (h : xs.find? p = some s) : (onFirst p missing act xs).1 = (act s).1 := by
  induction xs with
  | nil => cases h
  | cons s₁ rest ih =>
    by_cases hp : p s₁ = true
    · rw [List.find?_cons_of_pos hp] at h
      rw [onFirst_cons_of_pos hp, Option.some.inj h]
    · rw [List.find?_cons_of_neg hp] at h
      rw [onFirst_cons_of_neg hp, ih h]

/-- The element acted on is found again. -/
theorem find?_onFirst (hp : ∀ s, p (act s).2 = p s) (h : xs.find? p = some s) :
    (onFirst p missing act xs).2.find? p = some (act s).2 := by
  induction xs with
  | nil => cases h
  | cons s₁ rest ih =>
    by_cases hp₁ : p s₁ = true
    · rw [List.find?_cons_of_pos hp₁] at h
      obtain rfl := Option.some.inj h
      rw [onFirst_cons_of_pos hp₁, List.find?_cons_of_pos ((hp s₁).trans hp₁)]
    · rw [List.find?_cons_of_neg hp₁] at h
      rw [onFirst_cons_of_neg hp₁, List.find?_cons_of_neg hp₁, ih h]

/-- Elements that are not acted on are found as they are. -/
theorem find?_onFirst_of_ne (hq : ∀ s, q (act s).2 = q s) (hpq : ∀ s, p s = true → ¬ q s = true) :
    (onFirst p missing act xs).2.find? q = xs.find? q := by
  induction xs with
  | nil => rfl
  | cons s rest ih =>
    by_cases hp : p s = true
    · rw [onFirst_cons_of_pos hp, List.find?_cons_of_neg (hpq s hp),
        List.find?_cons_of_neg (hq s ▸ hpq s hp)]
    · rw [onFirst_cons_of_neg hp]
      simp only [List.find?_cons, ih]

/-- What the action leaves alone stays the same all over the list. -/
theorem map_onFirst {f : σ → γ} (hf : ∀ s, f (act s).2 = f s) :
    (onFirst p missing act xs).2.map f = xs.map f := by
  induction xs with
  | nil => rfl
  | cons s rest ih =>
    by_cases hp : p s = true
    · rw [onFirst_cons_of_pos hp, List.map_cons, List.map_cons, hf]
    · rw [onFirst_cons_of_neg hp, List.map_cons, List.map_cons, ih]

/-- The second of two actions on different elements is answered as if it came first, and they leave
the same list in either order. -/
theorem onFirst_onFirst (hp : ∀ s, p (act' s).2 = p s) (hq : ∀ s, q (act s).2 = q s)
    (hpq : ∀ s, p s = true → ¬ q s = true) :
    (onFirst q missing' act' (onFirst p missing act xs).2).1 = (onFirst q missing' act' xs).1 ∧
      (onFirst q missing' act' (onFirst p missing act xs).2).2 =
        (onFirst p missing act (onFirst q missing' act' xs).2).2 := by
  induction xs with
  | nil => exact ⟨rfl, rfl⟩
  | cons s rest ih =>
    by_cases hps : p s = true
    · have hqs : ¬ q s = true := hpq s hps
      have hqs' : ¬ q (act s).2 = true := (hq s).symm ▸ hqs
      rw [onFirst_cons_of_pos hps, onFirst_cons_of_neg hqs, onFirst_cons_of_neg hqs',
        onFirst_cons_of_pos hps]
      exact ⟨rfl, rfl⟩
    · rw [onFirst_cons_of_neg hps]
      by_cases hqs : q s = true
      · have hps' : ¬ p (act' s).2 = true := (hp s).symm ▸ hps
        rw [onFirst_cons_of_pos hqs, onFirst_cons_of_pos hqs, onFirst_cons_of_neg hps']
        exact ⟨rfl, rfl⟩
      · rw [onFirst_cons_of_neg hqs, onFirst_cons_of_neg hqs, onFirst_cons_of_neg hps, ih.1, ih.2]
        exact ⟨rfl, rfl⟩

/-- **Actions on different elements are independent.** -/
theorem independent_onFirst (hp : ∀ s, p (act' s).2 = p s) (hq : ∀ s, q (act s).2 = q s)
    (hpq : ∀ s, p s = true → ¬ q s = true) :
    (onFirst p missing act).Independent (onFirst q missing' act') where
  left _ := (onFirst_onFirst hq hp fun s hqs hps => hpq s hps hqs).1
  right _ := (onFirst_onFirst hp hq hpq).1
  comm _ := (onFirst_onFirst hp hq hpq).2

end

end Action

end PulseSequencer
