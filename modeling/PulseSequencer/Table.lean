/-!
# Tables

Entries under keys in the order in which the keys were first put.
-/

namespace PulseSequencer

/-- Entries under keys, in order. -/
abbrev Table (κ ν : Type) := List (κ × ν)

namespace Table

variable {κ ν : Type} [DecidableEq κ]

/-- The entry under `k`. -/
def get? (k : κ) : Table κ ν → Option ν
  | [] => none
  | (key, v) :: rest => if key = k then some v else get? k rest

/-- Puts `v` under `k`: in the place of the entry that `k` has, else behind all others. -/
def put (k : κ) (v : ν) : Table κ ν → Table κ ν
  | [] => [(k, v)]
  | (key, w) :: rest => if key = k then (key, v) :: rest else (key, w) :: put k v rest

/-- The table of some entries; a later one under the same key replaces the earlier one. -/
def ofList (entries : List (κ × ν)) : Table κ ν := entries.foldl (fun t (k, v) => put k v t) []

/-- The keys of a table, in order. -/
def keys (t : Table κ ν) : List κ := t.map Prod.fst

theorem get?_put (k k' : κ) (v : ν) (t : Table κ ν) :
    get? k' (put k v t) = if k = k' then some v else get? k' t := by
  induction t with
  | nil => simp [put, get?]
  | cons entry rest ih =>
    obtain ⟨key, w⟩ := entry
    unfold put
    split
    · subst k
      simp only [get?]
      split <;> rfl
    · simp only [get?, ih]
      split <;> split <;> simp_all

omit [DecidableEq κ] in
@[simp] theorem keys_nil : keys ([] : Table κ ν) = [] := rfl

omit [DecidableEq κ] in
@[simp] theorem keys_cons (entry : κ × ν) (t : Table κ ν) :
    keys (entry :: t) = entry.1 :: keys t := rfl

theorem keys_put (k : κ) (v : ν) (t : Table κ ν) :
    keys (put k v t) = if k ∈ keys t then keys t else keys t ++ [k] := by
  induction t with
  | nil => simp [put]
  | cons entry rest ih =>
    obtain ⟨key, w⟩ := entry
    unfold put
    split
    · simp_all
    · have other : ¬ k = key := fun h => by simp_all
      simp only [keys_cons, ih, List.mem_cons, other, false_or]
      split <;> rfl

theorem get?_isSome (k : κ) (t : Table κ ν) : (get? k t).isSome ↔ k ∈ keys t := by
  induction t with
  | nil => simp [get?]
  | cons entry rest ih =>
    obtain ⟨key, w⟩ := entry
    simp only [get?, keys_cons, List.mem_cons]
    split
    · simp_all
    · have other : ¬ k = key := fun h => by simp_all
      simp [ih, other]

end Table

end PulseSequencer
