import Mathlib.Tactic
import PulseSequencer.Table

/-!
# Tables: what is put and what is found

* `mem_put`, `put_of_get?_eq_none`, `map_put`: a table with one entry put.
* `get?_of_mem`: an entry is found under its key, where no key stands twice.
* `get?_map`: an entry is found as it was changed, where its key was not.
* `ofList_of_nodup`: entries under different keys are a table as they stand.
-/

namespace PulseSequencer

namespace Table

variable {κ ν γ : Type} [DecidableEq κ] {k : κ} {v w : ν} {t : Table κ ν}

theorem mem_of_get? (h : get? k t = some v) : (k, v) ∈ t := by
  induction t with
  | nil => exact absurd h (by simp [get?])
  | cons entry t ih =>
    obtain ⟨key, w⟩ := entry
    rw [get?] at h
    split at h
    · rename_i hkey
      rw [Option.some.inj h, hkey]
      exact List.mem_cons_self
    · exact List.mem_cons_of_mem _ (ih h)

theorem mem_put {e : κ × ν} (h : e ∈ put k v t) : e = (k, v) ∨ e ∈ t := by
  induction t with
  | nil => exact Or.inl (List.mem_singleton.mp h)
  | cons entry t ih =>
    obtain ⟨key, w⟩ := entry
    rw [put] at h
    split at h
    · rename_i hkey
      rw [hkey] at h
      exact (List.mem_cons.mp h).imp_right (List.mem_cons_of_mem _)
    · rcases List.mem_cons.mp h with h | h
      · exact Or.inr (h ▸ List.mem_cons_self)
      · exact (ih h).imp_right (List.mem_cons_of_mem _)

/-- A new key goes behind all others. -/
theorem put_of_get?_eq_none (h : get? k t = none) : put k v t = t ++ [(k, v)] := by
  induction t with
  | nil => rfl
  | cons entry t ih =>
    obtain ⟨key, w⟩ := entry
    rw [get?] at h
    split at h
    · exact absurd h (by simp)
    · rename_i hkey
      rw [put, if_neg hkey, ih h]
      rfl

/-- What does not tell the new entry from the old one does not tell the tables apart. -/
theorem map_put (f : κ × ν → γ) (h : get? k t = some w) (hf : f (k, v) = f (k, w)) :
    (put k v t).map f = t.map f := by
  induction t with
  | nil => exact absurd h (by simp [get?])
  | cons entry t ih =>
    obtain ⟨key, w'⟩ := entry
    rw [get?] at h
    split at h
    · rename_i hkey
      obtain rfl := Option.some.inj h
      rw [put, if_pos hkey, List.map_cons, List.map_cons, hkey, hf]
    · rename_i hkey
      rw [put, if_neg hkey, List.map_cons, List.map_cons, ih h]

/-- An entry is found under its key. -/
theorem get?_of_mem (h : t.keys.Nodup) (hmem : (k, v) ∈ t) : get? k t = some v := by
  induction t with
  | nil => exact absurd hmem List.not_mem_nil
  | cons entry t ih =>
    obtain ⟨key, w⟩ := entry
    rw [keys_cons] at h
    obtain ⟨hnew, hrest⟩ := List.nodup_cons.mp h
    rcases List.mem_cons.mp hmem with heq | hmem
    · obtain ⟨rfl, rfl⟩ := Prod.mk.inj heq
      rw [get?, if_pos rfl]
    · have hin : k ∈ keys t := List.mem_map_of_mem (f := Prod.fst) hmem
      have hother : ¬ key = k := fun hsame => hnew (hsame ▸ hin)
      rw [get?, if_neg hother, ih hrest hmem]

/-- What is changed of each entry but its key is found changed under its key. -/
theorem get?_map (f : κ → ν → ν) (k : κ) (t : Table κ ν) :
    get? k (t.map fun e => (e.1, f e.1 e.2)) = (get? k t).map (f k) := by
  induction t with
  | nil => rfl
  | cons entry t ih =>
    obtain ⟨key, w⟩ := entry
    rw [List.map_cons, get?, get?]
    split
    · rename_i hkey
      rw [hkey, Option.map_some]
    · exact ih

/-- Entries under new and different keys go behind the others, in their order. -/
theorem foldl_put_of_nodup {entries : List (κ × ν)}
    (h : (t.keys ++ entries.map Prod.fst).Nodup) :
    entries.foldl (fun t (k, v) => put k v t) t = t ++ entries := by
  induction entries generalizing t with
  | nil => rw [List.append_nil]; rfl
  | cons entry entries ih =>
    obtain ⟨key, w⟩ := entry
    rw [List.map_cons, List.append_cons] at h
    have hnew : get? key t = none := by
      rw [← Option.not_isSome_iff_eq_none, get?_isSome]
      intro hin
      have hfront := List.nodup_append.mp (List.nodup_append.mp h).1
      exact hfront.2.2 key hin key (List.mem_singleton_self key) rfl
    have hput := put_of_get?_eq_none (v := w) hnew
    have hkeys : (put key w t).keys = t.keys ++ [key] := by
      rw [hput]
      exact List.map_append
    calc ((key, w) :: entries).foldl (fun t (k, v) => put k v t) t
        = entries.foldl (fun t (k, v) => put k v t) (put key w t) := rfl
      _ = put key w t ++ entries := ih (hkeys ▸ h)
      _ = t ++ (key, w) :: entries := by rw [hput, ← List.append_cons]

/-- Entries under different keys are a table as they stand. -/
theorem ofList_of_nodup {entries : List (κ × ν)} (h : (entries.map Prod.fst).Nodup) :
    ofList entries = entries :=
  foldl_put_of_nodup (t := []) h

end Table

end PulseSequencer
