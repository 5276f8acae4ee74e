import Mathlib.Data.List.Nodup
import Mathlib.Logic.Function.Basic

/-!
# Maps of maps

Entries under keys and ids, in an inner map for each key. Inner maps are made for their first entry and removed with
their last one. `Proper` says that no inner map is empty, and that no id is twice in one; `mem_insert`, `mem_remove`
and `mem_clear` say which entries there are afterwards.
-/

set_option autoImplicit false

/-- A map of maps. -/
abbrev Nested (κ ι ν : Type) : Type := κ → Option (List (ι × ν))

namespace Nested

variable {κ ι ν : Type}

/-- The entries under a key. -/
def entries (m : Nested κ ι ν) (k : κ) : List (ι × ν) := (m k).getD []

/-- No inner map is empty, and there is one entry for an id. -/
structure Proper (m : Nested κ ι ν) : Prop where
  nonempty : ∀ k, m k ≠ some []
  nodup : ∀ k, ((m.entries k).map Prod.fst).Nodup

/-- No entries. -/
def empty : Nested κ ι ν := fun _ => none

@[simp] theorem entries_empty (k : κ) : (empty : Nested κ ι ν).entries k = [] := rfl

theorem proper_empty : (empty : Nested κ ι ν).Proper := ⟨fun _ => by simp [empty], fun _ => by simp⟩

/-- An entry is found by its id. -/
theorem Proper.find [DecidableEq ι] {m : Nested κ ι ν} {k : κ} {i : ι} {v : ν} (hm : m.Proper)
    (h : (i, v) ∈ m.entries k) : (m.entries k).find? (·.1 = i) = some (i, v) := by
  cases hf : (m.entries k).find? (·.1 = i) with
  | none => exact absurd (decide_eq_true rfl) (List.find?_eq_none.1 hf _ h)
  | some e =>
    have hid : e.1 = i := of_decide_eq_true (List.find?_some hf :)
    rw [List.inj_on_of_nodup_map (hm.nodup k) (List.mem_of_find?_eq_some hf) h hid]

variable [DecidableEq κ]

/-- The inner map of a key is made, unless it is there. -/
def orDefault (m : Nested κ ι ν) (k : κ) : Nested κ ι ν := Function.update m k (some (m.entries k))

/-- An inner map is removed with all its entries. -/
def clear (m : Nested κ ι ν) (k : κ) : Nested κ ι ν := Function.update m k none

section

variable {m : Nested κ ι ν} {k k' : κ} {e : ι × ν}

@[simp] theorem entries_update (inner : Option (List (ι × ν))) :
    entries (Function.update m k inner) k' = if k' = k then inner.getD [] else m.entries k' := by
  rw [entries, Function.update_apply]
  split <;> rfl

@[simp] theorem entries_orDefault : (m.orDefault k).entries k' = m.entries k' := by
  rw [orDefault, entries_update, Option.getD_some]
  split
  · rename_i h
    rw [h]
  · rfl

/-- An inner map that has an entry is there. -/
theorem orDefault_of_mem (h : e ∈ m.entries k) : m.orDefault k = m := by
  rw [entries] at h
  cases hk : m k with
  | none => simp [hk] at h
  | some inner => rw [orDefault, entries, hk, Option.getD_some, ← hk, Function.update_eq_self]

theorem entries_clear : (m.clear k).entries k' = if k' = k then [] else m.entries k' := by
  rw [clear, entries_update, Option.getD_none]

theorem mem_clear : e ∈ (m.clear k).entries k' ↔ e ∈ m.entries k' ∧ k' ≠ k := by
  rw [entries_clear]
  split
  · rename_i h
    simp [h]
  · rename_i h
    simp [h]

theorem Proper.clear (hm : m.Proper) : (m.clear k).Proper where
  nonempty k' h := by
    rw [Nested.clear, Function.update_apply] at h
    split at h
    · simp at h
    · exact hm.nonempty k' h
  nodup k' := by
    rw [entries_clear]
    split
    · exact List.nodup_nil
    · exact hm.nodup k'

end

variable [DecidableEq ι]

/-- An entry is made, in the place of one with its id. -/
def insert (m : Nested κ ι ν) (k : κ) (i : ι) (v : ν) : Nested κ ι ν :=
  Function.update m k (some ((m.entries k).filter (·.1 ≠ i) ++ [(i, v)]))

/-- An entry is removed, and the inner map with its last one. -/
def remove (m : Nested κ ι ν) (k : κ) (i : ι) : Nested κ ι ν :=
  match m k with
  | some inner =>
    let inner := inner.filter (·.1 ≠ i)
    Function.update m k (if inner.isEmpty then none else some inner)
  | none => m

variable {m : Nested κ ι ν} {k k' : κ} {i : ι} {v : ν} {e : ι × ν}

@[simp] theorem insert_orDefault : (m.orDefault k).insert k i v = m.insert k i v := by
  rw [insert, insert, entries_orDefault, orDefault, Function.update_idem]

theorem entries_insert : (m.insert k i v).entries k' =
    if k' = k then (m.entries k).filter (·.1 ≠ i) ++ [(i, v)] else m.entries k' := by
  rw [insert, entries_update, Option.getD_some]

theorem entries_remove : (m.remove k i).entries k' =
    if k' = k then (m.entries k).filter (·.1 ≠ i) else m.entries k' := by
  unfold remove
  cases hk : m k with
  | none =>
    have hnil : m.entries k = [] := by simp [entries, hk]
    simp only
    split
    · rename_i h
      rw [h, hnil, List.filter_nil]
    · rfl
  | some inner =>
    have hinner : m.entries k = inner := by simp [entries, hk]
    simp only [entries_update, hinner]
    split
    · split
      · rename_i hempty
        rw [Option.getD_none, List.isEmpty_iff.1 hempty]
      · rfl
    · rfl

theorem mem_insert : e ∈ (m.insert k i v).entries k' ↔
    (k' = k ∧ e = (i, v)) ∨ e ∈ m.entries k' ∧ ¬(k' = k ∧ e.1 = i) := by
  rw [entries_insert]
  split
  · rename_i h
    subst h
    simp [or_comm]
  · rename_i h
    simp [h]

theorem mem_remove : e ∈ (m.remove k i).entries k' ↔ e ∈ m.entries k' ∧ ¬(k' = k ∧ e.1 = i) := by
  rw [entries_remove]
  split
  · rename_i h
    subst h
    simp
  · rename_i h
    simp [h]

theorem Proper.insert (hm : m.Proper) : (m.insert k i v).Proper where
  nonempty k' h := by
    rw [Nested.insert, Function.update_apply] at h
    split at h
    · simp at h
    · exact hm.nonempty k' h
  nodup k' := by
    rw [entries_insert]
    split
    · rw [List.map_append, List.nodup_append']
      refine ⟨(hm.nodup k).sublist (List.filter_sublist.map _), List.nodup_singleton _, ?_⟩
      intro j hj hj'
      obtain ⟨e, he, rfl⟩ := List.mem_map.1 hj
      obtain rfl : e.1 = i := by simpa using hj'
      simp at he
    · exact hm.nodup k'

theorem Proper.remove (hm : m.Proper) : (m.remove k i).Proper where
  nonempty k' h := by
    unfold Nested.remove at h
    cases hk : m k with
    | none =>
      rw [hk] at h
      exact hm.nonempty k' h
    | some inner =>
      simp only [hk, Function.update_apply] at h
      split at h
      · split at h
        · simp at h
        · rename_i hempty
          exact hempty (by rw [Option.some.inj h, List.isEmpty_nil])
      · exact hm.nonempty k' h
  nodup k' := by
    rw [entries_remove]
    split
    · exact (hm.nodup k).sublist (List.filter_sublist.map _)
    · exact hm.nodup k'

end Nested
