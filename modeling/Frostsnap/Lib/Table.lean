import Mathlib.Tactic.Common
import Mathlib.Data.List.Basic
import Mathlib.Data.List.Nodup

/-!
# Tables with a primary key

A table of a database, as the statements that insert, replace and delete rows see it: rows that
each have a key and a value, no two with the same key. Inserting a row with a key that is there
fails; nothing else does.

## Main results

* `Table.mem_rows_iff`: the rows are the entries that are found by their keys.
* `Table.get?_insert`, `Table.get?_insertOrReplace`, `Table.get?_deleteWhere`: what is found after
  each statement.
-/

namespace Frostsnap

/-- A table. -/
structure Table (κ ν : Type*) where
  rows : List (κ × ν)
  nodup : (rows.map Prod.fst).Nodup

namespace Table

variable {κ ν : Type*}

/-- A table without rows. -/
def empty : Table κ ν where
  rows := []
  nodup := List.nodup_nil

/-- `DELETE`. -/
def deleteWhere (t : Table κ ν) (p : κ → Bool) : Table κ ν where
  rows := t.rows.filter fun row => !p row.1
  nodup := t.nodup.sublist (List.Sublist.map _ List.filter_sublist)

variable [DecidableEq κ]

/-- The value with a key. -/
def get? (t : Table κ ν) (k : κ) : Option ν :=
  (t.rows.find? fun row => row.1 = k).map Prod.snd

/-- `INSERT`: `none` when the key is there. -/
def insert (t : Table κ ν) (k : κ) (v : ν) : Option (Table κ ν) :=
  if h : k ∈ t.rows.map Prod.fst then none
  else
    some
      { rows := t.rows ++ [(k, v)]
        nodup := by
          rw [List.map_append, List.nodup_append]
          refine ⟨t.nodup, List.nodup_singleton k, fun a ha b hb => ?_⟩
          obtain rfl := List.mem_singleton.1 hb
          exact fun heq => h (heq ▸ ha) }

/-- `INSERT OR REPLACE`. -/
def insertOrReplace (t : Table κ ν) (k : κ) (v : ν) : Table κ ν where
  rows := (t.deleteWhere (· = k)).rows ++ [(k, v)]
  nodup := by
    rw [List.map_append, List.nodup_append]
    refine ⟨(t.deleteWhere (· = k)).nodup, List.nodup_singleton k, fun a ha b hb => ?_⟩
    obtain rfl := List.mem_singleton.1 hb
    obtain ⟨row, hrow, rfl⟩ := List.mem_map.1 ha
    have hkeep := (List.mem_filter.1 hrow).2
    simpa using hkeep

/-- **The rows** are the entries that are found by their keys. -/
theorem mem_rows_iff {t : Table κ ν} {k : κ} {v : ν} : (k, v) ∈ t.rows ↔ t.get? k = some v := by
  obtain ⟨rows, hnodup⟩ := t
  simp only [get?]
  induction rows with
  | nil => simp
  | cons row rows ih =>
      obtain ⟨k', v'⟩ := row
      rw [List.map_cons, List.nodup_cons] at hnodup
      rw [List.mem_cons, List.find?_cons]
      by_cases hk : k' = k
      · subst hk
        have hnot : (k', v) ∉ rows := fun hmem =>
          hnodup.1 (List.mem_map.2 ⟨_, hmem, rfl⟩)
        simp [hnot, eq_comm]
      · have hne : (k, v) ≠ (k', v') := fun heq => hk (Prod.mk.inj heq).1.symm
        simp only [hk, decide_false]
        rw [← ih hnodup.2]
        exact or_iff_right hne

theorem mem_keys_iff {t : Table κ ν} {k : κ} : k ∈ t.rows.map Prod.fst ↔
    ∃ v, t.get? k = some v := by
  rw [List.mem_map]
  constructor
  · rintro ⟨⟨k, v⟩, hmem, rfl⟩
    exact ⟨v, mem_rows_iff.1 hmem⟩
  · rintro ⟨v, hv⟩
    exact ⟨(k, v), mem_rows_iff.2 hv, rfl⟩

@[simp] theorem get?_empty (k : κ) : (empty : Table κ ν).get? k = none := rfl

/-- A row is inserted exactly when its key is not there. -/
theorem insert_eq_none_iff {t : Table κ ν} {k : κ} {v : ν} :
    t.insert k v = none ↔ ∃ v', t.get? k = some v' := by
  rw [← mem_keys_iff, insert]
  split
  · rename_i h
    exact iff_of_true rfl h
  · rename_i h
    exact iff_of_false (fun hnone => by cases hnone) h

theorem get?_insert {t t' : Table κ ν} {k : κ} {v : ν} (h : t.insert k v = some t') (a : κ) :
    t'.get? a = if k = a then some v else t.get? a := by
  rw [insert] at h
  split at h
  · cases h
  rename_i hnew
  obtain rfl := Option.some.inj h
  refine Option.ext fun w => ?_
  rw [← mem_rows_iff, List.mem_append, List.mem_singleton, Prod.mk.injEq]
  split
  · rename_i hk
    subst hk
    have hnot : (k, w) ∉ t.rows := fun hmem => hnew (List.mem_map.2 ⟨_, hmem, rfl⟩)
    simp [hnot, eq_comm]
  · rename_i hk
    rw [← mem_rows_iff]
    exact or_iff_left fun heq => hk heq.1.symm

theorem get?_deleteWhere (t : Table κ ν) (p : κ → Bool) (a : κ) :
    (t.deleteWhere p).get? a = if p a then none else t.get? a := by
  refine Option.ext fun w => ?_
  rw [← mem_rows_iff, deleteWhere, List.mem_filter]
  split
  · rename_i hp
    simp [hp]
  · rename_i hp
    rw [← mem_rows_iff]
    simp [hp]

theorem get?_insertOrReplace (t : Table κ ν) (k : κ) (v : ν) (a : κ) :
    (t.insertOrReplace k v).get? a = if k = a then some v else t.get? a := by
  refine Option.ext fun w => ?_
  have hrest : (a, w) ∈ (t.deleteWhere (· = k)).rows ↔
      (if a = k then none else t.get? a) = some w := by
    rw [mem_rows_iff, get?_deleteWhere]
    simp
  rw [← mem_rows_iff, insertOrReplace, List.mem_append, List.mem_singleton, Prod.mk.injEq, hrest]
  by_cases hk : k = a
  · simp [hk, eq_comm]
  · have hk' : ¬ a = k := fun h => hk h.symm
    simp [hk, hk']

end Table

end Frostsnap
