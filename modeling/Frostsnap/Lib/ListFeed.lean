import Mathlib.Tactic.Common
import Mathlib.Data.List.InsertIdx
import Mathlib.Data.List.Nodup
import Mathlib.Data.Option.Basic

/-!
# Edits of a list

A list that follows a table: it shows, for a list of keys, what the table has under each of them.
Whoever holds the list is told of a change as an edit at an index. The edits of the rules here keep
it true: a key at the end is inserted there, a key that goes is erased where it stood, and a value
that changes is replaced where it stands.

## Main results

* `Shows.insert`, `Shows.erase`, `Shows.replace`: one edit.
* `ListEdit.replay_append`: edits one after another.
-/

namespace Frostsnap

variable {κ ν α : Type*}

/-- An edit of a list. -/
inductive ListEdit (α : Type*) where
  | insert (index : ℕ) (a : α)
  | erase (index : ℕ)
  | replace (index : ℕ) (a : α)

namespace ListEdit

/-- An edit at an index. -/
def apply (l : List α) : ListEdit α → List α
  | insert index a => l.insertIdx index a
  | erase index => l.eraseIdx index
  | replace index a => l.set index a

/-- Applies edits in order. -/
def replay (l : List α) (edits : List (ListEdit α)) : List α := edits.foldl apply l

/-- No edit. -/
@[simp] theorem replay_nil (l : List α) : replay l [] = l := rfl

/-- One edit. -/
@[simp] theorem replay_singleton (l : List α) (edit : ListEdit α) :
    replay l [edit] = edit.apply l := rfl

/-- Edits in two goes. -/
theorem replay_append (l : List α) (edits edits' : List (ListEdit α)) :
    replay l (edits ++ edits') = replay (replay l edits) edits' :=
  List.foldl_append

end ListEdit

/-- A list is what a table has under some keys. -/
def Shows (keys : List κ) (value : κ → Option ν) (l : List ν) : Prop :=
  keys.map value = l.map some

namespace Shows

variable {keys : List κ} {value value' : κ → Option ν} {l : List ν} {k : κ} {v : ν}

/-- No keys, nothing shown. -/
theorem nil (value : κ → Option ν) : Shows [] value [] := rfl

/-- One value a key. -/
theorem length_eq (h : Shows keys value l) : l.length = keys.length := by
  have hlength := congrArg List.length h
  rw [List.length_map, List.length_map] at hlength
  exact hlength.symm

/-- There is something under every key. -/
theorem exists_value (h : Shows keys value l) (hk : k ∈ keys) : ∃ v, value k = some v := by
  have hmem : value k ∈ keys.map value := List.mem_map_of_mem hk
  rw [h] at hmem
  obtain ⟨v, -, hv⟩ := List.mem_map.1 hmem
  exact ⟨v, hv.symm⟩

/-- What is under other keys does not matter. -/
theorem congr (h : Shows keys value l) (hvalue : ∀ k ∈ keys, value' k = value k) :
    Shows keys value' l :=
  (List.map_congr_left hvalue).trans h

/-- The keys say what is shown. -/
theorem unique {l' : List ν} (h : Shows keys value l) (h' : Shows keys value l') : l = l' :=
  List.map_injective_iff.2 (Option.some_injective ν) (h.symm.trans h')

/-- **A key at the end** is inserted there. -/
theorem insert (h : Shows keys value l) (hv : value k = some v) :
    Shows (keys ++ [k]) value ((ListEdit.insert keys.length v).apply l) := by
  rw [Shows, ListEdit.apply, ← h.length_eq, List.insertIdx_length_self, List.map_append,
    List.map_append, List.map_singleton, List.map_singleton, hv, h]

variable [DecidableEq κ] {index : ℕ}

/-- **A key that goes** is erased where it stood. -/
theorem erase (h : Shows keys value l) (hkeys : keys.Nodup) (hindex : keys.idxOf? k = some index)
    (hvalue : ∀ k', k' ≠ k → value' k' = value k') :
    Shows (keys.eraseIdx index) value' ((ListEdit.erase index).apply l) := by
  obtain ⟨hlt, hk, -⟩ := List.idxOf?_eq_some_iff.1 hindex
  have hold : Shows (keys.eraseIdx index) value (l.eraseIdx index) := by
    rw [Shows, ← List.eraseIdx_map, ← List.eraseIdx_map, h]
  have hidx : keys.idxOf k = index := by
    rw [← hk]
    exact hkeys.idxOf_getElem index hlt
  refine hold.congr fun k' hk' => hvalue k' fun heq => ?_
  rw [← List.erase_eq_eraseIdx_of_idxOf hidx, heq] at hk'
  exact hkeys.not_mem_erase hk'

/-- **A value that changes** is replaced where its key stands. -/
theorem replace (h : Shows keys value l) (hkeys : keys.Nodup)
    (hindex : keys.idxOf? k = some index) (hv : value' k = some v)
    (hvalue : ∀ k', k' ≠ k → value' k' = value k') :
    Shows keys value' ((ListEdit.replace index v).apply l) := by
  obtain ⟨hlt, hk, -⟩ := List.idxOf?_eq_some_iff.1 hindex
  rw [Shows, ListEdit.apply, List.map_set, ← h, ← hv]
  refine List.ext_getElem (by rw [List.length_set, List.length_map, List.length_map]) ?_
  intro j hj hj'
  rw [List.getElem_map, List.getElem_set]
  split
  · rename_i heq
    subst heq
    rw [hk]
  · rename_i hne
    rw [List.getElem_map]
    refine hvalue _ fun heq => hne ?_
    rw [← hk] at heq
    exact (hkeys.getElem_inj_iff.1 heq).symm

end Shows

end Frostsnap
