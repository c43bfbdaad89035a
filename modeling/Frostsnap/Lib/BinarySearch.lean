import Mathlib.Tactic.Common
import Mathlib.Data.List.Basic

/-!
# Binary search

`binarySearchBy` is the loop of the `binary_search_by` of a slice: it halves the size of the part
that is left, and only the last comparison decides whether the element is there. What it finds is
always a match, and in a slice where the comparison changes at one place only it finds the match
there.
-/

namespace Frostsnap

variable {α : Type*}

/-- The loop: the element is in the part of `size` elements from `base` on, if anywhere. -/
def searchLoop (f : α → Ordering) (xs : List α) (size base : ℕ) : ℕ :=
  if 1 < size then
    let half := size / 2
    let mid := base + half
    searchLoop f xs (size - half) (if xs[mid]?.map f = some .gt then base else mid)
  else base
termination_by size

/-- `binary_search_by`, `f` comparing an element with the one that is looked for. -/
def binarySearchBy (f : α → Ordering) (xs : List α) : Option ℕ :=
  let base := searchLoop f xs xs.length 0
  if xs[base]?.map f = some .eq then some base else none

/-- The search narrows down to the place where the comparison changes. -/
theorem searchLoop_eq {f : α → Ordering} {xs : List α} {k : ℕ}
    (hf : ∀ i x, xs[i]? = some x → (f x = .gt ↔ k < i)) :
    ∀ size base, base ≤ k → k < base + size → base + size ≤ xs.length →
      searchLoop f xs size base = k := by
  intro size
  induction size using Nat.strongRecOn with
  | _ size ih =>
      intro base hbase hk hlen
      rw [searchLoop]
      split
      · rename_i hsize
        have hmid : base + size / 2 < xs.length := by omega
        have hchange := hf _ _ (List.getElem?_eq_getElem hmid)
        simp only [List.getElem?_eq_getElem hmid, Option.map_some, Option.some.injEq]
        by_cases hgt : f xs[base + size / 2] = .gt
        · have := hchange.mp hgt
          rw [if_pos hgt]
          exact ih _ (by omega) _ hbase (by omega) (by omega)
        · have hle : ¬ k < base + size / 2 := fun h => hgt (hchange.mpr h)
          rw [if_neg hgt]
          exact ih _ (by omega) _ (by omega) (by omega) (by omega)
      · omega

/-- What is found matches. -/
theorem binarySearchBy_sound {f : α → Ordering} {xs : List α} {k : ℕ}
    (h : binarySearchBy f xs = some k) : ∃ x, xs[k]? = some x ∧ f x = .eq := by
  simp only [binarySearchBy] at h
  split at h
  · rename_i heq
    cases h
    obtain ⟨x, hx, hfx⟩ := Option.map_eq_some_iff.mp heq
    exact ⟨x, hx, hfx⟩
  · cases h

/-- The match is found where everything before it is less and everything after it is greater. -/
theorem binarySearchBy_complete {f : α → Ordering} {xs : List α} {k : ℕ} {x : α}
    (hx : xs[k]? = some x) (hfx : f x = .eq)
    (hf : ∀ i x, xs[i]? = some x → (f x = .gt ↔ k < i)) : binarySearchBy f xs = some k := by
  have hlt := (List.getElem?_eq_some_iff.mp hx).1
  have hloop := searchLoop_eq hf xs.length 0 (Nat.zero_le k) (by omega) (by omega)
  simp only [binarySearchBy, hloop, hx, Option.map_some, hfx, if_true]

end Frostsnap
