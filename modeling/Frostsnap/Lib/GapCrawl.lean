import Mathlib.Data.Set.Lattice
import Mathlib.Tactic.Common

/-!
# Crawls with a gap limit

A wallet is restored by deriving indices from zero on, `gap` of them at first, and `gap` more after
each one that turns out to be used, until nothing more is found. What is used above a gap that is
too wide is never derived.

## Main results

* `Crawl.mem_unreached`: going through the used indices in order finds those that are never derived.
* `Crawl.Reaches.mono`: with a wider gap more is reached.
-/

namespace Frostsnap

namespace Crawl

/-- The indices that have been derived after some rounds. -/
def derived (gap : ℕ) (used : Set ℕ) : ℕ → Set ℕ
  | 0 => {i | i < gap}
  | n + 1 => derived gap used n ∪ {i | ∃ u ∈ used, u ∈ derived gap used n ∧ i ≤ u + gap}

/-- An index is derived at some time. -/
def Reaches (gap : ℕ) (used : Set ℕ) (i : ℕ) : Prop := ∃ n, i ∈ derived gap used n

/-- What is derived when everything up to `reach` has been. -/
inductive ReachedFrom (gap : ℕ) (used : Set ℕ) (reach : ℕ) : ℕ → Prop
  | window {i : ℕ} (h : i ≤ reach) : ReachedFrom gap used reach i
  | past {u i : ℕ} (hu : u ∈ used) (h : ReachedFrom gap used reach u) (hi : i ≤ u + gap) :
      ReachedFrom gap used reach i

variable {gap gap' reach : ℕ} {used used' : Set ℕ}

theorem reaches_iff (hgap : 0 < gap) {i : ℕ} :
    Reaches gap used i ↔ ReachedFrom gap used (gap - 1) i := by
  constructor
  · rintro ⟨n, hn⟩
    induction n generalizing i with
    | zero => exact .window (Nat.le_sub_one_of_lt hn)
    | succ n ih =>
        rcases hn with hn | ⟨u, hu, hun, hi⟩
        · exact ih hn
        · exact .past hu (ih hun) hi
  · intro h
    induction h with
    | window h => exact ⟨0, Nat.lt_of_le_sub_one hgap h⟩
    | past hu _ hi ih =>
        obtain ⟨n, hn⟩ := ih
        exact ⟨n + 1, .inr ⟨_, hu, hn, hi⟩⟩

/-- **A wider gap reaches more.** -/
theorem Reaches.mono (h : gap ≤ gap') {i : ℕ} (hi : Reaches gap used i) :
    Reaches gap' used i := by
  obtain ⟨n, hn⟩ := hi
  refine ⟨n, ?_⟩
  induction n generalizing i with
  | zero => exact lt_of_lt_of_le hn h
  | succ n ih =>
      rcases hn with hn | ⟨u, hu, hun, hi⟩
      · exact .inl (ih hn)
      · exact .inr ⟨u, hu, ih hun, hi.trans (Nat.add_le_add_left h u)⟩

theorem ReachedFrom.mono (h : ReachedFrom gap used reach i) (hused : used ⊆ used') :
    ReachedFrom gap used' reach i := by
  induction h with
  | window h => exact .window h
  | past hu _ hi ih => exact .past (hused hu) ih hi

/-- When everything that is used is past the window, nothing past it is reached. -/
theorem ReachedFrom.le (h : ReachedFrom gap used reach i) (hused : ∀ u ∈ used, reach < u) :
    i ≤ reach := by
  induction h with
  | window h => exact h
  | past hu _ _ ih => exact absurd ih (Nat.not_le.2 (hused _ hu))

/-! ### Going through the used indices -/

/-- The used indices that the window does not reach, which one that it reaches moves past it. -/
def unreached (gap : ℕ) : ℕ → List ℕ → List ℕ
  | _, [] => []
  | reach, i :: indices =>
      if i ≤ reach then unreached gap (i + gap) indices else i :: unreached gap reach indices

/-- **What is left over is what is never reached**, when the indices come in order. -/
theorem mem_unreached {indices : List ℕ} (hsorted : indices.Pairwise (· < ·))
    (hreach : ∀ i ∈ indices, reach ≤ i + gap) {i : ℕ} :
    i ∈ unreached gap reach indices ↔
      i ∈ indices ∧ ¬ ReachedFrom gap {u | u ∈ indices} reach i := by
  induction indices generalizing reach with
  | nil => exact iff_of_false List.not_mem_nil fun h => List.not_mem_nil h.1
  | cons j indices ih =>
      obtain ⟨hj, htl⟩ := List.pairwise_cons.1 hsorted
      rw [unreached]
      by_cases hle : j ≤ reach
      · -- The window moves past `j`.
        have hnext : ∀ i ∈ indices, j + gap ≤ i + gap := fun i hi =>
          Nat.add_le_add_right (hj i hi).le gap
        have hsame : ∀ k, ReachedFrom gap {u | u ∈ j :: indices} reach k ↔
            ReachedFrom gap {u | u ∈ indices} (j + gap) k := by
          intro k
          have hle' : reach ≤ j + gap := hreach j List.mem_cons_self
          constructor
          · intro h
            induction h with
            | window h => exact .window (h.trans hle')
            | past hu _ hi ih =>
                rcases List.mem_cons.1 hu with rfl | hu
                · exact .window hi
                · exact .past hu ih hi
          · intro h
            induction h with
            | window h => exact .past List.mem_cons_self (.window hle) h
            | past hu _ hi ih => exact .past (List.mem_cons_of_mem j hu) ih hi
        rw [if_pos hle, ih htl hnext, hsame]
        refine ⟨fun h => ⟨List.mem_cons_of_mem j h.1, h.2⟩, fun h => ⟨?_, h.2⟩⟩
        rcases List.mem_cons.1 h.1 with rfl | hi
        · exact absurd (.window (Nat.le_add_right i gap)) h.2
        · exact hi
      · -- The window stays below everything that is left.
        have hlt : reach < j := Nat.lt_of_not_le hle
        have hbelow : ∀ u ∈ j :: indices, reach < u := by
          intro u hu
          rcases List.mem_cons.1 hu with rfl | hu
          · exact hlt
          · exact hlt.trans (hj u hu)
        have hnot : ∀ u ∈ j :: indices, ¬ ReachedFrom gap {u | u ∈ j :: indices} reach u :=
          fun u hu h => Nat.not_le.2 (hbelow u hu) (h.le hbelow)
        have hrest : ∀ i ∈ indices, reach ≤ i + gap := fun i hi =>
          hreach i (List.mem_cons_of_mem j hi)
        rw [if_neg hle, List.mem_cons, ih htl hrest, List.mem_cons]
        constructor
        · rintro (rfl | ⟨hi, -⟩)
          · exact ⟨.inl rfl, hnot i List.mem_cons_self⟩
          · exact ⟨.inr hi, hnot i (List.mem_cons_of_mem j hi)⟩
        · rintro ⟨rfl | hi, h⟩
          · exact .inl rfl
          · exact .inr ⟨hi, fun hr => h (hr.mono fun _ => List.mem_cons_of_mem j)⟩

end Crawl

end Frostsnap
