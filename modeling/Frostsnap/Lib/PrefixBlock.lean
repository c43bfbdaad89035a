import Frostsnap.Lib.BinarySearch
import Mathlib

/-!
# Words with a prefix

In a sorted list of words those with a given prefix stand next to each other: the words before them
are less than the prefix, and a word that is not less and does not have the prefix is greater than
all that have it. `partitionPoint` finds the first of them by binary search.

## Main results

* `drop_partitionPoint`: what is behind the partition point of a partitioned list.
* `takeWhile_prefix`: the words with a prefix, from the partition point on.
-/

namespace Frostsnap

/-! ### Partition points -/

section Partition

variable {α : Type*} {P : α → Bool} {xs : List α}

/-- The index of the first element that does not have the property, by binary search. -/
def partitionPoint (P : α → Bool) (xs : List α) : ℕ :=
  let base := searchLoop (fun x => if P x then .lt else .gt) xs xs.length 0
  if xs[base]?.map P = some true then base + 1 else base

/-- A search for what is less than everything goes to the front. -/
theorem searchLoop_of_all_gt {f : α → Ordering} (hf : ∀ x ∈ xs, f x = .gt) :
    ∀ size base, base + size ≤ xs.length → searchLoop f xs size base = base := by
  intro size
  induction size using Nat.strongRecOn with
  | _ size ih =>
      intro base hlen
      rw [searchLoop]
      split
      · rename_i hsize
        have hmid : base + size / 2 < xs.length := by omega
        have hgt := hf _ (List.getElem_mem hmid)
        dsimp only
        rw [List.getElem?_eq_getElem hmid, Option.map_some, hgt, if_pos rfl]
        exact ih _ (by omega) _ (by omega)
      · rfl

/-- The elements with the property come first. -/
def Partitioned (P : α → Bool) (xs : List α) : Prop :=
  xs.Pairwise fun x y => P y = true → P x = true

theorem filter_append_filter_not (h : Partitioned P xs) :
    xs.filter P ++ xs.filter (fun x => !P x) = xs := by
  induction xs with
  | nil => rfl
  | cons x xs ih =>
      obtain ⟨hx, hxs⟩ := List.pairwise_cons.1 h
      cases hP : P x with
      | true =>
          rw [List.filter_cons_of_pos hP, List.filter_cons_of_neg (by rw [hP]; decide),
            List.cons_append, ih hxs]
      | false =>
          have hnone : xs.filter P = [] := by
            rw [List.filter_eq_nil_iff]
            intro y hy hPy
            exact absurd (hx y hy hPy) (by rw [hP]; decide)
          have hih := ih hxs
          rw [hnone, List.nil_append] at hih
          rw [List.filter_cons_of_neg (by rw [hP]; decide), hnone, List.nil_append,
            List.filter_cons_of_pos (by rw [hP]; rfl), hih]

/-- An index is before the partition point when its element has the property. -/
theorem getElem?_partitioned (h : Partitioned P xs) {i : ℕ} {x : α} (hx : xs[i]? = some x) :
    P x = true ↔ i < (xs.filter P).length := by
  rw [← filter_append_filter_not h] at hx
  rcases Nat.lt_or_ge i (xs.filter P).length with hlt | hge
  · rw [List.getElem?_append_left hlt] at hx
    exact ⟨fun _ => hlt, fun _ => (List.mem_filter.1 (List.mem_of_getElem? hx)).2⟩
  · rw [List.getElem?_append_right hge] at hx
    have hnot := (List.mem_filter.1 (List.mem_of_getElem? hx)).2
    rw [Bool.not_eq_true'] at hnot
    exact ⟨fun hP => absurd (hnot.symm.trans hP) (by decide), fun hlt => absurd hlt (not_lt.2 hge)⟩

theorem partitionPoint_eq (h : Partitioned P xs) :
    partitionPoint P xs = (xs.filter P).length := by
  have hle : (xs.filter P).length ≤ xs.length := List.length_filter_le P xs
  rw [partitionPoint]
  rcases Nat.eq_zero_or_pos (xs.filter P).length with hzero | hpos
  · -- Nothing has the property, so the search stays at the front.
    have hnone : ∀ x ∈ xs, P x = false := by
      intro x hx
      rw [Bool.eq_false_iff]
      intro hP
      exact List.ne_nil_of_mem (List.mem_filter.2 ⟨hx, hP⟩) (List.length_eq_zero_iff.1 hzero)
    have hbase := searchLoop_of_all_gt (f := fun x => if P x then Ordering.lt else .gt)
      (fun x hx => by rw [hnone x hx]; rfl) xs.length 0 (by omega)
    rw [hbase, hzero, if_neg]
    intro h
    obtain ⟨x, hx, hP⟩ := Option.map_eq_some_iff.1 h
    exact absurd ((hnone x (List.mem_of_getElem? hx)).symm.trans hP) (by decide)
  · -- The search ends at the last element that has it.
    have hbase := @searchLoop_eq _ (fun x => if P x then Ordering.lt else .gt) xs
      ((xs.filter P).length - 1) (fun i x hx => by
        have hiff := getElem?_partitioned h hx
        cases hP : P x with
        | true =>
            have hlt := hiff.1 hP
            exact iff_of_false (by decide) (by omega)
        | false =>
            have hge : ¬i < (xs.filter P).length := fun hlt => by
              rw [hiff.2 hlt] at hP
              cases hP
            exact iff_of_true rfl (by omega)) xs.length 0 (by omega) (by omega) (by omega)
    have hlast : (xs.filter P).length - 1 < xs.length := by omega
    have hP := (getElem?_partitioned h (List.getElem?_eq_getElem hlast)).2 (by omega)
    rw [hbase, List.getElem?_eq_getElem hlast, Option.map_some, hP, if_pos rfl]
    omega

/-- **Behind the partition point** are the elements without the property. -/
theorem drop_partitionPoint (h : Partitioned P xs) :
    xs.drop (partitionPoint P xs) = xs.filter fun x => !P x := by
  rw [partitionPoint_eq h]
  calc
    xs.drop (xs.filter P).length =
        (xs.filter P ++ xs.filter fun x => !P x).drop (xs.filter P).length := by
      rw [filter_append_filter_not h]
    _ = xs.filter fun x => !P x := List.drop_left

end Partition

/-! ### Prefixes -/

section Prefix

variable {α : Type*} [LinearOrder α]

/-- A word is not less than a prefix of it. -/
theorem not_lt_of_isPrefix {p w : List α} (h : p <+: w) : ¬w < p := by
  obtain ⟨t, rfl⟩ := h
  induction p with
  | nil => exact List.not_lt_nil _
  | cons a p ih =>
      rw [List.cons_append, List.cons_lt_cons_iff]
      rintro (hlt | ⟨-, hlt⟩)
      · exact lt_irrefl a hlt
      · exact ih hlt

/-- A word that is not less than a prefix and does not have it is greater than all that do. -/
theorem lt_of_prefix {p w x : List α} (hw : ¬w < p) (hnot : ¬p <+: w) (hx : p <+: x) : x < w := by
  induction p generalizing w x with
  | nil => exact absurd List.nil_prefix hnot
  | cons a p ih =>
      cases w with
      | nil => exact absurd (List.nil_lt_cons a p) hw
      | cons b w =>
          obtain ⟨t, rfl⟩ := hx
          rw [List.cons_append, List.cons_lt_cons_iff]
          rw [List.cons_lt_cons_iff, not_or] at hw
          rcases lt_trichotomy a b with hab | rfl | hba
          · exact Or.inl hab
          · refine Or.inr ⟨rfl, ih (fun hlt => hw.2 ⟨rfl, hlt⟩) (fun hp => hnot ?_) ⟨t, rfl⟩⟩
            exact List.cons_prefix_cons.2 ⟨rfl, hp⟩
          · exact absurd hba hw.1

/-- As much of a word as a prefix has letters compares with the prefix as the word does. -/
theorem take_length_lt_iff (p w : List α) : w.take p.length < p ↔ w < p := by
  induction p generalizing w with
  | nil => exact iff_of_false (List.not_lt_nil _) (List.not_lt_nil _)
  | cons a p ih =>
      cases w with
      | nil => rfl
      | cons b w =>
          rw [List.length_cons, List.take_succ_cons, List.cons_lt_cons_iff, List.cons_lt_cons_iff,
            ih]

variable {ws : List (List α)}

theorem partitioned_lt (hsorted : ws.Pairwise (· < ·)) (p : List α) :
    Partitioned (fun w => decide (w < p)) ws := by
  refine hsorted.imp fun {v w} hvw hw => ?_
  exact decide_eq_true (lt_trans hvw (of_decide_eq_true hw))

/-- **The words with a prefix** are a block of a sorted list. -/
theorem takeWhile_prefix (hsorted : ws.Pairwise (· < ·)) {p : List α} (hge : ∀ w ∈ ws, ¬w < p) :
    (ws.takeWhile fun w => p.isPrefixOf w) = ws.filter fun w => p.isPrefixOf w := by
  induction ws with
  | nil => rfl
  | cons w ws ih =>
      obtain ⟨hw, hws⟩ := List.pairwise_cons.1 hsorted
      cases hp : p.isPrefixOf w with
      | true =>
          rw [List.takeWhile_cons_of_pos hp, List.filter_cons_of_pos hp,
            ih hws fun v hv => hge v (List.mem_cons_of_mem w hv)]
      | false =>
          have hnone : (ws.filter fun w => p.isPrefixOf w) = [] := by
            rw [List.filter_eq_nil_iff]
            intro v hv hpv
            have hlt := lt_of_prefix (hge w (List.mem_cons_self ..))
              (fun h => absurd (hp.symm.trans (List.isPrefixOf_iff_prefix.2 h)) (by decide))
              (List.isPrefixOf_iff_prefix.1 hpv)
            exact lt_asymm hlt (hw v hv)
          rw [List.takeWhile_cons_of_neg (by rw [hp]; decide),
            List.filter_cons_of_neg (by rw [hp]; decide), hnone]

/-- From the partition point on. -/
theorem takeWhile_drop_partitionPoint (hsorted : ws.Pairwise (· < ·)) (p : List α) :
    ((ws.drop (partitionPoint (fun w => decide (w < p)) ws)).takeWhile fun w => p.isPrefixOf w) =
      ws.filter fun w => p.isPrefixOf w := by
  rw [drop_partitionPoint (partitioned_lt hsorted p), takeWhile_prefix (hsorted.filter _)]
  · rw [List.filter_filter]
    refine List.filter_congr fun w _ => ?_
    cases hp : p.isPrefixOf w with
    | false => rfl
    | true =>
        rw [decide_eq_false (not_lt_of_isPrefix (List.isPrefixOf_iff_prefix.1 hp))]
        rfl
  · intro w hw
    have hnot := (List.mem_filter.1 hw).2
    rw [Bool.not_eq_true'] at hnot
    exact of_decide_eq_false hnot

end Prefix

end Frostsnap
