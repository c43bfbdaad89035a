import Mathlib.Data.Finset.Card
import Mathlib.Data.List.Pairwise
import Mathlib.Logic.Function.Basic
import Mathlib.Order.Defs.Unbundled

/-!
# Handing out places by their keys

There are places `0, …, n - 1`, each with a key. Items come one after another; each takes the first
of the places whose key is lowest, and leaves a key of its own there, so that a place can be handed
out again when the keys that items leave are low (`handOut`). The last item at a place is the one
that stays (`lasting`).

While no item leaves a key that is low, what has been taken is at every point a lower part of the
places (`IsLowest`), and therefore the places whose rank is below the number of those taken
(`IsLowest.mem_iff`): the rank of a place is known before anything is taken.

## Main results

* `afterGifts_of_lasting`, `afterGifts_of_notMem`: what is at a place in the end.
* `handOut_lowest`: with room for every item, each takes a place of its own, and together they take
  the lowest.
-/

namespace Frostsnap

variable {α β : Type*} {r : α → α → Prop}

/-! ### Lower parts of a finite set -/

/-- The number of elements of `s` that come before `a`. -/
def rankIn (r : α → α → Prop) [DecidableRel r] (s : Finset α) (a : α) : ℕ :=
  (s.filter fun b => r b a).card

/-- Every element of `w` comes before all the others of `s`. -/
structure IsLowest (r : α → α → Prop) (s w : Finset α) : Prop where
  subset : w ⊆ s
  before : ∀ a ∈ w, ∀ b ∈ s, b ∉ w → r a b

namespace IsLowest

theorem empty (s : Finset α) : IsLowest r s ∅ where
  subset := Finset.empty_subset s
  before a ha := absurd ha (Finset.notMem_empty a)

/-- Taking the lowest of those that are left. -/
theorem insert [DecidableEq α] {s w : Finset α} {m : α} (h : IsLowest r s w) (hm : m ∈ s)
    (hlow : ∀ b ∈ s, b ∉ w → b ≠ m → r m b) : IsLowest r s (Insert.insert m w) where
  subset := Finset.insert_subset hm h.subset
  before := by
    intro a ha b hb hbw
    rw [Finset.mem_insert, not_or] at hbw
    rcases Finset.mem_insert.mp ha with rfl | ha
    · exact hlow b hb hbw.2 hbw.1
    · exact h.before a ha b hb hbw.2

/-- **What has been taken** are the elements of a rank below the number of those taken. -/
theorem mem_iff [DecidableRel r] [Std.Asymm r] {s w : Finset α} (h : IsLowest r s w) {a : α}
    (ha : a ∈ s) : a ∈ w ↔ rankIn r s a < w.card := by
  constructor
  · intro haw
    refine Finset.card_lt_card (Finset.ssubset_iff_subset_ne.mpr ⟨?_, ?_⟩)
    · -- what comes before an element that was taken was taken
      intro b hb
      obtain ⟨hbs, hba⟩ := Finset.mem_filter.mp hb
      by_contra hbw
      exact Std.Asymm.asymm _ _ hba (h.before a haw b hbs hbw)
    · intro heq
      rw [← heq] at haw
      exact Std.Asymm.asymm _ _ (Finset.mem_filter.mp haw).2 (Finset.mem_filter.mp haw).2
  · intro hlt
    by_contra haw
    -- everything that was taken comes before an element that was not
    have hle : w.card ≤ rankIn r s a := by
      refine Finset.card_le_card fun b hb => ?_
      exact Finset.mem_filter.mpr ⟨h.subset hb, h.before b hb a ha haw⟩
    omega

end IsLowest

/-! ### The first of the lowest places -/

/-- The place `i` comes before `j`: it has a lower key, or the same and is further to the front. -/
def KeyBefore (key : ℕ → ℕ) (i j : ℕ) : Prop := key i < key j ∨ (key i = key j ∧ i < j)

instance (key : ℕ → ℕ) : DecidableRel (KeyBefore key) :=
  fun i j => inferInstanceAs (Decidable (key i < key j ∨ (key i = key j ∧ i < j)))

instance (key : ℕ → ℕ) : Std.Asymm (KeyBefore key) where
  asymm i j h h' := by
    unfold KeyBefore at h h'
    omega

/-- The first of the lowest of `n` places. -/
def firstLowest (key : ℕ → ℕ) : ℕ → ℕ
  | 0 => 0
  | n + 1 =>
      let lowest := firstLowest key n
      if n ≠ 0 ∧ key n < key lowest then n else lowest

theorem firstLowest_lt (key : ℕ → ℕ) {n : ℕ} (hn : 0 < n) : firstLowest key n < n := by
  induction n with
  | zero => omega
  | succ n ih =>
      rw [firstLowest]
      split
      · exact Nat.lt_succ_self n
      · rcases Nat.eq_zero_or_pos n with rfl | hpos
        · exact Nat.zero_lt_one
        · exact (ih hpos).trans (Nat.lt_succ_self n)

/-- Every other place comes after the first of the lowest. -/
theorem keyBefore_firstLowest (key : ℕ → ℕ) {n j : ℕ} (hj : j < n) (hne : j ≠ firstLowest key n) :
    KeyBefore key (firstLowest key n) j := by
  induction n generalizing j with
  | zero => omega
  | succ n ih =>
      have hlt : n ≠ 0 → firstLowest key n < n := fun hn =>
        firstLowest_lt key (Nat.pos_of_ne_zero hn)
      have hold (hjn : j < n) : j = firstLowest key n ∨ KeyBefore key (firstLowest key n) j :=
        (eq_or_ne j (firstLowest key n)).imp_right fun hne => ih hjn hne
      rw [firstLowest] at hne ⊢
      split at hne
      · rename_i hlow
        rw [if_pos hlow]
        rcases hold (by omega) with rfl | hbefore
        · exact .inl hlow.2
        · unfold KeyBefore at hbefore
          exact .inl (by omega)
      · rename_i hlow
        rw [if_neg hlow]
        rcases Nat.lt_or_ge j n with hjn | hjn
        · exact (hold hjn).resolve_left hne
        · -- the last place is not lower than the first of the lowest before it
          obtain rfl : j = n := by omega
          have hpos : j ≠ 0 := by
            rintro rfl
            exact hne rfl
          have hbefore := hlt hpos
          rw [not_and_or, not_not] at hlow
          have hle := hlow.resolve_left hpos
          unfold KeyBefore
          omega

/-- A place that comes before every other is the first of the lowest. -/
theorem eq_firstLowest {key : ℕ → ℕ} {n i : ℕ} (hi : i < n)
    (hlow : ∀ j < n, j ≠ i → KeyBefore key i j) : i = firstLowest key n := by
  by_contra hne
  have hlt := firstLowest_lt key (Nat.zero_lt_of_lt hi)
  exact Std.Asymm.asymm _ _ (hlow _ hlt (Ne.symm hne)) (keyBefore_firstLowest key hi hne)

/-! ### Handing out -/

/-- The places that items take, one after another. -/
def handOut (n : ℕ) (leaves : α → ℕ) : (ℕ → ℕ) → List α → List (ℕ × α)
  | _, [] => []
  | key, a :: rest =>
      (firstLowest key n, a) ::
        handOut n leaves (Function.update key (firstLowest key n) (leaves a)) rest

/-- The items that no later one takes the place of. -/
def lasting (gifts : List (ℕ × α)) : List (ℕ × α) := gifts.pwFilter fun a b => a.1 ≠ b.1

/-- What is at the places when each item writes its value at the place it takes. -/
def afterGifts (value : α → β) (f : ℕ → β) (gifts : List (ℕ × α)) : ℕ → β :=
  gifts.foldl (fun f gift => Function.update f gift.1 (value gift.2)) f

theorem handOut_map_snd (n : ℕ) (leaves : α → ℕ) (key : ℕ → ℕ) (items : List α) :
    (handOut n leaves key items).map Prod.snd = items := by
  induction items generalizing key with
  | nil => rfl
  | cons a rest ih => rw [handOut, List.map_cons, ih]

theorem lasting_subset (gifts : List (ℕ × α)) : lasting gifts ⊆ gifts := List.pwFilter_subset gifts

/-- At every place that is taken some item lasts. -/
theorem mem_lasting_fst {gifts : List (ℕ × α)} {i : ℕ} :
    i ∈ (lasting gifts).map Prod.fst ↔ i ∈ gifts.map Prod.fst := by
  induction gifts with
  | nil => exact Iff.rfl
  | cons gift gifts ih =>
      by_cases hkept : ∀ later ∈ lasting gifts, gift.1 ≠ later.1
      · rw [lasting, List.pwFilter_cons_of_pos hkept, List.map_cons, List.map_cons, List.mem_cons,
          List.mem_cons]
        exact or_congr_right ih
      · rw [lasting, List.pwFilter_cons_of_neg hkept, List.map_cons, List.mem_cons]
        push Not at hkept
        obtain ⟨later, hlater, hsame⟩ := hkept
        refine ⟨fun h => .inr (ih.1 h), ?_⟩
        rintro (rfl | h)
        · exact List.mem_map.2 ⟨later, hlater, hsame.symm⟩
        · exact ih.2 h

/-- Nothing changes at a place that is not taken. -/
theorem afterGifts_of_notMem (value : α → β) (f : ℕ → β) {gifts : List (ℕ × α)} {i : ℕ}
    (hi : i ∉ gifts.map Prod.fst) : afterGifts value f gifts i = f i := by
  induction gifts generalizing f with
  | nil => rfl
  | cons gift gifts ih =>
      rw [List.map_cons, List.mem_cons, not_or] at hi
      rw [afterGifts, List.foldl_cons, ← afterGifts, ih _ hi.2, Function.update_of_ne hi.1]

/-- **The last item at a place** is what is there in the end. -/
theorem afterGifts_of_lasting (value : α → β) (f : ℕ → β) {gifts : List (ℕ × α)} {i : ℕ} {a : α}
    (h : (i, a) ∈ lasting gifts) : afterGifts value f gifts i = value a := by
  induction gifts generalizing f with
  | nil => cases h
  | cons gift gifts ih =>
      rw [afterGifts, List.foldl_cons, ← afterGifts]
      by_cases hkept : ∀ later ∈ lasting gifts, gift.1 ≠ later.1
      · rw [lasting, List.pwFilter_cons_of_pos hkept] at h
        rcases List.mem_cons.1 h with rfl | hlater
        · have hnot : i ∉ gifts.map Prod.fst := by
            intro hi
            obtain ⟨later, hlater, hsame⟩ := List.mem_map.1 (mem_lasting_fst.2 hi)
            exact hkept later hlater hsame.symm
          rw [afterGifts_of_notMem value _ hnot, Function.update_self]
        · exact ih _ hlater
      · rw [lasting, List.pwFilter_cons_of_neg hkept] at h
        exact ih _ h

/-- When no place is taken twice, every item lasts. -/
theorem lasting_of_nodup {gifts : List (ℕ × α)} (h : (gifts.map Prod.fst).Nodup) :
    lasting gifts = gifts :=
  List.pwFilter_eq_self.2 (List.pairwise_map.1 h)

/-! ### Room for every item -/

/-- The number of places whose key is below `k`. -/
def placesBelow (n : ℕ) (key : ℕ → ℕ) (k : ℕ) : ℕ := ((Finset.range n).filter (key · < k)).card

/-- The places `w` are the lowest and were taken, and the keys they have now are so high that there
is a lower place left for each of `more` items. -/
structure TakenLowest (n : ℕ) (key : ℕ → ℕ) (w : Finset ℕ) (now : ℕ → ℕ) (more : ℕ) : Prop where
  lowest : IsLowest (KeyBefore key) (Finset.range n) w
  kept : ∀ i, i ∉ w → now i = key i
  high : ∀ i ∈ w, w.card + more ≤ placesBelow n key (now i)

namespace TakenLowest

variable {n more : ℕ} {key now : ℕ → ℕ} {w : Finset ℕ}

theorem start (n : ℕ) (key : ℕ → ℕ) (more : ℕ) : TakenLowest n key ∅ key more where
  lowest := .empty _
  kept _ _ := rfl
  high i hi := absurd hi (Finset.notMem_empty i)

/-- A place that is left has a lower key than `k`. -/
theorem exists_left (h : TakenLowest n key w now more) {k : ℕ} (hk : w.card < placesBelow n key k) :
    ∃ l < n, l ∉ w ∧ now l < k := by
  obtain ⟨l, hl, hlw⟩ := Finset.exists_mem_notMem_of_card_lt_card hk
  obtain ⟨hln, hlk⟩ := Finset.mem_filter.1 hl
  exact ⟨l, Finset.mem_range.1 hln, hlw, h.kept l hlw ▸ hlk⟩

/-- The next place that is taken was not taken before. -/
theorem firstLowest_notMem (h : TakenLowest n key w now (more + 1)) :
    firstLowest now n ∉ w := by
  intro hmem
  have hhigh := h.high _ hmem
  obtain ⟨l, hln, hlw, hlow⟩ := h.exists_left (k := now (firstLowest now n)) (by omega)
  have hbefore := keyBefore_firstLowest now hln fun heq => hlw (heq ▸ hmem)
  unfold KeyBefore at hbefore
  omega

/-- **Taking a place** when there is room for what is left there. -/
theorem take (h : TakenLowest n key w now (more + 1)) {k : ℕ}
    (hroom : w.card + (more + 1) ≤ placesBelow n key k) :
    TakenLowest n key (insert (firstLowest now n) w) (Function.update now (firstLowest now n) k)
      more := by
  have hnew := h.firstLowest_notMem
  have hcard : (insert (firstLowest now n) w).card = w.card + 1 := Finset.card_insert_of_notMem hnew
  constructor
  case lowest =>
    obtain ⟨l, hln, -⟩ := h.exists_left (k := k) (by omega)
    have hlt := firstLowest_lt now (Nat.zero_lt_of_lt hln)
    refine h.lowest.insert (Finset.mem_range.2 hlt) fun b hb hbw hne => ?_
    have hbefore := keyBefore_firstLowest now (Finset.mem_range.1 hb) hne
    rwa [KeyBefore, h.kept _ hnew, h.kept b hbw] at hbefore
  case kept =>
    intro i hi
    rw [Finset.mem_insert, not_or] at hi
    rw [Function.update_of_ne hi.1, h.kept i hi.2]
  case high =>
    intro i hi
    rw [hcard]
    rcases Finset.mem_insert.1 hi with rfl | hiw
    · rw [Function.update_self]
      omega
    · have hne : i ≠ firstLowest now n := fun heq => hnew (heq ▸ hiw)
      have hhigh := h.high i hiw
      rw [Function.update_of_ne hne]
      omega

/-- **Taking a place for each item**, when there is room for what each leaves. -/
theorem handOut {leaves : α → ℕ} {items : List α} (h : TakenLowest n key w now items.length)
    (hroom : ∀ a ∈ items, w.card + items.length ≤ placesBelow n key (leaves a)) :
    ((Frostsnap.handOut n leaves now items).map Prod.fst).Nodup ∧
      (∀ i ∈ (Frostsnap.handOut n leaves now items).map Prod.fst, i ∉ w) ∧
      IsLowest (KeyBefore key) (Finset.range n)
        (w ∪ ((Frostsnap.handOut n leaves now items).map Prod.fst).toFinset) := by
  induction items generalizing w now with
  | nil =>
      rw [Frostsnap.handOut, List.map_nil, List.toFinset_nil, Finset.union_empty]
      exact ⟨List.nodup_nil, fun _ hi => absurd hi List.not_mem_nil, h.lowest⟩
  | cons a rest ih =>
      rw [List.length_cons] at h hroom
      have hnew := h.firstLowest_notMem
      have hcard : (insert (firstLowest now n) w).card = w.card + 1 :=
        Finset.card_insert_of_notMem hnew
      obtain ⟨hnodup, hapart, hlowest⟩ := ih (h.take (hroom a List.mem_cons_self))
        (fun b hb => by
          have hb := hroom b (List.mem_cons_of_mem a hb)
          omega)
      rw [Frostsnap.handOut, List.map_cons, List.toFinset_cons, Finset.union_insert,
        ← Finset.insert_union]
      refine ⟨List.nodup_cons.2 ⟨fun hi => hapart _ hi (Finset.mem_insert_self _ _), hnodup⟩, ?_,
        hlowest⟩
      intro i hi hiw
      rcases List.mem_cons.1 hi with rfl | hi
      · exact hnew hiw
      · exact hapart i hi (Finset.mem_insert_of_mem hiw)

end TakenLowest

/-- **With room for every item**, each takes a place of its own, and they take the lowest places:
each item leaves a key that as many places are below as there are items. -/
theorem handOut_lowest {n : ℕ} {leaves : α → ℕ} {key : ℕ → ℕ} {items : List α}
    (hroom : ∀ a ∈ items, items.length ≤ placesBelow n key (leaves a)) :
    ((handOut n leaves key items).map Prod.fst).Nodup ∧
      IsLowest (KeyBefore key) (Finset.range n)
        ((handOut n leaves key items).map Prod.fst).toFinset := by
  obtain ⟨hnodup, -, hlowest⟩ := (TakenLowest.start n key items.length).handOut
    (fun a ha => by rw [Finset.card_empty, Nat.zero_add]; exact hroom a ha)
  rw [Finset.empty_union] at hlowest
  exact ⟨hnodup, hlowest⟩

end Frostsnap
