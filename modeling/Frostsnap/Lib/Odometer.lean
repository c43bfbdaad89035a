import Mathlib.Algebra.Group.Nat.Defs
import Mathlib.Data.List.Chain
import Mathlib.Data.List.Nodup
import Mathlib.Data.List.Range
import Mathlib.Data.List.Sort
import Mathlib.Data.Nat.Choose.Basic
import Frostsnap.Lib.Exec

/-!
# Odometers

Enumerations by an iterator that keeps a vector of positions and moves it to the next one until
it cannot. `choose` is the enumeration of the choices of `k` elements of a list, `choices` of the
choices of one element from each of several lists, both in lexicographic order. Each is a chain of
the moves of its odometer: the rightmost position that is not at its end moves by one, and
everything right of it is reset.

`collect` runs an iterator to its end. That the iterator goes on for longer than its fuel is a
panic here, so that a run that returns is one that ends.
-/

namespace Frostsnap

namespace Odometer

variable {α β σ : Type}

/-! ### Iterators -/

/-- What an iterator gives until it ends. -/
def collect (next : σ → Option (α × σ)) : ℕ → σ → Exec (List α)
  | 0, _ => .panic "the iterator goes on"
  | fuel + 1, s =>
      match next s with
      | none => .ret []
      | some (a, s) => do return a :: (← collect next fuel s)

/-- An iterator that gives the state it starts in, and then what that is moved to. -/
def starting (move : σ → Option σ) : Bool × σ → Option (σ × Bool × σ)
  | (true, s) => some (s, false, s)
  | (false, s) => (move s).map fun s => (s, false, s)

/-- An iterator that moves along a chain gives the chain. -/
theorem collect_moves {move : σ → Option σ} {s : σ} {l : List σ} {fuel : ℕ}
    (hchain : (s :: l).IsChain fun s t => move s = some t)
    (hlast : move ((s :: l).getLast (List.cons_ne_nil s l)) = none) (hfuel : l.length < fuel) :
    collect (starting move) fuel (false, s) = .ret l := by
  induction l generalizing s fuel with
  | nil =>
      obtain ⟨fuel, rfl⟩ := Nat.exists_eq_succ_of_ne_zero (Nat.ne_of_gt hfuel)
      have hnone : move s = none := hlast
      rw [collect, starting, hnone, Option.map_none]
  | cons t l ih =>
      obtain ⟨fuel, rfl⟩ := Nat.exists_eq_succ_of_ne_zero (Nat.ne_zero_of_lt hfuel)
      rw [List.isChain_cons_cons] at hchain
      rw [List.getLast_cons_cons] at hlast
      rw [collect, starting, hchain.1]
      simp only [Option.map_some]
      rw [ih hchain.2 hlast (Nat.lt_of_succ_lt_succ hfuel), Exec.ret_bind, Exec.pure_eq]

/-- `collect_moves`, from the start. -/
theorem collect_starting {move : σ → Option σ} {s : σ} {l : List σ} {fuel : ℕ}
    (hchain : (s :: l).IsChain fun s t => move s = some t)
    (hlast : move ((s :: l).getLast (List.cons_ne_nil s l)) = none)
    (hfuel : l.length + 1 < fuel) :
    collect (starting move) fuel (true, s) = .ret (s :: l) := by
  obtain ⟨fuel, rfl⟩ := Nat.exists_eq_succ_of_ne_zero (Nat.ne_zero_of_lt hfuel)
  rw [collect, starting]
  simp only
  rw [collect_moves hchain hlast (Nat.lt_of_succ_lt_succ hfuel), Exec.ret_bind, Exec.pure_eq]

/-! ### Choosing some of the elements of a list -/

/-- The choices of `k` elements of a list, in the order of their positions. -/
def choose : ℕ → List α → List (List α)
  | 0, _ => [[]]
  | _ + 1, [] => []
  | k + 1, a :: l => (choose k l).map (a :: ·) ++ choose (k + 1) l

/-- There is one choice of nothing. -/
@[simp] theorem choose_zero (l : List α) : choose 0 l = [[]] := by
  cases l <;> rfl

/-- And none of something out of nothing. -/
@[simp] theorem choose_succ_nil (k : ℕ) : choose (k + 1) ([] : List α) = [] := rfl

/-- The choices with the first element come before those without it. -/
theorem choose_succ_cons (k : ℕ) (a : α) (l : List α) :
    choose (k + 1) (a :: l) = (choose k l).map (a :: ·) ++ choose (k + 1) l := rfl

/-- Each choice is a sublist. -/
theorem mem_choose {k : ℕ} {l c : List α} :
    c ∈ choose k l ↔ c.Sublist l ∧ c.length = k := by
  induction l generalizing k c with
  | nil =>
      cases k with
      | zero => simp
      | succ k =>
          simp only [choose_succ_nil, List.not_mem_nil, List.sublist_nil, false_iff, not_and]
          rintro rfl
          exact Nat.succ_ne_zero k ∘ Eq.symm
  | cons a l ih =>
      cases k with
      | zero =>
          simp only [choose_zero, List.mem_singleton, List.length_eq_zero_iff]
          exact ⟨fun h => ⟨h ▸ List.nil_sublist _, h⟩, And.right⟩
      | succ k =>
          rw [choose_succ_cons, List.mem_append, List.mem_map]
          constructor
          · rintro (⟨c, hc, rfl⟩ | hc)
            · obtain ⟨hsub, hlen⟩ := ih.1 hc
              exact ⟨hsub.cons_cons a, congrArg Nat.succ hlen⟩
            · obtain ⟨hsub, hlen⟩ := ih.1 hc
              exact ⟨hsub.cons a, hlen⟩
          · rintro ⟨hsub, hlen⟩
            cases hsub with
            | cons _ h => exact .inr (ih.2 ⟨h, hlen⟩)
            | cons_cons _ h => exact .inl ⟨_, ih.2 ⟨h, Nat.succ.inj hlen⟩, rfl⟩

/-- There are binomially many. -/
theorem length_choose (k : ℕ) (l : List α) : (choose k l).length = l.length.choose k := by
  induction l generalizing k with
  | nil =>
      cases k with
      | zero => rfl
      | succ k => rfl
  | cons a l ih =>
      cases k with
      | zero => simp
      | succ k =>
          rw [choose_succ_cons, List.length_append, List.length_map, ih, ih, List.length_cons,
            Nat.choose_succ_succ]

/-- Choosing after mapping. -/
theorem choose_map (f : α → β) (k : ℕ) (l : List α) :
    choose k (l.map f) = (choose k l).map (List.map f) := by
  induction l generalizing k with
  | nil =>
      cases k with
      | zero => rfl
      | succ k => rfl
  | cons a l ih =>
      cases k with
      | zero => simp
      | succ k =>
          rw [List.map_cons, choose_succ_cons, choose_succ_cons, ih, ih, List.map_append,
            List.map_map, List.map_map]
          rfl

/-- Nothing else is between the choices of elements that satisfy `p`. -/
theorem choose_filter (p : α → Bool) (k : ℕ) (l : List α) :
    choose k (l.filter p) = (choose k l).filter fun c => c.all p := by
  induction l generalizing k with
  | nil =>
      cases k with
      | zero => rfl
      | succ k => rfl
  | cons a l ih =>
      cases k with
      | zero => rw [choose_zero, choose_zero]; rfl
      | succ k =>
          rw [choose_succ_cons, List.filter_append, List.filter_map, ← ih]
          cases ha : p a with
          | true =>
              have hall : ((fun c : List α => c.all p) ∘ (a :: ·)) = fun c => c.all p := by
                funext c
                rw [Function.comp_apply, List.all_cons, ha, Bool.true_and]
              rw [List.filter_cons_of_pos ha, choose_succ_cons, ih, hall]
          | false =>
              have hall : ((fun c : List α => c.all p) ∘ (a :: ·)) = fun _ => false := by
                funext c
                rw [Function.comp_apply, List.all_cons, ha, Bool.false_and]
              rw [List.filter_cons_of_neg (by rw [ha]; exact Bool.false_ne_true), hall,
                List.filter_false, List.map_nil, List.nil_append]

/-- The choices from a list without duplicates are different. -/
theorem nodup_choose {k : ℕ} {l : List α} (h : l.Nodup) : (choose k l).Nodup := by
  induction l generalizing k with
  | nil =>
      cases k with
      | zero => exact List.nodup_singleton _
      | succ k => exact List.nodup_nil
  | cons a l ih =>
      cases k with
      | zero => exact List.nodup_singleton _
      | succ k =>
          obtain ⟨ha, hl⟩ := List.nodup_cons.1 h
          rw [choose_succ_cons, List.nodup_append]
          refine ⟨(ih hl).map List.cons_injective, ih hl, ?_⟩
          -- A choice with `a` is not one of the others.
          rintro _ hu c hc rfl
          obtain ⟨u, -, rfl⟩ := List.mem_map.1 hu
          exact ha ((mem_choose.1 hc).1.subset (List.mem_cons_self ..))

/-- A choice of positions: they are strictly increasing. -/
theorem mem_choose_range {k n : ℕ} {c : List ℕ} :
    c ∈ choose k (List.range n) ↔ c.Pairwise (· < ·) ∧ (∀ i ∈ c, i < n) ∧ c.length = k := by
  rw [mem_choose]
  constructor
  · rintro ⟨hsub, hlen⟩
    exact ⟨List.pairwise_lt_range.sublist hsub, fun i hi => List.mem_range.1 (hsub.subset hi),
      hlen⟩
  · rintro ⟨hlt, hmem, hlen⟩
    have hnodup : c.Nodup := hlt.imp fun h => Nat.ne_of_lt h
    have hsubset : c ⊆ List.range n := fun i hi => List.mem_range.2 (hmem i hi)
    exact ⟨List.sublist_of_subperm_of_pairwise (List.subperm_of_subset hnodup hsubset) hlt
      List.pairwise_lt_range, hlen⟩

/-- The choices are those of positions, with the elements read at them. -/
theorem choose_eq_map_range (k : ℕ) (l : List α) :
    choose k l = (choose k (List.range l.length)).map fun c => c.filterMap (l[·]?) := by
  have hget : l = (List.finRange l.length).map l.get := by
    rw [List.map_get_finRange]
  have hval : List.range l.length = (List.finRange l.length).map Fin.val := by
    rw [List.map_coe_finRange_eq_range]
  conv_lhs => rw [hget]
  rw [hval, choose_map, choose_map, List.map_map]
  refine List.map_congr_left fun c _ => ?_
  have hread : (l[·]?) ∘ Fin.val = some ∘ l.get := by
    funext i
    exact List.getElem?_eq_getElem i.isLt
  rw [Function.comp_apply, List.filterMap_map, hread, List.filterMap_eq_map]

/-! ### The odometer of `choose` -/

/-- The wheel behind those of `u`. -/
theorem modify_append (u l : List α) (d : α) (f : α → α) :
    (u ++ d :: l).modify u.length f = u ++ f d :: l := by
  induction u with
  | nil => rfl
  | cons a u ih =>
      rw [List.cons_append, List.length_cons, List.modify_succ_cons, ih, List.cons_append]

/-- And what it shows. -/
theorem getD_append (u l : List α) (d e : α) : (u ++ d :: l).getD u.length e = d := by
  rw [List.getD_eq_getElem?_getD, List.getElem?_append_right le_rfl, Nat.sub_self,
    List.getElem?_cons_zero, Option.getD_some]

/-- A move of positions below `n`: the position `d` moves by one, those right of it are at their
end and are put right after it. -/
def Steps (n : ℕ) (u v : List ℕ) : Prop :=
  ∃ (u₀ : List ℕ) (d m : ℕ), d + m + 1 < n ∧ u = u₀ ++ d :: List.range' (n - m) m ∧
    v = u₀ ++ List.range' (d + 1) (m + 1)

/-- A step of the wheels on the right leaves a wheel on the left alone. -/
theorem Steps.cons {n : ℕ} {u v : List ℕ} (h : Steps n u v) (a : ℕ) :
    Steps n (a :: u) (a :: v) := by
  obtain ⟨u₀, d, m, hd, rfl, rfl⟩ := h
  exact ⟨a :: u₀, d, m, hd, rfl, rfl⟩

/-- There are no choices of more than there is. -/
theorem choose_eq_nil {k : ℕ} {l : List α} (h : l.length < k) : choose k l = [] := by
  rw [← List.length_eq_zero_iff, length_choose, Nat.choose_eq_zero_of_lt h]

/-- The first choice of consecutive numbers is the lowest ones. -/
theorem head?_choose_range' {k lo len : ℕ} (h : k ≤ len) :
    (choose k (List.range' lo len)).head? = some (List.range' lo k) := by
  induction len generalizing k lo with
  | zero =>
      obtain rfl := Nat.le_zero.1 h
      rfl
  | succ len ih =>
      cases k with
      | zero => rw [choose_zero]; rfl
      | succ k =>
          rw [List.range'_succ, choose_succ_cons, List.head?_append, List.head?_map,
            ih (Nat.le_of_succ_le_succ h)]
          rfl

/-- The last choice of consecutive numbers is the highest ones. -/
theorem getLast?_choose_range' {k lo len : ℕ} (h : k ≤ len) :
    (choose k (List.range' lo len)).getLast? = some (List.range' (lo + len - k) k) := by
  induction len generalizing k lo with
  | zero =>
      obtain rfl := Nat.le_zero.1 h
      rfl
  | succ len ih =>
      cases k with
      | zero => rw [choose_zero]; rfl
      | succ k =>
          rw [List.range'_succ, choose_succ_cons, List.getLast?_append]
          rcases Nat.lt_or_ge len (k + 1) with hlt | hge
          · have hk : k = len := by omega
            subst hk
            rw [choose_eq_nil (by rw [List.length_range']; exact hlt), List.getLast?_map,
              ih le_rfl]
            have hlo : lo + (k + 1) - (k + 1) = lo := by omega
            have hlo' : lo + 1 + k - k = lo + 1 := by omega
            rw [hlo, hlo', List.range'_succ]
            rfl
          · rw [ih hge, Option.some_or]
            have hlo : lo + 1 + len - (k + 1) = lo + (len + 1) - (k + 1) := by omega
            rw [hlo]

/-- The choices of positions are a chain of moves. -/
theorem isChain_choose_range' (k lo len : ℕ) :
    (choose k (List.range' lo len)).IsChain (Steps (lo + len)) := by
  induction len generalizing k lo with
  | zero =>
      cases k with
      | zero => exact .singleton _
      | succ k => exact .nil
  | succ len ih =>
      cases k with
      | zero => rw [choose_zero]; exact .singleton _
      | succ k =>
          have hn : lo + (len + 1) = lo + 1 + len := by omega
          rw [List.range'_succ, choose_succ_cons, List.isChain_append, List.isChain_map, hn]
          refine ⟨(ih k (lo + 1)).imp fun u v h => h.cons lo, ih (k + 1) (lo + 1), ?_⟩
          rintro u hu v hv
          have hk : k + 1 ≤ len := by
            by_contra hlt
            rw [choose_eq_nil (by rw [List.length_range']; omega)] at hv
            exact absurd hv (by simp)
          rw [List.getLast?_map, getLast?_choose_range' (by omega), Option.map_some,
            Option.mem_some_iff] at hu
          rw [head?_choose_range' hk, Option.mem_some_iff] at hv
          exact ⟨[], lo, k, by omega, hu.symm, hv.symm⟩

/-! ### Choosing an element of each of several lists -/

/-- The choices of one element of each list, in the order of their positions. -/
def choices : List (List α) → List (List α)
  | [] => [[]]
  | g :: gs => g.flatMap fun a => (choices gs).map (a :: ·)

/-- Without lists there is one choice. -/
@[simp] theorem choices_nil : choices ([] : List (List α)) = [[]] := rfl

/-- The first list is gone through the slowest. -/
theorem choices_cons (g : List α) (gs : List (List α)) :
    choices (g :: gs) = g.flatMap fun a => (choices gs).map (a :: ·) := rfl

/-- A choice has an element of each list. -/
theorem mem_choices {gs : List (List α)} {c : List α} :
    c ∈ choices gs ↔ List.Forall₂ (fun a g => a ∈ g) c gs := by
  induction gs generalizing c with
  | nil => simp
  | cons g gs ih =>
      rw [choices_cons, List.mem_flatMap]
      constructor
      · rintro ⟨a, ha, hmem⟩
        obtain ⟨c, hc, rfl⟩ := List.mem_map.1 hmem
        exact .cons ha (ih.1 hc)
      · intro h
        cases h with
        | cons ha hc => exact ⟨_, ha, List.mem_map.2 ⟨_, ih.2 hc, rfl⟩⟩

/-- There are as many as the product of the lengths. -/
theorem length_choices (gs : List (List α)) :
    (choices gs).length = (gs.map List.length).prod := by
  induction gs with
  | nil => rfl
  | cons g gs ih =>
      rw [choices_cons, List.length_flatMap, List.map_cons, List.prod_cons, ← ih]
      simp only [List.length_map, List.map_const', List.sum_replicate_nat]

/-- The choices from lists without duplicates are different. -/
theorem nodup_choices {gs : List (List α)} (h : ∀ g ∈ gs, g.Nodup) : (choices gs).Nodup := by
  induction gs with
  | nil => exact List.nodup_singleton _
  | cons g gs ih =>
      obtain ⟨hg, hgs⟩ := List.forall_mem_cons.1 h
      rw [choices_cons, List.nodup_flatMap]
      refine ⟨fun a _ => (ih hgs).map List.cons_injective, hg.imp fun hne => ?_⟩
      intro c hc hc'
      obtain ⟨u, -, rfl⟩ := List.mem_map.1 hc
      obtain ⟨v, -, hv⟩ := List.mem_map.1 hc'
      exact hne (List.cons.inj hv).1.symm

/-- A choice of positions below `sizes`. -/
theorem mem_choices_range {sizes c : List ℕ} :
    c ∈ choices (sizes.map List.range) ↔ List.Forall₂ (· < ·) c sizes := by
  rw [mem_choices, List.forall₂_map_right_iff]
  simp only [List.mem_range]

/-! ### The odometer of `choices` -/

/-- A move of positions below `sizes`: the position `d` moves by one, those right of it are at
their end and are put to zero. -/
def Carries (sizes u v : List ℕ) : Prop :=
  ∃ (s₀ : List ℕ) (s : ℕ) (ss u₀ : List ℕ) (d : ℕ), sizes = s₀ ++ s :: ss ∧
    u₀.length = s₀.length ∧ d + 1 < s ∧ u = u₀ ++ d :: ss.map (· - 1) ∧
    v = u₀ ++ (d + 1) :: ss.map fun _ => 0

/-- A step of the wheels on the right leaves a wheel on the left alone. -/
theorem Carries.cons {sizes u v : List ℕ} (h : Carries sizes u v) (s a : ℕ) :
    Carries (s :: sizes) (a :: u) (a :: v) := by
  obtain ⟨s₀, s', ss, u₀, d, rfl, hlen, hd, rfl, rfl⟩ := h
  exact ⟨s :: s₀, s', ss, a :: u₀, d, rfl, congrArg Nat.succ hlen, hd, rfl, rfl⟩

/-- The choices of positions below `sizes`, the first of them from `lo` on. -/
def choicesFrom (lo m : ℕ) (sizes : List ℕ) : List (List ℕ) :=
  (List.range' lo m).flatMap fun d => (choices (sizes.map List.range)).map (d :: ·)

/-- One position of the left wheel, with all of the others. -/
theorem choicesFrom_succ (lo m : ℕ) (sizes : List ℕ) :
    choicesFrom lo (m + 1) sizes =
      (choices (sizes.map List.range)).map (lo :: ·) ++ choicesFrom (lo + 1) m sizes := by
  rw [choicesFrom, List.range'_succ, List.flatMap_cons, choicesFrom]

/-- The left wheel starts at zero. -/
theorem choices_range_cons (s : ℕ) (sizes : List ℕ) :
    choices ((s :: sizes).map List.range) = choicesFrom 0 s sizes := by
  rw [List.map_cons, choices_cons, choicesFrom, List.range_eq_range']

/-- The first choice has zeros only. -/
theorem head?_choices_range {sizes : List ℕ} (h : ∀ s ∈ sizes, 0 < s) :
    (choices (sizes.map List.range)).head? = some (sizes.map fun _ => 0) := by
  induction sizes with
  | nil => rfl
  | cons s sizes ih =>
      obtain ⟨hs, htl⟩ := List.forall_mem_cons.1 h
      obtain ⟨s, rfl⟩ := Nat.exists_eq_succ_of_ne_zero (Nat.ne_of_gt hs)
      rw [choices_range_cons, choicesFrom_succ, List.head?_append, List.head?_map, ih htl]
      rfl

/-- The first choice from a position of the left wheel. -/
theorem head?_choicesFrom {lo m : ℕ} {sizes : List ℕ} (h : ∀ s ∈ sizes, 0 < s) :
    (choicesFrom lo (m + 1) sizes).head? = some (lo :: sizes.map fun _ => 0) := by
  rw [choicesFrom_succ, List.head?_append, List.head?_map, head?_choices_range h]
  rfl

/-- The last choice has the last position of the left wheel. -/
theorem getLast?_choicesFrom {lo m : ℕ} {sizes last : List ℕ}
    (h : (choices (sizes.map List.range)).getLast? = some last) :
    (choicesFrom lo (m + 1) sizes).getLast? = some ((lo + m) :: last) := by
  induction m generalizing lo with
  | zero =>
      rw [choicesFrom_succ, choicesFrom, List.range'_zero, List.flatMap_nil, List.append_nil,
        List.getLast?_map, h]
      rfl
  | succ m ih =>
      have hlo : lo + 1 + m = lo + (m + 1) := by omega
      rw [choicesFrom_succ, List.getLast?_append, ih, Option.some_or, hlo]

/-- The last choice has every wheel at its last position. -/
theorem getLast?_choices_range {sizes : List ℕ} (h : ∀ s ∈ sizes, 0 < s) :
    (choices (sizes.map List.range)).getLast? = some (sizes.map (· - 1)) := by
  induction sizes with
  | nil => rfl
  | cons s sizes ih =>
      obtain ⟨hs, htl⟩ := List.forall_mem_cons.1 h
      obtain ⟨s, rfl⟩ := Nat.exists_eq_succ_of_ne_zero (Nat.ne_of_gt hs)
      rw [choices_range_cons, getLast?_choicesFrom (ih htl), Nat.zero_add]
      rfl

/-- The choices of positions are a chain of moves. -/
theorem isChain_choices_range {sizes : List ℕ} (h : ∀ s ∈ sizes, 0 < s) :
    (choices (sizes.map List.range)).IsChain (Carries sizes) := by
  induction sizes with
  | nil => exact .singleton _
  | cons s sizes ih =>
      have htl : ∀ s' ∈ sizes, 0 < s' := (List.forall_mem_cons.1 h).2
      rw [choices_range_cons]
      -- The first position moves through `lo, …, s - 1`, each time over all of the others.
      suffices hfrom : ∀ m lo, lo + m = s →
          (choicesFrom lo m sizes).IsChain (Carries (s :: sizes)) from
        hfrom s 0 (Nat.zero_add s)
      intro m
      induction m with
      | zero => exact fun _ _ => .nil
      | succ m ihm =>
          intro lo hlo
          rw [choicesFrom_succ, List.isChain_append, List.isChain_map]
          refine ⟨(ih htl).imp fun u v huv => huv.cons s lo, ihm (lo + 1) (by omega), ?_⟩
          intro u hu v hv
          cases m with
          | zero => cases hv
          | succ m =>
              rw [List.getLast?_map, getLast?_choices_range htl, Option.map_some,
                Option.mem_some_iff] at hu
              rw [head?_choicesFrom htl, Option.mem_some_iff] at hv
              exact ⟨[], s, sizes, [], lo, rfl, rfl, by omega, hu.symm, hv.symm⟩

end Odometer

end Frostsnap
