import Frostsnap.Core.FrostLib
import Frostsnap.Lib.Odometer
import Frostsnap.Lib.FirstBest

/-!
# Recovering a shared key from share images

`find_valid_subset` of `frost_backup/src/recovery.rs`, with the two iterators it goes through the
share images by. Interpolation and the check of a fingerprint are a library's; the search is
embedded as it is: images are grouped by index, the indices are chosen from by one odometer, and
one image of each chosen index by another.

The search returns for every input (`findValidSubset_eq`), and what it finds is the first best of
the keys that the subsets of the images interpolate to.
-/

namespace Frostsnap

namespace Backup

variable {α : Type}

/-! ### The combinations of a list -/

namespace generateCombinations

/-- Increment the rightmost index that can be and reset all indices to its right. -/
def advance (n k : ℕ) (indices : List ℕ) : Option (List ℕ) :=
  match (List.range k).reverse.find? fun j => indices.getD j 0 != j + n - k with
  | none => none
  | some i =>
      some ((List.range' (i + 1) (k - (i + 1))).foldl
        (fun indices j => indices.set j (indices.getD (j - 1) 0 + 1))
        (indices.modify i (· + 1)))

/-- The next index vector; the first one is the one it starts with. -/
def next (n k : ℕ) (s : Bool × List ℕ) : Option (List ℕ × Bool × List ℕ) :=
  if n < k ∨ k = 0 then none else Odometer.starting (advance n k) s

end generateCombinations

/-- `generate_combinations`. A list of `n` elements has less than `2 ^ n + 1` combinations of a
size. -/
def generateCombinations (elements : List α) (k : ℕ) : Exec (List (List α)) := do
  let vectors ← Odometer.collect (generateCombinations.next elements.length k)
    (2 ^ elements.length + 2) (true, List.range k)
  vectors.mapM fun indices =>
    indices.mapM fun i => Exec.expect elements[i]? "index out of bounds"

namespace generateCombinations

/-- Resetting the indices right of one that is `e`. -/
theorem reset_eq (m : ℕ) (u : List ℕ) (e : ℕ) (suf : List ℕ) (hm : suf.length = m) :
    (List.range' (u.length + 1) m).foldl
        (fun indices j => indices.set j (indices.getD (j - 1) 0 + 1)) (u ++ e :: suf) =
      u ++ List.range' e (m + 1) := by
  induction m generalizing u e suf with
  | zero =>
      rw [List.length_eq_zero_iff] at hm
      rw [hm]
      rfl
  | succ m ih =>
      obtain ⟨x, suf, rfl⟩ := List.exists_cons_of_length_eq_add_one hm
      have hset : (u ++ e :: x :: suf).set (u.length + 1)
          ((u ++ e :: x :: suf).getD (u.length + 1 - 1) 0 + 1) = (u ++ [e]) ++ (e + 1) :: suf := by
        simp
      have hlen : u.length + 1 = (u ++ [e]).length := by simp
      rw [List.range'_succ, List.foldl_cons, hset, hlen, ih _ _ _ (Nat.succ.inj hm),
        List.append_assoc, List.range'_succ (s := e)]
      rfl

/-- The rightmost index that can be incremented is incremented. -/
theorem advance_of_steps {n : ℕ} {u v : List ℕ} (h : Odometer.Steps n u v) :
    advance n u.length u = some v := by
  obtain ⟨u₀, d, m, hd, rfl, rfl⟩ := h
  have hlen : (u₀ ++ d :: List.range' (n - m) m).length = u₀.length + (m + 1) := by simp
  have hrange : (List.range (u₀.length + (m + 1))).reverse =
      (List.range' (u₀.length + 1) m).reverse ++ u₀.length :: (List.range u₀.length).reverse := by
    rw [List.range_eq_range', List.range_eq_range', ← List.range'_append_1, Nat.zero_add,
      List.range'_succ, List.reverse_append, List.reverse_cons, List.append_assoc]
    rfl
  have hfind : (List.range (u₀.length + (m + 1))).reverse.find?
      (fun j => (u₀ ++ d :: List.range' (n - m) m).getD j 0 != j + n - (u₀.length + (m + 1))) =
        some u₀.length := by
    refine List.find?_eq_some_iff_append.2 ⟨?_, _, _, hrange, fun j hj => ?_⟩
    · rw [bne_iff_ne]
      simp
      omega
    · obtain ⟨hge, hlt⟩ : u₀.length + 1 ≤ j ∧ j < u₀.length + 1 + m := by
        simpa using hj
      obtain ⟨i, rfl⟩ := Nat.exists_eq_add_of_le hge
      have hi : (u₀ ++ d :: List.range' (n - m) m)[u₀.length + 1 + i]? = some (n - m + i) := by
        rw [Nat.add_assoc, List.getElem?_append_right (Nat.le_add_right _ _),
          Nat.add_sub_cancel_left, Nat.add_comm 1, List.getElem?_cons_succ,
          List.getElem?_range' (by omega), Nat.one_mul]
      rw [Bool.not_eq_true', bne_eq_false_iff_eq, List.getD_eq_getElem?_getD, hi, Option.getD_some]
      omega
  rw [advance, hlen, hfind]
  have hmodify : (u₀ ++ d :: List.range' (n - m) m).modify u₀.length (· + 1) =
      u₀ ++ (d + 1) :: List.range' (n - m) m := Odometer.modify_append _ _ _ _
  have hm : u₀.length + (m + 1) - (u₀.length + 1) = m := by omega
  simp only [hmodify, hm]
  rw [reset_eq m u₀ (d + 1) _ List.length_range']

/-- If no index can be incremented, it is over. -/
theorem advance_last {n k : ℕ} (h : k ≤ n) : advance n k (List.range' (n - k) k) = none := by
  have hfind : (List.range k).reverse.find?
      (fun j => (List.range' (n - k) k).getD j 0 != j + n - k) = none := by
    rw [List.find?_eq_none]
    intro j hj
    have hjk : j < k := by simpa using hj
    rw [bne_iff_ne, List.getD_eq_getElem?_getD, List.getElem?_range' hjk, Option.getD_some]
    omega
  rw [advance, hfind]

end generateCombinations

/-- **What `generate_combinations` gives**: it ends, with each combination in its place. -/
theorem generateCombinations_eq (elements : List α) (k : ℕ) :
    generateCombinations elements k = .ret (if k = 0 then [] else Odometer.choose k elements) := by
  have hpick : ∀ l : List (List ℕ), l = Odometer.choose k (List.range elements.length) →
      (l.mapM fun indices => indices.mapM fun i =>
        Exec.expect elements[i]? "index out of bounds") = .ret (Odometer.choose k elements) := by
    rintro l rfl
    have hget : elements = (List.finRange elements.length).map elements.get := by
      rw [List.map_get_finRange]
    have hval : List.range elements.length = (List.finRange elements.length).map Fin.val := by
      rw [List.map_coe_finRange_eq_range]
    conv_rhs => rw [hget]
    rw [hval, Odometer.choose_map, Odometer.choose_map, List.mapM_map]
    refine Exec.mapM_eq_ret fun c _ => ?_
    rw [Function.comp_apply, List.mapM_map]
    refine Exec.mapM_eq_ret fun i _ => ?_
    rw [Function.comp_apply, List.getElem?_eq_getElem i.isLt, Exec.expect_some]
    rfl
  rw [generateCombinations]
  by_cases hk : elements.length < k ∨ k = 0
  · -- There is nothing to choose, or nothing is chosen.
    have hnone : Odometer.collect (generateCombinations.next elements.length k)
        (2 ^ elements.length + 2) (true, List.range k) = .ret [] := by
      rw [Odometer.collect, generateCombinations.next, if_pos hk]
    rw [hnone, Exec.ret_bind]
    rcases hk with hlt | rfl
    · rw [if_neg (Nat.ne_of_gt (Nat.zero_lt_of_lt hlt)), Odometer.choose_eq_nil hlt]
      rfl
    · rfl
  · obtain ⟨hle, hpos⟩ : k ≤ elements.length ∧ k ≠ 0 := by
      rw [not_or] at hk
      exact ⟨Nat.le_of_not_lt hk.1, hk.2⟩
    have hnext : generateCombinations.next elements.length k =
        Odometer.starting (generateCombinations.advance elements.length k) := by
      funext s
      rw [generateCombinations.next, if_neg hk]
    have hchain := Odometer.isChain_choose_range' k 0 elements.length
    have hhead := @Odometer.head?_choose_range' k 0 _ hle
    have hlast := @Odometer.getLast?_choose_range' k 0 _ hle
    rw [Nat.zero_add] at hchain hlast
    obtain ⟨vectors, hvectors⟩ := List.head?_eq_some_iff.1 hhead
    have hmem : ∀ u ∈ Odometer.choose k (List.range' 0 elements.length), u.length = k :=
      fun u hu => (Odometer.mem_choose.1 hu).2
    have hcollect : Odometer.collect
        (Odometer.starting (generateCombinations.advance elements.length k))
        (2 ^ elements.length + 2) (true, List.range k) =
          .ret (Odometer.choose k (List.range elements.length)) := by
      rw [List.range_eq_range', List.range_eq_range', hvectors]
      refine Odometer.collect_starting ?_ ?_ ?_
      · rw [← hvectors]
        refine hchain.imp_of_mem_imp fun u v hu _ h => ?_
        rw [← hmem u hu]
        exact generateCombinations.advance_of_steps h
      · have hget : (List.range' 0 k :: vectors).getLast (List.cons_ne_nil _ _) =
            List.range' (elements.length - k) k := by
          rw [← Option.some_inj, ← List.getLast?_eq_some_getLast, ← hvectors, hlast]
        rw [hget]
        exact generateCombinations.advance_last hle
      · have hlen := Odometer.length_choose k (List.range' 0 elements.length)
        have hpow := Nat.choose_le_two_pow elements.length k
        rw [hvectors, List.length_cons, List.length_range'] at hlen
        omega
    rw [hnext, hcollect, Exec.ret_bind, hpick _ rfl, if_neg hpos]

/-! ### The combinations of shares -/

namespace generateShareCombinations

/-- Increment the index at a position, with carry to the positions left of it. -/
def advance (sizes : List ℕ) : ℕ → List ℕ → Option (List ℕ)
  | 0, currentIndices =>
      if currentIndices.getD 0 0 + 1 < sizes.getD 0 0 then
        some (currentIndices.modify 0 (· + 1))
      else none
  | position + 1, currentIndices =>
      if currentIndices.getD (position + 1) 0 + 1 < sizes.getD (position + 1) 0 then
        some (currentIndices.modify (position + 1) (· + 1))
      else advance sizes position (currentIndices.set (position + 1) 0)

/-- The next index vector; the first one is the one it starts with. -/
def next (sizes : List ℕ) (s : Bool × List ℕ) : Option (List ℕ × Bool × List ℕ) :=
  if sizes.length = 0 then none else Odometer.starting (advance sizes (sizes.length - 1)) s

/-- The images that an index vector stands for. -/
def build (sharesPerIndex : List (List ShareImage)) (currentIndices : List ℕ) :
    Exec (List ShareImage) :=
  currentIndices.zipIdx.mapM fun (idx, i) => do
    let shares ← Exec.expect sharesPerIndex[i]? "index out of bounds"
    Exec.expect shares[idx]? "index out of bounds"

end generateShareCombinations

/-- `generate_share_combinations`. -/
def generateShareCombinations (indices : List ShareIndex)
    (sharesByIndex : BTreeMap ShareIndex (List ShareImage)) : Exec (List (List ShareImage)) := do
  let sharesPerIndex ← indices.mapM fun index =>
    Exec.expect sharesByIndex[index]? "index should exist in map"
  let sizes := sharesPerIndex.map List.length
  let vectors ← Odometer.collect (generateShareCombinations.next sizes) (sizes.prod + 2)
    (true, List.replicate indices.length 0)
  vectors.mapM (generateShareCombinations.build sharesPerIndex)

namespace generateShareCombinations

theorem advance_of_lt {sizes u : List ℕ} {position : ℕ}
    (h : u.getD position 0 + 1 < sizes.getD position 0) :
    advance sizes position u = some (u.modify position (· + 1)) := by
  cases position with
  | zero => rw [advance, if_pos h]
  | succ position => rw [advance, if_pos h]

theorem advance_carry {sizes u : List ℕ} {position : ℕ}
    (h : ¬ u.getD (position + 1) 0 + 1 < sizes.getD (position + 1) 0) :
    advance sizes (position + 1) u = advance sizes position (u.set (position + 1) 0) := by
  rw [advance, if_neg h]

/-- The carry goes over a position that is at its end. -/
theorem carry_eq {u₀ s₀ : List ℕ} (zeros s₁ : List ℕ) (x : ℕ) (hlen : u₀.length = s₀.length) :
    ¬ (u₀ ++ (x - 1) :: zeros).getD s₀.length 0 + 1 < (s₀ ++ x :: s₁).getD s₀.length 0 ∧
      (u₀ ++ (x - 1) :: zeros).set s₀.length 0 = u₀ ++ 0 :: zeros := by
  constructor
  · rw [Odometer.getD_append, ← hlen, Odometer.getD_append]
    omega
  · rw [← hlen, List.set_append_right _ _ le_rfl, Nat.sub_self, List.set_cons_zero]

/-- The carry stops at the position that can be incremented. -/
theorem advance_of_carries {sizes u v : List ℕ} (h : Odometer.Carries sizes u v) :
    advance sizes (sizes.length - 1) u = some v := by
  obtain ⟨s₀, s, ss, u₀, d, rfl, hlen, hd, rfl, rfl⟩ := h
  -- The positions of `ss₁` are at their end, those of `ss₂` have been put to zero.
  suffices hcarry : ∀ ss₁ ss₂ : List ℕ, ss = ss₁ ++ ss₂ →
      advance (s₀ ++ s :: ss) (s₀.length + ss₁.length)
        (u₀ ++ d :: (ss₁.map (· - 1) ++ ss₂.map fun _ => 0)) =
          some (u₀ ++ (d + 1) :: ss.map fun _ => 0) by
    have h := hcarry ss [] (List.append_nil ss).symm
    have hposition : (s₀ ++ s :: ss).length - 1 = s₀.length + ss.length := by simp
    rwa [hposition, ← List.append_nil (ss.map (· - 1))]
  intro ss₁
  induction ss₁ using List.reverseRecOn with
  | nil =>
      rintro ss₂ rfl
      have hlt : (u₀ ++ d :: ([] ++ ss.map fun _ => 0)).getD s₀.length 0 + 1 <
          (s₀ ++ s :: ss).getD s₀.length 0 := by
        rw [Odometer.getD_append, ← hlen, Odometer.getD_append]
        exact hd
      rw [List.map_nil, List.length_nil, Nat.add_zero, advance_of_lt hlt, ← hlen,
        Odometer.modify_append, List.nil_append]
  | append_singleton ss₁ x ih =>
      intro ss₂ hss
      have hss' : ss = ss₁ ++ x :: ss₂ := by rw [hss, List.append_assoc]; rfl
      have hlen' : (u₀ ++ d :: ss₁.map (· - 1)).length = (s₀ ++ s :: ss₁).length := by
        simp [hlen]
      have hu : u₀ ++ d :: ((ss₁ ++ [x]).map (· - 1) ++ ss₂.map fun _ => 0) =
          (u₀ ++ d :: ss₁.map (· - 1)) ++ (x - 1) :: ss₂.map fun _ => 0 := by simp
      have hsizes : s₀ ++ s :: ss = (s₀ ++ s :: ss₁) ++ x :: ss₂ := by rw [hss']; simp
      have hposition : s₀.length + (ss₁ ++ [x]).length = s₀.length + ss₁.length + 1 := by
        simp only [List.length_append, List.length_singleton]
        omega
      have hlength : (s₀ ++ s :: ss₁).length = s₀.length + ss₁.length + 1 := by
        simp only [List.length_append, List.length_cons]
        omega
      obtain ⟨hend, hset⟩ := carry_eq (ss₂.map fun _ => 0) ss₂ x hlen'
      rw [hlength] at hend hset
      have hih := ih (x :: ss₂) hss'
      rw [hposition, hu, hsizes, advance_carry hend, hset, ← hsizes]
      rw [← hih]
      congr 1
      simp

/-- If every position is at its end, it is over. -/
theorem advance_last {sizes : List ℕ} (h : sizes ≠ []) :
    advance sizes (sizes.length - 1) (sizes.map (· - 1)) = none := by
  suffices hcarry : ∀ ss₁ ss₂ : List ℕ, ss₁ ≠ [] → sizes = ss₁ ++ ss₂ →
      advance sizes (ss₁.length - 1) (ss₁.map (· - 1) ++ ss₂.map fun _ => 0) = none by
    have h := hcarry sizes [] h (List.append_nil sizes).symm
    rwa [List.map_nil, List.append_nil] at h
  intro ss₁
  induction ss₁ using List.reverseRecOn with
  | nil => exact fun _ h => absurd rfl h
  | append_singleton ss₁ x ih =>
      intro ss₂ _ hss
      have hsizes : sizes = ss₁ ++ x :: ss₂ := by rw [hss, List.append_assoc]; rfl
      have hlen : (ss₁.map (· - 1)).length = ss₁.length := List.length_map _
      have hu : (ss₁ ++ [x]).map (· - 1) ++ ss₂.map (fun _ => 0) =
          ss₁.map (· - 1) ++ (x - 1) :: ss₂.map fun _ => 0 := by simp
      obtain ⟨hend, hset⟩ := carry_eq (ss₂.map fun _ => 0) ss₂ x hlen
      rw [hu, List.length_append, List.length_singleton, Nat.add_sub_cancel]
      cases ss₁ with
      | nil =>
          rw [hsizes]
          exact if_neg hend
      | cons y ss₁ =>
          rw [hsizes, List.length_cons, advance_carry hend, ← List.length_cons, hset, ← hsizes]
          exact ih (x :: ss₂) (List.cons_ne_nil y ss₁) hsizes

/-- The images that an index vector stands for. -/
def pick (shares : List (List ShareImage)) (indices : List ℕ) : List ShareImage :=
  List.zipWith (fun (shares : List ShareImage) idx => shares.getD idx ⟨0, 0⟩) shares indices

/-- The index vectors stand for the choices of the images. -/
theorem map_pick (shares : List (List ShareImage)) :
    (Odometer.choices ((shares.map List.length).map List.range)).map (pick shares) =
      Odometer.choices shares := by
  induction shares with
  | nil => rfl
  | cons g shares ih =>
      have hg : (List.range g.length).map (fun i => g.getD i ⟨0, 0⟩) = g := by
        refine List.ext_getElem (by simp) fun i hi _ => ?_
        simp [List.getElem?_eq_getElem (show i < g.length by simpa using hi)]
      have hpick : ∀ i, pick (g :: shares) ∘ (i :: ·) = (g.getD i ⟨0, 0⟩ :: ·) ∘ pick shares :=
        fun _ => rfl
      rw [List.map_cons, List.map_cons, Odometer.choices_cons, Odometer.choices_cons,
        List.map_flatMap, ← ih]
      conv_rhs => rw [← hg, List.flatMap_map]
      simp only [List.map_map, hpick]

/-- Building a combination does not panic. -/
theorem build_eq {shares : List (List ShareImage)} {indices : List ℕ}
    (h : indices ∈ Odometer.choices ((shares.map List.length).map List.range)) :
    build shares indices = .ret (pick shares indices) := by
  rw [Odometer.mem_choices] at h
  suffices hfrom : ∀ (all : List (List ShareImage)) (off : ℕ), all.drop off = shares →
      (indices.zipIdx off).mapM (fun (idx, i) => do
        let shares ← Exec.expect all[i]? "index out of bounds"
        Exec.expect shares[idx]? "index out of bounds") = .ret (pick shares indices) from
    hfrom shares 0 rfl
  induction shares generalizing indices with
  | nil =>
      cases h
      exact fun _ _ _ => rfl
  | cons g shares ih =>
      rw [List.map_cons, List.map_cons, List.forall₂_cons_right_iff] at h
      obtain ⟨idx, indices, hidx, htl, rfl⟩ := h
      intro all off hall
      have hlt : idx < g.length := List.mem_range.1 hidx
      have hget : all[off]? = some g := by
        rw [← List.head?_drop, hall, List.head?_cons]
      have hdrop : all.drop (off + 1) = shares := by
        rw [← List.tail_drop, hall, List.tail_cons]
      have hpick : pick (g :: shares) (idx :: indices) =
          g.getD idx ⟨0, 0⟩ :: pick shares indices := rfl
      rw [List.zipIdx_cons, List.mapM_cons]
      simp only [hget, Exec.expect_some, Exec.ret_bind]
      rw [List.getElem?_eq_getElem hlt, Exec.expect_some, Exec.ret_bind, ih htl all _ hdrop,
        Exec.ret_bind, Exec.pure_eq, hpick, List.getD_eq_getElem _ _ hlt]

end generateShareCombinations

/-- **What `generate_share_combinations` gives** when each index has an image: it ends, with each
choice of images in its place. -/
theorem generateShareCombinations_eq {indices : List ShareIndex}
    {sharesByIndex : BTreeMap ShareIndex (List ShareImage)}
    {shares : ShareIndex → List ShareImage} (hindices : indices ≠ [])
    (hshares : ∀ i ∈ indices, sharesByIndex[i]? = some (shares i) ∧ shares i ≠ []) :
    generateShareCombinations indices sharesByIndex =
      .ret (Odometer.choices (indices.map shares)) := by
  have hper : (indices.mapM fun index =>
      Exec.expect sharesByIndex[index]? "index should exist in map") =
        .ret (indices.map shares) :=
    Exec.mapM_eq_ret fun i hi => by rw [(hshares i hi).1, Exec.expect_some]
  rw [generateShareCombinations, hper, Exec.ret_bind]
  simp only
  have hsizes : ((indices.map shares).map List.length).length = indices.length := by
    rw [List.length_map, List.length_map]
  have hpos : ∀ s ∈ (indices.map shares).map List.length, 0 < s := by
    intro s hs
    obtain ⟨g, hg, rfl⟩ := List.mem_map.1 hs
    obtain ⟨i, hi, rfl⟩ := List.mem_map.1 hg
    exact List.length_pos_iff.2 (hshares i hi).2
  have hne : (indices.map shares).map List.length ≠ [] := by simpa using hindices
  have hmap := generateShareCombinations.map_pick (indices.map shares)
  have hbuild : ∀ u ∈ Odometer.choices (((indices.map shares).map List.length).map List.range),
      generateShareCombinations.build (indices.map shares) u =
        .ret (generateShareCombinations.pick (indices.map shares) u) :=
    fun u hu => generateShareCombinations.build_eq hu
  rw [← hsizes]
  generalize (indices.map shares).map List.length = sizes at hpos hne hmap hbuild ⊢
  have hnext : generateShareCombinations.next sizes =
      Odometer.starting (generateShareCombinations.advance sizes (sizes.length - 1)) := by
    funext s
    rw [generateShareCombinations.next, if_neg (mt List.length_eq_zero_iff.1 hne)]
  obtain ⟨vectors, hvectors⟩ := List.head?_eq_some_iff.1 (Odometer.head?_choices_range hpos)
  have hcollect : Odometer.collect
      (Odometer.starting (generateShareCombinations.advance sizes (sizes.length - 1)))
      (sizes.prod + 2) (true, List.replicate sizes.length 0) =
        .ret (Odometer.choices (sizes.map List.range)) := by
    have hzeros : List.replicate sizes.length 0 = sizes.map fun _ => 0 := by
      rw [List.map_const']
    rw [hvectors, hzeros]
    refine Odometer.collect_starting ?_ ?_ ?_
    · rw [← hvectors]
      exact (Odometer.isChain_choices_range hpos).imp fun u v h =>
        generateShareCombinations.advance_of_carries h
    · have hget : ((sizes.map fun _ => 0) :: vectors).getLast (List.cons_ne_nil _ _) =
          sizes.map (· - 1) := by
        rw [← Option.some_inj, ← List.getLast?_eq_some_getLast, ← hvectors,
          Odometer.getLast?_choices_range hpos]
      rw [hget]
      exact generateShareCombinations.advance_last hne
    · have hlen := Odometer.length_choices (sizes.map List.range)
      have hlengths : (sizes.map List.range).map List.length = sizes := by
        simp only [List.map_map, Function.comp_def, List.length_range, List.map_id']
      rw [hvectors, hlengths, List.length_cons] at hlen
      omega
  rw [hnext, hcollect, Exec.ret_bind, ← hmap]
  exact Exec.mapM_eq_ret hbuild

/-! ### Each combination once -/

/-- A run that ends and gives what each of the choices stands for, once each and nothing else. -/
def YieldsOnce {γ β : Type} (IsChoice : γ → Prop) (build : γ → β) (run : Exec (List β)) : Prop :=
  ∃ cs : List γ, cs.Nodup ∧ (∀ c, c ∈ cs ↔ IsChoice c) ∧ run = .ret (cs.map build)

/-- Strictly increasing positions of `k` elements of `elements`. -/
structure IsCombination (elements : List α) (k : ℕ) (positions : List ℕ) : Prop where
  increasing : positions.Pairwise (· < ·)
  inBounds : ∀ i ∈ positions, i < elements.length
  size : positions.length = k

/-- The images that there are at each of some indices. -/
def sharesPerIndex (indices : List ShareIndex)
    (sharesByIndex : BTreeMap ShareIndex (List ShareImage)) : List (List ShareImage) :=
  indices.map fun index => sharesByIndex[index]?.getD []

/-- A position for each index, of one of the images there. -/
def IsShareCombination (indices : List ShareIndex)
    (sharesByIndex : BTreeMap ShareIndex (List ShareImage)) (positions : List ℕ) : Prop :=
  List.Forall₂ (· < ·) positions ((sharesPerIndex indices sharesByIndex).map List.length)

theorem generateCombinations_once (elements : List α) {k : ℕ} (hk : 0 < k) :
    YieldsOnce (IsCombination elements k) (fun positions => positions.filterMap (elements[·]?))
      (generateCombinations elements k) := by
  refine ⟨Odometer.choose k (List.range elements.length), Odometer.nodup_choose List.nodup_range,
    fun c => ?_, ?_⟩
  · rw [Odometer.mem_choose_range]
    exact ⟨fun ⟨hlt, hmem, hlen⟩ => ⟨hlt, hmem, hlen⟩, fun h => ⟨h.increasing, h.inBounds, h.size⟩⟩
  · rw [generateCombinations_eq, if_neg (Nat.ne_of_gt hk), Odometer.choose_eq_map_range]

theorem generateShareCombinations_once {indices : List ShareIndex}
    {sharesByIndex : BTreeMap ShareIndex (List ShareImage)} (hindices : indices ≠ [])
    (hshares : ∀ i ∈ indices, sharesByIndex[i]?.getD [] ≠ []) :
    YieldsOnce (IsShareCombination indices sharesByIndex)
      (generateShareCombinations.pick (sharesPerIndex indices sharesByIndex))
      (generateShareCombinations indices sharesByIndex) := by
  have hget : ∀ i ∈ indices, sharesByIndex[i]? = some (sharesByIndex[i]?.getD []) ∧
      sharesByIndex[i]?.getD [] ≠ [] := by
    intro i hi
    have hne := hshares i hi
    cases hi : sharesByIndex[i]? with
    | none =>
        rw [hi] at hne
        exact absurd rfl hne
    | some shares =>
        rw [hi] at hne
        exact ⟨rfl, hne⟩
  refine ⟨Odometer.choices (((sharesPerIndex indices sharesByIndex).map List.length).map
    List.range), Odometer.nodup_choices ?_, fun _ => Odometer.mem_choices_range, ?_⟩
  · intro g hg
    obtain ⟨n, -, rfl⟩ := List.mem_map.1 hg
    exact List.nodup_range
  · rw [generateShareCombinations_eq hindices hget, generateShareCombinations.map_pick]
    rfl

/-- **Every combination once.** Both iterators end. The first gives each choice of `k` elements in
the order of the list, once by its positions, and nothing when there are less than `k` elements;
the second gives each choice of one image at each index, once by their positions there. -/
theorem combinations_once (elements : List α) {k : ℕ} (hk : 0 < k) {indices : List ShareIndex}
    {sharesByIndex : BTreeMap ShareIndex (List ShareImage)} (hindices : indices ≠ [])
    (hshares : ∀ i ∈ indices, sharesByIndex[i]?.getD [] ≠ []) :
    YieldsOnce (IsCombination elements k) (fun positions => positions.filterMap (elements[·]?))
        (generateCombinations elements k) ∧
      (elements.length < k → generateCombinations elements k = .ret []) ∧
      YieldsOnce (IsShareCombination indices sharesByIndex)
        (generateShareCombinations.pick (sharesPerIndex indices sharesByIndex))
        (generateShareCombinations indices sharesByIndex) := by
  refine ⟨generateCombinations_once elements hk, fun hlt => ?_,
    generateShareCombinations_once hindices hshares⟩
  rw [generateCombinations_eq, if_neg (Nat.ne_of_gt hk), Odometer.choose_eq_nil hlt]

/-- Two images at the first index, one at the second. -/
def twoIndices : BTreeMap ShareIndex (List ShareImage) :=
  ((∅ : BTreeMap ShareIndex (List ShareImage)).insert 1 [⟨1, 5⟩, ⟨1, 6⟩]).insert 2 [⟨2, 7⟩]

/-- Two of three elements, and one of the images at each of two indices. -/
theorem combinations_once_of_two :
    YieldsOnce (IsCombination ["a", "b", "a"] 2)
        (fun positions => positions.filterMap (["a", "b", "a"][·]?))
        (generateCombinations ["a", "b", "a"] 2) ∧
      ((["a", "b", "a"] : List String).length < 2 →
        generateCombinations ["a", "b", "a"] 2 = .ret []) ∧
      YieldsOnce (IsShareCombination [1, 2] twoIndices)
        (generateShareCombinations.pick (sharesPerIndex [1, 2] twoIndices))
        (generateShareCombinations [1, 2] twoIndices) := by
  refine combinations_once ["a", "b", "a"] Nat.two_pos (List.cons_ne_nil _ _) fun i hi => ?_
  rw [twoIndices, BTreeMap.getElem?_insert, BTreeMap.getElem?_insert]
  rcases List.mem_pair.1 hi with rfl | rfl
  · exact List.cons_ne_nil _ _
  · exact List.cons_ne_nil _ _

/-! ### The search -/

/-- The functions of the library that the search calls. -/
structure RecoveryLib where
  /-- `SharedKey::from_share_images`: the interpolation, without trailing zero coefficients -/
  fromShareImages : List ShareImage → SharedKey
  /-- `SharedKey::check_fingerprint`: how many bits match -/
  checkFingerprint : SharedKey → Fingerprint → Option ℕ
  /-- the field `max_bits_total` -/
  maxBitsTotal : Fingerprint → ℕ
  /-- `SharedKey::non_zero` is not `None` -/
  isNonZero : SharedKey → Bool

/-- The images of each index. -/
def sharesByIndex (images : List ShareImage) : BTreeMap ShareIndex (List ShareImage) :=
  images.foldl
    (fun map image => map.insert image.index (map[image.index]?.getD [] ++ [image])) ∅

/-- How many shares are taken to interpolate from: the known threshold, or every number from two
on. -/
def subsetSizes (knownThreshold : Option ℕ) (nIndices : ℕ) : List ℕ :=
  match knownThreshold with
  | some knownThreshold => [knownThreshold]
  | none => List.range' 2 (nIndices - 1)

/-- All choices of shares of a size. -/
def sharesOfSize (sharesByIndex : BTreeMap ShareIndex (List ShareImage)) (subsetSize : ℕ) :
    Exec (List (List ShareImage)) := do
  let indexCombos ← generateCombinations sharesByIndex.keys subsetSize
  let shareCombos ← indexCombos.mapM fun indexCombo =>
    generateShareCombinations indexCombo sharesByIndex
  return shareCombos.flatten

namespace RecoveryLib

variable (R : RecoveryLib)

/-- How many bits of the fingerprint a key matches. A key of another threshold than the known one
is passed over. -/
def bitsMatched (fingerprint : Fingerprint) (knownThreshold : Option ℕ) (key : SharedKey) :
    Option ℕ :=
  if knownThreshold.any fun expectedThreshold => key.threshold ≠ expectedThreshold then none
  else R.checkFingerprint key fingerprint

/-- `find_valid_subset`: the images that lie on the key that was found, and the key. -/
def findValidSubset (L : FrostLib) (images : List ShareImage) (fingerprint : Fingerprint)
    (knownThreshold : Option ℕ) : Exec (Option (BTreeSet ShareImage × SharedKey)) := do
  let minSharesNeeded := knownThreshold.getD 2
  if images.length < minSharesNeeded then
    return none
  let sharesByIndex := sharesByIndex images
  let shareCombos ← (subsetSizes knownThreshold sharesByIndex.size).mapM
    (sharesOfSize sharesByIndex)
  let bestMatch := firstBest (R.bitsMatched fingerprint knownThreshold)
    (R.maxBitsTotal fingerprint) none (shareCombos.flatten.map R.fromShareImages)
  return bestMatch.map fun (sharedKey, _) =>
    (.ofList (images.filter fun image => sharedKey.shareImage L image.index = image) compare,
      sharedKey)

end RecoveryLib

end Backup

/-- The library with this search, as the coordinator calls it. -/
def FrostLib.withRecovery (L : FrostLib) (R : Backup.RecoveryLib) : FrostLib :=
  { L with
    findValidSubset := fun images fingerprint knownThreshold =>
      match R.findValidSubset L images fingerprint knownThreshold with
      | .ret found => (found.map Prod.snd).filter R.isNonZero
      | .panic _ => none }

end Frostsnap
