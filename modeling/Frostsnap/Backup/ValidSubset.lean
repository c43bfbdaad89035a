import Frostsnap.Backup.Recovery

/-!
# The subset that the search finds

The search goes through the choices of share images with different indices (`subsets`), of the
known size or of every size from two on, and finds the first best of the keys that these
interpolate to (`findValidSubset_returns`). What is proved of that is how it changes with the
images: a key that was found is found again when its threshold is known, when images are added
that no other key gains from, and when an image is left out that is not on it.

That interpolation goes through the images it is given, and is the only one of a degree that does,
is `InterpolatesOn`.
-/

namespace Frostsnap

namespace Backup

/-! ### The images of an index -/

/-- The images with an index. -/
def imagesAt (images : List ShareImage) (i : ShareIndex) : List ShareImage :=
  images.filter fun image => image.index = i

theorem mem_imagesAt {images : List ShareImage} {i : ShareIndex} {image : ShareImage} :
    image ∈ imagesAt images i ↔ image ∈ images ∧ image.index = i := by
  rw [imagesAt, List.mem_filter, decide_eq_true_iff]

theorem imagesAt_eq_nil {images : List ShareImage} {i : ShareIndex} :
    imagesAt images i = [] ↔ ∀ image ∈ images, image.index ≠ i := by
  rw [imagesAt, List.filter_eq_nil_iff]
  simp only [decide_eq_true_iff]

theorem getElem?_sharesByIndex (images : List ShareImage) (i : ShareIndex) :
    (sharesByIndex images)[i]? =
      if imagesAt images i = [] then none else some (imagesAt images i) := by
  induction images using List.reverseRecOn with
  | nil => rfl
  | append_singleton images image ih =>
      have hfold : sharesByIndex (images ++ [image]) =
          (sharesByIndex images).insert image.index
            ((sharesByIndex images)[image.index]?.getD [] ++ [image]) := by
        rw [sharesByIndex, List.foldl_append]
        rfl
      rw [hfold, BTreeMap.getElem?_insert]
      by_cases hi : image.index = i
      · have hat : imagesAt (images ++ [image]) i = imagesAt images i ++ [image] := by
          rw [imagesAt, imagesAt, List.filter_append]
          simp [hi]
        have hget : (sharesByIndex images)[image.index]?.getD [] = imagesAt images i := by
          rw [hi, ih]
          split
          · rename_i hnil
            rw [hnil, Option.getD_none]
          · rfl
        rw [if_pos hi, hget, hat, if_neg (List.append_ne_nil_of_right_ne_nil _
          (List.cons_ne_nil _ _))]
      · have hat : imagesAt (images ++ [image]) i = imagesAt images i := by
          rw [imagesAt, imagesAt, List.filter_append]
          simp [hi]
        rw [if_neg hi, ih, hat]

/-- The indices of images, from small to large. -/
def indices (images : List ShareImage) : List ShareIndex := (sharesByIndex images).keys

theorem mem_indices {images : List ShareImage} {i : ShareIndex} :
    i ∈ indices images ↔ ∃ image ∈ images, image.index = i := by
  rw [indices, Std.ExtTreeMap.mem_keys, BTreeMap.mem_iff_getElem?, getElem?_sharesByIndex]
  by_cases h : imagesAt images i = []
  · rw [if_pos h]
    rw [imagesAt_eq_nil] at h
    constructor
    · rintro ⟨v, ⟨⟩⟩
    · rintro ⟨image, hmem, hi⟩
      exact absurd hi (h image hmem)
  · rw [if_neg h]
    obtain ⟨image, himage⟩ := List.exists_mem_of_ne_nil _ h
    rw [mem_imagesAt] at himage
    exact ⟨fun _ => ⟨image, himage⟩, fun _ => ⟨_, rfl⟩⟩

/-- The order of indices. -/
def Before (i j : ShareIndex) : Prop := compare i j = .lt

instance : Std.Irrefl Before where
  irrefl i h := by
    have heq : compare i i = .eq := Std.ReflCmp.compare_self
    cases heq.symm.trans h

instance : Std.Antisymm Before where
  antisymm i j h h' := by
    have hswap : compare j i = (compare i j).swap := Std.OrientedCmp.eq_swap
    rw [h, Ordering.swap_lt] at hswap
    cases hswap.symm.trans h'

theorem indices_sorted (images : List ShareImage) : (indices images).Pairwise Before :=
  Std.ExtTreeMap.ordered_keys

/-! ### Choices of images with different indices -/

/-- The choices of `size` images, with different ones of the indices `idx`. -/
def subsetsOver (idx : List ShareIndex) (images : List ShareImage) (size : ℕ) :
    List (List ShareImage) :=
  (Odometer.choose size idx).flatMap fun combo => Odometer.choices (combo.map (imagesAt images))

/-- The choices of `size` images of different indices; not of none. -/
def subsets (images : List ShareImage) (size : ℕ) : List (List ShareImage) :=
  if size = 0 then [] else subsetsOver (indices images) images size

/-- Images with different indices, from small to large. -/
structure IsChoice (images c : List ShareImage) : Prop where
  ne_nil : c ≠ []
  sorted : (c.map ShareImage.index).Pairwise Before
  mem : ∀ image ∈ c, image ∈ images

namespace IsChoice

variable {images images' c : List ShareImage}

theorem mono (h : IsChoice images c) (hmem : ∀ image ∈ c, image ∈ images') :
    IsChoice images' c := ⟨h.ne_nil, h.sorted, hmem⟩

theorem nodup (h : IsChoice images c) : c.Nodup := List.Nodup.of_map ShareImage.index h.sorted.nodup

/-- There are at least as many images as are chosen. -/
theorem length_le (h : IsChoice images c) : c.length ≤ images.length :=
  (h.nodup.subperm h.mem).length_le

/-- A part of a choice is one. -/
theorem take (h : IsChoice images c) {n : ℕ} (hn : n ≠ 0) : IsChoice images (c.take n) where
  ne_nil := by
    rw [Ne, List.take_eq_nil_iff, not_or]
    exact ⟨hn, h.ne_nil⟩
  sorted := by
    rw [List.map_take]
    exact h.sorted.sublist (List.take_sublist _ _)
  mem image hi := h.mem image (List.mem_of_mem_take hi)

theorem sublist_indices (h : IsChoice images c) :
    (c.map ShareImage.index).Sublist (indices images) := by
  refine List.sublist_of_subperm_of_pairwise (h.sorted.nodup.subperm fun i hi => ?_) h.sorted
    (indices_sorted images)
  obtain ⟨image, himage, rfl⟩ := List.mem_map.1 hi
  exact mem_indices.2 ⟨image, h.mem image himage, rfl⟩

end IsChoice

/-- Choices over a combination of indices have these indices. -/
theorem mem_choices_imagesAt {images c : List ShareImage} {combo : List ShareIndex} :
    c ∈ Odometer.choices (combo.map (imagesAt images)) ↔
      c.map ShareImage.index = combo ∧ ∀ image ∈ c, image ∈ images := by
  rw [Odometer.mem_choices, List.forall₂_map_right_iff]
  induction combo generalizing c with
  | nil =>
      rw [List.forall₂_nil_right_iff, List.map_eq_nil_iff]
      exact ⟨fun h => ⟨h, h ▸ nofun⟩, And.left⟩
  | cons i combo ih =>
      cases c with
      | nil =>
          constructor
          · rintro ⟨⟩
          · rintro ⟨⟨⟩, -⟩
      | cons image c =>
          rw [List.forall₂_cons, ih, mem_imagesAt, List.map_cons, List.cons.injEq,
            List.forall_mem_cons]
          exact ⟨fun ⟨⟨hmem, hi⟩, hc, hall⟩ => ⟨⟨hi, hc⟩, hmem, hall⟩,
            fun ⟨⟨hi, hc⟩, hmem, hall⟩ => ⟨⟨hmem, hi⟩, hc, hall⟩⟩

/-- **What the search goes through** are the choices of images with different indices. -/
theorem mem_subsets {images c : List ShareImage} {size : ℕ} :
    c ∈ subsets images size ↔ IsChoice images c ∧ c.length = size := by
  rw [subsets]
  by_cases hsize : size = 0
  · rw [if_pos hsize]
    refine ⟨fun h => absurd h List.not_mem_nil, fun ⟨h, hlen⟩ => ?_⟩
    rw [hsize, List.length_eq_zero_iff] at hlen
    exact absurd hlen h.ne_nil
  · rw [if_neg hsize, subsetsOver, List.mem_flatMap]
    constructor
    · rintro ⟨combo, hcombo, hc⟩
      obtain ⟨hsub, hlen⟩ := Odometer.mem_choose.1 hcombo
      obtain ⟨rfl, hmem⟩ := mem_choices_imagesAt.1 hc
      rw [List.length_map] at hlen
      refine ⟨⟨?_, (indices_sorted images).sublist hsub, hmem⟩, hlen⟩
      rintro rfl
      exact hsize hlen.symm
    · rintro ⟨h, hlen⟩
      exact ⟨c.map ShareImage.index, Odometer.mem_choose.2
        ⟨h.sublist_indices, (List.length_map _).trans hlen⟩, mem_choices_imagesAt.2 ⟨rfl, h.mem⟩⟩

/-! ### Leaving images out -/

/-- Indices without an image have no part in it. -/
theorem subsetsOver_filter (idx : List ShareIndex) (images : List ShareImage) (size : ℕ) :
    subsetsOver (idx.filter fun i => imagesAt images i ≠ []) images size =
      subsetsOver idx images size := by
  rw [subsetsOver, subsetsOver, Odometer.choose_filter]
  generalize Odometer.choose size idx = combos
  induction combos with
  | nil => rfl
  | cons combo combos ih =>
      rw [List.flatMap_cons]
      by_cases hall : combo.all fun i => decide (imagesAt images i ≠ [])
      · rw [List.filter_cons_of_pos (by exact hall), List.flatMap_cons, ih]
      · rw [List.filter_cons_of_neg (by exact hall), ih]
        have hnil : Odometer.choices (combo.map (imagesAt images)) = [] := by
          rw [List.eq_nil_iff_forall_not_mem]
          intro c hc
          obtain ⟨rfl, hmem⟩ := mem_choices_imagesAt.1 hc
          refine hall (List.all_eq_true.2 fun i hi => decide_eq_true ?_)
          obtain ⟨image, himage, rfl⟩ := List.mem_map.1 hi
          rw [Ne, imagesAt_eq_nil]
          exact fun h => h image (hmem image himage) rfl
        rw [hnil, List.nil_append]

/-- The indices of a part of the images are those that have an image in it. -/
theorem indices_of_subset {images images' : List ShareImage}
    (h : ∀ image ∈ images', image ∈ images) :
    indices images' = (indices images).filter fun i => imagesAt images' i ≠ [] := by
  refine List.Pairwise.eq_of_mem_iff (r := Before) (indices_sorted images')
    ((indices_sorted images).filter _) fun i => ?_
  rw [List.mem_filter, decide_eq_true_iff, Ne, imagesAt_eq_nil, mem_indices, mem_indices]
  constructor
  · rintro ⟨image, himage, hi⟩
    exact ⟨⟨image, h image himage, hi⟩, fun hnone => hnone image himage hi⟩
  · rintro ⟨-, hsome⟩
    by_contra hnone
    exact hsome fun image himage hi => hnone ⟨image, himage, hi⟩

theorem subsets_of_subset {images images' : List ShareImage}
    (h : ∀ image ∈ images', image ∈ images) (size : ℕ) :
    subsets images' size =
      if size = 0 then [] else subsetsOver (indices images) images' size := by
  rw [subsets, indices_of_subset h, subsetsOver_filter]

theorem choices_sublist {shares shares' : ShareIndex → List ShareImage}
    (h : ∀ i, (shares' i).Sublist (shares i)) (combo : List ShareIndex) :
    (Odometer.choices (combo.map shares')).Sublist (Odometer.choices (combo.map shares)) := by
  induction combo with
  | nil => exact .refl _
  | cons i combo ih =>
      rw [List.map_cons, List.map_cons, Odometer.choices_cons, Odometer.choices_cons]
      exact ((h i).flatMap _).trans (List.Sublist.flatMap_right _ fun a _ => ih.map _)

/-- Of fewer images, fewer choices are gone through, in the same order. -/
theorem subsets_sublist {images images' : List ShareImage} (h : images'.Sublist images)
    (size : ℕ) : (subsets images' size).Sublist (subsets images size) := by
  rw [subsets_of_subset fun image himage => h.subset himage, subsets]
  split
  · exact .refl _
  · exact List.Sublist.flatMap_right _ fun combo _ =>
      choices_sublist (fun i => h.filter _) combo

theorem choices_filter (p : ShareImage → Bool) (shares : List (List ShareImage)) :
    Odometer.choices (shares.map (List.filter p)) =
      (Odometer.choices shares).filter fun c => c.all p := by
  induction shares with
  | nil => rfl
  | cons g shares ih =>
      rw [List.map_cons, Odometer.choices_cons, Odometer.choices_cons, ih, List.filter_flatMap]
      induction g with
      | nil => rfl
      | cons a g ihg =>
          rw [List.flatMap_cons, ← ihg]
          cases ha : p a with
          | true =>
              rw [List.filter_cons_of_pos ha, List.flatMap_cons, List.filter_map]
              simp only [Function.comp_def, List.all_cons, ha, Bool.true_and]
          | false =>
              rw [List.filter_cons_of_neg (by rw [ha]; exact Bool.false_ne_true), List.filter_map]
              simp only [Function.comp_def, List.all_cons, ha, Bool.false_and, List.filter_false,
                List.map_nil, List.nil_append]

/-- The choices of the images that satisfy `p`. -/
theorem subsets_filter (p : ShareImage → Bool) (images : List ShareImage) (size : ℕ) :
    subsets (images.filter p) size = (subsets images size).filter fun c => c.all p := by
  rw [subsets_of_subset fun image himage => List.mem_of_mem_filter himage, subsets]
  split
  · rfl
  · rw [subsetsOver, subsetsOver, List.filter_flatMap]
    refine List.flatMap_congr fun combo _ => ?_
    rw [← choices_filter, List.map_map]
    refine congrArg Odometer.choices (List.map_congr_left fun i _ => ?_)
    rw [imagesAt, Function.comp_apply, imagesAt, List.filter_comm]

/-! ### What the search returns -/

theorem sharesOfSize_eq (images : List ShareImage) (size : ℕ) :
    sharesOfSize (sharesByIndex images) size = .ret (subsets images size) := by
  rw [sharesOfSize, generateCombinations_eq, Exec.ret_bind, subsets]
  split
  · rfl
  · rename_i hsize
    have hcombos : (Odometer.choose size (sharesByIndex images).keys).mapM (fun combo =>
        generateShareCombinations combo (sharesByIndex images)) =
          .ret ((Odometer.choose size (indices images)).map fun combo =>
            Odometer.choices (combo.map (imagesAt images))) := by
      refine Exec.mapM_eq_ret fun combo hcombo => ?_
      obtain ⟨hsub, hlen⟩ := Odometer.mem_choose.1 hcombo
      refine generateShareCombinations_eq ?_ fun i hi => ?_
      · rintro rfl
        exact hsize hlen.symm
      · obtain ⟨image, himage, hindex⟩ := mem_indices.1 (hsub.subset hi)
        have hne : imagesAt images i ≠ [] := by
          rw [Ne, imagesAt_eq_nil]
          exact fun hnone => hnone image himage hindex
        rw [getElem?_sharesByIndex, if_neg hne]
        exact ⟨rfl, hne⟩
    rw [hcombos, Exec.ret_bind, Exec.pure_eq, subsetsOver, List.flatMap_def]

/-- The choices of images that the search interpolates from. -/
def candidates (images : List ShareImage) (knownThreshold : Option ℕ) : List (List ShareImage) :=
  (subsetSizes knownThreshold (indices images).length).flatMap (subsets images)

theorem candidates_some (images : List ShareImage) (t : ℕ) :
    candidates images (some t) = subsets images t := by
  rw [candidates, subsetSizes, List.flatMap_singleton]

namespace RecoveryLib

variable {R : RecoveryLib} {L : FrostLib}

/-- **The search returns** the first best of the keys of its candidates. -/
theorem findValidSubset_eq (images : List ShareImage) (fingerprint : Fingerprint)
    (knownThreshold : Option ℕ) :
    R.findValidSubset L images fingerprint knownThreshold =
      .ret (if images.length < knownThreshold.getD 2 then none
        else (firstBest (R.bitsMatched fingerprint knownThreshold) (R.maxBitsTotal fingerprint) none
          ((candidates images knownThreshold).map R.fromShareImages)).map fun (sharedKey, _) =>
            (.ofList (images.filter fun image => sharedKey.shareImage L image.index = image)
              compare, sharedKey)) := by
  rw [findValidSubset]
  by_cases hlen : images.length < knownThreshold.getD 2
  · simp only [if_pos hlen, Exec.pure_eq]
  · have hshares : (subsetSizes knownThreshold (sharesByIndex images).size).mapM
        (sharesOfSize (sharesByIndex images)) =
          .ret ((subsetSizes knownThreshold (indices images).length).map (subsets images)) := by
      rw [indices, Std.ExtTreeMap.length_keys]
      exact Exec.mapM_eq_ret fun size _ => sharesOfSize_eq images size
    simp only [if_neg hlen]
    rw [hshares, Exec.ret_bind, Exec.pure_eq, candidates, List.flatMap_def]

/-- The search finds a key. -/
structure Finds (R : RecoveryLib) (images : List ShareImage) (fingerprint : Fingerprint)
    (knownThreshold : Option ℕ) (key : SharedKey) : Prop where
  enough : knownThreshold.getD 2 ≤ images.length
  best : IsFirstBest (R.bitsMatched fingerprint knownThreshold) (R.maxBitsTotal fingerprint)
    ((candidates images knownThreshold).map R.fromShareImages) key

theorem withRecovery_findValidSubset {images : List ShareImage} {fingerprint : Fingerprint}
    {knownThreshold : Option ℕ} {key : SharedKey} :
    (L.withRecovery R).findValidSubset images fingerprint knownThreshold = some key ↔
      R.Finds images fingerprint knownThreshold key ∧ R.isNonZero key := by
  simp only [FrostLib.withRecovery, findValidSubset_eq, Option.filter_eq_some_iff]
  refine and_congr_left fun _ => ?_
  split
  · rename_i hlen
    constructor
    · rintro ⟨⟩
    · intro h
      exact absurd h.enough (Nat.not_le_of_lt hlen)
  · rename_i hlen
    rw [Option.map_map]
    exact ⟨fun h => ⟨Nat.le_of_not_lt hlen, firstBest_eq_some_iff.1 h⟩,
      fun h => firstBest_eq_some_iff.2 h.best⟩

/-! ### Interpolation -/

/-- What interpolation does on images: the key goes through them, has no more coefficients than
they are, and is the only such one. -/
structure InterpolatesOn (R : RecoveryLib) (L : FrostLib) (images : List ShareImage) : Prop where
  lies : ∀ c, IsChoice images c → ∀ image ∈ c,
    (R.fromShareImages c).shareImage L image.index = image
  threshold_le : ∀ c, IsChoice images c → (R.fromShareImages c).threshold ≤ c.length
  unique : ∀ c c', IsChoice images c → IsChoice images c' →
    (∀ image ∈ c, (R.fromShareImages c').shareImage L image.index = image) →
    (R.fromShareImages c').threshold ≤ c.length → R.fromShareImages c = R.fromShareImages c'

theorem InterpolatesOn.mono {images images' : List ShareImage} (h : R.InterpolatesOn L images')
    (hmem : ∀ image ∈ images, image ∈ images') : R.InterpolatesOn L images where
  lies c hc := h.lies c (hc.mono fun image hi => hmem image (hc.mem image hi))
  threshold_le c hc := h.threshold_le c (hc.mono fun image hi => hmem image (hc.mem image hi))
  unique c c' hc hc' := h.unique c c' (hc.mono fun image hi => hmem image (hc.mem image hi))
    (hc'.mono fun image hi => hmem image (hc'.mem image hi))

/-! ### How what is found changes with the images -/

namespace Finds

variable {images images' : List ShareImage} {fingerprint : Fingerprint} {key : SharedKey} {t : ℕ}

theorem bitsMatched_some_self (R : RecoveryLib) (fingerprint : Fingerprint) (key : SharedKey) :
    R.bitsMatched fingerprint (some key.threshold) key = R.checkFingerprint key fingerprint := by
  rw [bitsMatched, Option.any_some, if_neg]
  simp

theorem bitsMatched_cases (R : RecoveryLib) (fingerprint : Fingerprint)
    (knownThreshold : Option ℕ) (key : SharedKey) :
    R.bitsMatched fingerprint knownThreshold key = R.checkFingerprint key fingerprint ∨
      R.bitsMatched fingerprint knownThreshold key = none := by
  rw [bitsMatched]
  split
  · exact .inr rfl
  · exact .inl rfl

/-- A key that is found for a threshold has it. -/
theorem threshold_eq (h : R.Finds images fingerprint (some t) key) : key.threshold = t := by
  have hchecked := h.best.checked
  rw [bitsMatched, Option.any_some] at hchecked
  split at hchecked
  · cases hchecked
  · rename_i heq
    simpa using heq

/-- A key that is found passes the check of the fingerprint. -/
theorem checked {knownThreshold : Option ℕ} (h : R.Finds images fingerprint knownThreshold key) :
    (R.checkFingerprint key fingerprint).isSome := by
  have hchecked := h.best.checked
  rcases bitsMatched_cases R fingerprint knownThreshold key with heq | hnone
  · rwa [heq] at hchecked
  · rw [hnone] at hchecked
    cases hchecked

/-- A key that is found is interpolated from images. -/
theorem exists_choice (h : R.Finds images fingerprint (some t) key) :
    ∃ c, IsChoice images c ∧ c.length = t ∧ R.fromShareImages c = key := by
  obtain ⟨c, hc, hkey⟩ := List.mem_map.1 h.best.mem
  rw [candidates_some, mem_subsets] at hc
  exact ⟨c, hc.1, hc.2, hkey⟩

/-- **Found again.** A key that is found when the threshold is not known is found when it is. -/
theorem settle (h : R.Finds images fingerprint none key) (hR : R.InterpolatesOn L images)
    (ht : 2 ≤ key.threshold) : R.Finds images fingerprint (some key.threshold) key := by
  obtain ⟨c, hc, hkey⟩ := List.mem_map.1 h.best.mem
  obtain ⟨size, -, hcsize⟩ := List.mem_flatMap.1 hc
  obtain ⟨hchoice, -⟩ := mem_subsets.1 hcsize
  have hle : key.threshold ≤ c.length := hkey ▸ hR.threshold_le c hchoice
  -- As many of the images as the threshold is interpolate to the key already.
  have htake : IsChoice images (c.take key.threshold) := hchoice.take (by omega)
  have hlen : (c.take key.threshold).length = key.threshold :=
    List.length_take_of_le hle
  have hsame : R.fromShareImages (c.take key.threshold) = key := by
    refine (hR.unique _ _ htake hchoice
      (fun image hi => hR.lies c hchoice image (List.mem_of_mem_take hi)) ?_).trans hkey
    rw [hkey, hlen]
  have hindices : key.threshold ≤ (indices images).length := by
    have hsub := htake.sublist_indices.length_le
    rwa [List.length_map, hlen] at hsub
  have hsizes : subsetSizes none (indices images).length =
      List.range' 2 (key.threshold - 2) ++ [key.threshold] ++
        List.range' (key.threshold + 1) ((indices images).length - key.threshold) := by
    have hsplit : (indices images).length - 1 = key.threshold - 2 +
        (1 + ((indices images).length - key.threshold)) := by omega
    have hnext : 2 + (key.threshold - 2) = key.threshold := by omega
    rw [subsetSizes, hsplit, ← List.range'_append_1, hnext, ← List.range'_append_1,
      List.append_assoc]
    rfl
  have hbest := h.best
  rw [candidates, hsizes, List.flatMap_append, List.flatMap_append, List.flatMap_singleton,
    List.map_append, List.map_append] at hbest
  refine ⟨hlen ▸ htake.length_le, ?_⟩
  rw [candidates_some]
  refine hbest.part ?_ (List.mem_map.2 ⟨_, mem_subsets.2 ⟨htake, hlen⟩, hsame⟩)
    (bitsMatched_some_self R fingerprint key) (bitsMatched_cases R fingerprint _)
  -- Fewer images interpolate to fewer coefficients.
  intro hmem
  obtain ⟨c', hc', hkey'⟩ := List.mem_map.1 hmem
  obtain ⟨size', hsize', hc'⟩ := List.mem_flatMap.1 hc'
  obtain ⟨hchoice', hlen'⟩ := mem_subsets.1 hc'
  have hle' : key.threshold ≤ c'.length := hkey' ▸ hR.threshold_le c' hchoice'
  have hlt : size' < 2 + (key.threshold - 2) := (List.mem_range'_1.1 hsize').2
  omega

/-- **Images are added.** A key stays when no other key of its threshold that the images
interpolate to passes the check as well. -/
theorem grow (h : R.Finds images fingerprint (some t) key)
    (hmem : ∀ image ∈ images, image ∈ images')
    (hrivals : ∀ c, IsChoice images' c → c.length = t → R.fromShareImages c ≠ key →
      (R.fromShareImages c).threshold = t →
      score (R.maxBitsTotal fingerprint) (R.checkFingerprint (R.fromShareImages c) fingerprint) <
        score (R.maxBitsTotal fingerprint) (R.checkFingerprint key fingerprint)) :
    R.Finds images' fingerprint (some t) key := by
  obtain ⟨c, hc, hlen, hkey⟩ := h.exists_choice
  have hc' : IsChoice images' c := hc.mono fun image hi => hmem image (hc.mem image hi)
  obtain rfl := h.threshold_eq
  refine ⟨hlen ▸ hc'.length_le, .of_dominates h.best.checked ?_ fun k hk hne => ?_⟩
  · rw [candidates_some]
    exact List.mem_map.2 ⟨c, mem_subsets.2 ⟨hc', hlen⟩, hkey⟩
  · obtain ⟨d, hd, rfl⟩ := List.mem_map.1 hk
    rw [candidates_some, mem_subsets] at hd
    rw [bitsMatched_some_self]
    by_cases hthreshold : (R.fromShareImages d).threshold = key.threshold
    · rw [← hthreshold, bitsMatched_some_self]
      exact hrivals d hd.1 hd.2 hne hthreshold
    · have hnone : R.bitsMatched fingerprint (some key.threshold) (R.fromShareImages d) = none := by
        rw [bitsMatched, Option.any_some, if_pos (by simpa using hthreshold)]
      rw [hnone, score_none, Nat.pos_iff_ne_zero, Ne, score_eq_zero_iff]
      intro hnone
      have hchecked := h.checked
      rw [hnone] at hchecked
      cases hchecked

/-- No key of the threshold passes the check better than the one that is found. -/
theorem score_le {c : List ShareImage} (h : R.Finds images fingerprint (some t) key)
    (hc : IsChoice images c) (hlen : c.length = t)
    (hthreshold : (R.fromShareImages c).threshold = t) :
    score (R.maxBitsTotal fingerprint) (R.checkFingerprint (R.fromShareImages c) fingerprint) ≤
      score (R.maxBitsTotal fingerprint) (R.checkFingerprint key fingerprint) := by
  have hmem : R.fromShareImages c ∈ (candidates images (some t)).map R.fromShareImages := by
    rw [candidates_some]
    exact List.mem_map.2 ⟨c, mem_subsets.2 ⟨hc, hlen⟩, rfl⟩
  have hle := h.best.best _ hmem
  obtain rfl := h.threshold_eq
  rwa [bitsMatched_some_self, ← hthreshold, bitsMatched_some_self] at hle

/-- **An image is left out.** A key stays when one of the images is left out that is not on it. -/
theorem shrink (h : R.Finds images fingerprint (some t) key) (hR : R.InterpolatesOn L images)
    {image : ShareImage} (himage : key.shareImage L image.index ≠ image)
    (hsub : images'.Sublist images)
    (hrest : images'.filter (· ≠ image) = images.filter (· ≠ image)) :
    R.Finds images' fingerprint (some t) key := by
  have hnot : ∀ c ∈ subsets images t, R.fromShareImages c = key →
      c.all fun image' => decide (image' ≠ image) := by
    intro c hc hkey
    rw [List.all_eq_true]
    intro image' hi
    refine decide_eq_true ?_
    rintro rfl
    exact himage (hkey ▸ hR.lies c (mem_subsets.1 hc).1 image' hi)
  obtain ⟨c, hc, hlen, hkey⟩ := h.exists_choice
  have hc' : IsChoice images' c := by
    refine hc.mono fun image' hi => ?_
    have hne := List.all_eq_true.1 (hnot c (mem_subsets.2 ⟨hc, hlen⟩) hkey) image' hi
    have hmem : image' ∈ images.filter (· ≠ image) := List.mem_filter.2 ⟨hc.mem image' hi, hne⟩
    rw [← hrest] at hmem
    exact List.mem_of_mem_filter hmem
  refine ⟨hlen ▸ hc'.length_le, ?_⟩
  have hbest := h.best
  rw [candidates_some] at hbest ⊢
  refine hbest.sublist (subsets_sublist hsub t) ?_ hnot
  rw [← subsets_filter, ← subsets_filter, hrest]

end Finds

end RecoveryLib

end Backup

end Frostsnap
