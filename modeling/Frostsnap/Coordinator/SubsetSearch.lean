import Frostsnap.Coordinator.RestorationStability

/-!
# The search for a subset of shares is sound and complete

`find_valid_subset` looks for share images that interpolate to a key with a fingerprint. There may
be several images at one index, and images of other keys. What it returns is a key that passes and
the images that lie on it; when it returns nothing, no subset that it admits interpolates to a key
that passes.

## Main results

* `mem_candidates`: the subsets that the search goes through.
* `findValidSubset_sound_complete`: what the search returns, for all images.
-/

namespace Frostsnap

open Backup

namespace Backup

/-- The sizes of the subsets: the known threshold, or any from two on. -/
def SizeFits (knownThreshold : Option ℕ) (size : ℕ) : Prop :=
  match knownThreshold with
  | some t => size = t
  | none => 2 ≤ size

/-- The search goes through the choices of images with different indices of these sizes. -/
theorem mem_candidates {images c : List ShareImage} {knownThreshold : Option ℕ} :
    c ∈ candidates images knownThreshold ↔
      IsChoice images c ∧ SizeFits knownThreshold c.length := by
  rw [candidates, List.mem_flatMap]
  cases knownThreshold with
  | some t =>
      simp only [subsetSizes, List.mem_singleton, exists_eq_left, mem_subsets, SizeFits]
  | none =>
      simp only [subsetSizes, mem_subsets, List.mem_range'_1, SizeFits]
      constructor
      · rintro ⟨size, ⟨hsize, -⟩, hc, rfl⟩
        exact ⟨hc, hsize⟩
      · rintro ⟨hc, hsize⟩
        have hle := hc.sublist_indices.length_le
        rw [List.length_map] at hle
        exact ⟨c.length, ⟨hsize, by omega⟩, hc, rfl⟩

/-- Nothing is gone through when there are too few images. -/
theorem candidates_eq_nil {images : List ShareImage} {knownThreshold : Option ℕ}
    (h : images.length < knownThreshold.getD 2) : candidates images knownThreshold = [] := by
  rw [List.eq_nil_iff_forall_not_mem]
  intro c hc
  obtain ⟨hchoice, hsize⟩ := mem_candidates.1 hc
  have hle := hchoice.length_le
  cases knownThreshold with
  | some t =>
      rw [SizeFits] at hsize
      rw [Option.getD_some] at h
      omega
  | none =>
      rw [SizeFits] at hsize
      rw [Option.getD_none] at h
      omega

end Backup

namespace Backup.RecoveryLib

variable (R : RecoveryLib) (L : FrostLib)

/-- A subset that the search admits: images with different indices, as many as the known threshold
or at least two, that interpolate to a key with the known threshold. -/
structure Admits (images : List ShareImage) (knownThreshold : Option ℕ) (c : List ShareImage) :
    Prop where
  choice : IsChoice images c
  size : SizeFits knownThreshold c.length
  threshold : ∀ t ∈ knownThreshold, (R.fromShareImages c).threshold = t

/-- What is returned is sound: the key passes the check of the fingerprint and has the known
threshold, the set is that of the images on the key, and it has an index for every coefficient. -/
structure SoundFor (images : List ShareImage) (fingerprint : Fingerprint)
    (knownThreshold : Option ℕ) (set : BTreeSet ShareImage) (key : SharedKey) : Prop where
  passes : (R.checkFingerprint key fingerprint).isSome
  threshold : ∀ t ∈ knownThreshold, key.threshold = t
  mem_set : ∀ image, image ∈ set ↔ image ∈ images ∧ key.shareImage L image.index = image
  enough : key.threshold ≤ (set.toList.map ShareImage.index).toFinset.card

variable {R L}

theorem bitsMatched_eq_none_iff {fingerprint : Fingerprint} {knownThreshold : Option ℕ}
    {key : SharedKey} :
    R.bitsMatched fingerprint knownThreshold key = none ↔
      ((∀ t ∈ knownThreshold, key.threshold = t) → R.checkFingerprint key fingerprint = none) := by
  rw [bitsMatched]
  cases knownThreshold with
  | none => simp
  | some t => simp [imp_iff_not_or]

/-- The images of a set, by their indices. -/
theorem length_le_card_indices {images c : List ShareImage} (hc : IsChoice images c)
    {set : BTreeSet ShareImage} (hset : ∀ image ∈ c, image ∈ set) :
    c.length ≤ (set.toList.map ShareImage.index).toFinset.card := by
  have hcard : (c.map ShareImage.index).toFinset.card = c.length := by
    rw [List.toFinset_card_of_nodup hc.sorted.nodup, List.length_map]
  rw [← hcard]
  refine Finset.card_le_card fun i hi => ?_
  rw [List.mem_toFinset, List.mem_map] at hi ⊢
  obtain ⟨image, himage, rfl⟩ := hi
  exact ⟨image, Std.ExtTreeSet.mem_toList.2 (hset image himage), rfl⟩

/-- **The search is sound and complete.** -/
theorem findValidSubset_sound_complete {images : List ShareImage} (hR : R.InterpolatesOn L images)
    (fingerprint : Fingerprint) (knownThreshold : Option ℕ) :
    ∃ found, R.findValidSubset L images fingerprint knownThreshold = .ret found ∧
      (∀ set key, found = some (set, key) →
        R.SoundFor L images fingerprint knownThreshold set key) ∧
      (found = none → ∀ c, R.Admits images knownThreshold c →
        R.checkFingerprint (R.fromShareImages c) fingerprint = none) := by
  refine ⟨_, findValidSubset_eq images fingerprint knownThreshold, ?_, ?_⟩
  · intro set key hfound
    split at hfound
    · cases hfound
    · obtain ⟨⟨sharedKey, bits⟩, hbest, hpair⟩ := Option.map_eq_some_iff.1 hfound
      obtain ⟨rfl, rfl⟩ := Prod.mk.inj hpair
      have hfirst := firstBest_eq_some_iff.1 (by rw [hbest]; rfl :
        (firstBest (R.bitsMatched fingerprint knownThreshold) (R.maxBitsTotal fingerprint) none
          ((candidates images knownThreshold).map R.fromShareImages)).map Prod.fst =
            some sharedKey)
      have hmem : ∀ image, image ∈ Std.ExtTreeSet.ofList (images.filter fun image =>
          sharedKey.shareImage L image.index = image) compare ↔
            image ∈ images ∧ sharedKey.shareImage L image.index = image := by
        intro image
        rw [Std.ExtTreeSet.mem_ofList, List.contains_iff_mem, List.mem_filter, decide_eq_true_iff]
      have hchecked := hfirst.checked
      rw [Option.isSome_iff_ne_none, Ne, bitsMatched_eq_none_iff, Classical.not_imp] at hchecked
      obtain ⟨c, hc, hkey⟩ := List.mem_map.1 hfirst.mem
      obtain ⟨hchoice, -⟩ := mem_candidates.1 hc
      refine ⟨Option.isSome_iff_ne_none.2 hchecked.2, hchecked.1, hmem, ?_⟩
      calc sharedKey.threshold ≤ c.length := hkey ▸ hR.threshold_le c hchoice
        _ ≤ _ := length_le_card_indices hchoice fun image himage =>
          (hmem image).2 ⟨hchoice.mem image himage, hkey ▸ hR.lies c hchoice image himage⟩
  · intro hnone c hadmits
    have hc : c ∈ candidates images knownThreshold :=
      mem_candidates.2 ⟨hadmits.choice, hadmits.size⟩
    have hbest : firstBest (R.bitsMatched fingerprint knownThreshold) (R.maxBitsTotal fingerprint)
        none ((candidates images knownThreshold).map R.fromShareImages) = none := by
      split at hnone
      · rename_i hlt
        rw [candidates_eq_nil hlt] at hc
        exact absurd hc List.not_mem_nil
      · exact Option.map_eq_none_iff.1 hnone
    have hrefused := firstBest_eq_none_iff.1 hbest _ (List.mem_map_of_mem hc)
    exact bitsMatched_eq_none_iff.1 hrefused hadmits.threshold

/-- Two shares of a key, one of them twice, and a share of another key at its index. -/
theorem findValidSubset_sound_complete_of_conflict :
    ∃ found, plainRecovery.findValidSubset plainLib [⟨1, 5⟩, ⟨2, 9⟩, ⟨1, 5⟩, ⟨1, 6⟩] 0 none =
        .ret found ∧
      (∀ set key, found = some (set, key) →
        plainRecovery.SoundFor plainLib [⟨1, 5⟩, ⟨2, 9⟩, ⟨1, 5⟩, ⟨1, 6⟩] 0 none set key) ∧
      (found = none → ∀ c, plainRecovery.Admits [⟨1, 5⟩, ⟨2, 9⟩, ⟨1, 5⟩, ⟨1, 6⟩] none c →
        plainRecovery.checkFingerprint (plainRecovery.fromShareImages c) 0 = none) :=
  findValidSubset_sound_complete (interpolatesOn_plainRecovery (by decide)) 0 none

end Backup.RecoveryLib

end Frostsnap
