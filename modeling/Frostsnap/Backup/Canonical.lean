import Frostsnap.Backup.ShareBackup

/-!
# Which words denote a backup

The 256 scalar bits of a backup can denote a number that reaches the order of the group. Reading
the words reduces it, and the words checksum is computed from the reduced scalar, so such words are
read successfully; writing the backup again gives other words. All other words that are read are the
ones that are written for the backup.

## Main results

* `words_of_fromWords`: the words that are read, from the backup and their scalar bits.
* `share_backup_canonical`: words are written again exactly when their scalar is below the order.
-/

namespace Frostsnap.Backup

/-- The number that the scalar bits of some words denote. -/
def scalarBits (words : Vector String NUM_WORDS) : ℕ :=
  match lookUpWords 0 words.toList with
  | .error _ => 0
  | .ok wordIndices => ofDigits 8 (decodeBits wordIndices).scalarBytes

/-! ### Words and their indices -/

theorem eq_of_compareStr {a b : String} (h : compareStr a b = .eq) : a = b := by
  have hbytes : utf8Bytes a = utf8Bytes b := by
    rw [compareStr] at h
    split at h
    · cases h
    · rename_i hnotlt
      split at h
      · cases h
      · rename_i hnotgt
        rcases lt_trichotomy (utf8Bytes a) (utf8Bytes b) with hlt | heq | hgt
        · exact absurd hlt hnotlt
        · exact heq
        · exact absurd hgt hnotgt
  have hlist : a.toByteArray.data.toList = b.toByteArray.data.toList :=
    List.map_injective_iff.2 (fun _ _ => UInt8.toNat_inj.1) hbytes
  exact String.toByteArray_inj.1 (ByteArray.ext (Array.toList_inj.1 hlist))

theorem getD_of_wordToIndex {word : String} {i : ℕ} (h : wordToIndex word = some i) :
    BIP39_WORDS.getD i "" = word := by
  obtain ⟨w, hw, heq⟩ := binarySearchBy_sound h
  rw [List.getD_eq_getElem?_getD, hw, Option.getD_some]
  exact eq_of_compareStr heq

/-- Words that are looked up are the words at their indices. -/
theorem map_of_lookUpWords {words : List String} {i : ℕ} {wordIndices : List ℕ}
    (h : lookUpWords i words = .ok wordIndices) :
    (wordIndices.map fun wordIdx => BIP39_WORDS.getD wordIdx "") = words := by
  induction words generalizing i wordIndices with
  | nil =>
      cases h
      rfl
  | cons word words ih =>
      rw [lookUpWords] at h
      cases hword : wordToIndex word with
      | none => simp only [hword, reduceCtorEq] at h
      | some wordIdx =>
          cases hrest : lookUpWords (i + 1) words with
          | error e => simp only [hword, hrest, reduceCtorEq] at h
          | ok rest =>
              simp only [hword, hrest, Except.ok.injEq] at h
              subst h
              rw [List.map_cons, getD_of_wordToIndex hword, ih hrest]

/-- The words of two numbers are different. -/
theorem wordsOf_inj {n m : ℕ} (hn : n < 2 ^ (11 * 25)) (hm : m < 2 ^ (11 * 25))
    (h : wordsOf n = wordsOf m) : n = m := by
  have hleft := lookUpWords_map 0 fun _ => @lt_of_mem_toDigits 11 25 n _
  have hright := lookUpWords_map 0 fun _ => @lt_of_mem_toDigits 11 25 m _
  rw [wordsOf, wordsOf] at h
  rw [h, hright] at hleft
  rw [← ofDigits_toDigits hn, ← ofDigits_toDigits hm, Except.ok.inj hleft]

theorem exists_words (n : ℕ) : ∃ words : Vector String NUM_WORDS, words.toList = wordsOf n := by
  have hsize : (wordsOf n).toArray.size = NUM_WORDS := by
    rw [List.size_toArray, wordsOf, List.length_map, length_toDigits]
  exact ⟨⟨(wordsOf n).toArray, hsize⟩, by rw [Vector.toList_mk, List.toList_toArray]⟩

variable (sha256 : Sha256)

/-! ### What was read -/

namespace ShareBackup

/-- **The words that are read**, from the backup they are read as and their scalar bits. -/
theorem words_of_fromWords {index : ℕ} {words : Vector String NUM_WORDS} {b : ShareBackup}
    (hindex : index < 2 ^ 32) (h : fromWords sha256 index words = .ok b) :
    b.index.val = index ∧ b.share.share.val = scalarBits words % groupOrder ∧
      scalarBits words < 2 ^ 256 ∧
      words.toList = wordsOf (b.packed sha256 index (scalarBits words)) := by
  obtain ⟨wordIndices, hlook, hread, hshare, hpoly, hchecksum⟩ := fromWords_ok sha256 h
  obtain ⟨hlength, hlt⟩ := lookUpWords_ok hlook
  have hlength : wordIndices.length = 25 := hlength.trans words.length_toList
  obtain ⟨hscalar, hpolyBits, hwordsBits⟩ := decodeBits_spec hlength hlt
  have hbits : scalarBits words = ofDigits 8 (decodeBits wordIndices).scalarBytes := by
    rw [scalarBits, hlook]
  have hpacked : b.packed sha256 index (scalarBits words) = ofDigits 11 wordIndices := by
    rw [packed, hchecksum, hpoly, hbits, hscalar, hpolyBits, hwordsBits]
    omega
  refine ⟨?_, ?_, ?_, ?_⟩
  · rw [hread]
    exact Nat.mod_eq_of_lt (hindex.trans (by decide))
  · rw [hshare, hbits]
    rfl
  · have hnumber := ofDigits_lt hlt
    rw [hlength] at hnumber
    rw [hbits, hscalar]
    omega
  · have hdigits := toDigits_ofDigits hlt
    rw [hlength] at hdigits
    rw [hpacked, wordsOf, hdigits, map_of_lookUpWords hlook]

end ShareBackup

/-- **Canonical words.** Words that are read are written again for the backup exactly when their
scalar bits denote a number below the order of the group. Words of one backup have one index and
scalars that are equal modulo the order, and differ only if these do. -/
theorem share_backup_canonical (index : ℕ) (words : Vector String NUM_WORDS) (b : ShareBackup)
    (hindex : index < 2 ^ 32) (h : ShareBackup.fromWords sha256 index words = .ok b) :
    (b.toWords sha256 = .ret words ↔ scalarBits words < groupOrder) ∧
    ∀ (index' : ℕ) (words' : Vector String NUM_WORDS), index' < 2 ^ 32 →
      ShareBackup.fromWords sha256 index' words' = .ok b →
      index' = index ∧ scalarBits words' % groupOrder = scalarBits words % groupOrder ∧
        (scalarBits words' = scalarBits words → words' = words) := by
  obtain ⟨rfl, hshare, hscalar, hwords⟩ := ShareBackup.words_of_fromWords sha256 hindex h
  have hpoly := ShareBackup.polyChecksum_lt_of_fromWords sha256 h
  refine ⟨?_, ?_⟩
  · obtain ⟨written, hwrite, hwritten⟩ := ShareBackup.toWords_eq sha256 hindex hpoly
    rw [hwrite, Exec.ret.injEq]
    constructor
    · rintro rfl
      rw [hwords] at hwritten
      have heq := wordsOf_inj (ShareBackup.packed_lt sha256 hscalar hpoly)
        (ShareBackup.packed_lt sha256 b.share.share.val_lt_two_pow hpoly) hwritten
      have hsame := (ShareBackup.unpack sha256 hpoly b.index.val (scalarBits written)).1
      rw [heq, (ShareBackup.unpack sha256 hpoly b.index.val _).1] at hsame
      rw [← hsame]
      exact b.share.share.isLt
    · intro hlt
      have hsame : b.share.share.val = scalarBits words := hshare.trans (Nat.mod_eq_of_lt hlt)
      rw [hsame, ← hwords] at hwritten
      exact Vector.toList_inj.1 hwritten
  · intro index' words' hindex' h'
    obtain ⟨hread', hshare', -, hwords'⟩ := ShareBackup.words_of_fromWords sha256 hindex' h'
    refine ⟨hread'.symm, hshare'.symm.trans hshare, fun hsame => ?_⟩
    rw [hsame, ← hread', ← hwords] at hwords'
    exact Vector.toList_inj.1 hwords'

theorem share_backup_canonical_of_sample :
    ∃ words, ShareBackup.fromWords (fun _ => [3, 4]) 1 words = .ok (sampleBackup 7) ∧
      scalarBits words < groupOrder := by
  obtain ⟨words, hwrite, hread⟩ :=
    @ShareBackup.fromWords_toWords (fun _ => [3, 4]) (sampleBackup 7) (by decide) (by decide)
  exact ⟨words, hread,
    (share_backup_canonical (fun _ => [3, 4]) 1 words (sampleBackup 7) (by decide) hread).1.1
      hwrite⟩

/-- The backup of the share zero with index 1. -/
def zeroBackup : ShareBackup where
  share := { (sampleBackup 0).share with share := ⟨0, groupOrder_pos⟩ }
  polyChecksum := 0

/-- Whatever the hash, words whose scalar bits denote the order itself are read as the share zero,
and are not the words of that. -/
theorem order_is_read_as_zero :
    ¬ ∃ sha256 : Sha256, ∀ (index : ℕ) (words : Vector String NUM_WORDS) (b : ShareBackup),
      index < 2 ^ 32 → ShareBackup.fromWords sha256 index words = .ok b →
        b.toWords sha256 = .ret words := by
  rintro ⟨sha256, hcanonical⟩
  have hindex : zeroBackup.index.val < 2 ^ 32 := by decide
  have hpoly : zeroBackup.polyChecksum < 2 ^ 8 := by decide
  have horder : groupOrder < 2 ^ 256 := by decide
  have hzero : zeroBackup.share.share.val = groupOrder % groupOrder := by decide
  obtain ⟨words, hwords⟩ :=
    exists_words (zeroBackup.packed sha256 zeroBackup.index.val groupOrder)
  have hread := ShareBackup.fromWords_of_packed sha256 horder hzero hpoly hwords
  have hwrite := hcanonical _ words zeroBackup hindex hread
  obtain ⟨written, hwritten, heq⟩ := ShareBackup.toWords_eq sha256 hindex hpoly
  rw [hwrite, Exec.ret.injEq] at hwritten
  rw [← hwritten, hwords] at heq
  have hpacked := wordsOf_inj (ShareBackup.packed_lt sha256 horder hpoly)
    (ShareBackup.packed_lt sha256 zeroBackup.share.share.val_lt_two_pow hpoly) heq
  have hscalar := (ShareBackup.unpack sha256 hpoly zeroBackup.index.val groupOrder).1
  rw [hpacked, (ShareBackup.unpack sha256 hpoly _ _).1] at hscalar
  exact absurd hscalar (by decide)

end Frostsnap.Backup
