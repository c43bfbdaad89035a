import Frostsnap.Lib.BigEndian
import Frostsnap.Lib.Exec
import Frostsnap.Backup.Bip39Words

/-!
# Share backups

A share is backed up as its index and 25 words of eleven bits: the 256 bits of the scalar, an
8-bit checksum of the polynomial the share lies on, and an 11-bit checksum of all that. This
module embeds `share_backup.rs`. The polynomial checksum is kept in 16 bits, of which it uses
eight.

Writing the words shifts the bytes of the scalar through an accumulator; reading them sets one
bit at a time in the bytes it belongs to. Both are compared with the one number whose big-endian
digits the words are.

## Main results

* `toWordIndices_spec`: the words are the digits of the scalar, followed by the checksums.
* `decodeBits_spec`: reading the words splits the number they denote.
* `share_backup_round_trip`: words that were written read back as the backup, and whatever is read
  successfully has checksums that fit it.
-/

namespace Frostsnap.Backup

/-- The order of the group. -/
abbrev groupOrder : ℕ := 0xFFFFFFFFFFFFFFFFFFFFFFFFFFFFFFFEBAAEDCE6AF48A03BBFD25E8CD0364141

/-- A scalar. -/
abbrev Scalar := Fin groupOrder

theorem groupOrder_pos : 0 < groupOrder := by decide

/-- `to_bytes`. -/
def Scalar.toBytes (x : Scalar) : List ℕ := toDigits 8 32 x.val

/-- `from_bytes_mod_order`. -/
def Scalar.fromBytesModOrder (bytes : List ℕ) : Scalar :=
  ⟨ofDigits 8 bytes % groupOrder, Nat.mod_lt _ (by decide)⟩

/-- A secret share; its index is not zero. -/
structure SecretShare where
  index : Scalar
  index_ne_zero : index ≠ ⟨0, by decide⟩
  share : Scalar
  deriving DecidableEq

/-- Number of words in a share backup. -/
abbrev NUM_WORDS : ℕ := 25

/-- Number of bits used for the scalar. -/
abbrev SCALAR_BITS : ℕ := 256

/-- Number of bits used for the polynomial checksum. -/
abbrev POLY_CHECKSUM_BITS : ℕ := 8

/-- Number of bits used for the words checksum. -/
abbrev WORDS_CHECKSUM_BITS : ℕ := 11

abbrev POLY_CHECKSUM_START : ℕ := SCALAR_BITS

abbrev WORDS_CHECKSUM_START : ℕ := SCALAR_BITS + POLY_CHECKSUM_BITS

abbrev TOTAL_BITS : ℕ := SCALAR_BITS + POLY_CHECKSUM_BITS + WORDS_CHECKSUM_BITS

/-- A secret share with the checksum of its polynomial, a `u16`. -/
structure ShareBackup where
  share : SecretShare
  polyChecksum : ℕ
  deriving DecidableEq

/-- Why words are not a backup. -/
inductive ShareBackupError where
  | invalidBip39Word (wordIndex : ℕ) (word : String)
  | invalidShareIndex
  | wordsChecksumFailed
  | polyChecksumFailed
  deriving DecidableEq

/-- The hash: the bytes of a digest from those of a message. -/
abbrev Sha256 := List ℕ → List UInt8

variable (sha256 : Sha256)

/-! ### Checksums -/

/-- The first two bytes of a digest. -/
def checksumOf (message : List ℕ) : ℕ :=
  let hash := sha256 message
  (hash.getD 0 0).toNat * 256 + (hash.getD 1 0).toNat

/-- `compute_poly_checksum`, from the bytes of the points of the polynomial. -/
def computePolyChecksum (index share : Scalar) (pointPolynomial : List (List ℕ)) : ℕ :=
  checksumOf sha256 (index.toBytes ++ share.toBytes ++ pointPolynomial.flatten)
    >>> (16 - POLY_CHECKSUM_BITS)

/-- `compute_words_checksum`. -/
def computeWordsChecksum (index : ℕ) (share : Scalar) (polyChecksum : ℕ) : ℕ :=
  checksumOf sha256 (toDigits 8 4 index ++ share.toBytes ++ toDigits 8 2 polyChecksum)
    >>> (16 - WORDS_CHECKSUM_BITS)

theorem checksumOf_lt (message : List ℕ) : checksumOf sha256 message < 2 ^ 16 := by
  have h0 := ((sha256 message).getD 0 0).toNat_lt
  have h1 := ((sha256 message).getD 1 0).toNat_lt
  rw [checksumOf]
  omega

theorem computePolyChecksum_lt (index share : Scalar) (pointPolynomial : List (List ℕ)) :
    computePolyChecksum sha256 index share pointPolynomial < 2 ^ POLY_CHECKSUM_BITS := by
  rw [computePolyChecksum, Nat.shiftRight_eq_div_pow]
  exact Nat.div_lt_of_lt_mul ((checksumOf_lt sha256 _).trans_eq (by decide))

theorem computeWordsChecksum_lt (index : ℕ) (share : Scalar) (polyChecksum : ℕ) :
    computeWordsChecksum sha256 index share polyChecksum < 2 ^ WORDS_CHECKSUM_BITS := by
  rw [computeWordsChecksum, Nat.shiftRight_eq_div_pow]
  exact Nat.div_lt_of_lt_mul ((checksumOf_lt sha256 _).trans_eq (by decide))

namespace ShareBackup

/-- The share index. -/
def index (b : ShareBackup) : Scalar := b.share.index

/-- `from_secret_share_and_shared_key`. -/
def fromSecretShareAndSharedKey (secretShare : SecretShare) (pointPolynomial : List (List ℕ)) :
    ShareBackup where
  share := secretShare
  polyChecksum := computePolyChecksum sha256 secretShare.index secretShare.share pointPolynomial

/-- The share, if the polynomial is the one the checksum is of. -/
def extractSecret (b : ShareBackup) (pointPolynomial : List (List ℕ)) :
    Except ShareBackupError SecretShare :=
  if computePolyChecksum sha256 b.index b.share.share pointPolynomial ≠ b.polyChecksum then
    .error .polyChecksumFailed
  else .ok b.share

end ShareBackup

/-! ### Writing the words -/

/-- The state of the loop that writes the words. -/
structure WordWriter where
  wordIndices : Vector ℕ NUM_WORDS
  wordIdx : ℕ
  accumulator : ℕ
  bitsInAcc : ℕ

/-- The inner loop: extract words while there are enough bits. -/
def WordWriter.extract (s : WordWriter) : WordWriter :=
  if _h : BITS_PER_WORD ≤ s.bitsInAcc ∧ s.wordIdx < NUM_WORDS then
    let shift := s.bitsInAcc - BITS_PER_WORD
    extract
      { wordIndices := s.wordIndices.setIfInBounds s.wordIdx (s.accumulator >>> shift % 2 ^ 16)
        wordIdx := s.wordIdx + 1
        accumulator := s.accumulator &&& (1 <<< shift - 1)
        bitsInAcc := shift }
  else s
termination_by s.bitsInAcc
decreasing_by
  have hbits : 11 ≤ s.bitsInAcc := _h.1
  show s.bitsInAcc - 11 < s.bitsInAcc
  omega

/-- One byte of the scalar. -/
def WordWriter.pushByte (s : WordWriter) (byte : ℕ) : WordWriter :=
  WordWriter.extract
    { s with accumulator := s.accumulator <<< 8 ||| byte, bitsInAcc := s.bitsInAcc + 8 }

namespace ShareBackup

/-- `to_word_indices`. -/
def toWordIndices (b : ShareBackup) : Exec (Vector ℕ NUM_WORDS) := do
  Exec.assert (b.index.val < 2 ^ 32) "Share index should fit in u32"
  let wordsChecksum := computeWordsChecksum sha256 b.index.val b.share.share b.polyChecksum
  let s := b.share.share.toBytes.foldl WordWriter.pushByte
    { wordIndices := .replicate NUM_WORDS 0, wordIdx := 0, accumulator := 0, bitsInAcc := 0 }
  -- the bits that are left and the polynomial checksum make the last word but one
  let accumulator := s.accumulator <<< 8 ||| b.polyChecksum
  return (s.wordIndices.set 23 (accumulator % 2 ^ 16)).set 24 wordsChecksum

/-- `to_words`. -/
def toWords (b : ShareBackup) : Exec (Vector String NUM_WORDS) := do
  let wordIndices ← b.toWordIndices sha256
  Exec.assert (∀ i ∈ wordIndices.toList, i < BIP39_WORDS.length) "index out of bounds"
  return wordIndices.map fun i => BIP39_WORDS.getD i ""

end ShareBackup

/-! ### What is written -/

/-- After `t` bits of the scalar that denote `p`, the words written so far and the bits that are
left in the accumulator denote `p`. -/
structure WordWriter.Wrote (s : WordWriter) (t p : ℕ) (words : List ℕ) : Prop where
  wordIndices : s.wordIndices.toList = words ++ List.replicate (25 - words.length) 0
  wordIdx : s.wordIdx = words.length
  words_lt : ∀ word ∈ words, word < 2 ^ 11
  bits : 11 * words.length + s.bitsInAcc = t
  accumulator_lt : s.accumulator < 2 ^ s.bitsInAcc
  value : ofDigits 11 words * 2 ^ s.bitsInAcc + s.accumulator = p

namespace WordWriter

/-- Extracting words moves bits from the accumulator to the words. -/
theorem Wrote.extract {s : WordWriter} {t p : ℕ} {words : List ℕ} (h : s.Wrote t p words)
    (ht : t ≤ 256) :
    ∃ words', s.extract.Wrote t p words' ∧ s.extract.bitsInAcc < 11 := by
  induction hn : s.bitsInAcc using Nat.strongRecOn generalizing s words with
  | _ n ih =>
      subst hn
      have hbits := h.bits
      rw [WordWriter.extract]
      split
      · rename_i hmore
        have hle : 11 ≤ s.bitsInAcc := hmore.1
        have hidx : s.wordIdx < 25 := hmore.2
        have hlength := h.wordIdx
        obtain ⟨shift, hshift⟩ := Nat.exists_eq_add_of_le hle
        have hsub : s.bitsInAcc - 11 = shift := by omega
        have hacc := h.accumulator_lt
        rw [hshift, Nat.pow_add] at hacc
        -- the accumulator is the next word, followed by what is left
        have hword : s.accumulator >>> shift < 2 ^ 11 := by
          rw [Nat.shiftRight_eq_div_pow]
          exact Nat.div_lt_of_lt_mul (by rwa [Nat.mul_comm])
        have hmod : s.accumulator >>> shift % 2 ^ 16 = s.accumulator >>> shift :=
          Nat.mod_eq_of_lt (hword.trans (by decide))
        have hrest : s.accumulator &&& (1 <<< shift - 1) = s.accumulator % 2 ^ shift := by
          rw [Nat.one_shiftLeft, Nat.and_two_pow_sub_one_eq_mod]
        simp only [BITS_PER_WORD, hsub, hmod, hrest]
        refine @ih shift (by omega) _ (words ++ [s.accumulator >>> shift]) ?_ rfl
        constructor
        case wordIndices =>
          obtain ⟨k, hk⟩ : ∃ k, 25 - words.length = k + 1 :=
            ⟨25 - words.length - 1, by omega⟩
          have hk' : 25 - (words ++ [s.accumulator >>> shift]).length = k := by
            rw [List.length_append, List.length_singleton]
            omega
          rw [Vector.toList_setIfInBounds, h.wordIndices, h.wordIdx, hk, hk',
            List.set_append_right _ _ le_rfl, Nat.sub_self, List.replicate_succ, List.set_cons_zero,
            List.append_assoc]
          rfl
        case wordIdx => rw [h.wordIdx, List.length_append, List.length_singleton]
        case words_lt =>
          intro word hmem
          rcases List.mem_append.mp hmem with hmem | hmem
          · exact h.words_lt word hmem
          · obtain rfl := List.mem_singleton.mp hmem
            exact hword
        case bits =>
          show 11 * (words ++ [s.accumulator >>> shift]).length + shift = t
          rw [List.length_append, List.length_singleton]
          omega
        case accumulator_lt => exact Nat.mod_lt _ (Nat.two_pow_pos shift)
        case value =>
          have hvalue := h.value
          rw [hshift, Nat.pow_add] at hvalue
          rw [ofDigits_append_singleton, Nat.shiftRight_eq_div_pow, Nat.add_mul, Nat.add_assoc,
            Nat.div_add_mod', Nat.mul_assoc, hvalue]
      · rename_i hdone
        have hdone : ¬ (11 ≤ s.bitsInAcc ∧ s.wordIdx < 25) := hdone
        have hlength := h.wordIdx
        refine ⟨words, h, ?_⟩
        omega

/-- One byte of the scalar. -/
theorem Wrote.pushByte {s : WordWriter} {t p byte : ℕ} {words : List ℕ} (h : s.Wrote t p words)
    (ht : t + 8 ≤ 256) (hbyte : byte < 2 ^ 8) :
    ∃ words', (s.pushByte byte).Wrote (t + 8) (p * 2 ^ 8 + byte) words' ∧
      (s.pushByte byte).bitsInAcc < 11 := by
  refine @Wrote.extract _ _ _ words ?_ ht
  have hor : s.accumulator <<< 8 ||| byte = s.accumulator * 2 ^ 8 + byte := by
    rw [← Nat.shiftLeft_add_eq_or_of_lt hbyte, Nat.shiftLeft_eq]
  have hacc := h.accumulator_lt
  have hbits := h.bits
  constructor
  case wordIndices => exact h.wordIndices
  case wordIdx => exact h.wordIdx
  case words_lt => exact h.words_lt
  case bits =>
    show 11 * words.length + (s.bitsInAcc + 8) = t + 8
    omega
  case accumulator_lt =>
    show s.accumulator <<< 8 ||| byte < 2 ^ (s.bitsInAcc + 8)
    rw [hor, Nat.pow_add]
    omega
  case value =>
    show ofDigits 11 words * 2 ^ (s.bitsInAcc + 8) + (s.accumulator <<< 8 ||| byte) = _
    rw [hor, ← h.value, Nat.pow_add, Nat.add_mul, Nat.mul_assoc, Nat.add_assoc]

/-- All the bytes. -/
theorem Wrote.pushBytes {bytes : List ℕ} {s : WordWriter} {t p : ℕ} {words : List ℕ}
    (h : s.Wrote t p words) (hbits : s.bitsInAcc < 11)
    (ht : t + 8 * bytes.length ≤ 256) (hbytes : ∀ byte ∈ bytes, byte < 2 ^ 8) :
    ∃ words', (bytes.foldl WordWriter.pushByte s).Wrote (t + 8 * bytes.length)
        (bytes.foldl (fun n d => n * 2 ^ 8 + d) p) words' ∧
      (bytes.foldl WordWriter.pushByte s).bitsInAcc < 11 := by
  induction bytes generalizing s t p words with
  | nil => exact ⟨words, h, hbits⟩
  | cons byte bytes ih =>
      rw [List.length_cons] at ht ⊢
      obtain ⟨words', hpushed, hless⟩ :=
        h.pushByte (by omega) (hbytes byte List.mem_cons_self)
      have ht' : t + 8 + 8 * bytes.length = t + 8 * (bytes.length + 1) := by omega
      obtain ⟨words'', hall, hend⟩ := ih hpushed hless (by omega) fun b hb =>
        hbytes b (List.mem_cons_of_mem _ hb)
      rw [ht'] at hall
      exact ⟨words'', hall, hend⟩

end WordWriter

theorem Scalar.val_lt_two_pow (x : Scalar) : x.val < 2 ^ (8 * 32) :=
  x.isLt.trans (by decide)

theorem Scalar.ofDigits_toBytes (x : Scalar) : ofDigits 8 x.toBytes = x.val :=
  ofDigits_toDigits x.val_lt_two_pow

/-- Filling in the last two words. -/
theorem toList_set_last {v : Vector ℕ NUM_WORDS} {words : List ℕ} (hlength : words.length = 23)
    (h : v.toList = words ++ [0, 0]) (x y : ℕ) :
    ((v.set 23 x).set 24 y).toList = words ++ [x] ++ [y] := by
  rw [Vector.toList_set, Vector.toList_set, h, List.set_append_right _ _ hlength.le,
    List.set_append_right _ _ (by omega), hlength, List.append_assoc]
  rfl

/-- **The words that are written** are the digits of the scalar, the polynomial checksum and the
words checksum, one after the other. -/
theorem toWordIndices_spec {b : ShareBackup} (hindex : b.index.val < 2 ^ 32)
    (hpoly : b.polyChecksum < 2 ^ 8) :
    ∃ v, b.toWordIndices sha256 = .ret v ∧ (∀ i ∈ v.toList, i < 2 ^ 11) ∧
      ofDigits 11 v.toList = (b.share.share.val * 2 ^ 8 + b.polyChecksum) * 2 ^ 11 +
        computeWordsChecksum sha256 b.index.val b.share.share b.polyChecksum := by
  have hstart : WordWriter.Wrote
      { wordIndices := .replicate 25 0, wordIdx := 0, accumulator := 0, bitsInAcc := 0 } 0 0 [] :=
    { wordIndices := rfl
      wordIdx := rfl
      words_lt := fun _ h => by cases h
      bits := rfl
      accumulator_lt := Nat.one_pos
      value := rfl }
  have hlength : b.share.share.toBytes.length = 32 := length_toDigits 32 _
  have hbytes : ∀ byte ∈ b.share.share.toBytes, byte < 2 ^ 8 := fun _ h => lt_of_mem_toDigits h
  obtain ⟨words, hwrote, hless⟩ := hstart.pushBytes (by decide) (by rw [hlength]) hbytes
  have hvalue : b.share.share.toBytes.foldl (fun n d => n * 2 ^ 8 + d) 0 = b.share.share.val :=
    b.share.share.ofDigits_toBytes
  rw [hvalue, hlength] at hwrote
  rw [ShareBackup.toWordIndices, Exec.assert_of _ hindex, Exec.ret_bind]
  set s := b.share.share.toBytes.foldl WordWriter.pushByte
    { wordIndices := .replicate 25 0, wordIdx := 0, accumulator := 0, bitsInAcc := 0 } with hs
  -- 23 words are written, and three bits are left
  have hbits := hwrote.bits
  have hcount : words.length = 23 := by
    change s.bitsInAcc < 11 at hless
    omega
  have hthree : s.bitsInAcc = 3 := by omega
  have hacc := hwrote.accumulator_lt
  have hsum := hwrote.value
  rw [hthree] at hacc hsum
  have hor : s.accumulator <<< 8 ||| b.polyChecksum = s.accumulator * 2 ^ 8 + b.polyChecksum := by
    rw [← Nat.shiftLeft_add_eq_or_of_lt hpoly, Nat.shiftLeft_eq]
  have hlast : (s.accumulator <<< 8 ||| b.polyChecksum) % 2 ^ 16 =
      s.accumulator * 2 ^ 8 + b.polyChecksum := by
    rw [hor]
    exact Nat.mod_eq_of_lt (by omega)
  have hchecksum := computeWordsChecksum_lt sha256 b.index.val b.share.share b.polyChecksum
  have hlist := hwrote.wordIndices
  rw [hcount] at hlist
  refine ⟨_, rfl, ?_, ?_⟩
  · intro i hi
    rw [toList_set_last hcount hlist, hlast] at hi
    rcases List.mem_append.mp hi with hi | hi
    · rcases List.mem_append.mp hi with hi | hi
      · exact hwrote.words_lt i hi
      · obtain rfl := List.mem_singleton.mp hi
        omega
    · obtain rfl := List.mem_singleton.mp hi
      exact hchecksum
  · rw [toList_set_last hcount hlist, hlast, ofDigits_append_singleton, ofDigits_append_singleton,
      ← hsum]
    ring

/-! ### Reading the words -/

/-- `set_bit`. -/
def setBit (target len index : ℕ) : ℕ := target ||| 1 <<< (len - 1 - index)

/-- The state of the loop that reads the words. -/
structure WordReader where
  scalarBytes : List ℕ
  polyChecksum : ℕ
  wordsChecksum : ℕ
  totalBitsProcessed : ℕ

/-- One bit of a word. -/
def WordReader.readBit (wordIdx : ℕ) (s : WordReader) (bitOffset : ℕ) : WordReader :=
  let bit := wordIdx >>> bitOffset &&& 1
  let t := s.totalBitsProcessed
  let s :=
    if bit ≠ 0 then
      if t < SCALAR_BITS then
        { s with scalarBytes := s.scalarBytes.modify (t / 8) fun byte => setBit byte 8 (t % 8) }
      else if t < WORDS_CHECKSUM_START then
        { s with
          polyChecksum := setBit s.polyChecksum POLY_CHECKSUM_BITS (t - POLY_CHECKSUM_START) }
      else if t < TOTAL_BITS then
        { s with
          wordsChecksum := setBit s.wordsChecksum WORDS_CHECKSUM_BITS (t - WORDS_CHECKSUM_START) }
      else s
    else s
  { s with totalBitsProcessed := t + 1 }

/-- One word, its highest bit first. -/
def WordReader.readWord (s : WordReader) (wordIdx : ℕ) : WordReader :=
  (List.range BITS_PER_WORD).reverse.foldl (WordReader.readBit wordIdx) s

/-- All the words. -/
def decodeBits (wordIndices : List ℕ) : WordReader :=
  wordIndices.foldl WordReader.readWord
    { scalarBytes := .replicate 32 0
      polyChecksum := 0
      wordsChecksum := 0
      totalBitsProcessed := 0 }

/-- The indices of the words, `i` being the position of the first of them. -/
def lookUpWords : ℕ → List String → Except ShareBackupError (List ℕ)
  | _, [] => .ok []
  | i, word :: words =>
      match wordToIndex word with
      | none => .error (.invalidBip39Word i word)
      | some wordIdx =>
          match lookUpWords (i + 1) words with
          | .error e => .error e
          | .ok wordIndices => .ok (wordIdx :: wordIndices)

namespace ShareBackup

/-- `from_words`, `index` being a `u32`. -/
def fromWords (index : ℕ) (words : Vector String NUM_WORDS) :
    Except ShareBackupError ShareBackup :=
  match lookUpWords 0 words.toList with
  | .error e => .error e
  | .ok wordIndices =>
      let s := decodeBits wordIndices
      let scalar := Scalar.fromBytesModOrder s.scalarBytes
      if computeWordsChecksum sha256 index scalar s.polyChecksum ≠ s.wordsChecksum then
        .error .wordsChecksumFailed
      else if h : index % groupOrder ≠ 0 then
        .ok
          { share :=
              { index := ⟨index % groupOrder, Nat.mod_lt _ (by decide)⟩
                index_ne_zero := fun hzero => h (congrArg Fin.val hzero)
                share := scalar }
            polyChecksum := s.polyChecksum }
      else .error .invalidShareIndex

end ShareBackup

/-! ### What is read -/

theorem testBit_setBit {target len index : ℕ} (m : ℕ) :
    (setBit target len index).testBit m =
      (target.testBit m || decide (len - 1 - index = m)) := by
  rw [setBit, Nat.testBit_or, Nat.one_shiftLeft, Nat.testBit_two_pow]

theorem setBit_lt {target len index : ℕ} (hlen : index < len) (h : target < 2 ^ len) :
    setBit target len index < 2 ^ len := by
  refine Nat.or_lt_two_pow h ?_
  rw [Nat.one_shiftLeft]
  exact Nat.pow_lt_pow_right (by omega) (by omega)

/-- Setting a bit of a byte sets one of the bits of the bytes. -/
theorem bitAt_modify_setBit {bytes : List ℕ} {t i : ℕ} (hi : i < 8 * bytes.length) :
    bitAt 8 (bytes.modify (t / 8) fun byte => setBit byte 8 (t % 8)) i =
      (bitAt 8 bytes i || decide (i = t)) := by
  have hdiv : i / 8 < bytes.length := by omega
  simp only [bitAt, List.getD_eq_getElem?_getD, List.getElem?_modify,
    List.getElem?_eq_getElem hdiv]
  by_cases heq : t / 8 = i / 8
  · simp only [if_pos heq, Option.map_eq_map, Option.map_some, Option.getD_some, testBit_setBit]
    congr 1
    rw [decide_eq_decide]
    omega
  · have hne : i ≠ t := by
      rintro rfl
      exact heq rfl
    simp only [if_neg heq, Option.map_eq_map, Option.map_some, Option.getD_some,
      decide_eq_false hne, Bool.or_false]

/-- After `t` bits, the bytes of the scalar and the checksums have the first `t` of the bits. -/
structure WordReader.Read (s : WordReader) (bit : ℕ → Bool) (t : ℕ) : Prop where
  total : s.totalBitsProcessed = t
  length : s.scalarBytes.length = 32
  bytes_lt : ∀ byte ∈ s.scalarBytes, byte < 2 ^ 8
  scalar : ∀ i < 256, bitAt 8 s.scalarBytes i = (decide (i < t) && bit i)
  poly_lt : s.polyChecksum < 2 ^ 8
  poly : ∀ i < 8, s.polyChecksum.testBit (7 - i) = (decide (256 + i < t) && bit (256 + i))
  words_lt : s.wordsChecksum < 2 ^ 11
  words : ∀ i < 11, s.wordsChecksum.testBit (10 - i) = (decide (264 + i < t) && bit (264 + i))

/-- The bits before `t + 1` are those before `t` and the one at `t`. -/
theorem decide_lt_succ_and (bit : ℕ → Bool) (t j : ℕ) :
    (decide (j < t + 1) && bit j) = ((decide (j < t) && bit j) || (decide (j = t) && bit t)) := by
  rcases Nat.lt_trichotomy j t with hlt | rfl | hgt
  · simp [hlt, Nat.lt_succ_of_lt hlt, hlt.ne]
  · simp
  · simp [hgt.ne', Nat.not_lt.mpr hgt.le, Nat.not_lt.mpr (Nat.succ_le_of_lt hgt)]

/-- **One bit** is added to those that were read. -/
theorem WordReader.Read.readBit {s : WordReader} {bit : ℕ → Bool} {t wordIdx bitOffset : ℕ}
    (h : s.Read bit t) (hbit : wordIdx.testBit bitOffset = bit t) :
    (WordReader.readBit wordIdx s bitOffset).Read bit (t + 1) := by
  have hset : (wordIdx >>> bitOffset &&& 1 ≠ 0) ↔ bit t = true := by
    rw [← hbit, Nat.testBit, Nat.and_comm, bne_iff_ne]
  have htotal := h.total
  cases hb : bit t with
  | false =>
      -- a bit that is not set changes nothing but the count
      have hzero : ¬ (wordIdx >>> bitOffset &&& 1 ≠ 0) := by rw [hset, hb]; exact Bool.false_ne_true
      have hstep : ∀ j, (decide (j < t + 1) && bit j) = (decide (j < t) && bit j) := by
        intro j
        rw [decide_lt_succ_and, hb, Bool.and_false, Bool.or_false]
      simp only [WordReader.readBit, if_neg hzero]
      constructor
      case total => rw [htotal]
      case length => exact h.length
      case bytes_lt => exact h.bytes_lt
      case scalar => exact fun i hi => (h.scalar i hi).trans (hstep i).symm
      case poly_lt => exact h.poly_lt
      case poly => exact fun i hi => (h.poly i hi).trans (hstep _).symm
      case words_lt => exact h.words_lt
      case words => exact fun i hi => (h.words i hi).trans (hstep _).symm
  | true =>
      have hone : wordIdx >>> bitOffset &&& 1 ≠ 0 := hset.mpr hb
      have hstep : ∀ j, (decide (j < t + 1) && bit j) =
          ((decide (j < t) && bit j) || decide (j = t)) := by
        intro j
        rw [decide_lt_succ_and, hb, Bool.and_true]
      have hother : ∀ j, j ≠ t → (decide (j < t + 1) && bit j) = (decide (j < t) && bit j) := by
        intro j hj
        rw [hstep, decide_eq_false hj, Bool.or_false]
      simp only [WordReader.readBit, if_pos hone, htotal]
      by_cases hscalar : t < 256
      · have hscalar' : t < SCALAR_BITS := hscalar
        simp only [if_pos hscalar']
        constructor
        case total => rfl
        case length => rw [List.length_modify, h.length]
        case bytes_lt =>
          intro byte hbyte
          obtain ⟨k, hk⟩ := List.getElem?_of_mem hbyte
          rw [List.getElem?_modify] at hk
          obtain ⟨old, hold, rfl⟩ := Option.map_eq_some_iff.mp hk
          have hlt := h.bytes_lt old (List.mem_of_getElem? hold)
          split
          · exact setBit_lt (Nat.mod_lt t (by decide)) hlt
          · exact hlt
        case scalar =>
          intro i hi
          rw [bitAt_modify_setBit (by rw [h.length]; exact hi), h.scalar i hi, hstep]
        case poly_lt => exact h.poly_lt
        case poly => exact fun i hi => (h.poly i hi).trans (hother _ (by omega)).symm
        case words_lt => exact h.words_lt
        case words => exact fun i hi => (h.words i hi).trans (hother _ (by omega)).symm
      have hscalar' : ¬ t < SCALAR_BITS := hscalar
      simp only [if_neg hscalar']
      by_cases hpoly : t < 264
      · have hpoly' : t < WORDS_CHECKSUM_START := hpoly
        simp only [if_pos hpoly']
        constructor
        case total => rfl
        case length => exact h.length
        case bytes_lt => exact h.bytes_lt
        case scalar => exact fun i hi => (h.scalar i hi).trans (hother _ (by omega)).symm
        case poly_lt => exact setBit_lt (show t - 256 < 8 by omega) h.poly_lt
        case poly =>
          intro i hi
          have hiff : 8 - 1 - (t - 256) = 7 - i ↔ 256 + i = t := by omega
          show (setBit s.polyChecksum 8 (t - 256)).testBit (7 - i) = _
          rw [testBit_setBit, h.poly i hi, hstep, decide_eq_decide.mpr hiff]
        case words_lt => exact h.words_lt
        case words => exact fun i hi => (h.words i hi).trans (hother _ (by omega)).symm
      have hpoly' : ¬ t < WORDS_CHECKSUM_START := hpoly
      simp only [if_neg hpoly']
      by_cases hwords : t < 275
      · have hwords' : t < TOTAL_BITS := hwords
        simp only [if_pos hwords']
        constructor
        case total => rfl
        case length => exact h.length
        case bytes_lt => exact h.bytes_lt
        case scalar => exact fun i hi => (h.scalar i hi).trans (hother _ (by omega)).symm
        case poly_lt => exact h.poly_lt
        case poly => exact fun i hi => (h.poly i hi).trans (hother _ (by omega)).symm
        case words_lt => exact setBit_lt (show t - 264 < 11 by omega) h.words_lt
        case words =>
          intro i hi
          have hiff : 11 - 1 - (t - 264) = 10 - i ↔ 264 + i = t := by omega
          show (setBit s.wordsChecksum 11 (t - 264)).testBit (10 - i) = _
          rw [testBit_setBit, h.words i hi, hstep, decide_eq_decide.mpr hiff]
      · have hwords' : ¬ t < TOTAL_BITS := hwords
        simp only [if_neg hwords']
        constructor
        case total => rfl
        case length => exact h.length
        case bytes_lt => exact h.bytes_lt
        case scalar => exact fun i hi => (h.scalar i hi).trans (hother _ (by omega)).symm
        case poly_lt => exact h.poly_lt
        case poly => exact fun i hi => (h.poly i hi).trans (hother _ (by omega)).symm
        case words_lt => exact h.words_lt
        case words => exact fun i hi => (h.words i hi).trans (hother _ (by omega)).symm

/-- The bits of a word from the highest of the `n` that are left. -/
theorem WordReader.Read.readBits {s : WordReader} {bit : ℕ → Bool} {t wordIdx n : ℕ}
    (h : s.Read bit t) (hbit : ∀ k < n, wordIdx.testBit k = bit (t + (n - 1 - k))) :
    ((List.range n).reverse.foldl (WordReader.readBit wordIdx) s).Read bit (t + n) := by
  induction n generalizing s t with
  | zero => exact h
  | succ n ih =>
      rw [List.range_succ, List.reverse_append, List.reverse_singleton, List.singleton_append,
        List.foldl_cons]
      have hhead : wordIdx.testBit n = bit t := by
        simpa using hbit n (Nat.lt_succ_self n)
      have hrest : ∀ k < n, wordIdx.testBit k = bit (t + 1 + (n - 1 - k)) := by
        intro k hk
        rw [hbit k (by omega)]
        congr 1
        omega
      have := ih (h.readBit hhead) hrest
      rwa [Nat.add_assoc, Nat.add_comm 1 n] at this

/-- **All the words**: the bits that were read are those of the words. -/
theorem decodeBits_read (words : List ℕ) :
    (decodeBits words).Read (bitAt 11 words) (11 * words.length) := by
  have hloop : ∀ (rest : List ℕ) (s : WordReader) (j : ℕ), rest = words.drop j →
      j ≤ words.length → s.Read (bitAt 11 words) (11 * j) →
      (rest.foldl WordReader.readWord s).Read (bitAt 11 words) (11 * words.length) := by
    intro rest
    induction rest with
    | nil =>
        intro s j hdrop hj hs
        have hlen : words.length ≤ j := List.drop_eq_nil_iff.mp hdrop.symm
        rwa [Nat.le_antisymm hj hlen] at hs
    | cons word rest ih =>
        intro s j hdrop hj hs
        have hlt : j < words.length := by
          by_contra hge
          rw [List.drop_eq_nil_of_le (not_lt.mp hge)] at hdrop
          cases hdrop
        rw [List.drop_eq_getElem_cons hlt, List.cons.injEq] at hdrop
        obtain ⟨rfl, hrest⟩ := hdrop
        refine ih _ (j + 1) hrest hlt ?_
        rw [Nat.mul_add, Nat.mul_one]
        refine hs.readBits fun k hk => ?_
        -- bit `k` of this word, counted from the front of all the words
        have hk : k < 11 := hk
        have hdiv : (11 * j + (11 - 1 - k)) / 11 = j := by omega
        have hmod : 11 - 1 - (11 * j + (11 - 1 - k)) % 11 = k := by omega
        rw [bitAt, hdiv, hmod, List.getD_eq_getElem?_getD, List.getElem?_eq_getElem hlt,
          Option.getD_some]
  refine hloop words _ 0 (List.drop_zero).symm (Nat.zero_le _) ?_
  constructor
  case total => rfl
  case length => rfl
  case bytes_lt =>
    intro byte hbyte
    rw [List.eq_of_mem_replicate hbyte]
    decide
  case scalar =>
    intro i hi
    have hdiv : i / 8 < 32 := by omega
    have hbyte : (List.replicate 32 0).getD (i / 8) 0 = 0 := by
      rw [List.getD_eq_getElem?_getD, List.getElem?_replicate, if_pos hdiv, Option.getD_some]
    show Nat.testBit ((List.replicate 32 0).getD (i / 8) 0) _ = _
    rw [hbyte, Nat.zero_testBit, decide_eq_false (by omega), Bool.false_and]
  case poly_lt => decide
  case poly => exact fun i _ => by simp
  case words_lt => decide
  case words => exact fun i _ => by simp

/-- **Reading splits the number that the words denote**: the scalar, the polynomial checksum and
the words checksum are its bits from the highest on. -/
theorem decodeBits_spec {words : List ℕ} (hlength : words.length = 25)
    (hlt : ∀ word ∈ words, word < 2 ^ 11) :
    ofDigits 8 (decodeBits words).scalarBytes = ofDigits 11 words / 2 ^ 19 ∧
      (decodeBits words).polyChecksum = ofDigits 11 words / 2 ^ 11 % 2 ^ 8 ∧
      (decodeBits words).wordsChecksum = ofDigits 11 words % 2 ^ 11 := by
  have hread := decodeBits_read words
  rw [hlength] at hread
  have hbit : ∀ i < 275, bitAt 11 words i = (ofDigits 11 words).testBit (274 - i) := by
    intro i hi
    have := testBit_ofDigits (by decide) hlt (show i < 11 * words.length by omega)
    rw [hlength] at this
    exact this.symm
  have hnumber := ofDigits_lt hlt
  rw [hlength] at hnumber
  refine ⟨?_, ?_, ?_⟩
  · refine Nat.eq_of_testBit_eq fun j => ?_
    rw [Nat.testBit_div_two_pow]
    by_cases hj : j < 256
    · have hleft := testBit_ofDigits (by decide) hread.bytes_lt
        (show 255 - j < 8 * (decodeBits words).scalarBytes.length by rw [hread.length]; omega)
      rw [hread.length, hread.scalar _ (by omega), hbit _ (by omega)] at hleft
      have h1 : 8 * 32 - 1 - (255 - j) = j := by omega
      have h2 : 274 - (255 - j) = j + 19 := by omega
      have h3 : 255 - j < 11 * 25 := by omega
      rwa [h1, h2, decide_eq_true h3, Bool.true_and] at hleft
    · have hbytes := ofDigits_lt hread.bytes_lt
      rw [hread.length] at hbytes
      rw [Nat.testBit_lt_two_pow (hbytes.trans_le (Nat.pow_le_pow_right (by decide) (by omega))),
        Nat.testBit_lt_two_pow (hnumber.trans_le (Nat.pow_le_pow_right (by decide) (by omega)))]
  · refine Nat.eq_of_testBit_eq fun j => ?_
    rw [Nat.testBit_mod_two_pow, Nat.testBit_div_two_pow]
    by_cases hj : j < 8
    · have hleft := hread.poly (7 - j) (by omega)
      have h1 : 7 - (7 - j) = j := by omega
      have h2 : 274 - (256 + (7 - j)) = j + 11 := by omega
      have h3 : 256 + (7 - j) < 11 * 25 := by omega
      rw [hbit _ (by omega), h1, h2, decide_eq_true h3, Bool.true_and] at hleft
      rw [hleft, decide_eq_true hj, Bool.true_and]
    · rw [decide_eq_false hj, Bool.false_and]
      exact Nat.testBit_lt_two_pow (hread.poly_lt.trans_le
        (Nat.pow_le_pow_right (by decide) (by omega)))
  · refine Nat.eq_of_testBit_eq fun j => ?_
    rw [Nat.testBit_mod_two_pow]
    by_cases hj : j < 11
    · have hleft := hread.words (10 - j) (by omega)
      have h1 : 10 - (10 - j) = j := by omega
      have h2 : 274 - (264 + (10 - j)) = j := by omega
      have h3 : 264 + (10 - j) < 11 * 25 := by omega
      rw [hbit _ (by omega), h1, h2, decide_eq_true h3, Bool.true_and] at hleft
      rw [hleft, decide_eq_true hj, Bool.true_and]
    · rw [decide_eq_false hj, Bool.false_and]
      exact Nat.testBit_lt_two_pow (hread.words_lt.trans_le
        (Nat.pow_le_pow_right (by decide) (by omega)))

/-! ### Looking the words up -/

/-- The words whose indices are the digits of a number. -/
def wordsOf (n : ℕ) : List String := (toDigits 11 25 n).map fun i => BIP39_WORDS.getD i ""

/-- The words at some indices look up to these indices. -/
theorem lookUpWords_map {wordIndices : List ℕ} (i : ℕ)
    (hlt : ∀ wordIdx ∈ wordIndices, wordIdx < 2 ^ 11) :
    lookUpWords i (wordIndices.map fun wordIdx => BIP39_WORDS.getD wordIdx "") =
      .ok wordIndices := by
  induction wordIndices generalizing i with
  | nil => rfl
  | cons wordIdx rest ih =>
      obtain ⟨hhead, hrest⟩ := List.forall_mem_cons.mp hlt
      have hin : wordIdx < BIP39_WORDS.length := by rwa [length_words]
      have hword : BIP39_WORDS[wordIdx]? = some (BIP39_WORDS.getD wordIdx "") := by
        rw [List.getD_eq_getElem?_getD, List.getElem?_eq_getElem hin, Option.getD_some]
      rw [List.map_cons, lookUpWords, wordToIndex_getElem hword]
      simp only [ih (i + 1) hrest]

/-- What is looked up has as many indices as there are words, and they fit eleven bits. -/
theorem lookUpWords_ok {words : List String} {i : ℕ} {wordIndices : List ℕ}
    (h : lookUpWords i words = .ok wordIndices) :
    wordIndices.length = words.length ∧ ∀ wordIdx ∈ wordIndices, wordIdx < 2 ^ 11 := by
  induction words generalizing i wordIndices with
  | nil =>
      cases h
      exact ⟨rfl, fun _ h => by cases h⟩
  | cons word words ih =>
      rw [lookUpWords] at h
      cases hword : wordToIndex word with
      | none => simp only [hword, reduceCtorEq] at h
      | some wordIdx =>
          cases hrest : lookUpWords (i + 1) words with
          | error e => simp only [hword, hrest, reduceCtorEq] at h
          | ok rest =>
              simp only [hword, hrest, Except.ok.injEq] at h
              subst h
              obtain ⟨hlength, hlt⟩ := ih hrest
              exact ⟨congrArg (· + 1) hlength, List.forall_mem_cons.mpr ⟨wordToIndex_lt hword, hlt⟩⟩

namespace ShareBackup

/-- What words that are read successfully say: their indices, the checksum that covers the backup,
and the polynomial checksum. -/
theorem fromWords_ok {index : ℕ} {words : Vector String NUM_WORDS} {b : ShareBackup}
    (h : fromWords sha256 index words = .ok b) :
    ∃ wordIndices, lookUpWords 0 words.toList = .ok wordIndices ∧
      b.index.val = index % groupOrder ∧
      b.share.share = Scalar.fromBytesModOrder (decodeBits wordIndices).scalarBytes ∧
      b.polyChecksum = (decodeBits wordIndices).polyChecksum ∧
      computeWordsChecksum sha256 index b.share.share b.polyChecksum =
        (decodeBits wordIndices).wordsChecksum := by
  rw [fromWords] at h
  cases hlook : lookUpWords 0 words.toList with
  | error e => simp only [hlook, reduceCtorEq] at h
  | ok wordIndices =>
      simp only [hlook] at h
      split at h
      · cases h
      rename_i hchecksum
      split at h
      · obtain rfl := Except.ok.inj h
        exact ⟨wordIndices, rfl, rfl, rfl, rfl, not_not.mp hchecksum⟩
      · cases h

/-- The polynomial checksum that is read has eight bits. -/
theorem polyChecksum_lt_of_fromWords {index : ℕ} {words : Vector String NUM_WORDS}
    {b : ShareBackup} (h : fromWords sha256 index words = .ok b) :
    b.polyChecksum < 2 ^ POLY_CHECKSUM_BITS := by
  obtain ⟨wordIndices, -, -, -, hpoly, -⟩ := fromWords_ok sha256 h
  rw [hpoly]
  exact (decodeBits_read wordIndices).poly_lt

/-- So does the one that is computed. -/
theorem polyChecksum_lt_of_fromSecretShare (secretShare : SecretShare)
    (pointPolynomial : List (List ℕ)) :
    (fromSecretShareAndSharedKey sha256 secretShare pointPolynomial).polyChecksum <
      2 ^ POLY_CHECKSUM_BITS :=
  computePolyChecksum_lt sha256 _ _ _

/-- The number that the words for a backup denote, when their scalar bits denote `scalar`. -/
def packed (index scalar : ℕ) (b : ShareBackup) : ℕ :=
  (scalar * 2 ^ 8 + b.polyChecksum) * 2 ^ 11 +
    computeWordsChecksum sha256 index b.share.share b.polyChecksum

theorem packed_lt {b : ShareBackup} {index scalar : ℕ} (hscalar : scalar < 2 ^ 256)
    (hpoly : b.polyChecksum < 2 ^ 8) : b.packed sha256 index scalar < 2 ^ (11 * 25) := by
  have hchecksum := computeWordsChecksum_lt sha256 index b.share.share b.polyChecksum
  have hchecksum : computeWordsChecksum sha256 index b.share.share b.polyChecksum < 2 ^ 11 :=
    hchecksum
  rw [packed]
  omega

/-- The number splits into what it was packed from. -/
theorem unpack {b : ShareBackup} (hpoly : b.polyChecksum < 2 ^ 8) (index scalar : ℕ) :
    b.packed sha256 index scalar / 2 ^ 19 = scalar ∧
      b.packed sha256 index scalar / 2 ^ 11 % 2 ^ 8 = b.polyChecksum ∧
      b.packed sha256 index scalar % 2 ^ 11 =
        computeWordsChecksum sha256 index b.share.share b.polyChecksum := by
  have hchecksum := computeWordsChecksum_lt sha256 index b.share.share b.polyChecksum
  have hchecksum : computeWordsChecksum sha256 index b.share.share b.polyChecksum < 2 ^ 11 :=
    hchecksum
  rw [packed]
  omega

/-- The words that are written. -/
theorem toWords_eq {b : ShareBackup} (hindex : b.index.val < 2 ^ 32)
    (hpoly : b.polyChecksum < 2 ^ 8) :
    ∃ words, b.toWords sha256 = .ret words ∧
      words.toList = wordsOf (b.packed sha256 b.index.val b.share.share.val) := by
  obtain ⟨v, hv, hlt, hvalue⟩ := toWordIndices_spec sha256 hindex hpoly
  have hbounds : ∀ i ∈ v.toList, i < BIP39_WORDS.length := by rwa [length_words]
  refine ⟨v.map fun i => BIP39_WORDS.getD i "", ?_, ?_⟩
  · rw [toWords, hv, Exec.ret_bind, Exec.assert_of _ hbounds, Exec.ret_bind]
    rfl
  · have hdigits := toDigits_ofDigits hlt
    rw [v.length_toList, hvalue] at hdigits
    rw [Vector.toList_map, wordsOf, packed, hdigits]

theorem eq_of_index {b : ShareBackup} {i : Scalar} (h : i = b.index) {hne : i ≠ ⟨0, by decide⟩} :
    { share := { index := i, index_ne_zero := hne, share := b.share.share }
      polyChecksum := b.polyChecksum } = b := by
  subst h
  rfl

/-- **Reading words**: scalar bits that denote the share, reduced, are read as the share. -/
theorem fromWords_of_packed {b : ShareBackup} {scalar : ℕ} {words : Vector String NUM_WORDS}
    (hscalar : scalar < 2 ^ 256) (hshare : b.share.share.val = scalar % groupOrder)
    (hpoly : b.polyChecksum < 2 ^ 8)
    (hwords : words.toList = wordsOf (b.packed sha256 b.index.val scalar)) :
    fromWords sha256 b.index.val words = .ok b := by
  generalize hdigits : toDigits 11 25 (b.packed sha256 b.index.val scalar) = wordIndices
  have hlength : wordIndices.length = 25 := by rw [← hdigits, length_toDigits]
  have hlt : ∀ wordIdx ∈ wordIndices, wordIdx < 2 ^ 11 := by
    rw [← hdigits]
    exact fun _ => lt_of_mem_toDigits
  have hvalue : ofDigits 11 wordIndices = b.packed sha256 b.index.val scalar := by
    rw [← hdigits]
    exact ofDigits_toDigits (packed_lt sha256 hscalar hpoly)
  have hlook : lookUpWords 0 words.toList = .ok wordIndices := by
    rw [hwords, wordsOf, hdigits]
    exact lookUpWords_map 0 hlt
  obtain ⟨hbytes, hpolyRead, hwordsRead⟩ := decodeBits_spec hlength hlt
  obtain ⟨hbytes', hpoly', hwords'⟩ := unpack sha256 hpoly b.index.val scalar
  rw [hvalue] at hbytes hpolyRead hwordsRead
  rw [hbytes'] at hbytes
  rw [hpoly'] at hpolyRead
  rw [hwords'] at hwordsRead
  have hread : Scalar.fromBytesModOrder (decodeBits wordIndices).scalarBytes = b.share.share := by
    refine Fin.ext ?_
    rw [hshare, ← hbytes]
    rfl
  have hmod : b.index.val % groupOrder = b.index.val := Nat.mod_eq_of_lt b.index.isLt
  have hne : b.index.val % groupOrder ≠ 0 := by
    rw [hmod]
    exact fun hzero => b.share.index_ne_zero (Fin.ext hzero)
  rw [fromWords, hlook]
  simp only [hread, hpolyRead, hwordsRead, ne_eq, not_true_eq_false, if_false]
  rw [dif_pos hne]
  exact congrArg Except.ok (eq_of_index (Fin.ext hmod))

/-- Words that were written read back as the backup. -/
theorem fromWords_toWords {b : ShareBackup} (hindex : b.index.val < 2 ^ 32)
    (hpoly : b.polyChecksum < 2 ^ 8) :
    ∃ words, b.toWords sha256 = .ret words ∧ fromWords sha256 b.index.val words = .ok b := by
  obtain ⟨words, hwrite, hwords⟩ := toWords_eq sha256 hindex hpoly
  exact ⟨words, hwrite, fromWords_of_packed sha256 b.share.share.val_lt_two_pow
    (Nat.mod_eq_of_lt b.share.share.isLt).symm hpoly hwords⟩

end ShareBackup

/-- **Round trip.** A backup whose index fits 32 bits and whose polynomial checksum fits its eight
bits reads back from its words. Whatever is read successfully has the index that was given and a
words checksum, the last word, that fits the index, the share and the polynomial checksum; the
polynomial checksum is what the words say, and a polynomial is accepted exactly when its checksum is
that. -/
theorem share_backup_round_trip :
    (∀ b : ShareBackup, b.index.val < 2 ^ 32 → b.polyChecksum < 2 ^ POLY_CHECKSUM_BITS →
      ∃ words, b.toWords sha256 = .ret words ∧
        ShareBackup.fromWords sha256 b.index.val words = .ok b) ∧
    ∀ (index : ℕ) (words : Vector String NUM_WORDS) (b : ShareBackup), index < 2 ^ 32 →
      ShareBackup.fromWords sha256 index words = .ok b →
      b.index.val = index ∧
        (∃ wordIndices, lookUpWords 0 words.toList = .ok wordIndices ∧
          ofDigits BITS_PER_WORD wordIndices % 2 ^ WORDS_CHECKSUM_BITS =
            computeWordsChecksum sha256 index b.share.share b.polyChecksum ∧
          ofDigits BITS_PER_WORD wordIndices / 2 ^ WORDS_CHECKSUM_BITS % 2 ^ POLY_CHECKSUM_BITS =
            b.polyChecksum) ∧
        ∀ pointPolynomial, b.extractSecret sha256 pointPolynomial = .ok b.share ↔
          computePolyChecksum sha256 b.index b.share.share pointPolynomial = b.polyChecksum := by
  refine ⟨fun b hindex hpoly => ShareBackup.fromWords_toWords sha256 hindex hpoly, ?_⟩
  intro index words b hindex h
  obtain ⟨wordIndices, hlook, hindexRead, -, hpoly, hchecksum⟩ := ShareBackup.fromWords_ok sha256 h
  obtain ⟨hlength, hlt⟩ := lookUpWords_ok hlook
  obtain ⟨-, hpolyBits, hwordsBits⟩ :=
    decodeBits_spec (hlength.trans Vector.length_toList) hlt
  refine ⟨?_, ⟨wordIndices, hlook, ?_, ?_⟩, ?_⟩
  · rw [hindexRead]
    exact Nat.mod_eq_of_lt (hindex.trans (by decide))
  · rw [hchecksum, hwordsBits]
  · rw [hpoly, hpolyBits]
  · intro pointPolynomial
    rw [ShareBackup.extractSecret]
    split
    · rename_i hne
      exact ⟨fun herror => (by cases herror), fun heq => absurd heq hne⟩
    · rename_i heq
      exact ⟨fun _ => not_not.mp heq, fun _ => rfl⟩

/-- A backup with index 1, scalar 2 and the polynomial checksum given. -/
def sampleBackup (polyChecksum : ℕ) : ShareBackup where
  share := { index := ⟨1, by decide⟩, index_ne_zero := by decide, share := ⟨2, by decide⟩ }
  polyChecksum := polyChecksum

theorem share_backup_round_trip_of_sample :
    ∃ words b, (sampleBackup 7).toWords (fun _ => [3, 4]) = .ret words ∧
      ShareBackup.fromWords (fun _ => [3, 4]) 1 words = .ok b ∧
      b.index.val = 1 ∧ b.polyChecksum = 7 := by
  obtain ⟨hwrite, hread⟩ := share_backup_round_trip fun _ => [3, 4]
  obtain ⟨words, hwords, hback⟩ := hwrite (sampleBackup 7) (by decide) (by decide)
  exact ⟨words, sampleBackup 7, hwords, hback,
    (hread 1 words (sampleBackup 7) (by decide) hback).1, rfl⟩

/-- A polynomial checksum of nine bits, which the field has room for, does not come back. -/
theorem nine_bit_poly_checksum_is_lost :
    (sampleBackup 256).index.val < 2 ^ 32 ∧ (sampleBackup 256).polyChecksum < 2 ^ 16 ∧
      ∀ sha256 : Sha256, ¬ ∃ words, (sampleBackup 256).toWords sha256 = .ret words ∧
        ShareBackup.fromWords sha256 (sampleBackup 256).index.val words =
          .ok (sampleBackup 256) := by
  refine ⟨by decide, by decide, ?_⟩
  rintro sha256 ⟨words, -, hread⟩
  exact absurd (ShareBackup.polyChecksum_lt_of_fromWords sha256 hread) (by decide)

end Frostsnap.Backup
