import Frostsnap.Backup.Bip39Words
import Frostsnap.Lib.PrefixBlock

/-!
# Words with a prefix

The part of `bip39_words.rs` that an entry of words is completed with: which words begin with the
letters that were typed, and which letters can come next. The list is sorted, so both look for the
first of the words and stop behind the last.

## Main results

* `mem_wordsWithPrefix`: the words with a prefix are found, and no others.
* `isValid_getValidNextLetters`: the letters are those that lead to a word.
* `qu_of_prefix`: a Q is followed by a U.
-/

namespace Frostsnap.Backup

/-! ### The letters of the words -/

/-- The words as `&str`s that are taken apart. -/
def WORDS : List (List Char) := BIP39_WORDS.map String.toList

/-- The bytes of a text are those of its characters. -/
theorem utf8Bytes_eq (s : String) :
    utf8Bytes s = s.toList.flatMap fun c => (String.utf8EncodeChar c).map UInt8.toNat := by
  have h : s.toByteArray = s.toList.utf8Encode := by
    rw [← String.toByteArray_ofList, String.ofList_toList]
  rw [utf8Bytes, h, List.utf8Encode, List.data_toByteArray, List.toList_toArray, List.map_flatMap]

/-- A byte below 128 is a character of its own. -/
theorem utf8EncodeChar_of_lt {c : Char}
    (h : ∀ b ∈ (String.utf8EncodeChar c).map UInt8.toNat, b < 128) :
    (String.utf8EncodeChar c).map UInt8.toNat = [c.toNat] := by
  -- The first byte of a longer encoding has its top bit set.
  have hfirst : ∀ {n : ℕ} {bs : List UInt8}, 128 ≤ n → n < 256 →
      (String.utf8EncodeChar c).map UInt8.toNat = (UInt8.ofNat n :: bs).map UInt8.toNat →
      (String.utf8EncodeChar c).map UInt8.toNat = [c.toNat] := by
    intro n bs hge hlt heq
    have hb := h n (by rw [heq, List.map_cons, UInt8.toNat_ofNat_of_lt' hlt]; simp)
    omega
  rw [String.utf8EncodeChar] at hfirst ⊢
  split
  · next hle =>
    rw [List.map_cons, List.map_nil, UInt8.toNat_ofNat_of_lt' (Nat.lt_of_le_of_lt hle (by decide))]
    rfl
  · next hgt =>
    rw [if_neg hgt] at hfirst
    split
    · next hle =>
      rw [if_pos hle] at hfirst
      exact hfirst (by omega) (by omega) rfl
    · next hgt' =>
      rw [if_neg hgt'] at hfirst
      split
      · next hle =>
        rw [if_pos hle] at hfirst
        exact hfirst (by omega) (by omega) rfl
      · next hgt'' =>
        rw [if_neg hgt''] at hfirst
        exact hfirst (by omega) (by omega) rfl

/-- The bytes of an ASCII string are its characters. -/
theorem utf8Bytes_of_ascii {s : String} (h : ∀ b ∈ utf8Bytes s, b < 128) :
    utf8Bytes s = s.toList.map Char.toNat := by
  rw [utf8Bytes_eq] at h ⊢
  generalize s.toList = l at h ⊢
  induction l with
  | nil => rfl
  | cons c l ih =>
      rw [List.flatMap_cons, List.forall_mem_append] at h
      rw [List.flatMap_cons, utf8EncodeChar_of_lt h.1, ih h.2, List.map_cons, List.singleton_append]

/-- Letters, where a Q is followed by a U. -/
def wellSpelled : List Char → Bool
  | [] => true
  | 'Q' :: 'U' :: rest => wellSpelled rest
  | c :: rest => decide ('A' ≤ c) && decide (c ≤ 'Z') && c != 'Q' && wellSpelled rest

/-- What the list is checked for. -/
def wordChecked (w : String) : Bool :=
  (utf8Bytes w).all (· < 128) && !(utf8Bytes w).isEmpty &&
    wellSpelled ((utf8Bytes w).map Char.ofNat)

/-- Every word of the list is spelled with capital letters, one after the other. -/
theorem words_checked : BIP39_WORDS.all wordChecked = true := by decide +kernel

/-- Such a word is its bytes. -/
theorem toList_of_checked {w : String} (h : wordChecked w = true) :
    utf8Bytes w = w.toList.map Char.toNat ∧ w.toList ≠ [] ∧ wellSpelled w.toList = true := by
  rw [wordChecked, Bool.and_eq_true, Bool.and_eq_true, List.all_eq_true] at h
  obtain ⟨⟨hascii, hne⟩, hspelled⟩ := h
  have hbytes := utf8Bytes_of_ascii fun b hb => of_decide_eq_true (hascii b hb)
  have hchars : (utf8Bytes w).map Char.ofNat = w.toList := by
    rw [hbytes, List.map_map]
    refine (List.map_congr_left fun c _ => ?_).trans (List.map_id _)
    exact Char.ofNat_toNat c
  rw [hchars] at hspelled
  refine ⟨hbytes, fun hnil => ?_, hspelled⟩
  rw [hbytes, hnil] at hne
  cases hne

/-- The words, as characters. -/
theorem mem_WORDS {w : List Char} : w ∈ WORDS ↔ ∃ word ∈ BIP39_WORDS, word.toList = w :=
  List.mem_map

/-- None of them is empty. -/
theorem checked_of_mem {w : List Char} (h : w ∈ WORDS) : w ≠ [] ∧ wellSpelled w = true := by
  obtain ⟨word, hword, rfl⟩ := mem_WORDS.1 h
  exact (toList_of_checked (List.all_eq_true.1 words_checked word hword)).2

/-- The letters are in the order of the bytes. -/
theorem map_toNat_lt_iff {v w : List Char} : v.map Char.toNat < w.map Char.toNat ↔ v < w := by
  have hmono : ∀ c d : Char, c < d → c.toNat < d.toNat := fun c d h => h
  constructor
  · intro h
    rcases lt_trichotomy v w with hlt | rfl | hgt
    · exact hlt
    · exact absurd h (lt_irrefl _)
    · exact absurd h (lt_asymm (List.map_lt hmono hgt))
  · exact List.map_lt hmono

/-- They are in order, so that a binary search finds them. -/
theorem WORDS_sorted : WORDS.Pairwise (· < ·) := by
  have h := words_increasing
  rw [List.pairwise_map] at h
  rw [WORDS, List.pairwise_map]
  refine h.imp_of_mem fun {v w} hv hw hlt => ?_
  have hv' := (toList_of_checked (List.all_eq_true.1 words_checked v hv)).1
  have hw' := (toList_of_checked (List.all_eq_true.1 words_checked w hw)).1
  rw [hv', hw'] at hlt
  exact map_toNat_lt_iff.1 hlt

/-- They have capital letters only. -/
theorem letter_of_wellSpelled {w : List Char} (h : wellSpelled w = true) :
    ∀ c ∈ w, 'A' ≤ c ∧ c ≤ 'Z' := by
  induction w using wellSpelled.induct with
  | case1 => exact fun c hc => absurd hc List.not_mem_nil
  | case2 rest ih =>
      rw [wellSpelled] at h
      intro c hc
      rcases List.mem_cons.1 hc with rfl | hc
      · decide
      rcases List.mem_cons.1 hc with rfl | hc
      · decide
      exact ih h c hc
  | case3 d rest hne ih =>
      rw [wellSpelled.eq_3 _ _ hne] at h
      simp only [Bool.and_eq_true, decide_eq_true_eq] at h
      intro c hc
      rcases List.mem_cons.1 hc with rfl | hc
      · exact h.1.1
      · exact ih h.2 c hc

/-- **A Q is followed by a U.** -/
theorem qu_of_wellSpelled {w p : List Char} (hw : wellSpelled w = true) (h : p ++ ['Q'] <+: w) :
    p ++ ['Q', 'U'] <+: w := by
  induction w using wellSpelled.induct generalizing p with
  | case1 => exact absurd (List.prefix_nil.1 h) (List.append_ne_nil_of_right_ne_nil p (by decide))
  | case2 rest ih =>
      rw [wellSpelled] at hw
      match p with
      | [] => exact ⟨rest, rfl⟩
      | [c] =>
          obtain ⟨t, ht⟩ := h
          cases ht
      | c :: d :: p =>
          rw [List.cons_append, List.cons_append, List.cons_prefix_cons, List.cons_prefix_cons] at h
          obtain ⟨rfl, rfl, h⟩ := h
          obtain ⟨t, ht⟩ := ih hw h
          exact ⟨t, by rw [← ht]; rfl⟩
  | case3 c rest hne ih =>
      rw [wellSpelled.eq_3 _ _ hne] at hw
      simp only [Bool.and_eq_true, decide_eq_true_eq, bne_iff_ne] at hw
      cases p with
      | nil => exact absurd (List.cons_prefix_cons.1 h).1.symm hw.1.2
      | cons d p =>
          rw [List.cons_append, List.cons_prefix_cons] at h
          obtain ⟨rfl, h⟩ := h
          obtain ⟨t, ht⟩ := ih hw.2 h
          exact ⟨t, by rw [← ht]; rfl⟩

/-! ### `words_with_prefix` -/

/-- Get all words that start with the given prefix. -/
def wordsWithPrefix (letters : List Char) : List (List Char) :=
  if letters = [] then WORDS
  else
    let start := partitionPoint (fun w => decide (w < letters)) WORDS
    (WORDS.drop start).takeWhile fun w => letters.isPrefixOf w

/-- **The words with a prefix.** -/
theorem wordsWithPrefix_eq (letters : List Char) :
    wordsWithPrefix letters = WORDS.filter fun w => letters.isPrefixOf w := by
  rw [wordsWithPrefix]
  split
  · next hnil =>
    symm
    rw [List.filter_eq_self]
    intro w _
    rw [hnil]
    rfl
  · exact takeWhile_drop_partitionPoint WORDS_sorted letters

/-- **The words with a prefix** are those of the list that start with it. -/
theorem mem_wordsWithPrefix {letters w : List Char} :
    w ∈ wordsWithPrefix letters ↔ w ∈ WORDS ∧ letters <+: w := by
  rw [wordsWithPrefix_eq, List.mem_filter, List.isPrefixOf_iff_prefix]

/-! ### `get_valid_next_letters` -/

/-- Which letters are valid next characters. -/
structure ValidLetters where
  letters : Fin 26 → Bool
  count : ℕ

namespace ValidLetters

/-- No letter starts with x. -/
def default : ValidLetters where
  letters idx := idx ≠ 23
  count := 25

/-- No letter. -/
def allFalse : ValidLetters where
  letters _ := false
  count := 0

/-- The number of a capital letter. -/
def letterToIndex (letter : Char) : Option (Fin 26) :=
  if h : 'A' ≤ letter ∧ letter ≤ 'Z' then
    some ⟨letter.toNat - 65, by
      have hle : letter.toNat ≤ 90 := h.2
      omega⟩
  else none

/-- Set a letter as valid. -/
def set (valid : ValidLetters) (letter : Char) : ValidLetters :=
  match letterToIndex letter with
  | some idx =>
      if valid.letters idx then valid
      else { letters := Function.update valid.letters idx true, count := valid.count + 1 }
  | none => valid

/-- Check if a letter is valid. -/
def isValid (valid : ValidLetters) (letter : Char) : Bool :=
  ((letterToIndex letter).map valid.letters).getD false

end ValidLetters

/-- The loop over the words, as long as they have the prefix. -/
def collectLetters (letters : List Char) : List (List Char) → ValidLetters → ValidLetters
  | [], valid => valid
  | w :: ws, valid =>
      if letters.isPrefixOf w then
        match w.drop letters.length with
        | ch :: _ => collectLetters letters ws (valid.set ch)
        | [] => collectLetters letters ws valid
      else valid

/-- Which next letters are possible after a prefix. -/
def getValidNextLetters (letters : List Char) : ValidLetters :=
  if letters = [] then ValidLetters.default
  else
    let start := partitionPoint (fun w => decide (w.take letters.length < letters)) WORDS
    collectLetters letters (WORDS.drop start) ValidLetters.allFalse

namespace ValidLetters

/-- Every capital letter has a number. -/
theorem letterToIndex_of {c : Char} (h : 'A' ≤ c ∧ c ≤ 'Z') :
    ∃ idx : Fin 26, letterToIndex c = some idx ∧ idx.val + 65 = c.toNat := by
  have hge : 65 ≤ c.toNat := h.1
  rw [letterToIndex, dif_pos h]
  exact ⟨_, rfl, Nat.sub_add_cancel hge⟩

/-- Nothing else has one. -/
theorem letter_of_letterToIndex {c : Char} {idx : Fin 26} (h : letterToIndex c = some idx) :
    ('A' ≤ c ∧ c ≤ 'Z') ∧ idx.val + 65 = c.toNat := by
  rw [letterToIndex] at h
  split at h
  · next hc =>
    have hge : 65 ≤ c.toNat := hc.1
    obtain rfl := Option.some.inj h
    exact ⟨hc, Nat.sub_add_cancel hge⟩
  · cases h

/-- No letter is valid. -/
@[simp] theorem isValid_allFalse (c : Char) : allFalse.isValid c = false := by
  rw [isValid]
  cases letterToIndex c <;> rfl

/-- One more letter is. -/
theorem isValid_set (valid : ValidLetters) {ch : Char} (hch : 'A' ≤ ch ∧ ch ≤ 'Z') (c : Char) :
    (valid.set ch).isValid c = true ↔ valid.isValid c = true ∨ c = ch := by
  obtain ⟨idx, hidx, hval⟩ := letterToIndex_of hch
  have hset : (valid.set ch).letters = Function.update valid.letters idx true := by
    rw [set, hidx]
    dsimp only
    split
    · next h => rw [← h, Function.update_eq_self]
    · rfl
  rw [isValid, isValid, hset]
  cases hc : letterToIndex c with
  | none =>
      refine ⟨Or.inl, ?_⟩
      rintro (h | rfl)
      · exact h
      · rw [hidx] at hc
        cases hc
  | some idx' =>
      have hval' := (letter_of_letterToIndex hc).2
      rw [Option.map_some, Option.map_some, Option.getD_some, Option.getD_some]
      by_cases heq : idx' = idx
      · have hcc : c = ch := Char.toNat_inj.1 (by rw [← hval', ← hval, heq])
        rw [heq, Function.update_self]
        exact ⟨fun _ => Or.inr hcc, fun _ => rfl⟩
      · rw [Function.update_of_ne heq]
        refine ⟨Or.inl, ?_⟩
        rintro (h | rfl)
        · exact h
        · exact absurd (Option.some.inj (hc.symm.trans hidx)) heq

end ValidLetters

/-- A letter behind a prefix. -/
theorem prefix_snoc_iff {p w : List Char} {c : Char} (h : p <+: w) :
    p ++ [c] <+: w ↔ (w.drop p.length).head? = some c := by
  obtain ⟨t, rfl⟩ := h
  rw [List.prefix_append_right_inj, List.drop_left]
  cases t with
  | nil => exact ⟨fun h => absurd (List.prefix_nil.1 h) (List.cons_ne_nil c []), nofun⟩
  | cons d t =>
      rw [List.cons_prefix_cons, List.head?_cons, Option.some_inj]
      exact ⟨fun h => h.1.symm, fun h => ⟨h.symm, List.nil_prefix⟩⟩

/-- A letter is valid if a word goes on with it. -/
theorem isValid_collectLetters {letters : List Char} {ws : List (List Char)} (c : Char)
    (hws : ∀ w ∈ ws, ∀ d ∈ w, 'A' ≤ d ∧ d ≤ 'Z') (valid : ValidLetters) :
    (collectLetters letters ws valid).isValid c = true ↔
      valid.isValid c = true ∨
        ∃ w ∈ ws.takeWhile fun w => letters.isPrefixOf w, letters ++ [c] <+: w := by
  induction ws generalizing valid with
  | nil => simp [collectLetters]
  | cons w ws ih =>
      have hws' := fun v hv => hws v (List.mem_cons_of_mem w hv)
      rw [collectLetters]
      cases hp : letters.isPrefixOf w with
      | false =>
          rw [if_neg (by decide), List.takeWhile_cons_of_neg (by rw [hp]; decide)]
          simp
      | true =>
          have hsnoc := prefix_snoc_iff (c := c) (List.isPrefixOf_iff_prefix.1 hp)
          rw [if_pos rfl, List.takeWhile_cons_of_pos hp, List.exists_mem_cons_iff, hsnoc]
          cases hrest : w.drop letters.length with
          | nil =>
              dsimp only
              rw [ih hws' valid, List.head?_nil]
              simp
          | cons d t =>
              have hd := hws w (List.mem_cons_self ..) d
                (List.mem_of_mem_drop (by rw [hrest]; exact List.mem_cons_self ..))
              dsimp only
              rw [ih hws' (valid.set d), ValidLetters.isValid_set valid hd, List.head?_cons,
                Option.some_inj, or_assoc, eq_comm (a := c)]

/-- The first letters of words, each run of them once. -/
def initials (last : ℕ) : List String → List ℕ
  | [] => []
  | w :: ws =>
      if (utf8Bytes w).headD 0 = last then initials last ws
      else (utf8Bytes w).headD 0 :: initials ((utf8Bytes w).headD 0) ws

/-- An initial is that of a word. -/
theorem exists_of_mem_initials {b last : ℕ} {ws : List String} (h : b ∈ initials last ws) :
    ∃ w ∈ ws, (utf8Bytes w).headD 0 = b := by
  induction ws generalizing last with
  | nil => exact absurd h List.not_mem_nil
  | cons w ws ih =>
      rw [List.exists_mem_cons_iff]
      rw [initials] at h
      split at h
      · exact Or.inr (ih h)
      · rcases List.mem_cons.1 h with rfl | h
        · exact Or.inl rfl
        · exact Or.inr (ih h)

/-- A word's initial is collected, or it is that of the word before. -/
theorem mem_initials {last : ℕ} {ws : List String} {w : String} (hw : w ∈ ws) :
    (utf8Bytes w).headD 0 = last ∨ (utf8Bytes w).headD 0 ∈ initials last ws := by
  induction ws generalizing last with
  | nil => exact absurd hw List.not_mem_nil
  | cons v ws ih =>
      rw [initials]
      split
      · next heq =>
        rcases List.mem_cons.1 hw with rfl | hw
        · exact Or.inl heq
        · exact ih hw
      · rcases List.mem_cons.1 hw with rfl | hw
        · exact Or.inr (List.mem_cons_self ..)
        · refine Or.inr ?_
          rcases @ih ((utf8Bytes v).headD 0) hw with heq | hmem
          · rw [heq]
            exact List.mem_cons_self ..
          · exact List.mem_cons_of_mem _ hmem

/-- No word begins with an X. -/
theorem initials_words :
    initials 0 BIP39_WORDS =
      [65, 66, 67, 68, 69, 70, 71, 72, 73, 74, 75, 76, 77, 78, 79, 80, 81, 82, 83, 84, 85, 86, 87,
        89, 90] := by
  decide +kernel

/-- A word's first byte is its first letter. -/
theorem first_letter {word : String} (h : word ∈ BIP39_WORDS) :
    ∃ d t, word.toList = d :: t ∧ (utf8Bytes word).headD 0 = d.toNat := by
  obtain ⟨hbytes, hne, -⟩ := toList_of_checked (List.all_eq_true.1 words_checked word h)
  obtain ⟨d, t, hdt⟩ := List.exists_cons_of_ne_nil hne
  refine ⟨d, t, hdt, ?_⟩
  rw [hbytes, hdt]
  rfl

/-- Before anything is typed the valid letters are the initials. -/
theorem isValid_default {c : Char} :
    ValidLetters.default.isValid c = true ↔ ∃ w ∈ WORDS, [c] <+: w := by
  have hindex : ∀ idx : Fin 26, idx.val + 65 ∈ initials 0 BIP39_WORDS ↔ idx ≠ 23 := by
    rw [initials_words]
    decide
  constructor
  · intro h
    rw [ValidLetters.isValid] at h
    cases hidx : ValidLetters.letterToIndex c with
    | none =>
        rw [hidx] at h
        cases h
    | some idx =>
        rw [hidx] at h
        have hmem := (hindex idx).2 (of_decide_eq_true h)
        rw [(ValidLetters.letter_of_letterToIndex hidx).2] at hmem
        obtain ⟨word, hword, hhead⟩ := exists_of_mem_initials hmem
        obtain ⟨d, t, hdt, hd⟩ := first_letter hword
        refine ⟨word.toList, mem_WORDS.2 ⟨word, hword, rfl⟩, ?_⟩
        rw [hdt, List.cons_prefix_cons]
        exact ⟨Char.toNat_inj.1 (hhead.symm.trans hd), List.nil_prefix⟩
  · rintro ⟨w, hw, hp⟩
    obtain ⟨word, hword, rfl⟩ := mem_WORDS.1 hw
    obtain ⟨d, t, hdt, hd⟩ := first_letter hword
    rw [hdt, List.cons_prefix_cons] at hp
    obtain ⟨rfl, -⟩ := hp
    have hletter := letter_of_wellSpelled (checked_of_mem hw).2 c
      (by rw [hdt]; exact List.mem_cons_self ..)
    obtain ⟨idx, hidx, hval⟩ := ValidLetters.letterToIndex_of hletter
    have hmem : idx.val + 65 ∈ initials 0 BIP39_WORDS := by
      rcases @mem_initials 0 _ _ hword with hzero | hmem
      · rw [hd, ← hval] at hzero
        omega
      · rwa [hd, ← hval] at hmem
    rw [ValidLetters.isValid, hidx]
    exact decide_eq_true ((hindex idx).1 hmem)

/-- **The letters are those that lead to a word.** -/
theorem isValid_getValidNextLetters {letters : List Char} {c : Char} :
    (getValidNextLetters letters).isValid c = true ↔ ∃ w ∈ WORDS, letters ++ [c] <+: w := by
  rw [getValidNextLetters]
  split
  · next hnil =>
    rw [hnil, isValid_default]
    rfl
  · have hpoint : (fun w : List Char => decide (w.take letters.length < letters)) =
        fun w => decide (w < letters) := by
      funext w
      exact decide_eq_decide.2 (take_length_lt_iff letters w)
    have hws : ∀ w ∈ WORDS.drop (partitionPoint (fun w => decide (w < letters)) WORDS),
        ∀ d ∈ w, 'A' ≤ d ∧ d ≤ 'Z' := fun w hw =>
      letter_of_wellSpelled (checked_of_mem (List.mem_of_mem_drop hw)).2
    dsimp only
    rw [hpoint, isValid_collectLetters c hws, takeWhile_drop_partitionPoint WORDS_sorted,
      ValidLetters.isValid_allFalse]
    simp only [Bool.false_eq_true, false_or, List.mem_filter, List.isPrefixOf_iff_prefix]
    constructor
    · rintro ⟨w, hw, hp⟩
      exact ⟨w, hw.1, hp⟩
    · rintro ⟨w, hw, hp⟩
      exact ⟨w, ⟨hw, (List.prefix_append letters [c]).trans hp⟩, hp⟩

/-- Letters that more than one word begins with can go on. -/
theorem exists_isValid {letters : List Char} (h : 1 < (wordsWithPrefix letters).length) :
    ∃ c, (getValidNextLetters letters).isValid c = true := by
  -- One of two different words with the prefix is not the prefix itself.
  obtain ⟨w, hw, hne⟩ : ∃ w ∈ wordsWithPrefix letters, w ≠ letters := by
    have hsorted : (wordsWithPrefix letters).Pairwise (· < ·) := by
      rw [wordsWithPrefix_eq]
      exact WORDS_sorted.filter _
    match hmatches : wordsWithPrefix letters with
    | [] =>
        rw [hmatches] at h
        exact absurd h (by decide)
    | [v] =>
        rw [hmatches] at h
        exact absurd h (lt_irrefl 1)
    | v :: w :: ws =>
        rw [hmatches, List.pairwise_cons] at hsorted
        have hlt := hsorted.1 w (List.mem_cons_self ..)
        by_cases hv : v = letters
        · exact ⟨w, List.mem_cons_of_mem v (List.mem_cons_self ..), fun hw => by
            rw [hv, hw] at hlt
            exact lt_irrefl _ hlt⟩
        · exact ⟨v, List.mem_cons_self .., hv⟩
  obtain ⟨hmem, t, rfl⟩ := mem_wordsWithPrefix.1 hw
  cases t with
  | nil => exact absurd (List.append_nil letters) hne
  | cons c t =>
      refine ⟨c, isValid_getValidNextLetters.2 ⟨_, hmem, t, ?_⟩⟩
      rw [List.append_assoc, List.singleton_append]

end Frostsnap.Backup
