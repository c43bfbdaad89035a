import Frostsnap.Core.Ids
import Frostsnap.Lib.Exec

/-!
# Addresses on the screen

An address is cut into chunks of four characters, which are shown in a grid of six rows of three
(`frostsnap_widgets/src/address_display.rs`). A short last chunk that would be alone in its row is
put in the middle of it. Two chunks are highlighted, at places that come from a seed.

The grid holds 72 characters. What an address has more is cut off: a witness program of 39 or 40
bytes has an address of 73 or 74 characters (on regtest, with its longer prefix, one of 38 to 40
bytes has one of 73 to 76).

## Main results

* `chunkAddress_eq`: what is in the grid.
* `pickHighlights_spec`: the loop for the second chunk ends, and the two are different and not at an
  end.
* `addressDisplay_lossless_iff`: when the grid spells the address.
-/

namespace Frostsnap.Widgets

/-- An address as it is written, in bech32 or base58: it has ASCII letters and digits, and none is
shorter than that of a witness program of two bytes. -/
structure AddressText where
  chars : List Char
  alphanumeric : ∀ c ∈ chars, c.isAlphanum
  length_ge : 14 ≤ chars.length

/-- An address has no spaces, so that what is padded can be told from it. -/
theorem AddressText.no_space (address : AddressText) : ' ' ∉ address.chars :=
  fun h => absurd (address.alphanumeric ' ' h) (by decide)

/-! ### Chunks -/

/-- Four spaces. -/
def EMPTY_CHUNK : List Char := [' ', ' ', ' ', ' ']

/-- `{:4}`. -/
def padRight (chunk : List Char) : List Char := chunk ++ List.replicate (4 - chunk.length) ' '

/-- `{:^4}`. -/
def padCenter (chunk : List Char) : List Char :=
  let padding := 4 - chunk.length
  List.replicate (padding / 2) ' ' ++ chunk ++ List.replicate (padding - padding / 2) ' '

namespace chunkAddress

/-- The loop over the slots that are left. -/
def fill (address : List Char) : ℕ → ℕ → ℕ → List (List Char) → List (List Char)
  | 0, _, _, chunks => chunks
  | slots + 1, i, pos, chunks =>
      if pos < address.length then
        let «end» := min (pos + 4) address.length
        let chunk := (address.drop pos).take («end» - pos)
        fill address slots (i + 1) «end» (chunks.set i (padRight chunk))
      else chunks

end chunkAddress

/-- `chunk_address`. -/
def chunkAddress (address : List Char) : List (List Char) :=
  let chunks := chunkAddress.fill address 18 0 0 (List.replicate 18 EMPTY_CHUNK)
  let totalFullChunks := address.length / 4
  let remainder := address.length % 4
  if 0 < remainder ∧ totalFullChunks < 18 then
    let lastRowStart := totalFullChunks / 3 * 3
    let colInRow := totalFullChunks - lastRowStart
    if colInRow = 0 then
      let tail := address.drop (totalFullChunks * 4)
      (chunks.set totalFullChunks EMPTY_CHUNK).set (lastRowStart + 1) (padCenter tail)
    else chunks
  else chunks

/-! ### Highlights -/

/-- The loop for the second chunk. Among `range` values it ends after that many steps or never. -/
def pickSecond (range first : ℕ) : ℕ → ℕ → Exec ℕ
  | 0, _ => .panic "the loop goes on"
  | fuel + 1, second =>
      if second = first then pickSecond range first fuel (1 + (second + 1) % range)
      else .ret second

/-- `pick_highlights`. -/
def pickHighlights (seed : BitVec 32) (numChunks : ℕ) : Exec (BTreeSet ℕ) :=
  if numChunks ≤ 2 then .ret ∅
  else do
    let range := (numChunks - 2) % 2 ^ 32
    let first := 1 + seed.toNat % range
    let second ← pickSecond range first (range + 1) (1 + (seed * 7 + 5).toNat % range)
    return ((∅ : BTreeSet ℕ).insert first).insert second

/-! ### The grid -/

/-- The two colors of chunks. -/
inductive TextColor where
  | primary
  | onBackground
  deriving DecidableEq

/-- A chunk on the screen. -/
structure ChunkText where
  chunk : List Char
  color : TextColor
  deriving DecidableEq

/-- `ChunkedAddressDisplay::new`: six rows of three. -/
def ChunkedAddressDisplay.new (chunks : List (List Char)) (highlighted : BTreeSet ℕ) :
    List (List ChunkText) :=
  let makeChunk := fun idx =>
    { chunk := chunks.getD idx []
      color := if idx ∈ highlighted then .onBackground else .primary }
  let makeRow := fun i => [makeChunk (i * 3), makeChunk (i * 3 + 1), makeChunk (i * 3 + 2)]
  [makeRow 0, makeRow 1, makeRow 2, makeRow 3, makeRow 4, makeRow 5]

/-- `!c.trim().is_empty()`. -/
def Shown (chunk : List Char) : Prop := (chunk.any fun c => c ≠ ' ') = true

instance (chunk : List Char) : Decidable (Shown chunk) := inferInstanceAs (Decidable (_ = true))

/-- `AddressDisplay::new_with_seed`. -/
def AddressDisplay.newWithSeed (address : AddressText) (seed : BitVec 32) :
    Exec (List (List ChunkText)) := do
  let chunks := chunkAddress address.chars
  let numRealChunks := (chunks.filter fun c => Shown c).length
  let highlighted ← pickHighlights seed numRealChunks
  return ChunkedAddressDisplay.new chunks highlighted

/-! ### What the chunks are -/

/-- The characters of a slot. -/
def slot (address : List Char) (i : ℕ) : List Char := (address.drop (4 * i)).take 4

/-- Behind the address there is nothing. -/
theorem slot_of_length_le {address : List Char} {i : ℕ} (h : address.length ≤ 4 * i) :
    slot address i = [] := by
  rw [slot, List.drop_eq_nil_of_le h, List.take_nil]

/-- In it there is something. -/
theorem slot_ne_nil {address : List Char} {i : ℕ} (h : 4 * i < address.length) :
    slot address i ≠ [] := by
  rw [slot, Ne, List.take_eq_nil_iff, List.drop_eq_nil_iff]
  omega

/-- The slots spell as much of the address as they hold. -/
theorem flatten_slots (address : List Char) (n : ℕ) :
    ((List.range n).map (slot address)).flatten = address.take (4 * n) := by
  induction n with
  | zero => rfl
  | succ n ih =>
      rw [List.range_succ, List.map_append, List.flatten_append, ih, Nat.mul_succ, List.take_add]
      simp [slot]

/-- Nothing, padded. -/
@[simp] theorem padRight_nil : padRight [] = EMPTY_CHUNK := rfl

/-- The loop fills the slots from the left, each with its part of the address. -/
theorem chunkAddress.fill_eq (address : List Char) (k : ℕ) (u : List (List Char)) :
    fill address k u.length (min (4 * u.length) address.length)
        (u ++ List.replicate k EMPTY_CHUNK) =
      u ++ (List.range' u.length k).map fun i => padRight (slot address i) := by
  induction k generalizing u with
  | zero => rw [fill, List.replicate_zero, List.range'_zero, List.map_nil]
  | succ k ih =>
      rw [fill]
      by_cases hlt : min (4 * u.length) address.length < address.length
      · have hpos : min (4 * u.length) address.length = 4 * u.length := by omega
        have hend : min (4 * u.length + 4) address.length =
            min (4 * (u ++ [padRight (slot address u.length)]).length) address.length := by
          rw [List.length_append, List.length_singleton, Nat.mul_succ]
        have hchunk : (address.drop (4 * u.length)).take
            (min (4 * u.length + 4) address.length - 4 * u.length) = slot address u.length := by
          rw [slot, List.take_eq_take_iff, List.length_drop]
          omega
        have hset : (u ++ List.replicate (k + 1) EMPTY_CHUNK).set u.length
            (padRight (slot address u.length)) =
              (u ++ [padRight (slot address u.length)]) ++ List.replicate k EMPTY_CHUNK := by
          rw [List.set_append_right _ _ le_rfl, Nat.sub_self, List.replicate_succ,
            List.set_cons_zero, List.append_assoc]
          rfl
        have hih := ih (u ++ [padRight (slot address u.length)])
        rw [if_pos hlt, hpos]
        dsimp only
        rw [hchunk, hset, hend]
        rw [List.length_append, List.length_singleton] at hih ⊢
        rw [hih, List.range'_succ, List.map_cons, List.append_assoc]
        rfl
      · -- Nothing is left for the slots that are left.
        rw [if_neg hlt]
        congr 1
        symm
        rw [List.eq_replicate_iff]
        refine ⟨by simp, fun c hc => ?_⟩
        obtain ⟨i, hi, rfl⟩ := List.mem_map.1 hc
        have hle : u.length ≤ i := (List.mem_range'_1.1 hi).1
        rw [slot_of_length_le (by omega), padRight_nil]

/-- All slots, filled. -/
theorem chunkAddress.fill_all (address : List Char) :
    fill address 18 0 0 (List.replicate 18 EMPTY_CHUNK) =
      (List.range 18).map fun i => padRight (slot address i) := by
  have h := fill_eq address 18 []
  rw [List.length_nil, Nat.mul_zero, Nat.zero_min, List.nil_append, List.nil_append] at h
  rw [h, List.range_eq_range']

/-- The last chunk is short and alone on its row. -/
def Recentred (address : List Char) : Prop :=
  0 < address.length % 4 ∧ address.length / 4 < 18 ∧ address.length / 4 % 3 = 0

/-- What is left behind the whole chunks. -/
theorem drop_eq_slot (address : List Char) :
    address.drop (address.length / 4 * 4) = slot address (address.length / 4) := by
  rw [slot, Nat.mul_comm, List.take_of_length_le]
  rw [List.length_drop]
  omega

/-- The slots before the last chunk, that chunk and the next, and the slots behind. -/
theorem range_split {q : ℕ} (h : q ≤ 16) :
    List.range 18 = List.range q ++ q :: (q + 1) :: List.range' (q + 2) (16 - q) := by
  have h18 : 18 = q + (16 - q + 1 + 1) := by omega
  rw [List.range_eq_range', h18, ← List.range'_append_1, List.range'_succ, List.range'_succ,
    Nat.zero_add, List.range_eq_range']

/-- Two neighbors are replaced. -/
theorem set_set_append {α : Type*} (u v : List α) (a b a' b' : α) :
    ((u ++ a :: b :: v).set u.length a').set (u.length + 1) b' = u ++ a' :: b' :: v := by
  rw [List.set_append_right _ _ le_rfl, Nat.sub_self, List.set_cons_zero,
    List.set_append_right _ _ (Nat.le_add_right _ 1), Nat.add_sub_cancel_left, List.set_cons_succ,
    List.set_cons_zero]

/-- What is in the grid: slot after slot, but for a chunk that would be alone on its row. -/
theorem chunkAddress_eq (address : List Char) :
    (¬Recentred address ∧
      chunkAddress address = (List.range 18).map fun i => padRight (slot address i)) ∨
    (Recentred address ∧
      chunkAddress address =
        (List.range (address.length / 4)).map (fun i => padRight (slot address i)) ++
          EMPTY_CHUNK :: padCenter (slot address (address.length / 4)) ::
            (List.range' (address.length / 4 + 2) (16 - address.length / 4)).map fun i =>
              padRight (slot address i)) := by
  by_cases hshort : 0 < address.length % 4 ∧ address.length / 4 < 18
  · by_cases halone : address.length / 4 % 3 = 0
    · right
      refine ⟨⟨hshort.1, hshort.2, halone⟩, ?_⟩
      have hcol : address.length / 4 - address.length / 4 / 3 * 3 = 0 := by omega
      have hrow : address.length / 4 / 3 * 3 + 1 = address.length / 4 + 1 := by omega
      have hlt : address.length / 4 ≤ 16 := by omega
      have hset := set_set_append
        ((List.range (address.length / 4)).map fun i => padRight (slot address i))
        ((List.range' (address.length / 4 + 2) (16 - address.length / 4)).map fun i =>
          padRight (slot address i))
        (padRight (slot address (address.length / 4)))
        (padRight (slot address (address.length / 4 + 1)))
        EMPTY_CHUNK (padCenter (slot address (address.length / 4)))
      rw [List.length_map, List.length_range] at hset
      rw [chunkAddress, chunkAddress.fill_all]
      dsimp only
      rw [if_pos hshort, if_pos hcol, hrow, drop_eq_slot, range_split hlt, List.map_append,
        List.map_cons, List.map_cons, hset]
    · left
      refine ⟨fun h => halone h.2.2, ?_⟩
      have hcol : address.length / 4 - address.length / 4 / 3 * 3 ≠ 0 := by omega
      rw [chunkAddress, chunkAddress.fill_all]
      dsimp only
      rw [if_pos hshort, if_neg hcol]
  · left
    refine ⟨fun h => hshort ⟨h.1, h.2.1⟩, ?_⟩
    rw [chunkAddress, chunkAddress.fill_all]
    dsimp only
    rw [if_neg hshort]

/-! ### What the chunks spell -/

/-- The characters that are not padding. -/
def unpad (text : List Char) : List Char := text.filter (· ≠ ' ')

/-- Text by text. -/
theorem unpad_append (s t : List Char) : unpad (s ++ t) = unpad s ++ unpad t :=
  List.filter_append _ _

/-- Padding is nothing. -/
@[simp] theorem unpad_spaces (n : ℕ) : unpad (List.replicate n ' ') = [] := by
  rw [unpad, List.filter_replicate_of_neg (by decide)]

/-- Text without padding is itself. -/
theorem unpad_of_no_space {text : List Char} (h : ' ' ∉ text) : unpad text = text := by
  rw [unpad, List.filter_eq_self]
  intro c hc
  exact decide_eq_true fun heq => h (heq ▸ hc)

/-- Padding on the right is taken off. -/
theorem unpad_padRight {chunk : List Char} (h : ' ' ∉ chunk) :
    unpad (padRight chunk) = chunk := by
  rw [padRight, unpad_append, unpad_spaces, List.append_nil, unpad_of_no_space h]

/-- Padding on both sides is taken off. -/
theorem unpad_padCenter {chunk : List Char} (h : ' ' ∉ chunk) :
    unpad (padCenter chunk) = chunk := by
  rw [padCenter, unpad_append, unpad_append, unpad_spaces, unpad_spaces, List.nil_append,
    List.append_nil, unpad_of_no_space h]

/-- A part of the address has no spaces either. -/
theorem no_space_slot {address : List Char} (h : ' ' ∉ address) (i : ℕ) :
    ' ' ∉ slot address i :=
  fun hc => h (List.mem_of_mem_drop (List.mem_of_mem_take hc))

/-- The slots in the grid spell the address up to its 72nd character. -/
theorem unpad_chunkAddress {address : List Char} (h : ' ' ∉ address) :
    unpad (chunkAddress address).flatten = address.take 72 := by
  have hmap : ∀ l : List ℕ, unpad (l.map fun i => padRight (slot address i)).flatten =
      (l.map (slot address)).flatten := by
    intro l
    induction l with
    | nil => rfl
    | cons i l ih =>
        rw [List.map_cons, List.flatten_cons, unpad_append, ih,
          unpad_padRight (no_space_slot h i), List.map_cons, List.flatten_cons]
  have hall : ((List.range 18).map (slot address)).flatten = address.take 72 :=
    flatten_slots address 18
  rcases chunkAddress_eq address with ⟨-, heq⟩ | ⟨hre, heq⟩
  · rw [heq, hmap, hall]
  · have hq : address.length / 4 ≤ 16 := by
      have h1 := hre.2.1
      have h2 := hre.2.2
      omega
    have hnext : slot address (address.length / 4 + 1) = [] := slot_of_length_le (by omega)
    rw [heq, List.flatten_append, unpad_append, hmap, List.flatten_cons, unpad_append,
      List.flatten_cons, unpad_append, hmap, unpad_padCenter (no_space_slot h _), ← hall,
      range_split hq, List.map_append, List.flatten_append, List.map_cons, List.flatten_cons,
      List.map_cons, List.flatten_cons, hnext, List.nil_append]
    rfl

/-! ### Which chunks are shown -/

/-- A chunk is shown if it is more than padding. -/
theorem shown_iff (chunk : List Char) : Shown chunk ↔ unpad chunk ≠ [] := by
  rw [Shown, List.any_eq_true, unpad, Ne, List.filter_eq_nil_iff]
  push Not
  rfl

/-- A part that is padded on the right is shown unless it is empty. -/
theorem shown_padRight {chunk : List Char} (h : ' ' ∉ chunk) :
    Shown (padRight chunk) ↔ chunk ≠ [] := by
  rw [shown_iff, unpad_padRight h]

/-- So is one that is padded on both sides. -/
theorem shown_padCenter {chunk : List Char} (h : ' ' ∉ chunk) :
    Shown (padCenter chunk) ↔ chunk ≠ [] := by
  rw [shown_iff, unpad_padCenter h]

/-- The slots that begin in the address are shown. -/
theorem shown_slot_iff {address : List Char} (h : ' ' ∉ address) (i : ℕ) :
    Shown (padRight (slot address i)) ↔ 4 * i < address.length := by
  rw [shown_padRight (no_space_slot h i)]
  constructor
  · intro hne
    by_contra hle
    exact hne (slot_of_length_le (by omega))
  · exact slot_ne_nil

/-- How many of the slots do. -/
theorem length_filter_range (k n : ℕ) :
    ((List.range k).filter fun i => decide (4 * i < n)).length = min k ((n + 3) / 4) := by
  induction k with
  | zero => rw [List.range_zero, List.filter_nil, List.length_nil, Nat.zero_min]
  | succ k ih =>
      rw [List.range_succ, List.filter_append, List.length_append, ih]
      by_cases hlt : 4 * k < n
      · rw [List.filter_singleton, decide_eq_true hlt, cond_true, List.length_singleton]
        omega
      · rw [List.filter_singleton, decide_eq_false hlt, cond_false, List.length_nil]
        omega

/-- Counting what is shown is counting slots. -/
theorem length_filter_slots {address : List Char} (h : ' ' ∉ address) (l : List ℕ) :
    ((l.map fun i => padRight (slot address i)).filter fun c => Shown c).length =
      (l.filter fun i => decide (4 * i < address.length)).length := by
  rw [List.filter_map, List.length_map]
  congr 2
  funext i
  exact decide_eq_decide.2 (shown_slot_iff h i)

/-- How many chunks are shown. -/
def numShown (address : List Char) : ℕ := min 18 ((address.length + 3) / 4)

/-- **As many chunks are shown** as the address needs, and 18 at most. -/
theorem length_filter_chunkAddress {address : List Char} (h : ' ' ∉ address) :
    ((chunkAddress address).filter fun c => Shown c).length = numShown address := by
  rcases chunkAddress_eq address with ⟨-, heq⟩ | ⟨⟨hrem, hfull, halone⟩, heq⟩
  · rw [heq, length_filter_slots h, length_filter_range, numShown]
  · have hmid : Shown (padCenter (slot address (address.length / 4))) := by
      rw [shown_padCenter (no_space_slot h _)]
      exact slot_ne_nil (by omega)
    have hrest : ((List.range' (address.length / 4 + 2) (16 - address.length / 4)).filter
        fun i => decide (4 * i < address.length)) = [] := by
      rw [List.filter_eq_nil_iff]
      intro i hi
      have hle := (List.mem_range'_1.1 hi).1
      rw [decide_eq_true_eq]
      omega
    rw [heq, List.filter_append, List.length_append, length_filter_slots h, length_filter_range,
      List.filter_cons_of_neg (by decide), List.filter_cons_of_pos (by exact decide_eq_true hmid),
      List.length_cons, length_filter_slots h, hrest, List.length_nil, numShown]
    omega

/-- A chunk is shown at a place of the grid. -/
def ShownAt (chunks : List (List Char)) (i : ℕ) : Prop :=
  ∃ chunk, chunks[i]? = some chunk ∧ Shown chunk

/-- Every chunk but the last one shown is in its own slot. -/
theorem shownAt_of_lt {address : List Char} (h : ' ' ∉ address) {i : ℕ}
    (hi : i + 1 < numShown address) : ShownAt (chunkAddress address) i := by
  rw [numShown] at hi
  refine ⟨padRight (slot address i), ?_, (shown_slot_iff h i).2 (by omega)⟩
  rcases chunkAddress_eq address with ⟨-, heq⟩ | ⟨⟨hrem, hfull, halone⟩, heq⟩
  · rw [heq, List.getElem?_map, List.getElem?_range (by omega), Option.map_some]
  · have hlt : i < address.length / 4 := by omega
    rw [heq, List.getElem?_append_left (by rw [List.length_map, List.length_range]; exact hlt),
      List.getElem?_map, List.getElem?_range hlt, Option.map_some]

/-- After each of them another one is shown. -/
theorem exists_shownAt_gt {address : List Char} (h : ' ' ∉ address) {i : ℕ}
    (hi : i + 1 < numShown address) : ∃ j, i < j ∧ ShownAt (chunkAddress address) j := by
  rw [numShown] at hi
  rcases chunkAddress_eq address with ⟨-, heq⟩ | ⟨⟨hrem, hfull, halone⟩, heq⟩
  · refine ⟨i + 1, Nat.lt_succ_self i, padRight (slot address (i + 1)), ?_,
      (shown_slot_iff h _).2 (by omega)⟩
    rw [heq, List.getElem?_map, List.getElem?_range (by omega), Option.map_some]
  · refine ⟨address.length / 4 + 1, by omega, padCenter (slot address (address.length / 4)), ?_,
      (shown_padCenter (no_space_slot h _)).2 (slot_ne_nil (by omega))⟩
    rw [heq, List.getElem?_append_right (by simp), List.length_map, List.length_range,
      Nat.add_sub_cancel_left, List.getElem?_cons_succ, List.getElem?_cons_zero]

/-! ### The highlights -/

/-- The loop ends with a number that is not the first one. -/
theorem pickSecond_of_ne {range first second : ℕ} (fuel : ℕ) (h : second ≠ first) :
    pickSecond range first (fuel + 1) second = .ret second := by
  rw [pickSecond, if_neg h]

/-- With two values the first try is never the first chunk. -/
theorem second_ne_first_of_two (seed : BitVec 32) :
    1 + (seed * 7 + 5).toNat % 2 ≠ 1 + seed.toNat % 2 := by
  intro h
  have h7 : (7 : BitVec 32).toNat = 7 := rfl
  have h5 : (5 : BitVec 32).toNat = 5 := rfl
  rw [BitVec.toNat_add, BitVec.toNat_mul, h7, h5] at h
  omega

/-- With more the next one is another. -/
theorem next_ne_first {range x : ℕ} (h3 : 3 ≤ range) (hx : x < range) :
    1 + (1 + x + 1) % range ≠ 1 + x := by
  rcases Nat.lt_or_ge (1 + x + 1) range with hlt | hge
  · rw [Nat.mod_eq_of_lt hlt]
    omega
  · rw [Nat.mod_eq_sub_mod hge, Nat.mod_eq_of_lt (by omega)]
    omega

/-- The loop for the second chunk ends after one more step at most. -/
theorem pickSecond_spec (seed : BitVec 32) {range : ℕ} (h2 : 2 ≤ range) :
    ∃ y, pickSecond range (1 + seed.toNat % range) (range + 1)
        (1 + (seed * 7 + 5).toNat % range) = .ret (1 + y % range) ∧
      1 + y % range ≠ 1 + seed.toNat % range := by
  by_cases hsame : 1 + (seed * 7 + 5).toNat % range = 1 + seed.toNat % range
  · have h3 : 3 ≤ range := by
      by_contra hlt
      have hrange : range = 2 := by omega
      rw [hrange] at hsame
      exact second_ne_first_of_two seed hsame
    have hnext := next_ne_first h3 (Nat.mod_lt seed.toNat (by omega))
    obtain ⟨fuel, rfl⟩ := Nat.exists_eq_add_of_le' (show 1 ≤ range by omega)
    refine ⟨1 + seed.toNat % (fuel + 1) + 1, ?_, hnext⟩
    rw [pickSecond, if_pos hsame, hsame, pickSecond_of_ne fuel hnext]
  · exact ⟨(seed * 7 + 5).toNat, pickSecond_of_ne range hsame, hsame⟩

/-- Both highlighted chunks are between the first and the last one. -/
theorem pickHighlights_spec (seed : BitVec 32) {numChunks : ℕ} (h4 : 4 ≤ numChunks)
    (h18 : numChunks ≤ 18) :
    ∃ a b, pickHighlights seed numChunks = .ret (((∅ : BTreeSet ℕ).insert a).insert b) ∧
      a ≠ b ∧ (0 < a ∧ a + 1 < numChunks) ∧ 0 < b ∧ b + 1 < numChunks := by
  have hrange : (numChunks - 2) % 2 ^ 32 = numChunks - 2 := Nat.mod_eq_of_lt (by omega)
  have hbound : ∀ x, 0 < 1 + x % (numChunks - 2) ∧ 1 + x % (numChunks - 2) + 1 < numChunks := by
    intro x
    have hmod := Nat.mod_lt x (show 0 < numChunks - 2 by omega)
    omega
  obtain ⟨y, hsecond, hne⟩ := pickSecond_spec seed (show 2 ≤ numChunks - 2 by omega)
  refine ⟨1 + seed.toNat % (numChunks - 2), 1 + y % (numChunks - 2), ?_, hne.symm, hbound _,
    hbound _⟩
  rw [pickHighlights, if_neg (by omega), hrange]
  dsimp only
  rw [hsecond]
  rfl

/-! ### The grid -/

/-- The rows of a screen as they are read. -/
def text (rows : List (List ChunkText)) : List (List (List Char)) :=
  rows.map (·.map ChunkText.chunk)

/-- What the rows spell without the padding. -/
def spelled (rows : List (List ChunkText)) : List Char := unpad (text rows).flatten.flatten

/-- Two different chunks are highlighted. Both are shown, and another chunk is shown before and
after each. -/
def HighlightsTwo (rows : List (List ChunkText)) : Prop :=
  ∃ a b, a ≠ b ∧
    (∀ i shown, rows.flatten[i]? = some shown →
      (shown.color = .onBackground ↔ i = a ∨ i = b)) ∧
    ∀ i, i = a ∨ i = b →
      ShownAt (text rows).flatten i ∧ (∃ j, j < i ∧ ShownAt (text rows).flatten j) ∧
        ∃ j, i < j ∧ ShownAt (text rows).flatten j

/-- The chunks in the order of the rows, each with its color. -/
theorem flatten_new (chunks : List (List Char)) (highlighted : BTreeSet ℕ) :
    (ChunkedAddressDisplay.new chunks highlighted).flatten =
      (List.range 18).map fun idx =>
        { chunk := chunks.getD idx []
          color := if idx ∈ highlighted then .onBackground else .primary } :=
  rfl

/-- The text of the rows. -/
theorem flatten_text (rows : List (List ChunkText)) :
    (text rows).flatten = rows.flatten.map ChunkText.chunk := by
  rw [text, List.map_flatten]

/-- There are always 18 slots. -/
theorem length_chunkAddress (address : List Char) : (chunkAddress address).length = 18 := by
  rcases chunkAddress_eq address with ⟨-, heq⟩ | ⟨⟨hrem, hfull, halone⟩, heq⟩
  · rw [heq, List.length_map, List.length_range]
  · rw [heq, List.length_append, List.length_cons, List.length_cons, List.length_map,
      List.length_map, List.length_range, List.length_range']
    omega

/-- The rows show the chunks as they are. -/
theorem flatten_text_new {chunks : List (List Char)} (h : chunks.length = 18)
    (highlighted : BTreeSet ℕ) :
    (text (ChunkedAddressDisplay.new chunks highlighted)).flatten = chunks := by
  rw [flatten_text, flatten_new, List.map_map]
  refine List.ext_getElem (by rw [List.length_map, List.length_range, h]) fun i _ hi => ?_
  rw [List.getElem_map, List.getElem_range]
  exact List.getD_eq_getElem chunks [] hi

/-- What is on the screen for an address, and which chunks stand out. -/
theorem newWithSeed_spec (address : AddressText) (seed : BitVec 32) :
    ∃ rows, AddressDisplay.newWithSeed address seed = .ret rows ∧
      (text rows).flatten = chunkAddress address.chars ∧ HighlightsTwo rows := by
  have hspace := address.no_space
  have hshown : 4 ≤ numShown address.chars := by
    have hlen := address.length_ge
    rw [numShown]
    omega
  obtain ⟨a, b, hpick, hne, ⟨ha, ha'⟩, hb, hb'⟩ :=
    pickHighlights_spec seed hshown (Nat.min_le_left _ _)
  have htext := flatten_text_new (length_chunkAddress address.chars)
    (((∅ : BTreeSet ℕ).insert a).insert b)
  refine ⟨ChunkedAddressDisplay.new (chunkAddress address.chars)
    (((∅ : BTreeSet ℕ).insert a).insert b), ?_, htext, a, b, hne, ?_, ?_⟩
  · rw [AddressDisplay.newWithSeed, length_filter_chunkAddress hspace, hpick]
    rfl
  · intro i shown hi
    rw [flatten_new, List.getElem?_map] at hi
    obtain ⟨j, hj, rfl⟩ := Option.map_eq_some_iff.1 hi
    obtain ⟨-, rfl⟩ := List.getElem?_eq_some_iff.1 hj
    rw [List.getElem_range]
    have hmem : i ∈ ((∅ : BTreeSet ℕ).insert a).insert b ↔ i = a ∨ i = b := by
      rw [BTreeSet.mem_insert, BTreeSet.mem_insert, or_comm]
      simp only [Std.ExtTreeSet.not_mem_empty, or_false]
    dsimp only
    split
    · next hin => exact ⟨fun _ => hmem.1 hin, fun _ => rfl⟩
    · next hout => exact ⟨fun h => TextColor.noConfusion h, fun h => absurd (hmem.2 h) hout⟩
  · rw [htext]
    rintro i (rfl | rfl)
    · exact ⟨shownAt_of_lt hspace ha', ⟨0, ha, shownAt_of_lt hspace (by omega)⟩,
        exists_shownAt_gt hspace ha'⟩
    · exact ⟨shownAt_of_lt hspace hb', ⟨0, hb, shownAt_of_lt hspace (by omega)⟩,
        exists_shownAt_gt hspace hb'⟩

/-- **What the rows spell** is as much of the address as the slots hold. -/
theorem spelled_eq {address : AddressText} {rows : List (List ChunkText)}
    (h : (text rows).flatten = chunkAddress address.chars) :
    spelled rows = address.chars.take 72 := by
  rw [spelled, h, unpad_chunkAddress address.no_space]

/-- The screen shows an address, two chunks of which stand out, for every seed. It spells all of the
address exactly if that has 72 characters at most, and two such addresses do not look the same. -/
theorem addressDisplay_lossless_iff (address : AddressText) (seed : BitVec 32) :
    ∃ rows, AddressDisplay.newWithSeed address seed = .ret rows ∧ HighlightsTwo rows ∧
      (spelled rows = address.chars ↔ address.chars.length ≤ 72) ∧
      ∀ other seed' rows', AddressDisplay.newWithSeed other seed' = .ret rows' →
        address.chars.length ≤ 72 → other.chars.length ≤ 72 → text rows' = text rows →
        other.chars = address.chars := by
  obtain ⟨rows, hret, htext, htwo⟩ := newWithSeed_spec address seed
  have hspelled := spelled_eq htext
  refine ⟨rows, hret, htwo, by rw [hspelled, List.take_eq_self_iff], ?_⟩
  intro other seed' rows' hret' hlen hlen' hsame
  obtain ⟨rows'', hret'', htext', -⟩ := newWithSeed_spec other seed'
  obtain rfl : rows' = rows'' := Exec.ret.inj (hret'.symm.trans hret'')
  have hspelled' := spelled_eq htext'
  rw [spelled, hsame, ← spelled, hspelled, List.take_of_length_le hlen,
    List.take_of_length_le hlen'] at hspelled'
  exact hspelled'.symm

/-- The address of a witness program of version 1 and 40 bytes. -/
def unknownProgram : AddressText where
  chars :=
    "bc1pw508d6qejxtdg4y5r3zarvary0c5xw7kw508d6qejxtdg4y5r3zarvary0c5xw7kt5nd6y".toList
  alphanumeric := List.all_eq_true.1 (by decide +kernel)
  length_ge := by decide

/-- Its last two characters are not shown. -/
theorem unknownProgram_cut_off :
    ¬∀ address seed, ∃ rows, AddressDisplay.newWithSeed address seed = .ret rows ∧
      spelled rows = address.chars := by
  intro h
  obtain ⟨rows, hret, hspelled⟩ := h unknownProgram 0
  obtain ⟨rows', hret', htext, -⟩ := newWithSeed_spec unknownProgram 0
  obtain rfl : rows = rows' := Exec.ret.inj (hret.symm.trans hret')
  have hlen := congrArg List.length (hspelled.symm.trans (spelled_eq htext))
  rw [List.length_take] at hlen
  exact absurd hlen (by decide)

end Frostsnap.Widgets
