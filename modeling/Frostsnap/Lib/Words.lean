import Frostsnap.Lib.Codec
import Mathlib.Data.List.Basic

/-!
# Numbers in words

Byte strings cut into chunks, and the numbers that little-endian words of four bytes stand for.

## Main results

* `toChunks_append`, `toChunks_eq_cons`: the first chunk of a byte string.
* `ofWords_toChunks`: the words of a byte string stand for the number that its bytes do.
* `flatMap_leBytes`: the bytes of the words of a number are those of the number.
-/

namespace Frostsnap

/-- The chunks that are already there stay in front. -/
theorem toChunksGo_eq {α : Type} (n : ℕ) (xs : List α) (acc : Array α)
    (chunks : Array (List α)) :
    List.toChunks.go n xs acc chunks = chunks.toList ++ List.toChunks.go n xs acc #[] := by
  induction xs generalizing acc chunks with
  | nil => simp [List.toChunks.go]
  | cons x xs ih =>
      rw [List.toChunks.go, List.toChunks.go]
      split
      · rw [ih, ih _ (#[].push acc.toList)]
        simp
      · rw [ih]

/-- A chunk that is filled up is the next one. -/
theorem toChunksGo_append {α : Type} {n : ℕ} (hn : 0 < n) (ys xs : List α) (acc : Array α)
    (h : acc.size + ys.length = n) :
    List.toChunks.go n (ys ++ xs) acc #[] = (acc.toList ++ ys) :: xs.toChunks n := by
  induction ys generalizing acc with
  | nil =>
      rw [List.length_nil, Nat.add_zero] at h
      rw [List.nil_append, List.append_nil]
      rcases xs with - | ⟨x, xs⟩
      · simp [List.toChunks.go, List.toChunks]
      · rw [List.toChunks.go, if_pos (by rw [h]; exact beq_self_eq_true n), toChunksGo_eq]
        rcases n with - | n
        · omega
        · rfl
  | cons y ys ih =>
      rw [List.length_cons] at h
      rw [List.cons_append, List.toChunks.go, if_neg (by rw [beq_iff_eq]; omega),
        ih _ (by rw [Array.size_push]; omega), Array.toList_push, List.append_assoc,
        List.singleton_append]

/-- **The first chunk** of a list that has one. -/
theorem toChunks_append {α : Type} {chunk : List α} {n : ℕ} (hn : 0 < n)
    (hchunk : chunk.length = n) (xs : List α) :
    (chunk ++ xs).toChunks n = chunk :: xs.toChunks n := by
  rcases n with - | n
  · omega
  · rcases chunk with - | ⟨x, chunk⟩
    · cases hchunk
    · rw [List.length_cons] at hchunk
      exact toChunksGo_append hn chunk xs #[x] (by rw [Nat.add_comm]; exact hchunk)

/-- What does not fill a chunk is the last one. -/
theorem toChunksGo_of_le {α : Type} {n : ℕ} (xs : List α) (acc : Array α)
    (h : acc.size + xs.length ≤ n) : List.toChunks.go n xs acc #[] = [acc.toList ++ xs] := by
  induction xs generalizing acc with
  | nil => simp [List.toChunks.go]
  | cons x xs ih =>
      rw [List.length_cons] at h
      rw [List.toChunks.go, if_neg (by rw [beq_iff_eq]; omega),
        ih _ (by rw [Array.size_push]; omega),
        Array.toList_push, List.append_assoc, List.singleton_append]

/-- **Cutting off a chunk** of a list that is not empty. -/
theorem toChunks_eq_cons {α : Type} {n : ℕ} (hn : 0 < n) {l : List α} (h : l ≠ []) :
    l.toChunks n = l.take n :: (l.drop n).toChunks n := by
  rcases Nat.lt_or_ge l.length n with hlt | hge
  · rw [List.take_of_length_le hlt.le, List.drop_of_length_le hlt.le]
    rcases n with - | n
    · omega
    · rcases l with - | ⟨x, xs⟩
      · exact absurd rfl h
      · rw [List.length_cons] at hlt
        exact toChunksGo_of_le xs #[x] (by rw [Nat.add_comm]; exact hlt.le)
  · have hchunk : (l.take n).length = n := by
      rw [List.length_take]
      omega
    have hcons := toChunks_append hn hchunk (l.drop n)
    rwa [List.take_append_drop] at hcons

/-- Zero is written with zeros. -/
theorem leBytes_zero (k : ℕ) : leBytes k 0 = List.replicate k 0 := by
  induction k with
  | zero => rfl
  | succ k ih =>
      rw [leBytes, Nat.zero_div, ih, List.replicate_succ]
      rfl

/-- What does not fit is cut off at the top. -/
theorem ofLeBytes_leBytes_mod (k n : ℕ) : ofLeBytes (leBytes k n) = n % 256 ^ k := by
  induction k generalizing n with
  | zero =>
      rw [pow_zero, Nat.mod_one]
      rfl
  | succ k ih =>
      have hpow : 256 ^ (k + 1) = 256 * 256 ^ k := by rw [pow_succ, Nat.mul_comm]
      rw [leBytes, ofLeBytes, ih, UInt8.toNat_ofNat', hpow]
      exact Nat.mod_mul.symm

/-- The bytes of a number depend on it modulo their range. -/
theorem leBytes_mod (k n : ℕ) : leBytes k (n % 256 ^ k) = leBytes k n := by
  have hbytes := leBytes_ofLeBytes (leBytes k n)
  rwa [length_leBytes, ofLeBytes_leBytes_mod] at hbytes

/-- The number that little-endian words stand for. -/
def ofWords : List ℕ → ℕ
  | [] => 0
  | w :: ws => w + 2 ^ 32 * ofWords ws

/-- The bytes of a number, the low ones first. -/
theorem leBytes_add (j k n : ℕ) : leBytes (j + k) n = leBytes j n ++ leBytes k (n / 256 ^ j) := by
  induction j generalizing n with
  | zero => simp [leBytes]
  | succ j ih =>
      rw [Nat.succ_add, leBytes, leBytes, ih, List.cons_append, Nat.div_div_eq_div_mul, pow_succ,
        Nat.mul_comm (256 ^ j)]

/-- Zeros are zero. -/
theorem ofWords_replicate (k : ℕ) : ofWords (List.replicate k 0) = 0 := by
  induction k with
  | zero => rfl
  | succ k ih => rw [List.replicate_succ, ofWords, ih]; rfl

/-- As many words hold so much. -/
theorem ofWords_lt {ws : List ℕ} (h : ∀ w ∈ ws, w < 2 ^ 32) :
    ofWords ws < 2 ^ (32 * ws.length) := by
  induction ws with
  | nil => exact Nat.one_pos
  | cons w ws ih =>
      have hw := h w List.mem_cons_self
      have hws := ih fun w hw => h w (List.mem_cons_of_mem _ hw)
      rw [ofWords, List.length_cons, Nat.mul_succ, Nat.add_comm (32 * ws.length), pow_add]
      omega

/-- **The words of a byte string** stand for the number that its bytes do. -/
theorem ofWords_toChunks {bytes : List UInt8} {words : ℕ} (h : bytes.length = 4 * words) :
    ofWords ((bytes.toChunks 4).map ofLeBytes) = ofLeBytes bytes ∧
      (bytes.toChunks 4).length = words ∧
      ∀ w ∈ (bytes.toChunks 4).map ofLeBytes, w < 2 ^ 32 := by
  induction words generalizing bytes with
  | zero =>
      obtain rfl := List.length_eq_zero_iff.mp h
      exact ⟨rfl, rfl, fun w hw => absurd hw List.not_mem_nil⟩
  | succ words ih =>
      have hsplit := List.take_append_drop 4 bytes
      have hchunk : (bytes.take 4).length = 4 := by
        rw [List.length_take]
        omega
      obtain ⟨hwords, hlength, hlt⟩ := @ih (bytes.drop 4) (by rw [List.length_drop]; omega)
      rw [← hsplit, toChunks_append (by omega) hchunk, List.map_cons, ofWords, hwords,
        ofLeBytes_append, hchunk, List.length_cons, hlength]
      refine ⟨rfl, rfl, fun w hw => ?_⟩
      rcases List.mem_cons.mp hw with rfl | hw
      · have hbound := ofLeBytes_lt (bytes.take 4)
        rw [hchunk] at hbound
        exact hbound
      · exact hlt w hw

/-- **The bytes of words** are those of the number that they stand for. -/
theorem flatMap_leBytes {ws : List ℕ} (h : ∀ w ∈ ws, w < 2 ^ 32) :
    ws.flatMap (leBytes 4) = leBytes (4 * ws.length) (ofWords ws) := by
  induction ws with
  | nil => rfl
  | cons w ws ih =>
      have hw := h w List.mem_cons_self
      have hlow : leBytes 4 (w + 2 ^ 32 * ofWords ws) = leBytes 4 w := by
        rw [← leBytes_mod, ← leBytes_mod 4 w]
        congr 1
        omega
      have hhigh : (w + 2 ^ 32 * ofWords ws) / 256 ^ 4 = ofWords ws := by
        omega
      rw [List.flatMap_cons, ih fun w hw => h w (List.mem_cons_of_mem _ hw), List.length_cons,
        Nat.mul_succ, Nat.add_comm, leBytes_add, ofWords, hlow, hhigh]

end Frostsnap
