import Mathlib.Tactic.Common
import Mathlib.Tactic.Ring
import Mathlib.Data.Nat.Bitwise
import Mathlib.Data.List.Induction

/-!
# Big-endian digits

A number is written as digits of `w` bits, the highest first. `ofDigits` reads digits and
`toDigits` writes them; both are described by the bits they have, counted from the front, so that
digits of different widths can be compared.
-/

namespace Frostsnap

/-- The number that big-endian digits of `w` bits denote. -/
def ofDigits (w : ℕ) (ds : List ℕ) : ℕ := ds.foldl (fun n d => n * 2 ^ w + d) 0

/-- The low `n` digits of `w` bits of a number, the highest first. -/
def toDigits (w : ℕ) : ℕ → ℕ → List ℕ
  | 0, _ => []
  | n + 1, x => toDigits w n (x >>> w) ++ [x % 2 ^ w]

variable {w : ℕ}

@[simp] theorem ofDigits_nil : ofDigits w [] = 0 := rfl

theorem ofDigits_append_singleton (ds : List ℕ) (d : ℕ) :
    ofDigits w (ds ++ [d]) = ofDigits w ds * 2 ^ w + d := by
  rw [ofDigits, List.foldl_append]
  rfl

@[simp] theorem length_toDigits (n x : ℕ) : (toDigits w n x).length = n := by
  induction n generalizing x with
  | zero => rfl
  | succ n ih => rw [toDigits, List.length_append, ih, List.length_singleton]

theorem lt_of_mem_toDigits {n x d : ℕ} (h : d ∈ toDigits w n x) : d < 2 ^ w := by
  induction n generalizing x with
  | zero => cases h
  | succ n ih =>
      rcases List.mem_append.mp h with h | h
      · exact ih h
      · obtain rfl := List.mem_singleton.mp h
        exact Nat.mod_lt _ (Nat.two_pow_pos w)

/-- Digits denote a number that has no more bits than they have. -/
theorem ofDigits_lt {ds : List ℕ} (h : ∀ d ∈ ds, d < 2 ^ w) :
    ofDigits w ds < 2 ^ (w * ds.length) := by
  induction ds using List.reverseRecOn with
  | nil => exact Nat.two_pow_pos _
  | append_singleton ds d ih =>
      have hds : ofDigits w ds + 1 ≤ 2 ^ (w * ds.length) :=
        ih fun d hd => h d (List.mem_append_left _ hd)
      have hd : d < 2 ^ w := h d (List.mem_append_right _ (List.mem_singleton_self d))
      have hmul := Nat.mul_le_mul_right (2 ^ w) hds
      rw [ofDigits_append_singleton, List.length_append, List.length_singleton, Nat.mul_add,
        Nat.mul_one, Nat.pow_add]
      rw [Nat.add_mul, Nat.one_mul] at hmul
      omega

/-- Writing a number and reading it again. -/
theorem ofDigits_toDigits {n x : ℕ} (h : x < 2 ^ (w * n)) : ofDigits w (toDigits w n x) = x := by
  induction n generalizing x with
  | zero =>
      rw [Nat.mul_zero, Nat.pow_zero] at h
      rw [toDigits, ofDigits_nil]
      omega
  | succ n ih =>
      have hhigh : x >>> w < 2 ^ (w * n) := by
        rw [Nat.shiftRight_eq_div_pow, Nat.div_lt_iff_lt_mul (Nat.two_pow_pos w), ← Nat.pow_add]
        rwa [Nat.mul_add, Nat.mul_one] at h
      rw [toDigits, ofDigits_append_singleton, ih hhigh, Nat.shiftRight_eq_div_pow]
      exact Nat.div_add_mod' x (2 ^ w)

/-- Reading digits and writing them again. -/
theorem toDigits_ofDigits {ds : List ℕ} (h : ∀ d ∈ ds, d < 2 ^ w) :
    toDigits w ds.length (ofDigits w ds) = ds := by
  induction ds using List.reverseRecOn with
  | nil => rfl
  | append_singleton ds d ih =>
      have hd : d < 2 ^ w := h d (List.mem_append_right _ (List.mem_singleton_self d))
      have hdiv : (ofDigits w ds * 2 ^ w + d) >>> w = ofDigits w ds := by
        rw [Nat.shiftRight_eq_div_pow, Nat.mul_comm, Nat.mul_add_div (Nat.two_pow_pos w),
          Nat.div_eq_of_lt hd, Nat.add_zero]
      have hmod : (ofDigits w ds * 2 ^ w + d) % 2 ^ w = d := by
        rw [Nat.mul_add_mod_self_right, Nat.mod_eq_of_lt hd]
      rw [List.length_append, List.length_singleton, toDigits, ofDigits_append_singleton, hdiv,
        hmod, ih fun d hd => h d (List.mem_append_left _ hd)]

/-- The bit at `i` of digits, counted from the front. -/
def bitAt (w : ℕ) (ds : List ℕ) (i : ℕ) : Bool := (ds.getD (i / w) 0).testBit (w - 1 - i % w)

/-- The bits of digits are those of the number they denote. -/
theorem testBit_ofDigits (hw : 0 < w) {ds : List ℕ} (h : ∀ d ∈ ds, d < 2 ^ w) {i : ℕ}
    (hi : i < w * ds.length) :
    (ofDigits w ds).testBit (w * ds.length - 1 - i) = bitAt w ds i := by
  induction ds using List.reverseRecOn with
  | nil => simp at hi
  | append_singleton ds d ih =>
      have hd : d < 2 ^ w := h d (List.mem_append_right _ (List.mem_singleton_self d))
      rw [ofDigits_append_singleton, Nat.mul_comm (ofDigits w ds), Nat.testBit_two_pow_mul_add _ hd,
        bitAt]
      rw [List.length_append, List.length_singleton, Nat.mul_add, Nat.mul_one] at hi ⊢
      by_cases hlast : i < w * ds.length
      · -- a bit of one of the digits before
        have hdiv : i / w < ds.length := Nat.div_lt_of_lt_mul hlast
        have hbit := ih (fun d hd => h d (List.mem_append_left _ hd)) hlast
        rw [if_neg (by omega), List.getD_append _ _ _ _ hdiv]
        rw [bitAt] at hbit
        rw [← hbit]
        congr 1
        omega
      · -- a bit of the last digit
        obtain ⟨e, rfl⟩ := Nat.exists_eq_add_of_le (not_lt.mp hlast)
        have he : e < w := by omega
        rw [if_pos (by omega), Nat.mul_add_div hw, Nat.mul_add_mod, Nat.div_eq_of_lt he,
          Nat.mod_eq_of_lt he, Nat.add_zero, List.getD_append_right _ _ _ _ le_rfl, Nat.sub_self,
          List.getD_cons_zero]
        congr 1
        omega

end Frostsnap
