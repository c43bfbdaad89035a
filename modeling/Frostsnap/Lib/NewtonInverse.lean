import Mathlib.Algebra.Ring.Int.Parity
import Mathlib.Data.BitVec
import Mathlib.Data.ZMod.Basic
import Mathlib.Tactic.Ring

/-!
# Inverses modulo a power of two

Newton's iteration for the inverse of a number squares the error in each step: when `n * x` is
off one by `d`, the next one is off by `d ^ 2`. For an odd number the first guess `1` is off by
an even number, so that the error is `0` modulo `2 ^ w` after `k` steps when `w ≤ 2 ^ k`.

## Main results

* `one_sub_mul_iterate_newtonStep`: the error after some steps, in any commutative ring.
* `BitVec.mul_newtonInverse`: in words of `w` bits the iteration finds the inverse.
-/

namespace Frostsnap

variable {R : Type*} [CommRing R]

/-- One step of Newton's iteration for the inverse of `n`. -/
def newtonStep (n x : R) : R := x + x * (1 - n * x)

theorem one_sub_mul_newtonStep (n x : R) : 1 - n * newtonStep n x = (1 - n * x) ^ 2 := by
  rw [newtonStep]
  ring

/-- **The error after some steps.** -/
theorem one_sub_mul_iterate_newtonStep (n x : R) (k : ℕ) :
    1 - n * (newtonStep n)^[k] x = (1 - n * x) ^ 2 ^ k := by
  induction k with
  | zero => rw [Function.iterate_zero_apply, pow_zero, pow_one]
  | succ k ih =>
      rw [Function.iterate_succ_apply', one_sub_mul_newtonStep, ih, ← pow_mul, ← pow_succ]

/-- The inverse that a number of steps from `1` find. -/
def newtonInverse (k : ℕ) (n : R) : R := (newtonStep n)^[k] 1

namespace BitVec

variable {w : ℕ}

theorem toNat_pow (x : BitVec w) (k : ℕ) : (x ^ k).toNat = x.toNat ^ k % 2 ^ w := by
  induction k with
  | zero =>
      rw [pow_zero, pow_zero]
      exact BitVec.toNat_ofNat 1 w
  | succ k ih => rw [pow_succ, BitVec.toNat_mul, ih, Nat.mod_mul_mod, pow_succ]

/-- A power of an even word. -/
theorem pow_eq_zero {x : BitVec w} (h : 2 ∣ x.toNat) {k : ℕ} (hk : w ≤ k) : x ^ k = 0 := by
  apply BitVec.eq_of_toNat_eq
  have hdvd : 2 ^ w ∣ x.toNat ^ k := (pow_dvd_pow 2 hk).trans (pow_dvd_pow_of_dvd h k)
  rw [toNat_pow, Nat.mod_eq_zero_of_dvd hdvd]
  rfl

/-- **Newton's iteration finds the inverse** of an odd word. -/
theorem mul_newtonInverse {n : BitVec w} (hn : n.toNat % 2 = 1) {k : ℕ} (hk : w ≤ 2 ^ k) :
    n * newtonInverse k n = 1 := by
  have herror := one_sub_mul_iterate_newtonStep n 1 k
  have heven : 2 ∣ (1 - n).toNat := by
    rw [BitVec.toNat_sub]
    cases w with
    | zero =>
        rw [pow_zero, Nat.mod_one]
        exact dvd_zero 2
    | succ w =>
        have hlt := n.isLt
        have hone : (1 : BitVec (w + 1)).toNat = 1 :=
          (BitVec.toNat_ofNat 1 _).trans (Nat.mod_eq_of_lt (Nat.one_lt_two_pow w.succ_ne_zero))
        have htwo : 2 ∣ 2 ^ (w + 1) := Dvd.intro_left (2 ^ w) rfl
        rw [hone, Nat.dvd_mod_iff htwo]
        omega
  rw [mul_one, pow_eq_zero heven hk] at herror
  exact (sub_eq_zero.mp herror).symm

end BitVec

end Frostsnap
