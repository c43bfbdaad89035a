import Mathlib.Algebra.Module.BigOperators
import Mathlib.Tactic.Module

/-!
# Polynomials over a module

The value of a polynomial, given by the list of its coefficients from the constant one on, at a
scalar. The coefficients are elements of a module: points of a curve, or scalars themselves.
-/

namespace Frostsnap

variable {F E : Type} [CommRing F] [AddCommGroup E] [Module F E]

/-- The value of a polynomial at a scalar. -/
def evalAt (coefficients : List E) (x : F) : E :=
  coefficients.foldr (fun c value => c + x • value) 0

/-- The polynomial without coefficients. -/
@[simp] theorem evalAt_nil (x : F) : evalAt ([] : List E) x = 0 := rfl

/-- Horner's rule. -/
theorem evalAt_cons (c : E) (l : List E) (x : F) : evalAt (c :: l) x = c + x • evalAt l x := rfl

/-- What is added to the constant coefficient is added to every value. -/
theorem evalAt_modifyHead_add {l : List E} (h : l ≠ []) (t : E) (x : F) :
    evalAt (l.modifyHead (· + t)) x = evalAt l x + t := by
  obtain ⟨c, l, rfl⟩ := List.exists_cons_of_ne_nil h
  rw [List.modifyHead_cons, evalAt_cons, evalAt_cons, add_right_comm]

/-- The negated polynomial. -/
theorem evalAt_map_neg (l : List E) (x : F) :
    evalAt (l.map fun c => -c) x = -evalAt l x := by
  induction l with
  | nil => rw [List.map_nil, evalAt_nil, neg_zero]
  | cons c l ih => rw [List.map_cons, evalAt_cons, evalAt_cons, ih, smul_neg, neg_add]

end Frostsnap
