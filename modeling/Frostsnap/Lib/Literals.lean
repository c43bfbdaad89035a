import Mathlib

/-!
# Literals of small types

A literal of `Fin n` carries the proof that `n` is not zero. The instances here give that proof a
name for the small `n`, so that a literal is the same term in every module.
-/

namespace Frostsnap

instance neZero_two : NeZero 2 := inferInstance

instance neZero_three : NeZero 3 := inferInstance

instance neZero_four : NeZero 4 := inferInstance

instance neZero_five : NeZero 5 := inferInstance

instance neZero_six : NeZero 6 := inferInstance

end Frostsnap
