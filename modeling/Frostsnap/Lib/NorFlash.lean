import Frostsnap.Lib.Exec
import Mathlib.Algebra.Order.Group.Nat
import Mathlib.Data.List.GetD

/-!
# NOR flash

A NOR flash is an array of bytes with two operations. Programming can only clear bits, so
the new byte is the bitwise `and` of what was there and what is written; only an erase sets
bits again, all of them, and works on whole sectors.

Power may be lost at any point. Every operation before that point has taken effect; of the
operation in progress a program has reached some whole number of program units, and an erase
some whole number of sectors. `crashAt` is the flash a crash leaves.

## Main results

* `exec_programs`: programming consecutive pieces is programming their concatenation.
* `crashAt_programs`, `exists_crashAt_programs`: what a crash inside consecutive pieces leaves
  is a prefix of the concatenation, programmed; and every prefix of whole units is left by
  some crash.
* `exec_outside`, `crashAt_outside`: operations inside a region leave the rest alone.
* `exec_erases`, `crashAt_erases`: what is erased stays erased under erases.
-/

namespace Frostsnap

/-- The byte at each address. -/
abbrev Flash := ℕ → UInt8

/-- The program unit and the erase sector of a flash. -/
structure FlashGeometry where
  unit : ℕ
  sector : ℕ

/-- An operation that changes a flash. -/
inductive FlashOp where
  | erase (start stop : ℕ)
  | program (start : ℕ) (bytes : List UInt8)
  deriving DecidableEq

/-- An erased byte takes what is programmed. -/
theorem UInt8.and_ff (b : UInt8) : b &&& 0xff = b := by
  apply UInt8.toNat_inj.mp
  rw [UInt8.toNat_and]
  exact Nat.and_two_pow_sub_one_of_lt_two_pow (n := 8) b.toNat_lt

/-- The same, the other way round. -/
theorem UInt8.ff_and (b : UInt8) : 0xff &&& b = b := by
  rw [UInt8.and_comm, UInt8.and_ff]

namespace Flash

/-- Set every bit of a region. -/
def erase (f : Flash) (start stop : ℕ) : Flash := fun i =>
  if start ≤ i ∧ i < stop then 0xff else f i

/-- Clear the bits of a region that are clear in `bytes`. -/
def program (f : Flash) (start : ℕ) (bytes : List UInt8) : Flash := fun i =>
  if start ≤ i then f i &&& bytes.getD (i - start) 0xff else f i

/-- One operation. -/
def apply (f : Flash) : FlashOp → Flash
  | .erase start stop => f.erase start stop
  | .program start bytes => f.program start bytes

/-- The operations in order. -/
def exec (f : Flash) (ops : List FlashOp) : Flash := ops.foldl apply f

end Flash

/-- The part of an operation that takes effect before power is lost. -/
def FlashOp.tear (g : FlashGeometry) (k : ℕ) : FlashOp → FlashOp
  | .erase start stop => .erase start (min stop (start + k * g.sector))
  | .program start bytes => .program start (bytes.take (k * g.unit))

/-- The operation only sets bits. -/
def FlashOp.IsErase : FlashOp → Prop
  | .erase _ _ => True
  | .program _ _ => False

/-- The operation changes nothing outside a region. -/
def FlashOp.Within (start stop : ℕ) : FlashOp → Prop
  | .erase a b => start ≤ a ∧ b ≤ stop
  | .program a bytes => start ≤ a ∧ a + bytes.length ≤ stop

namespace Flash

/-- What power loss leaves: the first `n` operations, and `k` units of the next one. -/
def crashAt (g : FlashGeometry) (f : Flash) (ops : List FlashOp) (n k : ℕ) : Flash :=
  match ops[n]? with
  | some op => (f.exec (ops.take n)).apply (op.tear g k)
  | none => f.exec ops

variable {g : FlashGeometry} {f : Flash}

/-- No operation. -/
@[simp] theorem exec_nil : f.exec [] = f := rfl

/-- The first one first. -/
@[simp] theorem exec_cons (op : FlashOp) (ops : List FlashOp) :
    f.exec (op :: ops) = (f.apply op).exec ops := rfl

/-- Operations in two goes. -/
theorem exec_append (ops₁ ops₂ : List FlashOp) :
    f.exec (ops₁ ++ ops₂) = (f.exec ops₁).exec ops₂ := List.foldl_append

/-- Nothing is interrupted. -/
@[simp] theorem crashAt_nil (n k : ℕ) : f.crashAt g [] n k = f := rfl

/-- The operation that is interrupted. -/
@[simp] theorem crashAt_cons_zero (op : FlashOp) (ops : List FlashOp) (k : ℕ) :
    f.crashAt g (op :: ops) 0 k = f.apply (op.tear g k) := rfl

/-- An operation before that. -/
@[simp] theorem crashAt_cons_succ (op : FlashOp) (ops : List FlashOp) (n k : ℕ) :
    f.crashAt g (op :: ops) (n + 1) k = (f.apply op).crashAt g ops n k := rfl

/-- A crash at the end is no crash. -/
theorem crashAt_of_length_le {ops : List FlashOp} {n : ℕ} (h : ops.length ≤ n) (k : ℕ) :
    f.crashAt g ops n k = f.exec ops := by
  simp only [crashAt, List.getElem?_eq_none h]

/-- A crash inside a sequence is inside its first part, or after it inside the second. -/
theorem crashAt_append (ops₁ ops₂ : List FlashOp) (n k : ℕ) :
    f.crashAt g (ops₁ ++ ops₂) n k =
      if n < ops₁.length then f.crashAt g ops₁ n k
      else (f.exec ops₁).crashAt g ops₂ (n - ops₁.length) k := by
  induction ops₁ generalizing f n with
  | nil => simp
  | cons op ops₁ ih =>
      cases n with
      | zero => simp
      | succ n =>
          simp only [List.cons_append, crashAt_cons_succ, ih, List.length_cons,
            Nat.add_lt_add_iff_right, exec_cons, Nat.add_sub_add_right]

/-! ### Frames -/

/-- An operation changes nothing outside of its region. -/
theorem apply_outside {op : FlashOp} {start stop i : ℕ} (h : op.Within start stop)
    (hi : i < start ∨ stop ≤ i) : f.apply op i = f i := by
  cases op with
  | erase a b =>
      obtain ⟨ha, hb⟩ := h
      exact if_neg (by omega)
  | program a bytes =>
      obtain ⟨ha, hb⟩ := h
      simp only [apply, program]
      split
      · rw [List.getD_eq_default _ _ (by omega), UInt8.and_ff]
      · rfl


/-- Nor does one that is interrupted. -/
theorem tear_within {op : FlashOp} {start stop : ℕ} (h : op.Within start stop) (k : ℕ) :
    (op.tear g k).Within start stop := by
  cases op with
  | erase a b => exact ⟨h.1, (Nat.min_le_left _ _).trans h.2⟩
  | program a bytes =>
      obtain ⟨ha, hb⟩ := h
      refine ⟨ha, ?_⟩
      rw [List.length_take]
      omega

/-- Nor do several. -/
theorem exec_outside {ops : List FlashOp} {start stop i : ℕ}
    (h : ∀ op ∈ ops, op.Within start stop) (hi : i < start ∨ stop ≤ i) :
    f.exec ops i = f i := by
  induction ops generalizing f with
  | nil => rfl
  | cons op ops ih =>
      rw [exec_cons, ih fun op' h' => h op' (List.mem_cons_of_mem _ h'),
        apply_outside (h op List.mem_cons_self) hi]

/-- Nor do several that are interrupted. -/
theorem crashAt_outside {ops : List FlashOp} {start stop i : ℕ}
    (h : ∀ op ∈ ops, op.Within start stop) (hi : i < start ∨ stop ≤ i) (n k : ℕ) :
    f.crashAt g ops n k i = f i := by
  induction ops generalizing f n with
  | nil => rfl
  | cons op ops ih =>
      have hop := h op List.mem_cons_self
      cases n with
      | zero => rw [crashAt_cons_zero, apply_outside (tear_within hop k) hi]
      | succ n =>
          rw [crashAt_cons_succ, ih fun op' h' => h op' (List.mem_cons_of_mem _ h'),
            apply_outside hop hi]

/-- A byte depends on what that byte was. -/
theorem apply_congr {f' : Flash} {i : ℕ} (h : f i = f' i) (op : FlashOp) :
    f.apply op i = f'.apply op i := by
  cases op with
  | erase a b => simp only [apply, erase, h]
  | program a bytes => simp only [apply, program, h]

/-- What happens to a byte depends on that byte alone. -/
theorem crashAt_congr {f' : Flash} {i : ℕ} (h : f i = f' i) (ops : List FlashOp) (n k : ℕ) :
    f.crashAt g ops n k i = f'.crashAt g ops n k i := by
  induction ops generalizing f f' n with
  | nil => exact h
  | cons op ops ih =>
      cases n with
      | zero => exact apply_congr h _
      | succ n => exact ih (apply_congr h op) n

/-- Operations of which each stays away from a byte, in a region of its own. -/
theorem crashAt_away {ops : List FlashOp} {i : ℕ}
    (h : ∀ op ∈ ops, ∃ start stop, op.Within start stop ∧ (i < start ∨ stop ≤ i)) (n k : ℕ) :
    f.crashAt g ops n k i = f i := by
  induction ops generalizing f n with
  | nil => rfl
  | cons op ops ih =>
      obtain ⟨start, stop, hop, hi⟩ := h op List.mem_cons_self
      cases n with
      | zero => rw [crashAt_cons_zero, apply_outside (tear_within hop k) hi]
      | succ n =>
          rw [crashAt_cons_succ, ih fun op' h' => h op' (List.mem_cons_of_mem _ h'),
            apply_outside hop hi]

/-! ### Erases -/

/-- An erased byte is what it was, or blank. -/
theorem apply_isErase {op : FlashOp} (h : op.IsErase) (i : ℕ) :
    f.apply op i = f i ∨ f.apply op i = 0xff := by
  cases op with
  | erase a b =>
      simp only [apply, erase]
      split
      · exact .inr rfl
      · exact .inl rfl
  | program a bytes => cases h

/-- An erase that is interrupted is a shorter one. -/
theorem tear_isErase {op : FlashOp} (h : op.IsErase) (k : ℕ) : (op.tear g k).IsErase := by
  cases op with
  | erase a b => trivial
  | program a bytes => cases h

/-- Erases leave each byte, or make it blank. -/
theorem exec_erases {ops : List FlashOp} (h : ∀ op ∈ ops, op.IsErase) (i : ℕ) :
    f.exec ops i = f i ∨ f.exec ops i = 0xff := by
  induction ops generalizing f with
  | nil => exact .inl rfl
  | cons op ops ih =>
      rw [exec_cons]
      rcases @ih (f.apply op) fun op' h' => h op' (List.mem_cons_of_mem _ h') with hrest | hrest
      · rw [hrest]
        exact apply_isErase (h op List.mem_cons_self) i
      · exact .inr hrest

/-- **A byte under erases** is as it was or erased, wherever they are interrupted. -/
theorem crashAt_erases {ops : List FlashOp} (h : ∀ op ∈ ops, op.IsErase) (n k i : ℕ) :
    f.crashAt g ops n k i = f i ∨ f.crashAt g ops n k i = 0xff := by
  induction ops generalizing f n with
  | nil => exact .inl rfl
  | cons op ops ih =>
      have hop := h op List.mem_cons_self
      cases n with
      | zero => exact apply_isErase (tear_isErase hop k) i
      | succ n =>
          rw [crashAt_cons_succ]
          rcases @ih (f.apply op) (fun op' h' => h op' (List.mem_cons_of_mem _ h')) n with
            hrest | hrest
          · rw [hrest]
            exact apply_isErase hop i
          · exact .inr hrest

/-! ### Consecutive programs -/

/-- Programs of consecutive pieces, the first at `start`. -/
def programs (start : ℕ) : List (List UInt8) → List FlashOp
  | [] => []
  | piece :: pieces => .program start piece :: programs (start + piece.length) pieces

/-- Nothing is programmed. -/
theorem program_nil (start : ℕ) : f.program start [] = f := by
  funext i
  simp only [program, List.getD_nil, UInt8.and_ff, ite_self]

/-- Programming two adjoining pieces is programming them at once. -/
theorem program_append (start : ℕ) (bytes₁ bytes₂ : List UInt8) :
    (f.program start bytes₁).program (start + bytes₁.length) bytes₂ =
      f.program start (bytes₁ ++ bytes₂) := by
  funext i
  simp only [program]
  by_cases h₂ : start + bytes₁.length ≤ i
  · rw [if_pos h₂, if_pos (by omega), if_pos (by omega),
      List.getD_eq_default bytes₁ _ (by omega), UInt8.and_ff,
      List.getD_append_right _ _ _ _ (by omega)]
    congr 2
    omega
  · rw [if_neg h₂]
    by_cases h₁ : start ≤ i
    · rw [if_pos h₁, if_pos h₁, List.getD_append _ _ _ _ (by omega)]
    · rw [if_neg h₁, if_neg h₁]

/-- An operation that has not begun. -/
theorem apply_tear_zero (op : FlashOp) : f.apply (op.tear g 0) = f := by
  cases op with
  | erase a b =>
      funext i
      simp only [FlashOp.tear, apply, erase, Nat.zero_mul, Nat.add_zero]
      exact if_neg (by omega)
  | program a bytes => simp only [FlashOp.tear, apply, Nat.zero_mul, List.take_zero, program_nil]

/-- Pieces that go on where the others ended. -/
theorem programs_append (start : ℕ) (ps qs : List (List UInt8)) :
    programs start (ps ++ qs) = programs start ps ++ programs (start + ps.flatten.length) qs := by
  induction ps generalizing start with
  | nil => simp [programs]
  | cons p ps ih =>
      simp only [List.cons_append, programs, ih, List.flatten_cons, List.length_append,
        Nat.add_assoc]

/-- One operation a piece. -/
@[simp] theorem length_programs (start : ℕ) (ps : List (List UInt8)) :
    (programs start ps).length = ps.length := by
  induction ps generalizing start with
  | nil => rfl
  | cons p ps ih => simp only [programs, List.length_cons, ih]

/-- **Programming consecutive pieces is programming their concatenation.** -/
theorem exec_programs (start : ℕ) (ps : List (List UInt8)) :
    f.exec (programs start ps) = f.program start ps.flatten := by
  induction ps generalizing f start with
  | nil => simp only [programs, exec_nil, List.flatten_nil, program_nil]
  | cons p ps ih =>
      simp only [programs, exec_cons, apply, ih, List.flatten_cons, program_append]

/-- They stay in the region of all pieces. -/
theorem programs_within {start : ℕ} {ps : List (List UInt8)} {op : FlashOp}
    (h : op ∈ programs start ps) : op.Within start (start + ps.flatten.length) := by
  induction ps generalizing start with
  | nil => cases h
  | cons p ps ih =>
      simp only [List.flatten_cons, List.length_append]
      rcases List.mem_cons.mp h with rfl | h
      · exact ⟨le_refl _, by omega⟩
      · have hw := ih h
        cases op with
        | erase a b =>
            obtain ⟨ha, hb⟩ := hw
            exact ⟨by omega, by omega⟩
        | program a bytes =>
            obtain ⟨ha, hb⟩ := hw
            exact ⟨by omega, by omega⟩

/-- **What a crash inside consecutive programs leaves**: a prefix of their concatenation,
which ends on a unit boundary or is the whole. -/
theorem crashAt_programs (f : Flash) (start : ℕ) {ps : List (List UInt8)}
    (h : ∀ p ∈ ps.dropLast, g.unit ∣ p.length) (n k : ℕ) :
    ∃ m ≤ ps.flatten.length, (g.unit ∣ m ∨ m = ps.flatten.length) ∧
      f.crashAt g (programs start ps) n k = f.program start (ps.flatten.take m) := by
  induction ps generalizing f start n with
  | nil => exact ⟨0, le_refl _, .inr rfl, by simp [programs, program_nil]⟩
  | cons p ps ih =>
      cases n with
      | zero =>
          simp only [programs, crashAt_cons_zero, FlashOp.tear, apply, List.flatten_cons,
            List.length_append]
          by_cases hk : k * g.unit ≤ p.length
          · refine ⟨k * g.unit, by omega, .inl (Nat.dvd_mul_left _ _), ?_⟩
            rw [List.take_append_of_le_length hk]
          · refine ⟨p.length, by omega, ?_, ?_⟩
            · cases ps with
              | nil => exact .inr (by simp)
              | cons q ps => exact .inl (h p (by simp))
            · rw [List.take_of_length_le (by omega), List.take_left]
      | succ n =>
          simp only [programs, crashAt_cons_succ, apply, List.flatten_cons, List.length_append]
          cases ps with
          | nil => exact ⟨p.length, by simp, .inr (by simp), by simp [programs]⟩
          | cons q ps =>
              have hp : g.unit ∣ p.length := h p (by simp)
              obtain ⟨m, hm, hdvd, heq⟩ :=
                ih (f.program start p) (start + p.length)
                  (fun p' h' => h p' (by
                    rw [List.dropLast_cons_of_ne_nil (by simp)]
                    exact List.mem_cons_of_mem _ h')) n
              refine ⟨p.length + m, by omega, ?_, ?_⟩
              · rcases hdvd with hdvd | rfl
                · exact .inl (Nat.dvd_add hp hdvd)
                · exact .inr rfl
              · rw [heq, program_append, List.take_length_add_append]

/-- Every prefix that ends on a unit boundary is what some crash leaves. -/
theorem exists_crashAt_programs (f : Flash) (start : ℕ) {ps : List (List UInt8)}
    (h : ∀ p ∈ ps.dropLast, g.unit ∣ p.length) {m : ℕ} (hm : m < ps.flatten.length)
    (hdvd : g.unit ∣ m) :
    ∃ n < ps.length, ∃ k, f.crashAt g (programs start ps) n k =
      f.program start (ps.flatten.take m) := by
  induction ps generalizing f start m with
  | nil => simp at hm
  | cons p ps ih =>
      by_cases hlt : m < p.length
      · obtain ⟨k, rfl⟩ := hdvd
        refine ⟨0, by simp, k, ?_⟩
        simp only [programs, crashAt_cons_zero, FlashOp.tear, apply, List.flatten_cons]
        rw [List.take_append_of_le_length (by omega), Nat.mul_comm]
      · cases ps with
        | nil =>
            simp only [List.flatten_cons, List.flatten_nil, List.append_nil] at hm
            omega
        | cons q ps =>
            have hp : g.unit ∣ p.length := h p (by simp)
            simp only [List.flatten_cons (l := p), List.length_append] at hm
            obtain ⟨n, hn, k, heq⟩ :=
              ih (f.program start p) (start + p.length) (m := m - p.length)
                (fun p' h' => h p' (by
                  rw [List.dropLast_cons_of_ne_nil (by simp)]
                  exact List.mem_cons_of_mem _ h')) (by omega) (Nat.dvd_sub hdvd hp)
            refine ⟨n + 1, by simpa using hn, k, ?_⟩
            simp only [programs, crashAt_cons_succ, apply] at heq ⊢
            rw [heq, program_append, ← List.take_length_add_append, List.flatten_cons (l := p)]
            congr 2
            omega

end Flash

end Frostsnap
