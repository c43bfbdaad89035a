import Mathlib.Tactic.Common
import Mathlib.Data.List.Basic

/-!
# Runs of a step function

A run of a system is the left fold of its step function over the operations it is given.
The rules here package the two inductions the rest of the development uses: an invariant
that every step keeps holds at the end of every run, and a relation between states that
every step respects holds between any two states of a run.
-/

namespace Frostsnap

variable {σ Op : Type*}

/-- The state a run ends in. -/
def run (step : σ → Op → σ) (s : σ) (ops : List Op) : σ := ops.foldl step s

section Run

variable {step : σ → Op → σ}

@[simp] theorem run_nil (s : σ) : run step s [] = s := rfl

@[simp] theorem run_cons (s : σ) (op : Op) (ops : List Op) :
    run step s (op :: ops) = run step (step s op) ops := rfl

theorem run_append (s : σ) (ops₁ ops₂ : List Op) :
    run step s (ops₁ ++ ops₂) = run step (run step s ops₁) ops₂ :=
  List.foldl_append

/-- A property that no step can restore once it is lost held before every step of a run
that ends with it. -/
theorem run_backward {Good : σ → Prop} (hback : ∀ s op, Good (step s op) → Good s)
    {s : σ} {ops : List Op} (h : Good (run step s ops)) : Good s := by
  induction ops generalizing s with
  | nil => exact h
  | cons op ops ih => exact hback s op (ih h)

/-- **The invariant rule.** If every step into a good state keeps `Inv`, and good states are
only reached from good states, then `Inv` holds at the end of every run that ends good. -/
theorem run_invariant {Inv Good : σ → Prop} (hback : ∀ s op, Good (step s op) → Good s)
    (hstep : ∀ s op, Good (step s op) → Inv s → Inv (step s op))
    {s : σ} {ops : List Op} (hgood : Good (run step s ops)) (h : Inv s) :
    Inv (run step s ops) := by
  induction ops generalizing s with
  | nil => exact h
  | cons op ops ih =>
      exact ih hgood (hstep s op (run_backward hback hgood) h)

/-- **The relation rule.** A reflexive and transitive relation that every step from an
invariant state respects holds between the ends of a run. -/
theorem run_related {Inv Good : σ → Prop} {R : σ → σ → Prop}
    (hback : ∀ s op, Good (step s op) → Good s)
    (hstep : ∀ s op, Good (step s op) → Inv s → Inv (step s op))
    (hrefl : ∀ s, R s s) (htrans : ∀ {s t u}, R s t → R t u → R s u)
    (hrel : ∀ s op, Good (step s op) → Inv s → R s (step s op))
    {s : σ} {ops : List Op} (hgood : Good (run step s ops)) (h : Inv s) :
    R s (run step s ops) := by
  induction ops generalizing s with
  | nil => exact hrefl s
  | cons op ops ih =>
      have hg : Good (step s op) := run_backward hback hgood
      exact htrans (hrel s op hg h) (ih hgood (hstep s op hg h))

/-- **Runs come to rest.** When a measure of the states that are reached is bounded, some run leads
to a state from which it does not grow any more. -/
theorem exists_run_at_rest {Inv : σ → Prop} {work : σ → ℕ} {bound : ℕ}
    (hstep : ∀ s op, Inv s → Inv (step s op)) (hbound : ∀ s, Inv s → work s ≤ bound)
    {s : σ} (h : Inv s) :
    ∃ ops, ∀ ops', work (run step (run step s ops) ops') ≤ work (run step s ops) := by
  have hrun : ∀ ops, Inv (run step s ops) := fun ops =>
    @run_invariant σ Op step Inv (fun _ => True) (fun _ _ _ => trivial)
      (fun t op _ ht => hstep t op ht) s ops trivial h
  by_contra hgrows
  simp only [not_exists, not_forall, Nat.not_le] at hgrows
  have hunbounded : ∀ n, ∃ ops, n ≤ work (run step s ops) := by
    intro n
    induction n with
    | zero => exact ⟨[], Nat.zero_le _⟩
    | succ n ih =>
        obtain ⟨ops, hn⟩ := ih
        obtain ⟨ops', hlt⟩ := hgrows ops
        exact ⟨ops ++ ops', by rw [run_append]; omega⟩
  obtain ⟨ops, hlt⟩ := hunbounded (bound + 1)
  exact absurd (hbound _ (hrun ops)) (by omega)

end Run

end Frostsnap
