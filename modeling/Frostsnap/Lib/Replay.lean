import Mathlib.Tactic.Common
import Mathlib.Data.List.Basic

/-!
# Logs of rows that are replayed

A state is stored as the rows that lead to it. `Replays step init rows s` says that `rows`, each
applied by `step` to the state that the ones before it lead to, lead from `init` to `s`. The rules
say what every state of a log has, and what leaving rows out of a log does: when a projection of
the state does not see the rows that are left out, and respects the others, the log without them
leads to the projected state.
-/

namespace Frostsnap

variable {σ Row : Type*}

/-- Rows that lead from an initial state to a state. -/
inductive Replays (step : σ → Row → σ → Prop) (init : σ) : List Row → σ → Prop where
  | nil : Replays step init [] init
  | snoc {rows : List Row} {row : Row} {s s' : σ} (h : Replays step init rows s)
      (hstep : step s row s') : Replays step init (rows ++ [row]) s'

namespace Replays

variable {step : σ → Row → σ → Prop} {init : σ}

/-- What holds at first and is kept by every row holds of every state that is replayed. -/
theorem invariant {Inv : σ → Prop} (hinit : Inv init)
    (hkeep : ∀ s row s', Inv s → step s row s' → Inv s') {rows : List Row} {s : σ}
    (h : Replays step init rows s) : Inv s := by
  induction h with
  | nil => exact hinit
  | snoc h hstep ih => exact hkeep _ _ _ ih hstep

/-- **Pruning.** Rows are left out of a log. The projection of a state is kept by the rows that
are left out, and the others do to it what they do to the state. `Ok` is what the whole log has,
and with it every log that it extends. -/
theorem prune (Ok : List Row → Prop) (project : σ → σ) (keep : Row → Bool)
    (hinit : project init = init) (hok : ∀ rows row, Ok (rows ++ [row]) → Ok rows)
    (hdrop : ∀ rows s row s', Ok (rows ++ [row]) → Replays step init rows s → step s row s' →
      keep row = false → project s' = project s)
    (hkeep : ∀ rows s row s', Ok (rows ++ [row]) → Replays step init rows s → step s row s' →
      keep row = true → step (project s) row (project s'))
    {rows : List Row} {s : σ} (h : Replays step init rows s) (hrows : Ok rows) :
    Replays step init (rows.filter keep) (project s) := by
  induction h with
  | nil => exact hinit.symm ▸ .nil
  | @snoc rows row s s' h hstep ih =>
      have hpruned := ih (hok _ _ hrows)
      rw [List.filter_append]
      cases hrow : keep row with
      | true =>
          rw [List.filter_cons_of_pos hrow, List.filter_nil]
          exact .snoc hpruned (hkeep _ _ _ _ hrows h hstep hrow)
      | false =>
          rw [List.filter_cons_of_neg (by rw [hrow]; exact Bool.false_ne_true), List.filter_nil,
            List.append_nil, hdrop _ _ _ _ hrows h hstep hrow]
          exact hpruned

end Replays

end Frostsnap
