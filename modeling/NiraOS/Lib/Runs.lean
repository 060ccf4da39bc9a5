import Mathlib.Data.List.Induction
import Mathlib.Data.List.Basic
import Mathlib.Tactic.Common

/-!
# Runs of steps that are always possible

Where a step keeps an invariant exactly if it meets a condition, all states of a run have the
invariant exactly if all its steps meet the condition.
-/

namespace Runs

variable {σ ε : Type*} {step : σ → ε → σ} {start : σ} {invariant : σ → Prop} {fits : σ → ε → Prop}

/-- **The rule of exact steps**, for every beginning of a run. -/
theorem forall_prefix_iff (hstart : invariant start)
    (hstep : ∀ s e, invariant s → (invariant (step s e) ↔ fits s e)) (events : List ε) :
    (∀ past, past <+: events → invariant (past.foldl step start)) ↔
      ∀ past e, past ++ [e] <+: events → fits (past.foldl step start) e := by
  constructor
  · intro hall past e hpast
    have hbefore : invariant (past.foldl step start) :=
      hall past ((List.prefix_append past [e]).trans hpast)
    have hafter : invariant ((past ++ [e]).foldl step start) := hall (past ++ [e]) hpast
    rw [List.foldl_concat] at hafter
    exact (hstep _ e hbefore).mp hafter
  · intro hall past hpast
    induction past using List.reverseRecOn with
    | nil => exact hstart
    | append_singleton past e ih =>
        have hbefore := ih ((List.prefix_append past [e]).trans hpast)
        rw [List.foldl_concat]
        exact (hstep _ e hbefore).mpr (hall past e hpast)

end Runs
