import NiraOS.Lib.Transition

/-!
# Simulation between two levels

A relation between the states of two systems is a simulation when the coarser system can answer
every allowed step of the finer one, by any number of allowed steps of its own.  What is reached
below is then related to something that is reached above (`Simulates.reachable`), and what holds
above of all that is reached can be read below.
-/

namespace Transition

namespace System

variable {σ ε τ δ : Type*} {S : System σ ε} {T : System τ δ} {ok : σ → ε → Prop}
    {ok' : τ → δ → Prop}

/-- Runs can be put together. -/
theorem ReachableWhere.trans {s s' : σ} (h : S.ReachableWhere ok s)
    (h' : (S.startingAt s).ReachableWhere ok s') :
    S.ReachableWhere ok s' := by
  induction h' with
  | init hs => exact hs ▸ h
  | step _ hok hstep ih => exact ih.step hok hstep

/-- One step, as a run. -/
theorem ReachableWhere.single {s s' : σ} {e : ε} (hok : ok s e) (hstep : S.step s e = some s') :
    (S.startingAt s).ReachableWhere ok s' :=
  .step (.init rfl) hok hstep

/-- **A simulation**: the coarser system `T` follows every allowed step of `S`. -/
structure Simulates (S : System σ ε) (ok : σ → ε → Prop) (T : System τ δ) (ok' : τ → δ → Prop)
    (represents : σ → τ → Prop) : Prop where
  init : ∀ s, S.init s → ∃ t, T.init t ∧ represents s t
  step : ∀ s e s' t, represents s t → ok s e → S.step s e = some s' →
    ∃ t', (T.startingAt t).ReachableWhere ok' t' ∧ represents s' t'

/-- **The simulation rule.** -/
theorem Simulates.reachable {represents : σ → τ → Prop}
    (h : Simulates S ok T ok' represents) {s : σ}
    (hs : S.ReachableWhere ok s) : ∃ t, T.ReachableWhere ok' t ∧ represents s t := by
  induction hs with
  | init hs =>
      obtain ⟨t, ht, hrepresents⟩ := h.init _ hs
      exact ⟨t, .init ht, hrepresents⟩
  | step _ hok hstep ih =>
      obtain ⟨t, ht, hrepresents⟩ := ih
      obtain ⟨t', hrun, hrepresents'⟩ := h.step _ _ _ t hrepresents hok hstep
      exact ⟨t', ht.trans hrun, hrepresents'⟩

end System

end Transition
