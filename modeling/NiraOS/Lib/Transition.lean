import Mathlib.Data.List.Basic
import Mathlib.Tactic.Common

/-!
# Transition systems with a partial step function

A system is a set of initial states and a partial step: `step s e` is the state
event `e` leads to from `s`, or `none` when `e` is not possible there.  The
events carry every choice the environment makes, so a run is a list of events
and can be replayed.

`ReachableWhere ok` restricts the runs to steps that meet the condition `ok` on
the state before the step and the event; `Reachable` is the unrestricted
notion.  The induction over runs is packaged once, as `ReachableWhere.invariant`.
-/

namespace Transition

variable {σ ε : Type*}

structure System (σ ε : Type*) where
  init : σ → Prop
  step : σ → ε → Option σ

namespace System

variable (S : System σ ε)

/-- Replay a list of events. -/
def run : σ → List ε → Option σ
  | s, [] => some s
  | s, e :: es => (S.step s e).bind fun s' => run s' es

/-- The states reached by runs all of whose steps meet `ok`. -/
inductive ReachableWhere (ok : σ → ε → Prop) : σ → Prop
  | init {s : σ} : S.init s → ReachableWhere ok s
  | step {s s' : σ} {e : ε} : ReachableWhere ok s → ok s e → S.step s e = some s' →
      ReachableWhere ok s'

/-- The states reached by any run. -/
abbrev Reachable : σ → Prop := S.ReachableWhere fun _ _ => True

/-- No event of the class `internal` is possible. -/
def Quiet (internal : ε → Prop) (s : σ) : Prop :=
  ∀ e, internal e → S.step s e = none

/-- The system begun in a given state. -/
def startingAt (s₀ : σ) : System σ ε := { S with init := (· = s₀) }

variable {S}

/-! ## Invariants -/

/-- **The invariant rule.**  What holds initially and is preserved by every
allowed step from a reachable state holds in every reachable state. -/
theorem ReachableWhere.invariant {ok : σ → ε → Prop} {I : σ → Prop}
    (hinit : ∀ s, S.init s → I s)
    (hstep : ∀ s e s', S.ReachableWhere ok s → I s → ok s e → S.step s e = some s' → I s')
    {s : σ} (h : S.ReachableWhere ok s) : I s := by
  induction h with
  | init hs => exact hinit _ hs
  | step hr hok he ih => exact hstep _ _ _ hr ih hok he

theorem ReachableWhere.mono {ok ok' : σ → ε → Prop} (himp : ∀ s e, ok s e → ok' s e)
    {s : σ} (h : S.ReachableWhere ok s) : S.ReachableWhere ok' s := by
  induction h with
  | init hs => exact .init hs
  | step _ hok he ih => exact ih.step (himp _ _ hok) he

theorem ReachableWhere.reachable {ok : σ → ε → Prop} {s : σ} (h : S.ReachableWhere ok s) :
    S.Reachable s :=
  h.mono fun _ _ _ => trivial

theorem ReachableWhere.of_startingAt {ok : σ → ε → Prop} {s₀ s : σ}
    (h : (S.startingAt s₀).ReachableWhere ok s) (h₀ : S.Reachable s₀) : S.Reachable s := by
  induction h with
  | init hs => exact hs ▸ h₀
  | step _ _ he ih => exact ih.step trivial he

/-! ## Replaying runs -/

/-- Replaying events that meet `ok` in every state. -/
theorem ReachableWhere.run {ok : σ → ε → Prop} {s s' : σ} {es : List ε}
    (h : S.ReachableWhere ok s) (hok : ∀ e ∈ es, ∀ s, ok s e) (hrun : S.run s es = some s') :
    S.ReachableWhere ok s' := by
  induction es generalizing s with
  | nil =>
      obtain rfl : s = s' := by simpa [System.run] using hrun
      exact h
  | cons e es ih =>
      cases hstep : S.step s e with
      | none => simp [System.run, hstep] at hrun
      | some t =>
          exact ih (h.step (hok e (List.mem_cons_self ..) s) hstep)
            (fun e' he' => hok e' (List.mem_cons_of_mem _ he'))
              (by simpa [System.run, hstep] using hrun)

theorem Reachable.run {s s' : σ} {es : List ε} (h : S.Reachable s)
    (hrun : S.run s es = some s') : S.Reachable s' :=
  ReachableWhere.run h (fun _ _ _ => trivial) hrun

/-- Replay a list of events as long as every step meets `ok`. -/
def runWhere (S : System σ ε) (ok : σ → ε → Prop) [∀ s e, Decidable (ok s e)] :
    σ → List ε → Option σ
  | s, [] => some s
  | s, e :: es => if ok s e then (S.step s e).bind fun s' => runWhere S ok s' es else none

theorem ReachableWhere.runWhere {ok : σ → ε → Prop} [∀ s e, Decidable (ok s e)] {s s' : σ}
    {es : List ε} (h : S.ReachableWhere ok s) (hrun : S.runWhere ok s es = some s') :
    S.ReachableWhere ok s' := by
  induction es generalizing s with
  | nil =>
      obtain rfl : s = s' := by simpa [System.runWhere] using hrun
      exact h
  | cons e es ih =>
      rw [System.runWhere] at hrun
      split_ifs at hrun with hok
      obtain ⟨t, hstep, hrun⟩ := Option.bind_eq_some_iff.mp hrun
      exact ih (h.step hok hstep) hrun

theorem run_of_runWhere {ok : σ → ε → Prop} [∀ s e, Decidable (ok s e)] {s s' : σ} {es : List ε}
    (h : S.runWhere ok s es = some s') : S.run s es = some s' := by
  induction es generalizing s with
  | nil => exact h
  | cons e es ih =>
      rw [System.runWhere] at h
      split_ifs at h
      obtain ⟨t, hstep, h⟩ := Option.bind_eq_some_iff.mp h
      rw [System.run, hstep, Option.bind_some]
      exact ih h

/-- A replayed run whose last state passes a test yields a reachable state that
passes it. -/
theorem exists_reachable_of_run {s : σ} {es : List ε} {p : σ → Bool} (hinit : S.init s)
    (h : (S.run s es).any p = true) : ∃ s', S.Reachable s' ∧ p s' = true := by
  cases hrun : S.run s es with
  | none => simp [hrun] at h
  | some s' => exact ⟨s', Reachable.run (.init hinit) hrun, by simpa [hrun] using h⟩

/-- The same for a run all of whose steps meet `ok`. -/
theorem exists_reachableWhere_of_run {ok : σ → ε → Prop} [∀ s e, Decidable (ok s e)] {s : σ}
    {es : List ε} {p : σ → Bool} (hinit : S.init s) (h : (S.runWhere ok s es).any p = true) :
    ∃ s', S.ReachableWhere ok s' ∧ p s' = true := by
  cases hrun : S.runWhere ok s es with
  | none => simp [hrun] at h
  | some s' => exact ⟨s', (ReachableWhere.init hinit).runWhere hrun, by simpa [hrun] using h⟩

/-! ## Termination -/

/-- A run of events that each lower `measure` is no longer than its start value. -/
theorem length_le_of_run {I : σ → Prop} {internal : ε → Prop} {measure : σ → ℕ}
    (hinv : ∀ s e s', I s → S.step s e = some s' → I s')
    (hdec : ∀ s e s', I s → internal e → S.step s e = some s' → measure s' < measure s)
    {s s' : σ} {es : List ε} (hs : I s) (hes : ∀ e ∈ es, internal e)
    (hrun : S.run s es = some s') : es.length ≤ measure s := by
  induction es generalizing s with
  | nil => exact Nat.zero_le _
  | cons e es ih =>
      cases hstep : S.step s e with
      | none => simp [run, hstep] at hrun
      | some t =>
          have hlt := hdec s e t hs (hes e (List.mem_cons_self ..)) hstep
          have hle := ih (hinv s e t hs hstep) (fun e' he' => hes e' (List.mem_cons_of_mem _ he'))
            (by simpa [run, hstep] using hrun)
          simp only [List.length_cons]
          omega

end System

end Transition
