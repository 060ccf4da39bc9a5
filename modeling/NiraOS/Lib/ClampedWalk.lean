import Mathlib.Algebra.Order.Group.MinMax
import Mathlib.Algebra.Order.Group.Abs
import Mathlib.Tactic.Abel
import Mathlib.Tactic.Common

/-!
# Walks that are clamped from below

A quantity follows a list of values that are asked for: it changes by as much as what is asked for
does, but never falls below a bound.  Each time the bound is hit the quantity gets ahead of what is
asked for, and stays ahead; how far is the `excess`.  So in the end the quantity is the last value
asked for plus the excess (`clampedWalk_eq`), and it is what one clamped step would have made it
exactly if nothing smaller was asked for on the way (`clampedWalk_concat_eq_iff`).
-/

namespace ClampedWalk

variable {α : Type*} [AddCommGroup α] [LinearOrder α]

/-- From a value, where `asked` was the last that was asked for. -/
def clampedWalk (low : α) : α → α → List α → α
  | value, _, [] => value
  | value, asked, next :: path => clampedWalk low (max low (value + (next - asked))) next path

/-- How far the walk gets ahead of what is asked for. -/
def excess (low : α) : α → List α → α
  | ahead, [] => ahead
  | ahead, next :: path => excess low (max ahead (low - next)) path

/-- The walk never falls below the bound. -/
theorem low_le_clampedWalk {low value asked : α} {path : List α} (h : low ≤ value) :
    low ≤ clampedWalk low value asked path := by
  induction path generalizing value asked with
  | nil => exact h
  | cons next path ih => exact ih (le_max_left _ _)

section Excess

variable [IsOrderedAddMonoid α] {low value asked bound : α} {path : List α}

theorem clampedWalk_concat (last : α) :
    clampedWalk low value asked (path ++ [last]) =
      last + excess low (value - asked) (path ++ [last]) := by
  induction path generalizing value asked with
  | nil =>
      calc max low (value + (last - asked))
          = max (last + (value - asked)) (last + (low - last)) := by
            rw [max_comm, add_sub_cancel, add_sub_left_comm]
        _ = last + max (value - asked) (low - last) := (add_max last _ _).symm
  | cons next path ih =>
      have hahead : max low (value + (next - asked)) - next = max (value - asked) (low - next) := by
        rw [max_sub_sub_right low (value + (next - asked)) next |>.symm, max_comm]
        congr 1
        abel
      rw [List.cons_append, clampedWalk, ih, hahead]
      rfl

theorem excess_le_iff {ahead : α} :
    excess low ahead path ≤ bound ↔ ahead ≤ bound ∧ ∀ next ∈ path, low - next ≤ bound := by
  induction path generalizing ahead with
  | nil => simp [excess]
  | cons next path ih =>
      rw [excess, ih, max_le_iff, List.forall_mem_cons, and_assoc]

theorem le_excess_concat (ahead last : α) :
    max ahead (low - last) ≤ excess low ahead (path ++ [last]) := by
  obtain ⟨hahead, hpath⟩ := excess_le_iff.mp (le_refl (excess low ahead (path ++ [last])))
  exact max_le hahead (hpath last (List.mem_append_right _ List.mem_cons_self))

/-- **One clamped step** would have led to the same if and only if on the way nothing was asked for
that is below both the bound and the last value. -/
theorem clampedWalk_concat_eq_iff (last : α) :
    clampedWalk low asked asked (path ++ [last]) = max low last ↔
      ∀ next ∈ path, min low last ≤ next := by
  have hstep : max low last = last + max 0 (low - last) := by
    rw [add_max, add_zero, add_sub_cancel, max_comm]
  have hbound : ∀ next : α, low - next ≤ max 0 (low - last) ↔ min low last ≤ next := by
    intro next
    rw [le_max_iff, min_le_iff, sub_nonpos, sub_le_sub_iff_left]
  rw [clampedWalk_concat, hstep, add_right_inj, sub_self]
  constructor
  · intro heq next hnext
    rw [← hbound next]
    exact (excess_le_iff.mp heq.le).2 next (List.mem_append_left _ hnext)
  · intro hpath
    refine le_antisymm (excess_le_iff.mpr ⟨le_max_left _ _, fun next hnext => ?_⟩)
      (le_excess_concat 0 last)
    rcases List.mem_append.mp hnext with hmem | hmem
    · exact (hbound next).mpr (hpath next hmem)
    · rw [List.mem_singleton.mp hmem]
      exact le_max_right _ _

end Excess

end ClampedWalk
