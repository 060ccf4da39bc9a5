import Mathlib.Algebra.BigOperators.Group.Finset.Basic
import Mathlib.Algebra.Order.BigOperators.Group.Finset

/-!
# Potentials of families

The potential of a family is the sum over its first `n` members.  A step of a
system usually changes one member: these lemmas say what that does to the sum.
-/

namespace Potential

variable {f g : ℕ → ℕ} {n i k : ℕ}

/-- The sum over the first `n` members. -/
def total (f : ℕ → ℕ) (n : ℕ) : ℕ := ∑ j ∈ Finset.range n, f j

theorem total_succ (f : ℕ → ℕ) (n : ℕ) : total f (n + 1) = total f n + f n :=
  Finset.sum_range_succ ..

theorem total_congr (h : ∀ j < n, g j = f j) : total g n = total f n :=
  Finset.sum_congr rfl fun j hj => h j (Finset.mem_range.mp hj)

/-- A change of one member of the sum. -/
theorem total_add_of_lt (hi : i < n) (h : ∀ j, j ≠ i → g j = f j) :
    total g n + f i = total f n + g i := by
  have hmem : i ∈ Finset.range n := Finset.mem_range.mpr hi
  have hrest : ∑ j ∈ (Finset.range n).erase i, g j = ∑ j ∈ (Finset.range n).erase i, f j :=
    Finset.sum_congr rfl fun j hj => h j (Finset.ne_of_mem_erase hj)
  have hf := Finset.add_sum_erase _ f hmem
  have hg := Finset.add_sum_erase _ g hmem
  unfold total
  omega

/-- A member that grows by at most `k`. -/
theorem total_le_add (h : ∀ j, j ≠ i → g j = f j) (hle : g i ≤ f i + k) :
    total g n ≤ total f n + k := by
  by_cases hi : i < n
  · have heq := total_add_of_lt hi h
    omega
  · have heq : total g n = total f n := total_congr fun j hj => h j (by omega)
    omega

end Potential
