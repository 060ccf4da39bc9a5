import NiraOS.Lib.Occurrences
import Mathlib.Data.Nat.Find

/-!
# Searches that wrap around

A search goes up from a place `x` and, where nothing is left, begins again at the bottom.  It meets
`i` before `a`:

```text
          x ≤ a     a < x
x ≤ i     i < a     always
i < x     never     i < a
```

A member that no other is met before comes next (`IsNext`).  There is one in every set that is not
empty, and only one.
-/

namespace WrapAround

section Next

variable {S : ℕ → Prop} {x i a b : ℕ}

def Sooner (x i a : ℕ) : Prop := x ≤ i ∧ a < x ∨ i < a ∧ (x ≤ i ∨ a < x)

structure IsNext (S : ℕ → Prop) (x a : ℕ) : Prop where
  mem : S a
  first : ∀ i, S i → ¬ Sooner x i a

theorem sooner_trichotomy (x i a : ℕ) : Sooner x i a ∨ i = a ∨ Sooner x a i := by
  unfold Sooner
  omega

theorem IsNext.unique (ha : IsNext S x a) (hb : IsNext S x b) : a = b := by
  rcases sooner_trichotomy x a b with h | h | h
  · exact absurd h (hb.first a ha.mem)
  · exact h
  · exact absurd h (ha.first b hb.mem)

/-- The least member at or above `x` comes next. -/
theorem isNext_of_le (ha : S a) (hx : x ≤ a) (h : ∀ i, x ≤ i → i < a → ¬ S i) : IsNext S x a := by
  refine ⟨ha, fun i hi hsooner => ?_⟩
  rcases hsooner with ⟨-, hlt⟩ | ⟨hlt, hle | hlt'⟩
  · omega
  · exact h i hle hlt hi
  · omega

/-- If there is none, the least of all does. -/
theorem isNext_of_lt (ha : S a) (hnone : ∀ i, x ≤ i → ¬ S i) (h : ∀ i, i < a → ¬ S i) :
    IsNext S x a := by
  refine ⟨ha, fun i hi hsooner => ?_⟩
  rcases hsooner with ⟨hle, -⟩ | ⟨hlt, -⟩
  · exact hnone i hle hi
  · exact h i hlt hi

theorem exists_isNext (h : ∃ i, S i) : ∃ a, IsNext S x a := by
  classical
  by_cases habove : ∃ i, x ≤ i ∧ S i
  · refine ⟨Nat.find habove, isNext_of_le (Nat.find_spec habove).2 (Nat.find_spec habove).1 ?_⟩
    exact fun i hle hlt hi => Nat.find_min habove hlt ⟨hle, hi⟩
  · push Not at habove
    exact ⟨Nat.find h, isNext_of_lt (Nat.find_spec h) habove fun i hlt => Nat.find_min h hlt⟩

/-- A search that begins one place further on finds the same, except for a member at the place
itself that is not the only one. -/
theorem isNext_succ_iff (h : IsNext S x a) : IsNext S (x + 1) a ↔ (S x → ∀ i, S i → i = x) := by
  constructor
  · intro hsucc hx i hi
    have hax : a = x := by
      rcases sooner_trichotomy x x a with hsooner | heq | hsooner
      · exact absurd hsooner (h.first x hx)
      · exact heq.symm
      · unfold Sooner at hsooner
        omega
    have hfirst := hsucc.first i hi
    unfold Sooner at hfirst
    omega
  · intro hx
    refine ⟨h.mem, fun i hi hsooner => ?_⟩
    by_cases hmem : S x
    · have hi' := hx hmem i hi
      have ha' := hx hmem a h.mem
      unfold Sooner at hsooner
      omega
    · have hne : a ≠ x := fun heq => hmem (heq ▸ h.mem)
      have hne' : i ≠ x := fun heq => hmem (heq ▸ hi)
      have hfirst := h.first i hi
      unfold Sooner at hsooner hfirst
      omega

end Next

/-! ## Searching a text -/

section Search

open Occurrences

variable {α : Type*} [DecidableEq α] {text pattern : List α} {start i : ℕ}

/-- The search from `start` on, and if it finds nothing from the beginning. -/
def search (text pattern : List α) (start : ℕ) : Option ℕ :=
  match indexOf text pattern start with
  | some i => some i
  | none => indexOf text pattern 0

theorem search_eq_none_iff : search text pattern start = none ↔ ∀ i, ¬ OccursAt text pattern i := by
  unfold search
  constructor
  · intro h
    split at h
    · nomatch h
    · exact fun i => indexOf_eq_none_iff.mp h i (Nat.zero_le i)
  · intro h
    rw [indexOf_eq_none_iff.mpr fun i _ => h i]
    exact indexOf_eq_none_iff.mpr fun i _ => h i

theorem isNext_of_search (h : search text pattern start = some i) :
    IsNext (OccursAt text pattern) start i := by
  unfold search at h
  split at h
  · next j hj =>
      obtain rfl := Option.some.inj h
      obtain ⟨hle, hoccurs, hfirst⟩ := indexOf_eq_some_iff.mp hj
      exact isNext_of_le hoccurs hle hfirst
  · next hnone =>
      obtain ⟨-, hoccurs, hfirst⟩ := indexOf_eq_some_iff.mp h
      exact isNext_of_lt hoccurs (indexOf_eq_none_iff.mp hnone) fun j hlt =>
        hfirst j (Nat.zero_le j) hlt

/-- **The search** finds the occurrence that comes next. -/
theorem search_eq_some_iff :
    search text pattern start = some i ↔ IsNext (OccursAt text pattern) start i := by
  refine ⟨isNext_of_search, fun hnext => ?_⟩
  cases h : search text pattern start with
  | none => exact absurd hnext.mem (search_eq_none_iff.mp h i)
  | some j => rw [(isNext_of_search h).unique hnext]

end Search

end WrapAround
