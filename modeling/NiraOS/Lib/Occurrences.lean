import Mathlib.Data.List.Basic
import Mathlib.Tactic.Common

/-!
# Occurrences of one list in another

`indexOf` is the search for the first occurrence from some index on, as strings have it.
-/

namespace Occurrences

variable {α : Type*} {text pattern rest : List α} {start i : ℕ} {c : α}

def OccursAt (text pattern : List α) (i : ℕ) : Prop := i ≤ text.length ∧ pattern <+: text.drop i

theorem OccursAt.add_length_le (h : OccursAt text pattern i) :
    i + pattern.length ≤ text.length := by
  have hle := h.2.length_le
  rw [List.length_drop] at hle
  have := h.1
  omega

theorem isInfix_iff : pattern <:+: text ↔ ∃ i, OccursAt text pattern i := by
  constructor
  · intro h
    obtain ⟨before, after, htext⟩ := h
    refine ⟨before.length, ?_, ?_⟩
    · rw [← htext, List.length_append, List.length_append]
      omega
    · rw [← htext, List.append_assoc, List.drop_left]
      exact List.prefix_append _ _
  · intro h
    obtain ⟨i, hoccurs⟩ := h
    exact hoccurs.2.isInfix.trans (List.drop_suffix _ _).isInfix

variable [DecidableEq α]

instance : Decidable (OccursAt text pattern i) := inferInstanceAs (Decidable (_ ∧ _))

/-- The first occurrence in what is left of a text, the index of which is given. -/
def indexFrom (pattern : List α) : ℕ → List α → Option ℕ
  | i, [] => if pattern = [] then some i else none
  | i, c :: rest => if pattern <+: c :: rest then some i else indexFrom pattern (i + 1) rest

def indexOf (text pattern : List α) (start : ℕ) : Option ℕ :=
  if start ≤ text.length then indexFrom pattern start (text.drop start) else none

theorem indexFrom_prefix (h : pattern <+: rest) : indexFrom pattern i rest = some i := by
  cases rest with
  | nil => exact if_pos (List.prefix_nil.mp h)
  | cons c rest => exact if_pos h

theorem indexFrom_cons (h : ¬ pattern <+: c :: rest) :
    indexFrom pattern i (c :: rest) = indexFrom pattern (i + 1) rest :=
  if_neg h

theorem le_of_indexFrom {j : ℕ} (h : indexFrom pattern i rest = some j) : i ≤ j := by
  induction rest generalizing i with
  | nil =>
      rw [indexFrom] at h
      split_ifs at h
      exact Nat.le_of_eq (Option.some.inj h)
  | cons c rest ih =>
      rw [indexFrom] at h
      split_ifs at h
      · exact Nat.le_of_eq (Option.some.inj h)
      · exact Nat.le_of_succ_le (ih h)

theorem indexOf_step (h : start < text.length) (hnot : ¬ OccursAt text pattern start) :
    indexOf text pattern start = indexOf text pattern (start + 1) := by
  have hdrop := List.drop_eq_getElem_cons h
  rw [indexOf, indexOf, if_pos (Nat.le_of_lt h), if_pos (Nat.succ_le_of_lt h), hdrop,
    indexFrom_cons]
  rw [← hdrop]
  exact fun hprefix => hnot ⟨Nat.le_of_lt h, hprefix⟩

theorem indexOf_of_occursAt (h : OccursAt text pattern start) :
    indexOf text pattern start = some start := by
  rw [indexOf, if_pos h.1, indexFrom_prefix h.2]

theorem indexOf_length (h : ¬ OccursAt text pattern text.length) :
    indexOf text pattern text.length = none := by
  rw [indexOf, if_pos (Nat.le_refl _), List.drop_length]
  apply if_neg
  intro hnil
  subst hnil
  exact h ⟨Nat.le_refl _, List.nil_prefix⟩

theorem indexOf_of_length_lt (h : text.length < start) : indexOf text pattern start = none :=
  if_neg (Nat.not_le_of_lt h)

/-- **The search** finds the first occurrence. -/
theorem indexOf_eq_some_iff :
    indexOf text pattern start = some i ↔
      start ≤ i ∧ OccursAt text pattern i ∧ ∀ j, start ≤ j → j < i → ¬ OccursAt text pattern j := by
  by_cases hlong : text.length < start
  · rw [indexOf_of_length_lt hlong]
    refine iff_of_false nofun fun h => ?_
    have := h.2.1.1
    omega
  · obtain ⟨n, hn⟩ : ∃ n, text.length = start + n :=
      Nat.exists_eq_add_of_le (Nat.le_of_not_lt hlong)
    induction n generalizing start with
    | zero =>
        by_cases hoccurs : OccursAt text pattern start
        · rw [indexOf_of_occursAt hoccurs, Option.some.injEq]
          constructor
          · rintro rfl
            exact ⟨Nat.le_refl _, hoccurs, fun j hj hlt => absurd hj (by omega)⟩
          · intro h
            have := h.2.1.1
            omega
        · have hend : start = text.length := hn.symm
          rw [hend] at hoccurs
          rw [hend, indexOf_length hoccurs]
          refine iff_of_false nofun fun h => hoccurs ?_
          rw [Nat.le_antisymm h.1 h.2.1.1]
          exact h.2.1
    | succ n ih =>
        by_cases hoccurs : OccursAt text pattern start
        · rw [indexOf_of_occursAt hoccurs, Option.some.injEq]
          constructor
          · rintro rfl
            exact ⟨Nat.le_refl _, hoccurs, fun j hj hlt => absurd hj (by omega)⟩
          · intro h
            by_contra hne
            exact h.2.2 start (Nat.le_refl _) (by omega) hoccurs
        · rw [indexOf_step (by omega) hoccurs, ih (by omega) (by omega)]
          constructor
          · intro h
            refine ⟨by omega, h.2.1, fun j hj hlt => ?_⟩
            by_cases hstart : j = start
            · exact hstart ▸ hoccurs
            · exact h.2.2 j (by omega) hlt
          · intro h
            have hne : i ≠ start := fun heq => hoccurs (heq ▸ h.2.1)
            exact ⟨by omega, h.2.1, fun j hj hlt => h.2.2 j (by omega) hlt⟩

theorem indexOf_eq_none_iff :
    indexOf text pattern start = none ↔ ∀ j, start ≤ j → ¬ OccursAt text pattern j := by
  constructor
  · intro h j
    -- the least occurrence would have been found
    induction j using Nat.strongRecOn with
    | ind j ih =>
        intro hj hoccurs
        have hsome := indexOf_eq_some_iff.mpr ⟨hj, hoccurs, fun k hk hlt => ih k hlt hk⟩
        nomatch h.symm.trans hsome
  · intro h
    rw [Option.eq_none_iff_forall_ne_some]
    intro i hi
    obtain ⟨hle, hoccurs, -⟩ := indexOf_eq_some_iff.mp hi
    exact h i hle hoccurs

end Occurrences
