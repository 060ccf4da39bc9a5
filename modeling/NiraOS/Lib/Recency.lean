import Mathlib.Data.List.Nodup
import Mathlib.Tactic.Common

/-!
# What was touched last

A list in which what is touched goes to the front holds what was ever touched, each once and the
last first (`Recent`).  To cut the list after each touch is the same as to cut it once in the end,
since what was cut off never comes before what was kept (`take_touch`).
-/

namespace Recency

variable {α : Type*} {touched l : List α} {a : α}

/-- The list holds what was touched, each once; whatever stands before something else was touched
after it. -/
structure Recent (touched l : List α) : Prop where
  nodup : l.Nodup
  mem : ∀ a, a ∈ l ↔ a ∈ touched
  order : l.Pairwise fun a b => ∃ pre post, touched = pre ++ a :: post ∧ b ∉ post

theorem Recent.nil : Recent ([] : List α) [] :=
  ⟨List.nodup_nil, fun _ => Iff.rfl, List.Pairwise.nil⟩

variable [DecidableEq α]

def touch (a : α) (l : List α) : List α := a :: l.filter (· ≠ a)

theorem mem_touch {b : α} : b ∈ touch a l ↔ b = a ∨ b ∈ l := by
  unfold touch
  rw [List.mem_cons, List.mem_filter, decide_eq_true_iff]
  by_cases hba : b = a
  · simp [hba]
  · simp [hba]

theorem Recent.touch (h : Recent touched l) (a : α) : Recent (touched ++ [a]) (touch a l) := by
  refine ⟨?_, fun b => ?_, ?_⟩
  · refine List.nodup_cons.mpr ⟨?_, h.nodup.filter _⟩
    simp
  · rw [mem_touch, h.mem, List.mem_append, List.mem_singleton, or_comm]
  · refine List.pairwise_cons.mpr ⟨fun b _ => ⟨touched, [], rfl, List.not_mem_nil⟩, ?_⟩
    have hold : (l.filter (· ≠ a)).Pairwise fun b c =>
        ∃ pre post, touched = pre ++ b :: post ∧ c ∉ post :=
      h.order.filter _
    refine hold.imp_of_mem fun {b c} _ hc hbc => ?_
    obtain ⟨pre, post, rfl, hpost⟩ := hbc
    rw [List.mem_filter, decide_eq_true_iff] at hc
    refine ⟨pre, post ++ [a], by rw [List.append_assoc, List.cons_append], ?_⟩
    rw [List.mem_append, List.mem_singleton, not_or]
    exact ⟨hpost, hc.2⟩

/-- Of the first `n + 1` elements one may be left out, and there are still the first `n` others. -/
theorem take_filter_take (hl : l.Nodup) (n : ℕ) :
    ((l.take (n + 1)).filter (· ≠ a)).take n = (l.filter (· ≠ a)).take n := by
  induction l generalizing n with
  | nil => rw [List.take_nil]
  | cons b l ih =>
      obtain ⟨hb, hl⟩ := List.nodup_cons.mp hl
      rw [List.take_succ_cons]
      by_cases hba : b = a
      · rw [List.filter_cons_of_neg (by simp [hba]), List.filter_cons_of_neg (by simp [hba])]
        have hne : ∀ c ∈ l, c ≠ a := by
          rintro c hc rfl
          exact hb (hba ▸ hc)
        rw [List.filter_eq_self.mpr fun c hc => decide_eq_true (hne c hc),
          List.filter_eq_self.mpr fun c hc => decide_eq_true (hne c (List.mem_of_mem_take hc)),
            List.take_take,
          Nat.min_self]
      · rw [List.filter_cons_of_pos (by simp [hba]), List.filter_cons_of_pos (by simp [hba])]
        cases n with
        | zero => rfl
        | succ n => rw [List.take_succ_cons, List.take_succ_cons, ih hl]

/-- **Cutting after each touch** is cutting in the end. -/
theorem take_touch (hl : l.Nodup) (n : ℕ) : (touch a (l.take n)).take n = (touch a l).take n := by
  cases n with
  | zero => rfl
  | succ n =>
      unfold touch
      rw [List.take_succ_cons, List.take_succ_cons, take_filter_take hl]

end Recency
