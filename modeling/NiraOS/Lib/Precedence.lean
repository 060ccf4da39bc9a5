import Mathlib.Data.List.Basic
import Mathlib.Data.List.Pairwise
import Mathlib.Tactic.Common

/-!
# Precedence

Of several elements with one key the first is to be taken.  A loop that takes whatever it can parse
does so exactly if nothing can be parsed but what is the first of its key.
-/

namespace Precedence

variable {α β κ : Type*}

section FirstSeen

variable [DecidableEq α]

/-- What is not met before, in a list or among some elements. -/
def unseen (seen : List α) : List α → List α
  | [] => []
  | a :: l => if a ∈ seen then unseen seen l else a :: unseen (a :: seen) l

variable {seen l : List α} {a : α}

theorem mem_unseen : a ∈ unseen seen l ↔ a ∈ l ∧ a ∉ seen := by
  induction l generalizing seen with
  | nil => simp [unseen]
  | cons b l ih =>
      by_cases hb : b ∈ seen
      · rw [unseen, if_pos hb, ih, List.mem_cons]
        constructor
        · intro h
          exact ⟨.inr h.1, h.2⟩
        · intro h
          exact ⟨h.1.resolve_left fun heq => h.2 (heq ▸ hb), h.2⟩
      · rw [unseen, if_neg hb, List.mem_cons, ih, List.mem_cons, List.mem_cons]
        by_cases hab : a = b
        · simp [hab, hb]
        · simp [hab]

theorem nodup_unseen : (unseen seen l).Nodup := by
  induction l generalizing seen with
  | nil => exact List.nodup_nil
  | cons b l ih =>
      by_cases hb : b ∈ seen
      · rw [unseen, if_pos hb]
        exact ih
      · rw [unseen, if_neg hb, List.nodup_cons]
        exact ⟨fun hmem => (mem_unseen.mp hmem).2 (List.mem_cons_self ..), ih⟩

/-- The first element that passes a test is met first. -/
theorem find?_unseen {p : α → Bool} (hseen : ∀ a ∈ seen, p a = false) :
    (unseen seen l).find? p = l.find? p := by
  induction l generalizing seen with
  | nil => rfl
  | cons b l ih =>
      by_cases hb : b ∈ seen
      · rw [unseen, if_pos hb, ih hseen, List.find?_cons, hseen b hb]
      · rw [unseen, if_neg hb, List.find?_cons, List.find?_cons]
        cases hp : p b with
        | true => rfl
        | false =>
            refine ih fun a ha => ?_
            cases ha with
            | head => exact hp
            | tail _ ha => exact hseen a ha

end FirstSeen

section Keys

variable {key : α → κ} {keyOf : β → κ} {parse : α → Option β} {l : List α}

/-- What is parsed has the key of what it was parsed from. -/
def KeepsKey (key : α → κ) (keyOf : β → κ) (parse : α → Option β) : Prop :=
  ∀ a b, parse a = some b → keyOf b = key a

theorem nodup_keys_iff (hl : l.Nodup) :
    ((l.filterMap parse).map keyOf).Nodup ↔
      ∀ a ∈ l, ∀ a' ∈ l, a ≠ a' → ∀ b, parse a = some b → ∀ b', parse a' = some b' →
        keyOf b ≠ keyOf b' := by
  rw [List.Nodup, List.pairwise_map, List.pairwise_filterMap]
  constructor
  · intro h a ha a' ha' hne
    have hsymm : Std.Symm fun a a' =>
        ∀ b, parse a = some b → ∀ b', parse a' = some b' → keyOf b ≠ keyOf b' :=
      ⟨fun _ _ h b hb b' hb' heq => h b' hb' b hb heq.symm⟩
    exact h.forall ha ha' hne
  · intro h
    exact hl.imp_of_mem fun ha ha' hne => h _ ha _ ha' hne

/-- **Precedence** in a list without duplicates. -/
theorem precedence_iff [DecidableEq κ] (hl : l.Nodup) (hkey : KeepsKey key keyOf parse) :
    (((l.filterMap parse).map keyOf).Nodup ∧
        ∀ b, b ∈ l.filterMap parse ↔ ∃ a, l.find? (key · = keyOf b) = some a ∧ parse a = some b) ↔
      ∀ a ∈ l, (parse a).isSome → l.find? (key · = key a) = some a := by
  rw [nodup_keys_iff hl]
  constructor
  · intro h a ha hparse
    obtain ⟨b, hb⟩ := Option.isSome_iff_exists.mp hparse
    obtain ⟨a', ha', hb'⟩ := (h.2 b).mp (List.mem_filterMap.mpr ⟨a, ha, hb⟩)
    rw [hkey a b hb] at ha'
    by_contra hother
    have hne : a ≠ a' := fun heq => hother (heq ▸ ha')
    exact h.1 a ha a' (List.mem_of_find?_eq_some ha') hne b hb b hb' rfl
  · intro h
    refine ⟨fun a ha a' ha' hne b hb b' hb' heq => hne ?_, fun b => ⟨fun hb => ?_, fun hb => ?_⟩⟩
    · have hkeys : key a = key a' := (hkey a b hb).symm.trans (heq.trans (hkey a' b' hb'))
      have hfirst := h a ha (Option.isSome_of_eq_some hb)
      rw [hkeys, h a' ha' (Option.isSome_of_eq_some hb')] at hfirst
      exact (Option.some.inj hfirst).symm
    · obtain ⟨a, ha, hparse⟩ := List.mem_filterMap.mp hb
      refine ⟨a, ?_, hparse⟩
      rw [hkey a b hparse]
      exact h a ha (Option.isSome_of_eq_some hparse)
    · obtain ⟨a, ha, hparse⟩ := hb
      exact List.mem_filterMap.mpr ⟨a, List.mem_of_find?_eq_some ha, hparse⟩

end Keys

end Precedence
