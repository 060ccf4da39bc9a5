import Mathlib.Data.List.Sort
import Mathlib.Tactic.Common

/-!
# Strict weak orders

What a sort needs of its comparison: it is irreflexive and transitive, and so is not being told
apart.  Where the comparison is by a three-way one, these are the laws of the latter.

Where an element ends up that is told apart from all others, does not depend on the sort
(`countP_of_sorted`).
-/

variable {α : Type*}

/-! ## Places in a sorted list -/

/-- **An element that is told apart from all others** comes after as many as are before it. -/
theorem countP_of_sorted [DecidableEq α] {lt : α → α → Bool} {rows sorted : List α} {e : α} {n : ℕ}
    (hperm : sorted.Perm rows) (hsorted : sorted.Pairwise fun a b => lt b a = false)
    (hothers : ∀ f ∈ rows.erase e, lt f e = true ∨ lt e f = true) (hn : sorted[n]? = some e) :
    (rows.erase e).countP (lt · e) = n := by
  obtain ⟨hlt, hget⟩ := List.getElem?_eq_some_iff.mp hn
  obtain ⟨before, after, rfl, rfl⟩ : ∃ before after, sorted = before ++ e :: after ∧
      before.length = n := by
    refine ⟨sorted.take n, sorted.drop (n + 1), ?_, List.length_take_of_le (Nat.le_of_lt hlt)⟩
    rw [← hget, List.getElem_cons_drop, List.take_append_drop]
  have hrest : (before ++ after).Perm (rows.erase e) := by
    have herase : ((before ++ e :: after).erase e).Perm ((e :: (before ++ after)).erase e) :=
      List.perm_middle.erase e
    rw [List.erase_cons_head] at herase
    exact herase.symm.trans (hperm.erase e)
  obtain ⟨-, hafter, hbefore⟩ := List.pairwise_append.mp hsorted
  have hall : ∀ f ∈ before, lt f e = true := by
    intro f hf
    have hnot : lt e f = false := hbefore f hf e (List.mem_cons_self ..)
    rcases hothers f (hrest.mem_iff.mp (List.mem_append_left _ hf)) with hlt | hlt
    · exact hlt
    · exact absurd hlt (Bool.eq_false_iff.mp hnot)
  have hnone : ∀ f ∈ after, ¬ lt f e = true := by
    intro f hf
    rw [(List.pairwise_cons.mp hafter).1 f hf]
    exact Bool.false_ne_true
  rw [← hrest.countP_eq, List.countP_append, List.countP_eq_length.mpr hall,
    List.countP_eq_zero.mpr hnone, Nat.add_zero]

theorem getElem?_of_sorted [DecidableEq α] {lt : α → α → Bool} {rows sorted : List α} {e : α}
    (hperm : sorted.Perm rows) (hsorted : sorted.Pairwise fun a b => lt b a = false)
    (he : e ∈ rows) (hothers : ∀ f ∈ rows.erase e, lt f e = true ∨ lt e f = true) :
    sorted[(rows.erase e).countP (lt · e)]? = some e := by
  obtain ⟨n, hn⟩ := List.mem_iff_getElem?.mp (hperm.mem_iff.mpr he)
  rw [countP_of_sorted hperm hsorted hothers hn]
  exact hn

/-! ## The laws -/

structure StrictWeak (lt : α → α → Bool) : Prop where
  irrefl : ∀ a, lt a a = false
  asymm : ∀ a b, lt a b = true → lt b a = false
  trans : ∀ a b c, lt a b = true → lt b c = true → lt a c = true
  incomparable : ∀ a b c, lt a b = false → lt b a = false → lt b c = false → lt c b = false →
    lt a c = false ∧ lt c a = false

namespace StrictWeak

/-- To come first in a three-way comparison. -/
theorem of_cmp {lt : α → α → Bool} {cmp : α → α → Ordering} [Std.TransCmp cmp]
    (h : ∀ a b, lt a b = true ↔ cmp a b = .lt) : StrictWeak lt := by
  have hfalse : ∀ a b, lt a b = false ↔ cmp a b ≠ .lt := by
    intro a b
    rw [← Bool.not_eq_true, h]
  have heq : ∀ a b, lt a b = false → lt b a = false → cmp a b = .eq := by
    intro a b hab hba
    rw [hfalse] at hab hba
    cases hcmp : cmp a b with
    | lt => exact absurd hcmp hab
    | eq => rfl
    | gt => exact absurd (Std.OrientedCmp.lt_of_gt hcmp) hba
  refine ⟨fun a => ?_, fun a b hab => ?_, fun a b c hab hbc => ?_, fun a b c hab hba hbc hcb => ?_⟩
  · have hself : cmp a a = .eq := Std.ReflCmp.compare_self
    rw [hfalse, hself]
    nofun
  · rw [hfalse]
    exact Std.OrientedCmp.not_lt_of_lt ((h a b).mp hab)
  · exact (h a c).mpr (Std.TransCmp.lt_trans ((h a b).mp hab) ((h b c).mp hbc))
  · have hac := Std.TransCmp.eq_trans (heq a b hab hba) (heq b c hbc hcb)
    rw [hfalse, hfalse, hac, Std.OrientedCmp.eq_symm hac]
    exact ⟨nofun, nofun⟩

/-- There is a sorted list. -/
theorem exists_sorted {lt : α → α → Bool} (h : StrictWeak lt) (l : List α) :
    ∃ sorted : List α, sorted.Perm l ∧ sorted.Pairwise fun a b => lt b a = false := by
  classical
  let le : α → α → Prop := fun a b => lt b a = false
  have htotal : Std.Total le := ⟨fun a b => by
    cases hab : lt a b with
    | false => exact Or.inr hab
    | true => exact Or.inl (h.asymm a b hab)⟩
  have htrans : IsTrans α le := ⟨fun a b c hab hbc => by
    change lt b a = false at hab
    change lt c b = false at hbc
    change lt c a = false
    by_contra hca
    rw [Bool.not_eq_false] at hca
    -- `b` would come neither after `a` nor before `c`
    cases hcut : lt b c with
    | true => nomatch hab.symm.trans (h.trans b c a hcut hca)
    | false =>
        cases hcut' : lt a b with
        | true => nomatch hbc.symm.trans (h.trans c a b hca hcut')
        | false => nomatch hca.symm.trans (h.incomparable a b c hcut' hab hcut hbc).2⟩
  exact ⟨l.insertionSort le, List.perm_insertionSort le l, List.pairwise_insertionSort le l⟩

end StrictWeak
