import Mathlib.Data.List.Basic
import Mathlib.Logic.Nontrivial.Basic
import Mathlib.Tactic.Common

/-!
# Replacing ranges of a list

The ranges are of one width and given by where they begin.  `greedy` takes them from left to right
as a predicate allows, each from the end of the one before on.

That other ranges give another list whatever they are replaced by is wrong: a replacement may be
what was there.  But some replacement shows the difference (`eq_of_replaceAt_eq`).
-/

namespace Splicing

variable {α : Type*}

section Definitions

/-- The list from `i` on, with the ranges at the given places replaced. -/
def replaceAt (text : List α) (width : ℕ) (replacement : List α) : ℕ → List ℕ → List α
  | i, [] => text.drop i
  | i, p :: ps => (text.drop i).take (p - i) ++
      (replacement ++ replaceAt text width replacement (p + width) ps)

/-- The places that a scan of `n` places from `i` on takes, the first `skip` of them left out. -/
def greedy (isMatch : ℕ → Bool) (width : ℕ) : (skip i n : ℕ) → List ℕ
  | _, _, 0 => []
  | skip + 1, i, n + 1 => greedy isMatch width skip (i + 1) n
  | 0, i, n + 1 =>
      if isMatch i then i :: greedy isMatch width (width - 1) (i + 1) n
        else greedy isMatch width 0 (i + 1) n

/-- From `i` on, each of the places is the first that `S` allows after the range before. -/
def IsGreedy (S : ℕ → Prop) (width : ℕ) : ℕ → List ℕ → Prop
  | i, [] => ∀ j, i ≤ j → ¬ S j
  | i, p :: ps => i ≤ p ∧ S p ∧ (∀ j, i ≤ j → j < p → ¬ S j) ∧ IsGreedy S width (p + width) ps

/-- No range begins where the one before ends, and none at `i`. -/
def Spaced (width : ℕ) : ℕ → List ℕ → Prop
  | _, [] => True
  | i, p :: ps => i < p ∧ Spaced width (p + width) ps

instance decidableSpaced (width : ℕ) : (i : ℕ) → (ps : List ℕ) → Decidable (Spaced width i ps)
  | _, [] => isTrue trivial
  | i, p :: ps =>
      have := decidableSpaced width (p + width) ps
      inferInstanceAs (Decidable (i < p ∧ Spaced width (p + width) ps))

end Definitions

/-! ## What a scan takes -/

section Greedy

variable {S : ℕ → Prop} {isMatch : ℕ → Bool} {width i k : ℕ} {ps : List ℕ}

/-- Earlier places at which there is nothing make no difference. -/
theorem IsGreedy.pred (h : IsGreedy S width (i + 1) ps) (hnot : ¬ S i) : IsGreedy S width i ps := by
  cases ps with
  | nil =>
      intro j hj
      rcases Nat.eq_or_lt_of_le hj with rfl | hlt
      · exact hnot
      · exact h j hlt
  | cons p ps =>
      obtain ⟨hle, hp, hfirst, hrest⟩ := h
      refine ⟨by omega, hp, fun j hj hlt => ?_, hrest⟩
      rcases Nat.eq_or_lt_of_le hj with rfl | hlt'
      · exact hnot
      · exact hfirst j hlt' hlt

/-- Nor do those up to the first place. -/
theorem IsGreedy.of_le (h : IsGreedy S width i ps) (hik : i ≤ k) (hk : ∀ p ∈ ps.head?, k ≤ p) :
    IsGreedy S width k ps := by
  cases ps with
  | nil => exact fun j hj => h j (Nat.le_trans hik hj)
  | cons p ps =>
      obtain ⟨-, hp, hfirst, hrest⟩ := h
      exact ⟨hk p rfl, hp, fun j hj => hfirst j (Nat.le_trans hik hj), hrest⟩

theorem IsGreedy.forall_mem (h : IsGreedy S width i ps) : ∀ p ∈ ps, S p := by
  induction ps generalizing i with
  | nil => exact fun p hp => absurd hp List.not_mem_nil
  | cons p ps ih =>
      obtain ⟨-, hp, -, hrest⟩ := h
      exact List.forall_mem_cons.mpr ⟨hp, ih hrest⟩

theorem isGreedy_greedy (hwidth : 0 < width) (hmatch : ∀ j, isMatch j = true ↔ S j) {skip i n : ℕ}
    (hend : ∀ j, S j → j < i + n) :
    IsGreedy S width (i + skip) (greedy isMatch width skip i n) := by
  induction n generalizing skip i with
  | zero =>
      intro j hj hmem
      have := hend j hmem
      omega
  | succ n ih =>
      have hend' : ∀ j, S j → j < i + 1 + n := fun j hj => by
        have := hend j hj
        omega
      cases skip with
      | succ skip =>
          rw [greedy]
          have hrest := @ih skip (i + 1) hend'
          rwa [Nat.add_right_comm, Nat.add_assoc] at hrest
      | zero =>
          rw [greedy]
          by_cases hi : isMatch i = true
          · rw [if_pos hi]
            have hrest := @ih (width - 1) (i + 1) hend'
            rw [show i + 1 + (width - 1) = i + width by omega] at hrest
            exact ⟨Nat.le_refl i, (hmatch i).mp hi, fun j hj hlt => absurd hj (by omega), hrest⟩
          · rw [if_neg hi]
            exact (@ih 0 (i + 1) hend').pred fun hmem => hi ((hmatch i).mpr hmem)

/-- A scan of everything. -/
theorem isGreedy_scan (hwidth : 0 < width) (hmatch : ∀ j, isMatch j = true ↔ S j) {n : ℕ}
    (hend : ∀ j, S j → j < n) :
    IsGreedy S width 0 (greedy isMatch width 0 0 n) := by
  have hend' : ∀ j, S j → j < 0 + n := fun j hj => by
    rw [Nat.zero_add]
    exact hend j hj
  exact @isGreedy_greedy S isMatch width hwidth hmatch 0 0 n hend'

theorem IsGreedy.head_le (h : IsGreedy S width i ps) : ∀ p ∈ ps.head?, i ≤ p := by
  cases ps with
  | nil => exact fun _ hp => nomatch hp
  | cons p ps => exact fun _ hp => Option.some.inj hp ▸ h.1

end Greedy

/-! ## What is replaced -/

section Replacing

variable {text replacement : List α} {width i k : ℕ} {ps ps' : List ℕ}

/-- What comes before the first place stays. -/
theorem replaceAt_eq_append (hik : i ≤ k) (hk : ∀ p ∈ ps.head?, k ≤ p) :
    replaceAt text width replacement i ps =
      (text.drop i).take (k - i) ++ replaceAt text width replacement k ps := by
  have hdrop : text.drop k = (text.drop i).drop (k - i) := by
    rw [List.drop_drop, Nat.add_sub_cancel' hik]
  cases ps with
  | nil =>
      show text.drop i = _ ++ text.drop k
      rw [hdrop, List.take_append_drop]
  | cons p ps =>
      have hkp := hk p rfl
      have htake : (text.drop i).take (p - i) =
          (text.drop i).take (k - i) ++ (text.drop k).take (p - k) := by
        calc
          (text.drop i).take (p - i) = (text.drop i).take (k - i + (p - k)) := by
            rw [show p - i = k - i + (p - k) by omega]
          _ = (text.drop i).take (k - i) ++ ((text.drop i).drop (k - i)).take (p - k) :=
            List.take_add
          _ = (text.drop i).take (k - i) ++ (text.drop k).take (p - k) := by rw [← hdrop]
      rw [replaceAt, replaceAt, htake, List.append_assoc]

theorem replaceAt_of_le (hi : i ≤ text.length) (hk : k < text.length) (hik : i ≤ k)
    (hps : ∀ p ∈ ps.head?, k < p) :
    (replaceAt text width replacement i ps)[k - i]? = text[k]? := by
  have hlength : ((text.drop i).take (k + 1 - i)).length = k + 1 - i := by
    rw [List.length_take, List.length_drop]
    omega
  rw [replaceAt_eq_append (k := k + 1) (by omega) hps, List.getElem?_append_left (by omega),
    List.getElem?_take_of_lt (by omega), List.getElem?_drop, Nat.add_sub_cancel' hik]

theorem replaceAt_of_mem (width : ℕ) (z : α) (rest : List α) (ps : List ℕ) (hik : i ≤ k)
    (hk : k ≤ text.length) :
    (replaceAt text width (z :: rest) i (k :: ps))[k - i]? = some z := by
  have hlength : ((text.drop i).take (k - i)).length = k - i := by
    rw [List.length_take, List.length_drop]
    omega
  rw [replaceAt, List.getElem?_append_right (by omega), hlength, Nat.sub_self]
  rfl

/-- Where one list has a range and the other has none yet, a letter tells them apart. -/
theorem exists_replaceAt_ne [Nontrivial α] (width : ℕ) (ps ps' : List ℕ) (hik : i ≤ k)
    (hk : k < text.length) (hps : ∀ p ∈ ps'.head?, k < p) :
    ∃ replacement, replaceAt text width replacement i (k :: ps) ≠
      replaceAt text width replacement i ps' := by
  obtain ⟨z, hz⟩ := exists_ne (text[k])
  refine ⟨[z], fun heq => hz ?_⟩
  have hleft := replaceAt_of_mem width z [] ps hik (Nat.le_of_lt hk)
  rw [heq, replaceAt_of_le (by omega) hk hik hps, List.getElem?_eq_getElem hk] at hleft
  exact (Option.some.inj hleft).symm

/-- Every range that is taken out makes the list shorter by its width. -/
theorem length_replaceAt_nil {S : ℕ → Prop} (h : IsGreedy S width i ps) (hi : i ≤ text.length)
    (hrange : ∀ j, S j → j + width ≤ text.length) :
    (replaceAt text width [] i ps).length + ps.length * width = text.length - i := by
  induction ps generalizing i with
  | nil =>
      show (text.drop i).length + 0 * width = text.length - i
      rw [List.length_drop, Nat.zero_mul, Nat.add_zero]
  | cons p ps ih =>
      obtain ⟨hle, hp, -, hrest⟩ := h
      have hend := hrange p hp
      have htail := ih hrest hend
      rw [replaceAt, List.nil_append, List.length_append, List.length_take, List.length_drop,
        List.length_cons, Nat.succ_mul]
      omega

/-- **The ranges** can be read off what they are replaced by. -/
theorem eq_of_replaceAt_eq [Nontrivial α] {S S' : ℕ → Prop} (hS : ∀ j, S j → j < text.length)
    (hS' : ∀ j, S' j → j < text.length) (hps : IsGreedy S width i ps)
    (hps' : IsGreedy S' width i ps')
    (h : ∀ replacement, replaceAt text width replacement i ps =
      replaceAt text width replacement i ps') :
    ps = ps' := by
  induction ps generalizing i ps' with
  | nil =>
      cases ps' with
      | nil => rfl
      | cons p' ps' =>
          obtain ⟨hle, hmem, -, -⟩ := hps'
          obtain ⟨replacement, hne⟩ := exists_replaceAt_ne width ps' [] hle (hS' p' hmem)
            (fun _ hp => nomatch hp)
          exact absurd (h replacement).symm hne
  | cons p ps ih =>
      obtain ⟨hle, hmem, -, hrest⟩ := hps
      cases ps' with
      | nil =>
          obtain ⟨replacement, hne⟩ := exists_replaceAt_ne width ps [] hle (hS p hmem)
            (fun _ hp => nomatch hp)
          exact absurd (h replacement) hne
      | cons p' ps' =>
          obtain ⟨hle', hmem', -, hrest'⟩ := hps'
          rcases Nat.lt_trichotomy p p' with hlt | rfl | hlt
          · obtain ⟨replacement, hne⟩ := exists_replaceAt_ne width ps (p' :: ps') hle
              (hS p hmem) (fun q hq => Option.some.inj hq ▸ hlt)
            exact absurd (h replacement) hne
          · congr 1
            refine ih hrest hrest' fun replacement => ?_
            exact List.append_cancel_left (List.append_cancel_left (h replacement))
          · obtain ⟨replacement, hne⟩ := exists_replaceAt_ne width ps' (p :: ps) hle'
              (hS' p' hmem') (fun q hq => Option.some.inj hq ▸ hlt)
            exact absurd (h replacement).symm hne

end Replacing

end Splicing
