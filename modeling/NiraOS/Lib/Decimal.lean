import Mathlib.Algebra.Group.Nat.Defs
import Mathlib.Data.Int.Notation
import Mathlib.Data.Nat.Basic
import Mathlib.Order.Lattice
import Mathlib.Tactic.Common

/-!
# Numbers in texts

Two texts that start with numbers of one width are in order when the numbers are, or when the
numbers are one and the rests are in order (`digits_append_lt_iff`).  Texts of any width determine
their numbers (`repr_int_injective`).
-/

namespace Decimal

/-- A number in so many digits. -/
def digits : ℕ → ℕ → List Char
  | 0, _ => []
  | width + 1, n => Nat.digitChar (n / 10 ^ width) :: digits width (n % 10 ^ width)

theorem digitChar_lt_iff {a b : ℕ} (ha : a < 10) (hb : b < 10) :
    Nat.digitChar a < Nat.digitChar b ↔ a < b := by
  rw [Char.lt_def, UInt32.lt_iff_toNat_lt]
  change (Nat.digitChar a).toNat < (Nat.digitChar b).toNat ↔ a < b
  rw [Nat.toNat_digitChar_of_lt_ten ha, Nat.toNat_digitChar_of_lt_ten hb]
  omega

theorem digitChar_inj {a b : ℕ} (ha : a < 10) (hb : b < 10) :
    Nat.digitChar a = Nat.digitChar b ↔ a = b := by
  constructor
  · intro h
    have hnat := congrArg Char.toNat h
    rw [Nat.toNat_digitChar_of_lt_ten ha, Nat.toNat_digitChar_of_lt_ten hb] at hnat
    omega
  · exact congrArg _

/-- Numbers are in order when their leading parts are, or these are one and the rests are. -/
theorem lt_iff_div_mod (p m n : ℕ) : m < n ↔ m / p < n / p ∨ m / p = n / p ∧ m % p < n % p := by
  have hm := Nat.div_add_mod m p
  have hn := Nat.div_add_mod n p
  constructor
  · intro h
    rcases Nat.lt_or_eq_of_le (Nat.div_le_div_right h.le : m / p ≤ n / p) with hlt | heq
    · exact .inl hlt
    · rw [heq] at hm
      exact .inr ⟨heq, by omega⟩
  · rintro (hlt | ⟨heq, hlt⟩)
    · by_contra hle
      exact Nat.not_lt_of_le (Nat.div_le_div_right (Nat.le_of_not_lt hle)) hlt
    · rw [heq] at hm
      omega

theorem eq_iff_div_mod (p m n : ℕ) : m = n ↔ m / p = n / p ∧ m % p = n % p := by
  constructor
  · rintro rfl
    exact ⟨rfl, rfl⟩
  · rintro ⟨hdiv, hmod⟩
    rw [← Nat.div_add_mod m p, ← Nat.div_add_mod n p, hdiv, hmod]

theorem digits_append_lt_iff {width m n : ℕ} (hm : m < 10 ^ width) (hn : n < 10 ^ width)
    (x y : List Char) :
    digits width m ++ x < digits width n ++ y ↔ m < n ∨ m = n ∧ x < y := by
  induction width generalizing m n with
  | zero =>
      obtain rfl : m = 0 := by simpa using hm
      obtain rfl : n = 0 := by simpa using hn
      simp [digits]
  | succ width ih =>
      have hp : 0 < 10 ^ width := Nat.pow_pos (by decide)
      rw [Nat.pow_succ] at hm hn
      have hmq : m / 10 ^ width < 10 := Nat.div_lt_of_lt_mul hm
      have hnq : n / 10 ^ width < 10 := Nat.div_lt_of_lt_mul hn
      rw [digits, digits, List.cons_append, List.cons_append, List.cons_lt_cons_iff,
        digitChar_lt_iff hmq hnq, digitChar_inj hmq hnq,
        ih (Nat.mod_lt m hp) (Nat.mod_lt n hp), lt_iff_div_mod (10 ^ width) m n,
        eq_iff_div_mod (10 ^ width) m n]
      tauto

/-- A number in four digits is its hundreds and the rest. -/
theorem digits_four (n : ℕ) : digits 4 n = digits 2 (n / 100) ++ digits 2 (n % 100) := by
  simp only [digits, List.cons_append, List.nil_append, List.cons.injEq, and_true]
  refine ⟨?_, ?_, ?_, ?_⟩ <;> congr 1 <;> omega

/-! ## Decimal texts of any width -/

theorem repr_nat_injective {m n : ℕ} (h : Nat.repr m = Nat.repr n) : m = n := by
  have hdigits := congrArg String.toList h
  rw [Nat.toList_repr, Nat.toList_repr] at hdigits
  have hvalue := congrArg (Nat.ofDigitChars 10 · 0) hdigits
  rwa [Nat.ofDigitChars_toDigits (by decide) (by decide),
    Nat.ofDigitChars_toDigits (by decide) (by decide)] at hvalue

/-- No number starts with a sign. -/
theorem repr_nat_ne_neg (m : ℕ) (text : String) : Nat.repr m ≠ "-" ++ text := by
  intro h
  have hmem : '-' ∈ Nat.toDigits 10 m := by
    rw [← Nat.toList_repr, h, String.toList_append]
    exact List.mem_append_left _ (by decide)
  exact absurd (Nat.isDigit_of_mem_toDigits (by decide) (by decide) hmem) (by decide)

theorem repr_int_injective {a b : ℤ} (h : Int.repr a = Int.repr b) : a = b := by
  cases a with
  | ofNat m =>
      cases b with
      | ofNat n => exact congrArg Int.ofNat (repr_nat_injective h)
      | negSucc n => exact absurd h (repr_nat_ne_neg m _)
  | negSucc m =>
      cases b with
      | ofNat n => exact absurd h.symm (repr_nat_ne_neg n _)
      | negSucc n =>
          have hchars :=
            congrArg String.toList (show "-" ++ Nat.repr (m + 1) = "-" ++ Nat.repr (n + 1) from h)
          rw [String.toList_append, String.toList_append] at hchars
          have hrepr := String.toList_injective (List.append_cancel_left hchars)
          rw [Nat.succ.inj (repr_nat_injective hrepr)]

end Decimal
