import Mathlib.Data.List.Basic
import Mathlib.Data.List.Infix

/-!
# Trimming and searching strings

The whitespace that `trim` removes: the characters with the Unicode property
`White_Space`.  A string is blank when trimming it leaves nothing.
-/

namespace Text

/-- The Unicode property `White_Space`. -/
def isWhitespace (c : Char) : Bool :=
  let n := c.toNat
  (9 ≤ n && n ≤ 13) || n == 0x20 || n == 0x85 || n == 0xA0 || n == 0x1680 ||
    (0x2000 ≤ n && n ≤ 0x200A) || n == 0x2028 || n == 0x2029 || n == 0x202F ||
    n == 0x205F || n == 0x3000

/-- `s.trim().is_empty()`. -/
def isBlank (s : String) : Bool :=
  s.toList.all isWhitespace

/-- `s.trim()`. -/
def trim (s : String) : String :=
  String.ofList (((s.toList.dropWhile isWhitespace).reverse.dropWhile isWhitespace).reverse)

/-- `s.contains(pattern)`. -/
def contains (s pattern : String) : Bool :=
  s.toList.tails.any pattern.toList.isPrefixOf

/-- `s.to_lowercase()` on the letters of ASCII.  No other letter has a lower case
that would help or hinder a search for an ASCII word without `k`. -/
def toLowercase (s : String) : String :=
  String.ofList (s.toList.map Char.toLower)

example : isBlank " \t\n" = true := by decide
example : trim "  nira " = "nira" := by decide
example : contains (toLowercase "My PC") "pc" = true := by decide

/-- A pattern is contained when it is found somewhere. -/
theorem contains_iff {s pattern : String} :
    contains s pattern = true ↔ pattern.toList <:+: s.toList := by
  rw [contains, List.any_eq_true]
  simp only [List.mem_tails, List.isPrefixOf_iff_prefix]
  constructor
  · intro h
    obtain ⟨tail, hsuffix, hprefix⟩ := h
    exact hprefix.isInfix.trans hsuffix.isInfix
  · intro h
    obtain ⟨before, after, heq⟩ := h
    refine ⟨pattern.toList ++ after, ⟨before, ?_⟩, List.prefix_append _ _⟩
    rw [← List.append_assoc, heq]

end Text
