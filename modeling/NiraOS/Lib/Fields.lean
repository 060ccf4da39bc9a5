import NiraOS.Lib.Text
import Mathlib.Data.List.TakeWhile
import Mathlib.Tactic.Common

/-!
# Lines and their fields

A text of lines, each of fields with a separator between them, is read back as it was written if no
field holds the separator (`fields_join`), and no line the end of a line (`lines_unlines`).
Trimming a line changes nothing of it if it neither starts nor ends with a blank (`trim_eq_self`).
-/

namespace Fields

open Text

def fields (separator : Char) (line : String) : List String :=
  (line.toList.splitOn separator).map String.ofList

def join (separator : Char) (parts : List String) : String :=
  String.ofList ([separator].intercalate (parts.map String.toList))

theorem fields_join {separator : Char} {parts : List String} (hne : parts ≠ [])
    (hparts : ∀ part ∈ parts, separator ∉ part.toList) :
    fields separator (join separator parts) = parts := by
  have hchars : ∀ chars ∈ parts.map String.toList, separator ∉ chars := by
    intro chars hmem
    obtain ⟨part, hpart, rfl⟩ := List.mem_map.mp hmem
    exact hparts part hpart
  have hmap : parts.map String.toList ≠ [] := fun h => hne (List.map_eq_nil_iff.mp h)
  rw [fields, join, String.toList_ofList, List.splitOn_intercalate separator hchars hmap,
    List.map_map]
  have hid : (String.ofList ∘ String.toList) = id := funext fun part => String.ofList_toList
  rw [hid, List.map_id]

theorem mem_join {separator c : Char} {parts : List String}
    (h : c ∈ (join separator parts).toList) :
    c = separator ∨ ∃ part ∈ parts, c ∈ part.toList := by
  rw [join, String.toList_ofList] at h
  induction parts with
  | nil => cases h
  | cons part parts ih =>
      cases parts with
      | nil =>
          right
          refine ⟨part, List.mem_singleton_self part, ?_⟩
          simpa [List.intercalate] using h
      | cons next parts =>
          rw [List.map_cons, List.map_cons, List.intercalate_cons_cons, List.mem_append,
            List.mem_append,
            List.mem_singleton] at h
          rcases h with (hpart | hseparator) | hrest
          · exact Or.inr ⟨part, List.mem_cons_self, hpart⟩
          · exact Or.inl hseparator
          · obtain hseparator | ⟨other, hother, hc⟩ := ih hrest
            · exact Or.inl hseparator
            · exact Or.inr ⟨other, List.mem_cons_of_mem _ hother, hc⟩

/-- What a reader that stops at the ends of lines makes of a text; a last line that is empty counts.
-/
def lines (text : String) : List String := fields '\n' text

/-- Each line with its end. -/
def unlines (ls : List String) : String := join '\n' (ls ++ [""])

theorem lines_unlines {ls : List String} (h : ∀ line ∈ ls, '\n' ∉ line.toList) :
    lines (unlines ls) = ls ++ [""] := by
  apply fields_join
  · exact List.append_ne_nil_of_right_ne_nil _ (List.cons_ne_nil _ _)
  · intro line hline
    rw [List.mem_append, List.mem_singleton] at hline
    cases hline with
    | inl hline => exact h line hline
    | inr hempty =>
        rw [hempty]
        exact List.not_mem_nil

/-! ## Trimming -/

theorem dropWhile_eq_self {l : List Char} (h : ∀ c ∈ l.head?, isWhitespace c = false) :
    l.dropWhile isWhitespace = l := by
  cases l with
  | nil => rfl
  | cons c l => rw [List.dropWhile_cons, h c rfl, if_neg Bool.false_ne_true]

theorem trim_eq_self {s : String} (hhead : ∀ c ∈ s.toList.head?, isWhitespace c = false)
    (hlast : ∀ c ∈ s.toList.getLast?, isWhitespace c = false) : trim s = s := by
  have hreverse : ∀ c ∈ s.toList.reverse.head?, isWhitespace c = false := by
    rw [List.head?_reverse]
    exact hlast
  rw [trim, dropWhile_eq_self hhead, dropWhile_eq_self hreverse, List.reverse_reverse,
    String.ofList_toList]

theorem trim_of_blank {s : String} (h : isBlank s = true) : trim s = "" := by
  have hnil : s.toList.dropWhile isWhitespace = [] :=
    List.dropWhile_eq_nil_iff.mpr (List.all_eq_true.mp h)
  rw [trim, hnil]
  rfl

/-- What starts a line is not trimmed away, if it is no blank. -/
theorem toList_trim_cons {c : Char} (rest : List Char) (hc : isWhitespace c = false) :
    ∃ rest', (trim (String.ofList (c :: rest))).toList = c :: rest' := by
  have hhead : (c :: rest).dropWhile isWhitespace = c :: rest :=
    dropWhile_eq_self fun d hd => by rwa [← Option.some.inj hd]
  rw [trim, String.toList_ofList, String.toList_ofList, hhead, List.reverse_cons,
    List.dropWhile_append]
  split_ifs
  · rw [dropWhile_eq_self (by simpa using hc)]
    exact ⟨[], rfl⟩
  · rw [List.reverse_append]
    exact ⟨_, rfl⟩

/-- A trimmed text does not end with a blank. -/
theorem getLast_of_trim {s : String} (h : trim s = s) :
    ∀ c ∈ s.toList.getLast?, isWhitespace c = false := by
  intro c hc
  rw [← h, trim, String.toList_ofList, List.getLast?_reverse] at hc
  have hdrop := List.head?_dropWhile_not isWhitespace (s.toList.dropWhile isWhitespace).reverse
  rw [Option.mem_def.mp hc] at hdrop
  simpa using hdrop

end Fields
