import Mathlib.Data.List.Basic

/-!
# The text of a text document

A text that is set as the content of a `QTextDocument` is split into blocks, and `toPlainText` gives
the document back with a line feed between them.  So every line separator comes back as a line feed,
and a no-break space as a space.  All other texts come back as they were
(`toPlainText_eq_self_iff`).
-/

namespace TextDocument

/-- A character as it comes back. -/
def plainChar (c : Char) : Char :=
  if c = '\u00a0' then ' '
  else if c ∈ ['\r', '\u2028', '\u2029', '\ufdd0', '\ufdd1'] then '\n'
  else c

/-- A carriage return and a line feed are one separator. -/
def plainChars : List Char → List Char
  | [] => []
  | '\r' :: '\n' :: rest => '\n' :: plainChars rest
  | c :: rest => plainChar c :: plainChars rest

def toPlainText (text : String) : String := String.ofList (plainChars text.toList)

theorem plainChars_cons {c : Char} (h : c ≠ '\r') (rest : List Char) :
    plainChars (c :: rest) = plainChar c :: plainChars rest := by
  rw [plainChars]
  rintro more rfl -
  exact h rfl

/-- What has a carriage return does not come back as it was, whatever follows. -/
theorem plainChars_eq_self_iff {cs : List Char} :
    plainChars cs = cs ↔ ∀ c ∈ cs, plainChar c = c := by
  induction cs with
  | nil => simp [plainChars]
  | cons c rest ih =>
      by_cases hc : c = '\r'
      · subst hc
        have hplain : plainChar '\r' ≠ '\r' := by decide
        refine iff_of_false (fun heq => ?_) fun h => hplain (h '\r' List.mem_cons_self)
        cases rest with
        | nil => simp [plainChars, plainChar] at heq
        | cons d more =>
            by_cases hd : d = '\n'
            · subst hd
              simp [plainChars] at heq
            · rw [plainChars] at heq
              · exact hplain (List.cons.inj heq).1
              · rintro more' - hmore
                exact hd (List.cons.inj hmore).1
      · rw [plainChars_cons hc, List.cons.injEq, ih, List.forall_mem_cons]

theorem toPlainText_eq_self_iff {text : String} :
    toPlainText text = text ↔ ∀ c ∈ text.toList, plainChar c = c := by
  rw [← plainChars_eq_self_iff, toPlainText]
  constructor
  · intro h
    rw [← String.toList_inj, String.toList_ofList] at h
    exact h
  · intro h
    rw [h, String.ofList_toList]

end TextDocument
