import Mathlib.Data.List.Basic

/-!
# Place markers in a text

`QString::arg` puts a value in for the place markers of a pattern with the lowest number.  A marker
is a percent sign with one or two digits, and perhaps an `L` between them; any other percent sign is
a character like the rest.  A pattern in which the values of several calls are put in one after the
other sees the values too, so a value with a percent sign may be taken for a marker.
-/

namespace QString

def digit (c : Char) : ℕ := c.toNat - '0'.toNat

/-- The number of a place marker, of one or two digits, and what comes after it. -/
def marker : List Char → Option (ℕ × List Char)
  | c :: d :: rest =>
      if c.isDigit then
        if d.isDigit then some (10 * digit c + digit d, rest) else some (digit c, d :: rest)
      else none
  | [c] => if c.isDigit then some (digit c, []) else none
  | [] => none

/-- A pattern in parts: characters, and place markers with their text. -/
def parts : ℕ → List Char → List (Char ⊕ (ℕ × List Char))
  | 0, _ | _, [] => []
  | fuel + 1, c :: cs =>
      -- a marker may be written with an L, for the locale
      let digits := if cs.head? = some 'L' then cs.tail else cs
      match if c = '%' then marker digits else none with
      | none => .inl c :: parts fuel cs
      | some (number, rest) =>
          .inr (number, c :: cs.take (cs.length - rest.length)) :: parts fuel rest

/-- `QString::arg`: the markers with the lowest number are replaced. -/
def arg (pattern value : String) : String :=
  let parts := parts pattern.length pattern.toList
  let lowest := (parts.filterMap fun part => part.getRight?.map Prod.fst).min?
  String.ofList (parts.flatMap fun part =>
    match part with
    | .inl c => [c]
    | .inr (number, text) => if lowest = some number then value.toList else text)

section Arg

variable {chars rest : List Char}

/-- A pattern begins with characters as long as there is no marker. -/
theorem parts_append (h : '%' ∉ chars) (more : ℕ) (rest : List Char) :
    parts (chars.length + more) (chars ++ rest) = chars.map .inl ++ parts more rest := by
  induction chars with
  | nil => simp
  | cons c chars ih =>
      obtain ⟨hc, hchars⟩ := not_or.mp (List.mem_cons.not.mp h)
      have hlength : (c :: chars).length + more = (chars.length + more) + 1 := by
        rw [List.length_cons]
        omega
      rw [hlength, List.cons_append, parts, if_neg (Ne.symm hc)]
      simp [ih hchars]

/-- What is before the first marker stays. -/
theorem arg_append (h : '%' ∉ chars) (value : String) :
    arg (String.ofList (chars ++ rest)) value =
      String.ofList (chars ++ (arg (String.ofList rest) value).toList) := by
  have hparts : parts (String.ofList (chars ++ rest)).length
    (String.ofList (chars ++ rest)).toList =
      chars.map .inl ++ parts (String.ofList rest).length (String.ofList rest).toList := by
    rw [String.length_ofList, String.length_ofList, String.toList_ofList, String.toList_ofList,
      List.length_append]
    exact parts_append h _ _
  have hnone : (chars.map (Sum.inl (β := ℕ × List Char))).filterMap (fun part =>
      part.getRight?.map Prod.fst) = [] := by
    rw [List.filterMap_eq_nil_iff]
    rintro _ hmem
    obtain ⟨c, -, rfl⟩ := List.mem_map.mp hmem
    rfl
  unfold arg
  rw [hparts]
  simp [List.filterMap_append, hnone, List.flatMap_append, List.flatMap_map]

/-- `QString::arg`, where the parts of the pattern and the lowest number are known. -/
theorem arg_of_parts {pattern : String} {ps : List (Char ⊕ (ℕ × List Char))} (lowest : ℕ)
    (hparts : parts pattern.length pattern.toList = ps)
    (hlowest : (ps.filterMap fun part => part.getRight?.map Prod.fst).min? = some lowest)
    (value : String) :
    arg pattern value = String.ofList (ps.flatMap fun part =>
      match part with
      | .inl c => [c]
      | .inr (number, text) => if lowest = number then value.toList else text) := by
  unfold arg
  dsimp only
  rw [hparts, hlowest]
  refine congrArg String.ofList (List.flatMap_congr fun part _ => ?_)
  cases part with
  | inl c => rfl
  | inr marker => simp only [Option.some.injEq]

end Arg

end QString
