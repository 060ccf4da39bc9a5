import NiraOS.Lib.Json

/-!
# Writing JSON values

The compact texts of strings, truth values and objects, and that the reader gets back what was
written.  `Denotes` is what one needs to know of a text to put it into a larger one: the reader
takes exactly it off the front, whatever follows.
-/

namespace Json

/-- The digit of a number below 16. -/
def hexChar (d : ℕ) : Char :=
  if d < 10 then Char.ofNat ('0'.toNat + d) else Char.ofNat ('a'.toNat + (d - 10))

/-- A character inside quotes. -/
def escaped (c : Char) : List Char :=
  if c = '"' then ['\\', '"']
  else if c = '\\' then ['\\', '\\']
  else if c = '\x08' then ['\\', 'b']
  else if c = '\x0c' then ['\\', 'f']
  else if c = '\n' then ['\\', 'n']
  else if c = '\r' then ['\\', 'r']
  else if c = '\t' then ['\\', 't']
  else if c.toNat < 0x20 then ['\\', 'u', '0', '0', hexChar (c.toNat / 16), hexChar (c.toNat % 16)]
  else [c]

def quoted (s : String) : List Char := '"' :: (s.toList.flatMap escaped ++ ['"'])

def boolText (b : Bool) : List Char := if b then "true".toList else "false".toList

/-- Fields, each with the text of its value. -/
def fieldsText : List (String × List Char) → List Char
  | [] => []
  | [(key, text)] => quoted key ++ ':' :: text
  | (key, text) :: fields => quoted key ++ ':' :: (text ++ ',' :: fieldsText fields)

def objectText (fields : List (String × List Char)) : List Char :=
  '{' :: (fieldsText fields ++ ['}'])

/-- The reader takes the text off the front and gets the value. -/
structure Denotes (read : List Char → Option (Value × List Char)) (text : List Char)
    (v : Value) : Prop where
  read_eq : ∀ rest, read (text ++ rest) = some (v, rest)
  solid : ∀ rest, skipSpace (text ++ rest) = text ++ rest

/-! ## Strings -/

section Strings

theorem hexDigits_of_lt : ∀ n < 0x20,
    hexDigits ['0', '0', hexChar (n / 16), hexChar (n % 16)] = some n := by
  decide

theorem stringBody_escaped (c : Char) (text : List Char) :
    stringBody (escaped c ++ text) = (stringBody text).map fun r => (c :: r.1, r.2) := by
  unfold escaped
  split_ifs with hquote hslash h8 hc hn hr ht hcontrol
  · rw [hquote]; simp [stringBody, escape]
  · rw [hslash]; simp [stringBody, escape]
  · rw [h8]; simp [stringBody, escape]
  · rw [hc]; simp [stringBody, escape]
  · rw [hn]; simp [stringBody, escape]
  · rw [hr]; simp [stringBody, escape]
  · rw [ht]; simp [stringBody, escape]
  · have hunit : unitChar c.toNat = some c := by
      rw [unitChar, if_pos (by omega), Char.ofNat_toNat]
    simp only [List.cons_append, List.nil_append, stringBody, hexDigits_of_lt _ hcontrol, hunit]
  · rw [List.singleton_append, stringBody, if_neg hcontrol]
    · exact hquote
    · exact fun _ _ _ _ _ h _ => hslash h
    · exact fun _ _ h _ => hslash h

theorem stringBody_flatMap (cs rest : List Char) :
    stringBody (cs.flatMap escaped ++ '"' :: rest) = some (cs, rest) := by
  induction cs with
  | nil => rfl
  | cons c cs ih =>
      calc
        stringBody ((c :: cs).flatMap escaped ++ '"' :: rest) =
            stringBody (escaped c ++ (cs.flatMap escaped ++ '"' :: rest)) := by
          rw [List.flatMap_cons, List.append_assoc]
        _ = some (c :: cs, rest) := by rw [stringBody_escaped, ih, Option.map_some]

theorem skipSpace_of_head {c : Char} (h : isSpace c = false) (text : List Char) :
    skipSpace (c :: text) = c :: text := List.dropWhile_cons_of_neg (by simp [h])

theorem quoted_append (s : String) (rest : List Char) :
    quoted s ++ rest = '"' :: (s.toList.flatMap escaped ++ '"' :: rest) := by
  rw [quoted, List.cons_append, List.append_assoc, List.singleton_append]

theorem denotes_quoted (depth : ℕ) (s : String) : Denotes (value depth) (quoted s) (.string s) := by
  constructor
  · intro rest
    rw [quoted_append]
    have hscalar : scalar ('"' :: (s.toList.flatMap escaped ++ '"' :: rest)) =
        some (.string s, rest) := by
      simp only [scalar, stringBody_flatMap, Option.map_some, String.ofList_toList]
    cases depth with
    | zero => exact hscalar
    | succ depth => exact hscalar
  · intro rest
    rw [quoted_append]
    exact skipSpace_of_head (by decide) _

theorem denotes_boolText (depth : ℕ) (b : Bool) : Denotes (value depth) (boolText b) (.bool b) := by
  constructor
  · intro rest
    cases b <;> cases depth <;> simp [boolText, value, scalar, literal]
  · intro rest
    cases b <;> exact skipSpace_of_head (by decide) _

end Strings

/-! ## Objects -/

section Objects

variable {inner : List Char → Option (Value × List Char)}

theorem foldl_distinct {kept fields : List (String × Value)}
    (h : ((kept ++ fields).map Prod.fst).Nodup) :
    fields.foldl (fun kept field => kept.filter (fun f => f.1 ≠ field.1) ++ [field]) kept =
      kept ++ fields := by
  induction fields generalizing kept with
  | nil => simp
  | cons field fields ih =>
      have hfilter : kept.filter (fun f => f.1 ≠ field.1) = kept := by
        apply List.filter_eq_self.mpr
        intro f hf
        rw [List.map_append, List.map_cons] at h
        have hne :=
          (List.nodup_append.mp h).2.2 f.1 (List.mem_map_of_mem hf) field.1 List.mem_cons_self
        simpa using hne
      rw [List.foldl_cons, hfilter, ih (by rw [List.append_assoc]; exact h), List.append_assoc]
      rfl

theorem distinct_of_nodup {fields : List (String × Value)} (h : (fields.map Prod.fst).Nodup) :
    distinct fields = fields := by
  have h' : (([] ++ fields).map Prod.fst).Nodup := h
  exact foldl_distinct h'

/-- A field that others follow. -/
theorem members_comma {text : List Char} {v : Value} (h : Denotes inner text v) (fuel : ℕ)
    (key : String)
    (rest : List Char) :
    members inner (fuel + 1) (quoted key ++ ':' :: (text ++ ',' :: rest)) =
      (members inner fuel rest).map fun r => ((key, v) :: r.1, r.2) := by
  rw [quoted_append, members, skipSpace_of_head (by decide)]
  simp only [stringBody_flatMap, skipSpace_of_head (show isSpace ':' = false by decide),
    h.solid, h.read_eq,
    skipSpace_of_head (show isSpace ',' = false by decide), String.ofList_toList]

/-- The last field. -/
theorem members_brace {text : List Char} {v : Value} (h : Denotes inner text v) (fuel : ℕ)
    (key : String)
    (rest : List Char) :
    members inner (fuel + 1) (quoted key ++ ':' :: (text ++ '}' :: rest)) =
      some ([(key, v)], rest) := by
  rw [quoted_append, members, skipSpace_of_head (by decide)]
  simp only [stringBody_flatMap, skipSpace_of_head (show isSpace ':' = false by decide),
    h.solid, h.read_eq,
    skipSpace_of_head (show isSpace '}' = false by decide), String.ofList_toList]

theorem members_fieldsText {fields : List (String × List Char)} {values : List (String × Value)}
    (h : List.Forall₂ (fun field entry => field.1 = entry.1 ∧
      Denotes inner field.2 entry.2) fields values)
    (hne : fields ≠ []) {fuel : ℕ} (hfuel : fields.length ≤ fuel) (rest : List Char) :
    members inner fuel (fieldsText fields ++ '}' :: rest) = some (values, rest) := by
  induction h generalizing fuel with
  | nil => exact absurd rfl hne
  | @cons field entry fields values hfield hfields ih =>
      obtain ⟨key, text⟩ := field
      obtain ⟨key', v⟩ := entry
      obtain ⟨rfl, hv⟩ := hfield
      obtain ⟨fuel, rfl⟩ : ∃ n, fuel = n + 1 :=
        Nat.exists_eq_add_one.mpr (Nat.lt_of_lt_of_le (by simp) hfuel)
      cases hfields with
      | nil =>
          rw [fieldsText, List.append_assoc, List.cons_append]
          exact members_brace hv fuel key rest
      | @cons field' entry' fields values hfield' hfields' =>
          have hmore := ih (List.cons_ne_nil _ _) (Nat.le_of_succ_le_succ hfuel)
          rw [fieldsText, List.append_assoc, List.cons_append, List.append_assoc, List.cons_append,
            members_comma hv, hmore, Option.map_some]
          exact List.cons_ne_nil _ _

theorem length_le_fieldsText (fields : List (String × List Char)) :
    fields.length ≤ (fieldsText fields).length := by
  fun_induction fieldsText fields with
  | case1 => exact Nat.le_refl 0
  | case2 key text => simp [quoted]
  | case3 key text fields _ ih =>
      simp only [List.length_cons, List.length_append]
      omega

/-- All fields are read by as many steps as there are characters. -/
theorem members_length {fields : List (String × List Char)} {values : List (String × Value)}
    (h : List.Forall₂ (fun field entry => field.1 = entry.1 ∧
      Denotes inner field.2 entry.2) fields values)
    (hne : fields ≠ []) (rest : List Char) :
    members inner (fieldsText fields ++ '}' :: rest).length (fieldsText fields ++ '}' :: rest) =
      some (values, rest) := by
  apply members_fieldsText h hne
  calc
    fields.length ≤ (fieldsText fields).length := length_le_fieldsText fields
    _ ≤ (fieldsText fields ++ '}' :: rest).length := by simp

theorem skipSpace_fieldsText {fields : List (String × List Char)} (hne : fields ≠ [])
    (rest : List Char) :
    ∃ text, skipSpace (fieldsText fields ++ rest) = '"' :: text ∧
      fieldsText fields ++ rest = '"' :: text := by
  have hquote : ∃ text, fieldsText fields ++ rest = '"' :: text := by
    cases fields with
    | nil => exact absurd rfl hne
    | cons field fields =>
        obtain ⟨key, text⟩ := field
        cases fields <;> exact ⟨_, rfl⟩
  obtain ⟨text, htext⟩ := hquote
  exact ⟨text, by rw [htext, skipSpace_of_head (by decide)], htext⟩

/-- **An object** of fields whose texts denote values. -/
theorem denotes_objectText {depth : ℕ} {fields : List (String × List Char)}
    {values : List (String × Value)}
    (h : List.Forall₂ (fun field entry => field.1 = entry.1 ∧
      Denotes (value depth) field.2 entry.2) fields values)
    (hnodup : (values.map Prod.fst).Nodup) :
    Denotes (value (depth + 1)) (objectText fields) (.object values) := by
  constructor
  · intro rest
    rw [objectText, List.cons_append, List.append_assoc, List.singleton_append, value, object]
    cases h with
    | nil => simp only [fieldsText, List.nil_append,
        skipSpace_of_head (show isSpace '}' = false by decide)]
    | @cons field entry fields values hfield hfields =>
        have hne : field :: fields ≠ [] := List.cons_ne_nil _ _
        obtain ⟨text, hskip, -⟩ := skipSpace_fieldsText hne ('}' :: rest)
        rw [members_length (.cons hfield hfields) hne, Option.map_some,
          distinct_of_nodup hnodup, hskip]
        rfl
  · intro rest
    exact skipSpace_of_head (by decide) _

end Objects

end Json
