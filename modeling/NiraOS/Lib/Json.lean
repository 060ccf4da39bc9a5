import Mathlib.Data.List.Basic
import Mathlib.Tactic.Common

/-!
# Reading JSON values from a text

`Reader` is what any reader of single values promises: it takes something off the front of the
text, and what it reads is an object exactly when the text starts with a brace.  `Json.reader` is
one, by recursion on the depth to which values may be nested.

Of the fields of one name an object keeps the last.
-/

namespace Json

inductive Value
  | null
  | bool (value : Bool)
  | number (text : String)
  | string (value : String)
  | array (values : List Value)
  | object (fields : List (String × Value))

def Value.isObject : Value → Bool
  | .object _ => true
  | _ => false

def Value.asStr : Value → Option String
  | .string value => some value
  | _ => none

def get (fields : List (String × Value)) (key : String) : Option Value := fields.lookup key

/-- The fields of a text, the last of each name. -/
def distinct (fields : List (String × Value)) : List (String × Value) :=
  fields.foldl (fun kept field => kept.filter (fun f => f.1 ≠ field.1) ++ [field]) []

def isSpace (c : Char) : Bool := c = ' ' || c = '\n' || c = '\t' || c = '\r'

def skipSpace (text : List Char) : List Char := text.dropWhile isSpace

/-- `rest` is what is left when something is taken off the front. -/
def Leaves (text rest : List Char) : Prop := ∃ taken, taken ≠ [] ∧ text = taken ++ rest

structure Reader where
  read : List Char → Option (Value × List Char)
  leaves : ∀ text v rest, read text = some (v, rest) → Leaves text rest
  isObject_iff : ∀ c text v rest, read (c :: text) = some (v, rest) → (v.isObject = true ↔ c = '{')

/-! ## Taking something off the front -/

section Leaves

variable {text rest rest' : List Char}

theorem leaves_cons (c : Char) (text : List Char) : Leaves (c :: text) text :=
  ⟨[c], List.cons_ne_nil c [], rfl⟩

theorem Leaves.suffix (h : Leaves text rest) : rest <:+ text := by
  obtain ⟨taken, -, rfl⟩ := h
  exact List.suffix_append ..

theorem Leaves.length_lt (h : Leaves text rest) : rest.length < text.length := by
  obtain ⟨taken, hne, rfl⟩ := h
  rw [List.length_append]
  have hpos := List.length_pos_of_ne_nil hne
  omega

theorem Leaves.of_suffix (h : Leaves text rest) (h' : rest' <:+ rest) : Leaves text rest' := by
  obtain ⟨taken, hne, rfl⟩ := h
  obtain ⟨more, rfl⟩ := h'
  exact ⟨taken ++ more, List.append_ne_nil_of_left_ne_nil hne _, (List.append_assoc ..).symm⟩

theorem Leaves.of_suffix_left {text' : List Char} (h : Leaves text rest) (h' : text <:+ text') :
    Leaves text' rest := by
  obtain ⟨taken, hne, rfl⟩ := h
  obtain ⟨more, rfl⟩ := h'
  exact ⟨more ++ taken, List.append_ne_nil_of_right_ne_nil _ hne, (List.append_assoc ..).symm⟩

theorem Leaves.trans (h : Leaves text rest) (h' : Leaves rest rest') : Leaves text rest' :=
  h.of_suffix h'.suffix

theorem skipSpace_suffix (text : List Char) : skipSpace text <:+ text := List.dropWhile_suffix _

end Leaves

theorem Reader.read_nil (r : Reader) : r.read [] = none := by
  cases h : r.read [] with
  | none => rfl
  | some p =>
      obtain ⟨taken, hne, heq⟩ := r.leaves _ _ _ h
      exact absurd (List.append_eq_nil_iff.mp heq.symm).1 hne

/-! ## Strings and numbers -/

section Scalars

def hexDigit (c : Char) : Option ℕ :=
  if '0' ≤ c ∧ c ≤ '9' then some (c.toNat - '0'.toNat)
  else if 'a' ≤ c ∧ c ≤ 'f' then some (c.toNat - 'a'.toNat + 10)
  else if 'A' ≤ c ∧ c ≤ 'F' then some (c.toNat - 'A'.toNat + 10)
  else none

def hexDigits (cs : List Char) : Option ℕ :=
  cs.foldlM (fun n c => (hexDigit c).map (16 * n + ·)) 0

def escape : Char → Option Char
  | '"' => some '"'
  | '\\' => some '\\'
  | '/' => some '/'
  | 'b' => some '\x08'
  | 'f' => some '\x0c'
  | 'n' => some '\n'
  | 'r' => some '\r'
  | 't' => some '\t'
  | _ => none

/-- The character of a code unit that is none of a pair. -/
def unitChar (n : ℕ) : Option Char := if n < 0xD800 ∨ 0xE000 ≤ n then some (Char.ofNat n) else none

/-- The character of a pair of code units. -/
def pairChar (high low : ℕ) : Option Char :=
  if 0xD800 ≤ high ∧ high < 0xDC00 ∧ 0xDC00 ≤ low ∧ low < 0xE000 then
    some (Char.ofNat (0x10000 + (high - 0xD800) * 0x400 + (low - 0xDC00)))
  else none

/-- A string after its opening quote. -/
def stringBody : List Char → Option (List Char × List Char)
  | [] => none
  | '"' :: text => some ([], text)
  | '\\' :: 'u' :: a :: b :: c :: d :: text =>
      match hexDigits [a, b, c, d] with
      | none => none
      | some high =>
          match unitChar high with
          | some x => (stringBody text).map fun r => (x :: r.1, r.2)
          | none =>
              match text with
              | '\\' :: 'u' :: e :: f :: g :: h :: text =>
                  match (hexDigits [e, f, g, h]).bind (pairChar high) with
                  | some x => (stringBody text).map fun r => (x :: r.1, r.2)
                  | none => none
              | _ => none
  | '\\' :: c :: text =>
      match escape c with
      | some x => (stringBody text).map fun r => (x :: r.1, r.2)
      | none => none
  | c :: text =>
      if c.toNat < 0x20 then none else (stringBody text).map fun r => (c :: r.1, r.2)

/-- What follows digits, of which there is one at least. -/
def afterDigits : List Char → Option (List Char)
  | c :: text => if c.isDigit then some (text.dropWhile Char.isDigit) else none
  | [] => none

def afterUnsigned : List Char → Option (List Char)
  | '0' :: text => some text
  | text => afterDigits text

def afterInteger : List Char → Option (List Char)
  | '-' :: text => afterUnsigned text
  | text => afterUnsigned text

def afterFraction : List Char → Option (List Char)
  | '.' :: text => afterDigits text
  | text => some text

def afterExponent : List Char → Option (List Char)
  | c :: text =>
      if c = 'e' ∨ c = 'E' then
        match text with
        | '+' :: text => afterDigits text
        | '-' :: text => afterDigits text
        | text => afterDigits text
      else some (c :: text)
  | [] => some []

def number (text : List Char) : Option (Value × List Char) :=
  (((afterInteger text).bind afterFraction).bind afterExponent).map fun rest =>
    (.number (String.ofList (text.take (text.length - rest.length))), rest)

def literal (word : List Char) (v : Value) (text : List Char) : Option (Value × List Char) :=
  if word.isPrefixOf text then some (v, text.drop word.length) else none

/-- A value that is neither an array nor an object. -/
def scalar : List Char → Option (Value × List Char)
  | '"' :: text => (stringBody text).map fun r => (.string (String.ofList r.1), r.2)
  | 'n' :: text => literal "ull".toList .null text
  | 't' :: text => literal "rue".toList (.bool true) text
  | 'f' :: text => literal "alse".toList (.bool false) text
  | text => number text

end Scalars

/-! ## Values -/

section Values

variable (inner : List Char → Option (Value × List Char))

/-- The values of an array up to its end, given how each is read. -/
def elements : ℕ → List Char → Option (List Value × List Char)
  | 0, _ => none
  | fuel + 1, text =>
      match inner (skipSpace text) with
      | none => none
      | some (v, rest) =>
          match skipSpace rest with
          | ',' :: rest => (elements fuel rest).map fun r => (v :: r.1, r.2)
          | ']' :: rest => some ([v], rest)
          | _ => none

/-- The fields of an object up to its end. -/
def members : ℕ → List Char → Option (List (String × Value) × List Char)
  | 0, _ => none
  | fuel + 1, text =>
      match skipSpace text with
      | '"' :: text =>
          match stringBody text with
          | none => none
          | some (key, rest) =>
              match skipSpace rest with
              | ':' :: rest =>
                  match inner (skipSpace rest) with
                  | none => none
                  | some (v, rest) =>
                      match skipSpace rest with
                      | ',' :: rest =>
                          (members fuel rest).map fun r => ((String.ofList key, v) :: r.1, r.2)
                      | '}' :: rest => some ([(String.ofList key, v)], rest)
                      | _ => none
              | _ => none
      | _ => none

def array (text : List Char) : Option (Value × List Char) :=
  match skipSpace text with
  | ']' :: rest => some (.array [], rest)
  | _ => (elements inner text.length text).map fun r => (.array r.1, r.2)

def object (text : List Char) : Option (Value × List Char) :=
  match skipSpace text with
  | '}' :: rest => some (.object [], rest)
  | _ => (members inner text.length text).map fun r => (.object (distinct r.1), r.2)

/-- A value in which values are nested at most so deep. -/
def value : ℕ → List Char → Option (Value × List Char)
  | depth + 1, '[' :: text => array (value depth) text
  | depth + 1, '{' :: text => object (value depth) text
  | _, text => scalar text

end Values

/-! ## What is left of the text -/

section Reads

variable {text rest : List Char}

/-- Whatever a function reads, it takes something off the front. -/
def Takes {α : Type} (read : List Char → Option (α × List Char)) : Prop :=
  ∀ text a rest, read text = some (a, rest) → Leaves text rest

theorem leaves_of_map {α β : Type} {read : Option (α × List Char)} {f : α → β} {b : β}
    {skipped text' : List Char} (hskipped : Leaves text skipped)
    (hread : ∀ a rest, read = some (a, rest) → Leaves skipped rest)
    (h : (read.map fun r => (f r.1, r.2)) = some (b, text')) : Leaves text text' := by
  obtain ⟨⟨a, rest⟩, hr, heq⟩ := Option.map_eq_some_iff.mp h
  obtain ⟨-, rfl⟩ := Prod.mk.inj heq
  exact hskipped.trans (hread a rest hr)

theorem takes_stringBody : Takes stringBody := by
  intro text
  fun_induction stringBody text with
  | case2 text =>
      rintro a rest ⟨⟩
      exact leaves_cons ..
  | case4 a b c d text high _ x _ ih =>
      exact fun _ _ => leaves_of_map ⟨['\\', 'u', a, b, c, d], nofun, rfl⟩ ih
  | case5 a b c d high _ _ e f g h text x _ ih =>
      exact fun _ _ => leaves_of_map ⟨['\\', 'u', a, b, c, d, '\\', 'u', e, f, g, h], nofun, rfl⟩ ih
  | case8 c text _ x _ ih => exact fun _ _ => leaves_of_map ⟨['\\', c], nofun, rfl⟩ ih
  | case11 c text _ _ _ _ ih => exact fun _ _ => leaves_of_map (leaves_cons c text) ih
  | _ => nofun

theorem leaves_of_afterDigits (h : afterDigits text = some rest) : Leaves text rest := by
  unfold afterDigits at h
  split at h
  · next c text =>
      split at h
      · obtain rfl := Option.some.inj h
        exact (leaves_cons c text).of_suffix (List.dropWhile_suffix _)
      · nomatch h
  · nomatch h

theorem leaves_of_afterUnsigned (h : afterUnsigned text = some rest) : Leaves text rest := by
  unfold afterUnsigned at h
  split at h
  · obtain rfl := Option.some.inj h
    exact leaves_cons ..
  · exact leaves_of_afterDigits h

theorem leaves_of_afterInteger (h : afterInteger text = some rest) : Leaves text rest := by
  unfold afterInteger at h
  split at h
  · exact (leaves_cons ..).trans (leaves_of_afterUnsigned h)
  · exact leaves_of_afterUnsigned h

theorem suffix_of_afterFraction (h : afterFraction text = some rest) : rest <:+ text := by
  unfold afterFraction at h
  split at h
  · exact ((leaves_cons ..).trans (leaves_of_afterDigits h)).suffix
  · obtain rfl := Option.some.inj h
    exact List.suffix_refl _

theorem suffix_of_afterExponent (h : afterExponent text = some rest) : rest <:+ text := by
  unfold afterExponent at h
  split at h
  · next c text =>
      split at h
      · refine ((leaves_cons c text).of_suffix ?_).suffix
        split at h
        · exact ((leaves_cons ..).trans (leaves_of_afterDigits h)).suffix
        · exact ((leaves_cons ..).trans (leaves_of_afterDigits h)).suffix
        · exact (leaves_of_afterDigits h).suffix
      · obtain rfl := Option.some.inj h
        exact List.suffix_refl _
  · obtain rfl := Option.some.inj h
    exact List.suffix_refl _

/-- A number takes something off the front, and is no object. -/
theorem of_number {v : Value} (h : number text = some (v, rest)) :
    Leaves text rest ∧ v.isObject = false ∧ text.head? ≠ some '{' := by
  obtain ⟨rest', hr, heq⟩ := Option.map_eq_some_iff.mp h
  obtain ⟨rfl, rfl⟩ := Prod.mk.inj heq
  obtain ⟨fraction, hfraction, hexponent⟩ := Option.bind_eq_some_iff.mp hr
  obtain ⟨whole, hwhole, hfraction⟩ := Option.bind_eq_some_iff.mp hfraction
  refine ⟨((leaves_of_afterInteger hwhole).of_suffix (suffix_of_afterFraction hfraction)).of_suffix
    (suffix_of_afterExponent hexponent), rfl, ?_⟩
  intro hhead
  cases text with
  | nil => nomatch hhead
  | cons c text =>
      obtain rfl := Option.some.inj hhead
      simp [afterInteger, afterUnsigned, afterDigits] at hwhole

theorem of_literal {word : List Char} {v v' : Value} (h : literal word v text = some (v', rest)) :
    rest <:+ text ∧ v' = v := by
  unfold literal at h
  split at h
  · obtain ⟨rfl, rfl⟩ := Prod.mk.inj (Option.some.inj h)
    exact ⟨List.drop_suffix .., rfl⟩
  · nomatch h

theorem of_scalar {v : Value} (h : scalar text = some (v, rest)) :
    Leaves text rest ∧ v.isObject = false ∧ text.head? ≠ some '{' := by
  unfold scalar at h
  split at h
  · next text =>
      obtain ⟨⟨a, rest'⟩, hr, heq⟩ := Option.map_eq_some_iff.mp h
      obtain ⟨rfl, rfl⟩ := Prod.mk.inj heq
      exact ⟨(leaves_cons ..).trans (takes_stringBody _ _ _ hr), rfl, by simp⟩
  · obtain ⟨hsuffix, rfl⟩ := of_literal h
    exact ⟨(leaves_cons ..).of_suffix hsuffix, rfl, by simp⟩
  · obtain ⟨hsuffix, rfl⟩ := of_literal h
    exact ⟨(leaves_cons ..).of_suffix hsuffix, rfl, by simp⟩
  · obtain ⟨hsuffix, rfl⟩ := of_literal h
    exact ⟨(leaves_cons ..).of_suffix hsuffix, rfl, by simp⟩
  · exact of_number h

section Nested

variable {inner : List Char → Option (Value × List Char)}

/-- What is left behind white space and a mark is left behind the mark. -/
theorem leaves_of_skipSpace {c : Char} {text rest : List Char} (h : skipSpace text = c :: rest) :
    Leaves text rest :=
  (leaves_cons c rest).of_suffix_left (h ▸ skipSpace_suffix text)

theorem takes_elements (hinner : Takes inner) (fuel : ℕ) : Takes (elements inner fuel) := by
  induction fuel with
  | zero => exact fun _ _ _ => nofun
  | succ fuel ih =>
      intro text a rest h
      unfold elements at h
      split at h
      · nomatch h
      · next v read hread =>
          have hleaves := (hinner _ _ _ hread).of_suffix_left (skipSpace_suffix text)
          split at h
          · next hmark =>
              exact leaves_of_map (hleaves.trans (leaves_of_skipSpace hmark)) (ih _) h
          · next hmark =>
              obtain ⟨-, rfl⟩ := Prod.mk.inj (Option.some.inj h)
              exact hleaves.trans (leaves_of_skipSpace hmark)
          · nomatch h

theorem takes_members (hinner : Takes inner) (fuel : ℕ) : Takes (members inner fuel) := by
  induction fuel with
  | zero => exact fun _ _ _ => nofun
  | succ fuel ih =>
      intro text a rest h
      unfold members at h
      split at h
      · next hquote =>
          split at h
          · nomatch h
          · next key read hkey =>
              have hname := (leaves_of_skipSpace hquote).trans (takes_stringBody _ _ _ hkey)
              split at h
              · next hcolon =>
                  split at h
                  · nomatch h
                  · next v read' hread =>
                      have hvalue := (hname.trans (leaves_of_skipSpace hcolon)).trans
                        ((hinner _ _ _ hread).of_suffix_left (skipSpace_suffix _))
                      split at h
                      · next hmark =>
                          exact leaves_of_map (hvalue.trans (leaves_of_skipSpace hmark)) (ih _) h
                      · next hmark =>
                          obtain ⟨-, rfl⟩ := Prod.mk.inj (Option.some.inj h)
                          exact hvalue.trans (leaves_of_skipSpace hmark)
                      · nomatch h
              · nomatch h
      · nomatch h

theorem of_array {v : Value} (hinner : Takes inner) (h : array inner text = some (v, rest)) :
    Leaves text rest ∧ v.isObject = false := by
  unfold array at h
  split at h
  · next hmark =>
      obtain ⟨rfl, rfl⟩ := Prod.mk.inj (Option.some.inj h)
      exact ⟨leaves_of_skipSpace hmark, rfl⟩
  · obtain ⟨⟨a, rest'⟩, hr, heq⟩ := Option.map_eq_some_iff.mp h
    obtain ⟨rfl, rfl⟩ := Prod.mk.inj heq
    exact ⟨takes_elements hinner _ _ _ _ hr, rfl⟩

theorem of_object {v : Value} (hinner : Takes inner) (h : object inner text = some (v, rest)) :
    Leaves text rest ∧ v.isObject = true := by
  unfold object at h
  split at h
  · next hmark =>
      obtain ⟨rfl, rfl⟩ := Prod.mk.inj (Option.some.inj h)
      exact ⟨leaves_of_skipSpace hmark, rfl⟩
  · obtain ⟨⟨a, rest'⟩, hr, heq⟩ := Option.map_eq_some_iff.mp h
    obtain ⟨rfl, rfl⟩ := Prod.mk.inj heq
    exact ⟨takes_members hinner _ _ _ _ hr, rfl⟩

end Nested

/-- **A value** takes something off the front, and is an object when a brace comes first. -/
theorem of_value (depth : ℕ) {text rest : List Char} {v : Value}
    (h : value depth text = some (v, rest)) :
    Leaves text rest ∧ (v.isObject = true ↔ text.head? = some '{') := by
  induction depth generalizing text rest v with
  | zero =>
      obtain ⟨hleaves, hobject, hhead⟩ := of_scalar h
      exact ⟨hleaves, by simp [hobject, hhead]⟩
  | succ depth ih =>
      have hinner : Takes (value depth) := fun _ _ _ hr => (ih hr).1
      unfold value at h
      split at h
      · next depth' text heq =>
          obtain rfl := Nat.succ.inj heq
          obtain ⟨hleaves, hobject⟩ := of_array hinner h
          exact ⟨(leaves_cons ..).trans hleaves, by simp [hobject]⟩
      · next depth' text heq =>
          obtain rfl := Nat.succ.inj heq
          obtain ⟨hleaves, hobject⟩ := of_object hinner h
          exact ⟨(leaves_cons ..).trans hleaves, by simp [hobject]⟩
      · obtain ⟨hleaves, hobject, hhead⟩ := of_scalar h
        exact ⟨hleaves, by simp [hobject, hhead]⟩

end Reads

/-- The reader of values nested at most 127 deep. -/
def reader : Reader where
  read := value 127
  leaves _ _ _ h := (of_value 127 h).1
  isObject_iff c text v rest h := by simp [(of_value 127 h).2]

end Json
