import NiraOS.AiDaemon.Validator
import Mathlib.Data.List.Flatten
import Mathlib.Tactic.IntervalCases

/-!
# Which files are GGUF

The validator should accept exactly the files that start with a well-formed header: the magic, a
version from 1 to 3, a tensor count, a pair count, and that many pairs.

The validator takes the elements of every array for four bytes, knows two value types that the
grammar does not, and does not notice when a length takes the position past 64 bits.  Up to the
first pair with any of these (`Plain`), it reads as the grammar does:

```text
value type          the grammar           the validator
0, 1, 7             1 byte                the same
2, 3                2 bytes               the same
4, 5, 6             4 bytes               the same
8                   length and bytes      the same
9                   header and elements   header and 4 bytes an element
10, 11, 12          8 bytes               the same
13, 14              none                  2 bytes
```
-/

namespace NiraOS.AiDaemon.Validator

/-! ## The grammar -/

section Grammar

/-- How many bytes a value of a type takes, if that is fixed. -/
def fixedSize : ℕ → Option ℕ
  | 0 | 1 | 7 => some 1
  | 2 | 3 => some 2
  | 4 | 5 | 6 => some 4
  | 10 | 11 | 12 => some 8
  | _ => none

/-- The bytes of a value. -/
inductive Value : ℕ → Bytes → Prop
  | fixed {valType : ℕ} {bytes : Bytes} (h : fixedSize valType = some bytes.length) :
      Value valType bytes
  | string {len data : Bytes} (hlen : len.length = 8) (hdata : data.length = fromLeBytes len) :
      Value 8 (len ++ data)
  | array {elemType count : Bytes} {elems : List Bytes} (htype : elemType.length = 4)
      (hknown : fromLeBytes elemType ≤ 12)
      (hcount : count.length = 8) (helems : elems.length = fromLeBytes count)
      (hvalues : ∀ elem ∈ elems, Value (fromLeBytes elemType) elem) :
        Value 9 (elemType ++ count ++ elems.flatten)

/-- The bytes of a pair: a key with its length, and a value with its type. -/
inductive Pair : Bytes → Prop
  | mk {keyLen key valType value : Bytes} (hlen : keyLen.length = 8)
      (hkey : key.length = fromLeBytes keyLen)
      (htype : valType.length = 4) (hvalue : Value (fromLeBytes valType) value) :
      Pair (keyLen ++ key ++ valType ++ value)

/-- A sequence of pairs, and what comes after it. -/
def Pairs (count : ℕ) (bytes : Bytes) : Prop :=
  ∃ pairs rest, bytes = List.flatten pairs ++ rest ∧ pairs.length = count ∧
    ∀ pair ∈ pairs, Pair pair

/-- The bytes begin with a header. -/
def WellFormed (bytes : Bytes) : Prop :=
  ∃ version tensorCount kvCount rest,
    bytes = ggufMagic ++ version ++ tensorCount ++ kvCount ++ rest ∧
    version.length = 4 ∧ tensorCount.length = 8 ∧ kvCount.length = 8 ∧
    1 ≤ fromLeBytes version ∧ fromLeBytes version ≤ 3 ∧ Pairs (fromLeBytes kvCount) rest

end Grammar

/-! ## What both read alike -/

section Plain

/-- The number of so many bytes at the front. -/
def numberAt (count : ℕ) (bytes : Bytes) : ℕ := fromLeBytes (bytes.take count)

/-- Where the value of a pair lies, behind the key and the type. -/
def valueAt (bytes : Bytes) : ℕ := 8 + numberAt 8 bytes + 4

/-- The type of the value. -/
def typeOf (bytes : Bytes) : ℕ := numberAt 4 (bytes.drop (8 + numberAt 8 bytes))

/-- A value, with what follows it, that both read alike; its position is `pos`. -/
structure PlainValue (pos valType : ℕ) (bytes : Bytes) : Prop where
  known : valType ≠ 13 ∧ valType ≠ 14
  string : valType = 8 → 8 ≤ bytes.length → pos + 8 + numberAt 8 bytes < 2 ^ 64
  array : valType = 9 → 12 ≤ bytes.length →
    (fixedSize (numberAt 4 bytes) = some 4 ∨
      numberAt 4 bytes ≤ 12 ∧ numberAt 8 (bytes.drop 4) = 0) ∧
      pos + 12 + 4 * numberAt 8 (bytes.drop 4) < 2 ^ 64

/-- A pair, with what follows it, that both read alike; its position is `pos`. -/
structure PlainPair (pos : ℕ) (bytes : Bytes) : Prop where
  key : pos + 8 + numberAt 8 bytes < 2 ^ 64
  value : valueAt bytes ≤ bytes.length →
    PlainValue (pos + valueAt bytes) (typeOf bytes) (bytes.drop (valueAt bytes))

/-- All pairs that the grammar comes to, of so many, are read alike. -/
inductive PlainPairs : ℕ → ℕ → Bytes → Prop
  | zero (pos : ℕ) (bytes : Bytes) : PlainPairs 0 pos bytes
  | succ {left pos : ℕ} {bytes : Bytes} (hfirst : PlainPair pos bytes)
      (hrest : ∀ pair rest, bytes = pair ++ rest → Pair pair →
        PlainPairs left (pos + pair.length) rest) :
      PlainPairs (left + 1) pos bytes

/-- Behind a header up to the counts, all pairs are read alike. -/
def Plain (file : File) : Prop :=
  ∀ version tensorCount kvCount rest,
    file.bytes = ggufMagic ++ version ++ tensorCount ++ kvCount ++ rest →
    version.length = 4 → tensorCount.length = 8 → kvCount.length = 8 →
      1 ≤ fromLeBytes version ∧ fromLeBytes version ≤ 3 → PlainPairs (fromLeBytes kvCount) 24 rest

end Plain

/-! ## Reading at a position -/

section Reading

variable {file : File} {pos count n : ℕ} {bytes front rest : Bytes}

theorem wrap_of_lt (h : n < 2 ^ 64) : wrap n = n := Nat.mod_eq_of_lt h

theorem readAt_eq_ok : file.readAt pos count = .ok bytes ↔
    pos + count ≤ file.size ∧ bytes = (file.bytes.drop pos).take count := by
  have hsize : file.size < 2 ^ 63 := file.length_lt
  unfold File.readAt
  split_ifs with hfar hfits
  · exact ⟨nofun, fun h => absurd h.1 (by omega)⟩
  · exact ⟨fun h => ⟨hfits, (Except.ok.inj h).symm⟩, fun h => congrArg Except.ok h.2.symm⟩
  · exact ⟨nofun, fun h => absurd h.1 hfits⟩

theorem numberAt_append (h : front.length = count) :
    numberAt count (front ++ rest) = fromLeBytes front := by
  rw [numberAt, ← h, List.take_left]

/-- A number does not depend on what follows it. -/
theorem numberAt_front (h : count ≤ front.length) :
    numberAt count (front ++ rest) = numberAt count front := by
  rw [numberAt, List.take_append_of_le_length h, numberAt]

/-- What lies behind a front. -/
theorem drop_of_append (h : file.bytes.drop pos = front ++ rest) :
    file.bytes.drop (pos + front.length) = rest := by
  rw [← List.drop_drop, h, List.drop_left]

theorem size_of_append (hpos : pos ≤ file.size) (h : file.bytes.drop pos = front ++ rest) :
    pos + front.length + rest.length = file.size := by
  have hlength := congrArg List.length h
  rw [List.length_drop, List.length_append] at hlength
  unfold File.size at hpos ⊢
  omega

end Reading

/-! ## Values -/

section Values

variable {file : File} {pos valType n : ℕ} {bytes value rest : Bytes}

theorem type_cases (hfixed : fixedSize valType = none) (hknown : valType ≠ 13 ∧ valType ≠ 14) :
    valType = 8 ∨ valType = 9 ∨ 15 ≤ valType := by
  -- every type up to 12 but two has a fixed size
  have hlarge : valType ≤ 12 → valType = 8 ∨ valType = 9 := by
    intro hle
    interval_cases valType <;> first | exact .inl rfl | exact .inr rfl | cases hfixed
  omega

theorem le_of_fixedSize (h : fixedSize valType = some n) : valType ≤ 12 := by
  unfold fixedSize at h
  split at h <;> first | omega | nomatch h

theorem fixedSize_le (h : fixedSize valType = some n) : n ≤ 8 := by
  unfold fixedSize at h
  split at h <;> cases h <;> omega

theorem valSize_of_fixed (h : fixedSize valType = some n) (file : File) (pos : ℕ) :
    valSize file pos valType = .ok n := by
  unfold fixedSize at h
  split at h <;> cases h <;> rfl

theorem valSize_of_unknown (h : 15 ≤ valType) (file : File) (pos n : ℕ) :
    valSize file pos valType ≠ .ok n := by
  unfold valSize
  split <;> first | omega | nofun

theorem value_fixed_iff (h : fixedSize valType = some n) :
    Value valType value ↔ value.length = n := by
  constructor
  · intro hvalue
    cases hvalue with
    | fixed hfixed => exact Option.some.inj (hfixed.symm.trans h)
    | string => nomatch h
    | array => nomatch h
  · rintro rfl
    exact .fixed h

theorem not_value_of_unknown (h : 15 ≤ valType) : ¬ Value valType value := by
  intro hvalue
  cases hvalue with
  | fixed hfixed =>
      have hle := le_of_fixedSize hfixed
      omega
  | string => omega
  | array => omega

/-! ### Texts -/

theorem valSize_string (hpos : pos ≤ file.size) (hfit : 8 ≤ (file.bytes.drop pos).length →
    pos + 8 + numberAt 8 (file.bytes.drop pos) < 2 ^ 64) :
    valSize file pos 8 = .ok n ↔
      8 ≤ (file.bytes.drop pos).length ∧ n = 8 + numberAt 8 (file.bytes.drop pos) := by
  have hsize : file.size < 2 ^ 63 := file.length_lt
  have hlength : (file.bytes.drop pos).length = file.size - pos := List.length_drop
  change (if wrap (pos + 8) > file.size then _ else _) = _ ↔ _
  rw [wrap_of_lt (by omega)]
  split_ifs with hlate
  · exact ⟨nofun, fun h => absurd h.1 (by omega)⟩
  · have hread : file.readAt pos 8 = .ok ((file.bytes.drop pos).take 8) :=
      readAt_eq_ok.mpr ⟨by omega, rfl⟩
    have hsmall := hfit (by omega)
    have hwrap : wrap (8 + fromLeBytes ((file.bytes.drop pos).take 8)) =
        8 + numberAt 8 (file.bytes.drop pos) :=
      wrap_of_lt (by rw [numberAt] at hsmall; omega)
    rw [hread]
    change Except.ok (wrap (8 + fromLeBytes ((file.bytes.drop pos).take 8))) = _ ↔ _
    rw [hwrap]
    exact ⟨fun h => ⟨by omega, (Except.ok.inj h).symm⟩, fun h => congrArg Except.ok h.2.symm⟩

theorem value_string_iff :
    Value 8 value ↔ 8 ≤ value.length ∧ value.length = 8 + numberAt 8 value := by
  constructor
  · intro hvalue
    cases hvalue with
    | fixed hfixed => nomatch hfixed
    | string hlen hdata =>
        rw [numberAt_append hlen, List.length_append, hlen, hdata]
        exact ⟨Nat.le_add_right _ _, rfl⟩
  · rintro ⟨hlong, hlength⟩
    rw [← List.take_append_drop 8 value]
    refine .string (List.length_take_of_le hlong) ?_
    rw [List.length_drop, hlength, Nat.add_sub_cancel_left, numberAt]

/-! ### Arrays -/

/-- So many elements of the same size. -/
theorem exists_elems {size count : ℕ} (hlength : bytes.length = size * count) :
    ∃ elems : List Bytes, elems.flatten = bytes ∧ elems.length = count ∧
      ∀ elem ∈ elems, elem.length = size := by
  induction count generalizing bytes with
  | zero => exact ⟨[], (List.eq_nil_of_length_eq_zero hlength).symm, rfl, nofun⟩
  | succ count ih =>
      obtain ⟨elems, hflatten, hcount, hsize⟩ := @ih (bytes.drop size) (by
        rw [List.length_drop, hlength, Nat.mul_succ, Nat.add_sub_cancel])
      refine ⟨bytes.take size :: elems, ?_, by rw [List.length_cons, hcount], fun elem helem => ?_⟩
      · rw [List.flatten_cons, hflatten, List.take_append_drop]
      · rcases List.mem_cons.mp helem with rfl | hmem
        · rw [List.length_take, hlength, Nat.mul_succ]
          omega
        · exact hsize elem hmem

theorem length_flatten_of_size {size : ℕ} {elems : List Bytes}
    (h : ∀ elem ∈ elems, elem.length = size) :
    elems.flatten.length = size * elems.length := by
  induction elems with
  | nil => rfl
  | cons elem elems ih =>
      rw [List.flatten_cons, List.length_append, ih fun e he => h e (List.mem_cons_of_mem _ he),
        h elem List.mem_cons_self, List.length_cons, Nat.mul_succ, Nat.add_comm]

/-- An array whose elements take four bytes, or that has none. -/
def ArrayOfFour (bytes : Bytes) : Prop :=
  fixedSize (numberAt 4 bytes) = some 4 ∨ numberAt 4 bytes ≤ 12 ∧ numberAt 8 (bytes.drop 4) = 0

theorem valSize_array (hpos : pos ≤ file.size) (hfit : 12 ≤ (file.bytes.drop pos).length →
    pos + 12 + 4 * numberAt 8 ((file.bytes.drop pos).drop 4) < 2 ^ 64) :
    valSize file pos 9 = .ok n ↔
      12 ≤ (file.bytes.drop pos).length ∧
      n = 12 + 4 * numberAt 8 ((file.bytes.drop pos).drop 4) := by
  have hsize : file.size < 2 ^ 63 := file.length_lt
  have hlength : (file.bytes.drop pos).length = file.size - pos := List.length_drop
  change (if wrap (wrap (pos + 4) + 8) > file.size then _ else _) = _ ↔ _
  rw [wrap_of_lt (show pos + 4 < 2 ^ 64 by omega), wrap_of_lt (by omega)]
  split_ifs with hlate
  · exact ⟨nofun, fun h => absurd h.1 (by omega)⟩
  · have hread : file.readAt pos 12 = .ok ((file.bytes.drop pos).take 12) :=
      readAt_eq_ok.mpr ⟨by omega, rfl⟩
    have hsmall := hfit (by omega)
    have hcount : fromLeBytes (((file.bytes.drop pos).take 12).drop 4) =
        numberAt 8 ((file.bytes.drop pos).drop 4) := by
      rw [numberAt, List.drop_take]
    have hwrap : wrap (12 + wrap (fromLeBytes (((file.bytes.drop pos).take 12).drop 4) * 4)) =
        12 + 4 * numberAt 8 ((file.bytes.drop pos).drop 4) := by
      rw [hcount, wrap_of_lt (show numberAt 8 ((file.bytes.drop pos).drop 4) * 4 < 2 ^ 64 by omega),
        Nat.mul_comm,
        wrap_of_lt (by omega)]
    rw [hread]
    change Except.ok (wrap (12 + wrap (fromLeBytes (((file.bytes.drop pos).take 12).drop 4) * 4))) =
      _ ↔ _
    rw [hwrap]
    exact ⟨fun h => ⟨by omega, (Except.ok.inj h).symm⟩, fun h => congrArg Except.ok h.2.symm⟩

theorem value_array_iff (hfour : ArrayOfFour value) :
    Value 9 value ↔ 12 ≤ value.length ∧ value.length = 12 + 4 * numberAt 8 (value.drop 4) := by
  constructor
  · intro hvalue
    cases hvalue with
    | fixed hfixed => nomatch hfixed
    | @array elemType count elems htype hknown hcount helems hvalues =>
        have htypeAt : numberAt 4 (elemType ++ count ++ elems.flatten) = fromLeBytes elemType := by
          rw [List.append_assoc, numberAt_append htype]
        have hcountAt : numberAt 8 ((elemType ++ count ++ elems.flatten).drop 4) =
            elems.length := by
          rw [List.append_assoc, ← htype, List.drop_left, numberAt_append hcount, helems]
        have hlength : elems.flatten.length = 4 * elems.length := by
          unfold ArrayOfFour at hfour
          rw [htypeAt, hcountAt] at hfour
          rcases hfour with hfixed | ⟨-, hempty⟩
          · exact length_flatten_of_size fun elem helem =>
              (value_fixed_iff hfixed).mp (hvalues elem helem)
          · rw [List.eq_nil_of_length_eq_zero hempty]
            rfl
        rw [hcountAt, List.length_append, List.length_append, htype, hcount, hlength]
        exact ⟨by omega, rfl⟩
  · rintro ⟨hlong, hlength⟩
    have hsplit : value = value.take 4 ++ (value.drop 4).take 8 ++ value.drop 12 := by
      rw [List.append_assoc, ← List.drop_drop (i := 8) (j := 4), List.take_append_drop,
        List.take_append_drop]
    have hrest : (value.drop 12).length = 4 * numberAt 8 (value.drop 4) := by
      rw [List.length_drop]
      omega
    obtain ⟨elems, hflatten, hcount, hsize⟩ := exists_elems hrest
    rw [hsplit, ← hflatten]
    refine .array ?_ ?_ ?_ hcount fun elem helem => ?_
    · rw [List.length_take]
      omega
    · change numberAt 4 value ≤ 12
      rcases hfour with hfixed | ⟨hknown, -⟩
      · exact le_of_fixedSize hfixed
      · exact hknown
    · rw [List.length_take, List.length_drop]
      omega
    · rcases hfour with hfixed | ⟨-, hempty⟩
      · refine .fixed ?_
        rw [hsize elem helem]
        exact hfixed
      · rw [hempty] at hcount
        rw [List.eq_nil_of_length_eq_zero hcount] at helem
        nomatch helem

theorem length_of_array (h : Value 9 value) : 12 ≤ value.length := by
  cases h with
  | fixed hfixed => cases hfixed
  | array htype hknown hcount helems hvalues =>
      rw [List.length_append, List.length_append, htype, hcount]
      exact Nat.le_add_right _ _

theorem count_front (h : 12 ≤ value.length) :
    numberAt 8 ((value ++ rest).drop 4) = numberAt 8 (value.drop 4) := by
  rw [List.drop_append_of_le_length (by omega), numberAt_front (by rw [List.length_drop]; omega)]

theorem arrayOfFour_front (h : 12 ≤ value.length) :
    ArrayOfFour (value ++ rest) ↔ ArrayOfFour value := by
  rw [ArrayOfFour, ArrayOfFour, count_front h, numberAt_front (by omega)]

/-- **A value** that both read alike. -/
theorem valSize_iff (hpos : pos ≤ file.size)
    (hplain : PlainValue pos valType (file.bytes.drop pos)) :
    (valSize file pos valType = .ok n ∧ pos + n ≤ file.size) ↔
      ∃ value rest, file.bytes.drop pos = value ++ rest ∧ Value valType value ∧
        value.length = n := by
  have hlength : (file.bytes.drop pos).length = file.size - pos := List.length_drop
  -- what is taken from what is there, by its length
  have hfront : pos + n ≤ file.size ↔
      ∃ value rest, file.bytes.drop pos = value ++ rest ∧ value.length = n := by
    constructor
    · intro hfits
      exact ⟨_, _, (List.take_append_drop n _).symm, List.length_take_of_le (by omega)⟩
    · rintro ⟨value, rest, heq, rfl⟩
      have hall := size_of_append hpos heq
      omega
  cases hfixed : fixedSize valType with
  | some size =>
      rw [valSize_of_fixed hfixed, Except.ok.injEq, hfront]
      constructor
      · rintro ⟨rfl, value, rest, heq, hvalue⟩
        exact ⟨value, rest, heq, (value_fixed_iff hfixed).mpr hvalue, hvalue⟩
      · rintro ⟨value, rest, heq, hvalue, rfl⟩
        exact ⟨((value_fixed_iff hfixed).mp hvalue).symm, value, rest, heq, rfl⟩
  | none =>
      rcases type_cases hfixed hplain.known with rfl | rfl | hunknown
      · rw [valSize_string hpos (hplain.string rfl), hfront]
        constructor
        · rintro ⟨⟨hlong, hn⟩, value, rest, heq, rfl⟩
          have hvalue : 8 ≤ value.length := hn ▸ Nat.le_add_right _ _
          rw [heq, numberAt_front hvalue] at hn
          exact ⟨value, rest, heq, value_string_iff.mpr ⟨hvalue, hn⟩, rfl⟩
        · rintro ⟨value, rest, heq, hvalue, rfl⟩
          obtain ⟨hlong, hn⟩ := value_string_iff.mp hvalue
          rw [heq, numberAt_front hlong, List.length_append]
          exact ⟨⟨by omega, hn⟩, value, rest, rfl, rfl⟩
      · rw [valSize_array hpos fun hlong => (hplain.array rfl hlong).2, hfront]
        constructor
        · rintro ⟨⟨hlong, hn⟩, value, rest, heq, rfl⟩
          have hvalue : 12 ≤ value.length := hn ▸ Nat.le_add_right _ _
          have hfour : ArrayOfFour (file.bytes.drop pos) := (hplain.array rfl hlong).1
          rw [heq, count_front hvalue] at hn
          exact ⟨value, rest, heq,
            (value_array_iff ((arrayOfFour_front hvalue).mp (heq ▸ hfour))).mpr ⟨hvalue, hn⟩, rfl⟩
        · rintro ⟨value, rest, heq, hvalue, rfl⟩
          have hlong := length_of_array hvalue
          have hfour : ArrayOfFour (file.bytes.drop pos) :=
            (hplain.array rfl (by rw [heq, List.length_append]; omega)).1
          obtain ⟨-, hn⟩ := (value_array_iff ((arrayOfFour_front hlong).mp (heq ▸ hfour))).mp hvalue
          rw [heq, count_front hlong, List.length_append]
          exact ⟨⟨by omega, hn⟩, value, rest, rfl, rfl⟩
      · refine ⟨fun h => absurd h.1 (valSize_of_unknown hunknown file pos n), ?_⟩
        rintro ⟨value, -, -, hvalue, -⟩
        exact absurd hvalue (not_value_of_unknown hunknown)

/-- The position after such a value does not wrap around. -/
theorem valSize_lt (hpos : pos ≤ file.size) (hplain : PlainValue pos valType (file.bytes.drop pos))
    (h : valSize file pos valType = .ok n) : pos + n < 2 ^ 64 := by
  have hsize : file.size < 2 ^ 63 := file.length_lt
  cases hfixed : fixedSize valType with
  | some size =>
      have hsmall := fixedSize_le hfixed
      cases (valSize_of_fixed hfixed file pos).symm.trans h
      omega
  | none =>
      rcases type_cases hfixed hplain.known with rfl | rfl | hunknown
      · obtain ⟨hlong, hn⟩ := (valSize_string hpos (hplain.string rfl)).mp h
        have hbound := hplain.string rfl hlong
        omega
      · obtain ⟨hlong, hn⟩ := (valSize_array hpos fun hlong => (hplain.array rfl hlong).2).mp h
        have hbound := (hplain.array rfl hlong).2
        omega
      · exact absurd h (valSize_of_unknown hunknown file pos n)

end Values

/-! ## Pairs -/

section OnePair

variable {file : File} {i pos next n : ℕ} {bytes pair rest : Bytes}

theorem bind_eq_ok {α β : Type} {x : Except String α} {f : α → Except String β} {b : β} :
    x.bind f = .ok b ↔ ∃ a, x = .ok a ∧ f a = .ok b := by
  cases x with
  | error e => exact ⟨nofun, fun ⟨_, h, _⟩ => nomatch h⟩
  | ok a => exact ⟨fun h => ⟨a, rfl, h⟩, fun ⟨_, rfl, h⟩ => h⟩

theorem map_eq_ok {α β : Type} {x : Except String α} {f : α → β} {b : β} :
    x.map f = .ok b ↔ ∃ a, x = .ok a ∧ f a = b := by
  cases x with
  | error e => exact ⟨nofun, fun ⟨_, h, _⟩ => nomatch h⟩
  | ok a => exact ⟨fun h => ⟨a, rfl, Except.ok.inj h⟩, fun ⟨_, rfl, h⟩ => congrArg Except.ok h⟩

theorem mapError_eq_ok {α : Type} {x : Except String α} {f : String → String} {a : α} :
    x.mapError f = .ok a ↔ x = .ok a := by
  cases x with
  | error e => exact ⟨nofun, nofun⟩
  | ok a => exact Iff.rfl

theorem pair_iff : (∃ pair rest, bytes = pair ++ rest ∧ Pair pair ∧ pair.length = n) ↔
    valueAt bytes ≤ bytes.length ∧ ∃ value rest, bytes.drop (valueAt bytes) = value ++ rest ∧
      Value (typeOf bytes) value ∧ valueAt bytes + value.length = n := by
  constructor
  · rintro ⟨-, rest, rfl, @⟨keyLen, key, valType, value, hlen, hkey, htype, hvalue⟩, rfl⟩
    have hbytes : keyLen ++ key ++ valType ++ value ++ rest =
        keyLen ++ (key ++ (valType ++ (value ++ rest))) := by
      simp only [List.append_assoc]
    have hkeyAt : numberAt 8 (keyLen ++ (key ++ (valType ++ (value ++ rest)))) = key.length := by
      rw [numberAt_append hlen, hkey]
    have htypeDrop : (keyLen ++ (key ++ (valType ++ (value ++ rest)))).drop (8 + key.length) =
        valType ++ (value ++ rest) := by
      rw [← hlen, ← List.drop_drop, List.drop_left, List.drop_left]
    have hvalueDrop : (keyLen ++ (key ++ (valType ++ (value ++ rest)))).drop (8 + key.length + 4) =
        value ++ rest := by
      rw [← List.drop_drop, htypeDrop, ← htype, List.drop_left]
    rw [hbytes, valueAt, typeOf, hkeyAt, htypeDrop, hvalueDrop, numberAt_append htype]
    simp only [List.length_append, hlen, htype]
    exact ⟨by omega, value, rest, rfl, hvalue, rfl⟩
  · rintro ⟨hlong, value, rest, heq, hvalue, rfl⟩
    unfold valueAt at hlong heq ⊢
    -- the key with its length, and the type, in front of the value
    have htail : bytes.drop (8 + numberAt 8 bytes) =
        (bytes.drop (8 + numberAt 8 bytes)).take 4 ++ (value ++ rest) := by
      rw [← heq, ← List.drop_drop (i := 4) (j := 8 + numberAt 8 bytes), List.take_append_drop]
    have hsplit : bytes = bytes.take 8 ++ ((bytes.drop 8).take (numberAt 8 bytes) ++
        ((bytes.drop (8 + numberAt 8 bytes)).take 4 ++ (value ++ rest))) := by
      rw [← htail, ← List.drop_drop, List.take_append_drop, List.take_append_drop]
    refine ⟨bytes.take 8 ++ (bytes.drop 8).take (numberAt 8 bytes) ++
      (bytes.drop (8 + numberAt 8 bytes)).take 4 ++ value,
      rest, by simpa only [List.append_assoc] using hsplit, .mk ?_ ?_ ?_ hvalue, ?_⟩
    · rw [List.length_take]
      omega
    · rw [List.length_take, List.length_drop]
      exact Nat.min_eq_left (by omega)
    · rw [List.length_take, List.length_drop]
      omega
    · simp only [List.length_append, List.length_take, List.length_drop]
      omega

/-- What a round reads, where the length of the key does not wrap around. -/
theorem checkPair_eq_ok (hkey : pos + 8 + numberAt 8 (file.bytes.drop pos) < 2 ^ 64)
    (hpos : pos ≤ file.size) :
    checkPair file i pos = .ok next ↔
      valueAt (file.bytes.drop pos) ≤ (file.bytes.drop pos).length ∧
        ∃ n, valSize file (pos + valueAt (file.bytes.drop pos)) (typeOf (file.bytes.drop pos)) =
        .ok n ∧
          wrap (pos + valueAt (file.bytes.drop pos) + n) ≤ file.size ∧
            next = wrap (pos + valueAt (file.bytes.drop pos) + n) := by
  have hsize : file.size < 2 ^ 63 := file.length_lt
  have hlength : (file.bytes.drop pos).length = file.size - pos := List.length_drop
  -- the position behind the key, and the type there
  have hbehind : wrap (pos + wrap (8 + fromLeBytes ((file.bytes.drop pos).take 8))) =
      pos + (8 + numberAt 8 (file.bytes.drop pos)) := by
    rw [← numberAt, wrap_of_lt (show 8 + numberAt 8 (file.bytes.drop pos) < 2 ^ 64 by omega),
      wrap_of_lt (by omega)]
  have hrest : file.bytes.drop (pos + (8 + numberAt 8 (file.bytes.drop pos))) =
      (file.bytes.drop pos).drop (8 + numberAt 8 (file.bytes.drop pos)) := List.drop_drop.symm
  have hvalueAt (h : pos + (8 + numberAt 8 (file.bytes.drop pos)) + 4 ≤ file.size) :
      wrap (pos + (8 + numberAt 8 (file.bytes.drop pos)) + 4) =
        pos + valueAt (file.bytes.drop pos) :=
    wrap_of_lt (by omega)
  constructor
  · intro h
    unfold checkPair at h
    split_ifs at h with hend
    obtain ⟨keyLen, hkeyLen, h⟩ := bind_eq_ok.mp h
    obtain ⟨hfits, rfl⟩ := readAt_eq_ok.mp hkeyLen
    simp only [hbehind] at h
    split_ifs at h
    obtain ⟨valType, hvalType, h⟩ := bind_eq_ok.mp h
    obtain ⟨hfits, rfl⟩ := readAt_eq_ok.mp hvalType
    obtain ⟨n, hn, h⟩ := bind_eq_ok.mp h
    rw [hvalueAt hfits] at hn h
    rw [hrest] at hn
    split_ifs at h with hover
    exact ⟨by unfold valueAt; omega, n, hn, by omega, (Except.ok.inj h).symm⟩
  · rintro ⟨hlong, n, hn, hfits, rfl⟩
    have hpositive : 8 + numberAt 8 (file.bytes.drop pos) + 4 ≤ (file.bytes.drop pos).length :=
      hlong
    rw [checkPair, if_neg (by omega)]
    refine bind_eq_ok.mpr ⟨_, readAt_eq_ok.mpr ⟨by omega, rfl⟩, ?_⟩
    simp only [hbehind]
    rw [if_neg (by rw [wrap_of_lt (by omega)]; omega)]
    refine bind_eq_ok.mpr ⟨_, readAt_eq_ok.mpr ⟨by omega, rfl⟩, bind_eq_ok.mpr ⟨n, ?_, ?_⟩⟩
    · rw [hvalueAt (by omega), hrest]
      exact hn
    · rw [hvalueAt (by omega)]
      exact if_neg (Nat.not_lt.mpr hfits)

/-- **A pair** that both read alike. -/
theorem checkPair_iff (hplain : PlainPair pos (file.bytes.drop pos)) (hpos : pos ≤ file.size) :
    checkPair file i pos = .ok next ↔
      ∃ pair rest, file.bytes.drop pos = pair ++ rest ∧ Pair pair ∧ pos + pair.length = next := by
  have hlength : (file.bytes.drop pos).length = file.size - pos := List.length_drop
  have hdrop : (file.bytes.drop pos).drop (valueAt (file.bytes.drop pos)) =
      file.bytes.drop (pos + valueAt (file.bytes.drop pos)) := List.drop_drop
  rw [checkPair_eq_ok hplain.key hpos]
  constructor
  · rintro ⟨hlong, n, hread, hfits, rfl⟩
    have hplainValue := hplain.value hlong
    rw [hdrop] at hplainValue
    have hwrap := wrap_of_lt (valSize_lt (by omega) hplainValue hread)
    rw [hwrap] at hfits ⊢
    obtain ⟨value, rest, heq, hvalue, rfl⟩ := (valSize_iff (by omega) hplainValue).mp ⟨hread, hfits⟩
    obtain ⟨pair, rest, heq, hpair, hn⟩ :=
      pair_iff.mpr ⟨hlong, value, rest, hdrop ▸ heq, hvalue, rfl⟩
    exact ⟨pair, rest, heq, hpair, by rw [hn, Nat.add_assoc]⟩
  · rintro ⟨pair, rest, heq, hpair, rfl⟩
    obtain ⟨hlong, value, rest, heq, hvalue, hn⟩ := pair_iff.mp ⟨pair, rest, heq, hpair, rfl⟩
    have hplainValue := hplain.value hlong
    rw [hdrop] at hplainValue
    obtain ⟨hvalue, hfits⟩ :=
      (valSize_iff (by omega) hplainValue).mpr ⟨value, rest, hdrop ▸ heq, hvalue, rfl⟩
    have hwrap := wrap_of_lt (valSize_lt (by omega) hplainValue hvalue)
    refine ⟨hlong, value.length, hvalue, hwrap.symm ▸ hfits, ?_⟩
    rw [hwrap, ← hn, Nat.add_assoc]

end OnePair

section AllPairs

variable {file : File} {left i pos n : ℕ} {bytes : Bytes}

theorem pairs_zero (bytes : Bytes) : Pairs 0 bytes := ⟨[], bytes, rfl, rfl, nofun⟩

theorem pairs_succ : Pairs (n + 1) bytes ↔
    ∃ pair rest, bytes = pair ++ rest ∧ Pair pair ∧ Pairs n rest := by
  constructor
  · rintro ⟨pairs, rest, rfl, hcount, hpairs⟩
    obtain ⟨pair, pairs, rfl⟩ := List.exists_cons_of_length_eq_add_one hcount
    refine ⟨pair, pairs.flatten ++ rest, by rw [List.flatten_cons, List.append_assoc],
      hpairs pair List.mem_cons_self, pairs, rest, rfl, Nat.succ.inj hcount, ?_⟩
    exact fun p hp => hpairs p (List.mem_cons_of_mem _ hp)
  · rintro ⟨pair, -, rfl, hpair, pairs, rest, rfl, rfl, hpairs⟩
    refine ⟨pair :: pairs, rest, by rw [List.flatten_cons, List.append_assoc], rfl, fun p hp => ?_⟩
    rcases List.mem_cons.mp hp with rfl | hmem
    · exact hpair
    · exact hpairs p hmem

/-- **The loop.** -/
theorem checkPairs_iff (hpos : pos ≤ file.size)
    (hplain : PlainPairs left pos (file.bytes.drop pos)) :
    checkPairs file left i pos = .ok () ↔ Pairs left (file.bytes.drop pos) := by
  induction left generalizing i pos with
  | zero => exact ⟨fun _ => pairs_zero _, fun _ => rfl⟩
  | succ left ih =>
      obtain _ | ⟨hfirst, hrest⟩ := hplain
      -- after a pair, the rest is read from behind it
      have hnext {pair rest : Bytes} (heq : file.bytes.drop pos = pair ++ rest)
        (hpair : Pair pair) :
          checkPairs file left (i + 1) (pos + pair.length) = .ok () ↔ Pairs left rest := by
        have hsize := size_of_append hpos heq
        have htail := hrest pair rest heq hpair
        rw [← drop_of_append heq] at htail ⊢
        exact ih (by omega) htail
      rw [checkPairs, bind_eq_ok, pairs_succ]
      constructor
      · rintro ⟨next, hcheck, hloop⟩
        obtain ⟨pair, rest, heq, hpair, rfl⟩ := (checkPair_iff hfirst hpos).mp hcheck
        exact ⟨pair, rest, heq, hpair, (hnext heq hpair).mp hloop⟩
      · rintro ⟨pair, rest, heq, hpair, hpairs⟩
        exact ⟨_, (checkPair_iff hfirst hpos).mpr ⟨pair, rest, heq, hpair, rfl⟩,
          (hnext heq hpair).mpr hpairs⟩

end AllPairs

/-! ## The whole file -/

section Whole

variable {file : File} {bytes : Bytes}

/-- The magic and a supported version. -/
def HeaderOk (bytes : Bytes) : Prop :=
  24 ≤ bytes.length ∧ bytes.take 4 = ggufMagic ∧ 1 ≤ numberAt 4 (bytes.drop 4) ∧
    numberAt 4 (bytes.drop 4) ≤ 3

theorem HeaderOk.split (h : HeaderOk bytes) :
    bytes = ggufMagic ++ (bytes.drop 4).take 4 ++ (bytes.drop 8).take 8 ++ (bytes.drop 16).take 8 ++
      bytes.drop 24 := by
  obtain ⟨-, hmagic, -⟩ := h
  rw [← hmagic]
  calc bytes
    _ = bytes.take 4 ++ ((bytes.drop 4).take 4 ++
      ((bytes.drop 8).take 8 ++ ((bytes.drop 16).take 8 ++ bytes.drop 24))) := by
        rw [← List.drop_drop (i := 8) (j := 16), List.take_append_drop,
          ← List.drop_drop (i := 8) (j := 8),
          List.take_append_drop, ← List.drop_drop (i := 4) (j := 4), List.take_append_drop,
            List.take_append_drop]
    _ = _ := by simp only [List.append_assoc]

theorem HeaderOk.lengths (h : HeaderOk bytes) :
    ((bytes.drop 4).take 4).length = 4 ∧ ((bytes.drop 8).take 8).length = 8 ∧
    ((bytes.drop 16).take 8).length = 8 := by
  obtain ⟨hlong, -⟩ := h
  simp only [List.length_take, List.length_drop]
  omega

/-- What the parts of a header leave behind them. -/
theorem header_drop {version tensorCount kvCount rest : Bytes}
    (hbytes : bytes = ggufMagic ++ version ++ tensorCount ++ kvCount ++ rest)
    (hversion : version.length = 4)
    (htensor : tensorCount.length = 8) (hkv : kvCount.length = 8) :
    bytes.drop 4 = version ++ (tensorCount ++ (kvCount ++ rest)) ∧ bytes.drop 16 = kvCount ++ rest ∧
    bytes.drop 24 = rest := by
  have hfour : bytes.drop 4 = version ++ (tensorCount ++ (kvCount ++ rest)) := by
    rw [hbytes, List.append_assoc, List.append_assoc, List.append_assoc]
    exact List.drop_left' rfl
  have height : bytes.drop 8 = tensorCount ++ (kvCount ++ rest) := by
    rw [← List.drop_drop (i := 4) (j := 4), hfour, List.drop_left' hversion]
  have hsixteen : bytes.drop 16 = kvCount ++ rest := by
    rw [← List.drop_drop (i := 8) (j := 8), height, List.drop_left' htensor]
  refine ⟨hfour, hsixteen, ?_⟩
  rw [← List.drop_drop (i := 8) (j := 16), hsixteen, List.drop_left' hkv]

theorem wellFormed_iff : WellFormed bytes ↔
    HeaderOk bytes ∧ Pairs (numberAt 8 (bytes.drop 16)) (bytes.drop 24) := by
  constructor
  · rintro ⟨version, tensorCount, kvCount, rest, hbytes, hversion, htensor, hkv, hmin, hmax, hpairs⟩
    obtain ⟨hfour, hsixteen, htwentyFour⟩ := header_drop hbytes hversion htensor hkv
    rw [HeaderOk, hfour, hsixteen, htwentyFour, numberAt_append hversion, numberAt_append hkv]
    refine ⟨⟨?_, ?_, hmin, hmax⟩, hpairs⟩
    · simp only [hbytes, List.length_append, hversion, htensor, hkv, ggufMagic, List.length_cons,
        List.length_nil]
      omega
    · rw [hbytes, List.append_assoc, List.append_assoc, List.append_assoc]
      exact List.take_left' rfl
  · rintro ⟨hheader, hpairs⟩
    obtain ⟨hversion, htensor, hkv⟩ := hheader.lengths
    exact ⟨_, _, _, _, hheader.split, hversion, htensor, hkv, hheader.2.2.1, hheader.2.2.2, hpairs⟩

theorem Plain.of_pairs (h : PlainPairs (numberAt 8 (file.bytes.drop 16)) 24 (file.bytes.drop 24)) :
    Plain file := by
  intro version tensorCount kvCount rest hbytes hversion htensor hkv _
  obtain ⟨-, hsixteen, htwentyFour⟩ := header_drop hbytes hversion htensor hkv
  rwa [hsixteen, htwentyFour, numberAt_append hkv] at h

theorem Plain.pairs (h : Plain file) (hheader : HeaderOk file.bytes) :
    PlainPairs (numberAt 8 (file.bytes.drop 16)) 24 (file.bytes.drop 24) := by
  obtain ⟨hversion, htensor, hkv⟩ := hheader.lengths
  exact h _ _ _ _ hheader.split hversion htensor hkv hheader.2.2

theorem accepts_header : Accepts file ↔
    HeaderOk file.bytes ∧ checkPairs file (numberAt 8 (file.bytes.drop 16)) 0 24 = .ok () := by
  unfold Accepts validateGguf minSize
  constructor
  · rintro ⟨header, h⟩
    split_ifs at h with hsmall
    obtain ⟨magic, hmagic, h⟩ := bind_eq_ok.mp h
    obtain ⟨hfits, rfl⟩ := readAt_eq_ok.mp (mapError_eq_ok.mp hmagic)
    split_ifs at h with hother
    obtain ⟨version, hversion, h⟩ := bind_eq_ok.mp h
    obtain ⟨hfits, rfl⟩ := readAt_eq_ok.mp hversion
    simp only at h
    split_ifs at h with hunsupported
    obtain ⟨tensor, htensor, h⟩ := bind_eq_ok.mp h
    obtain ⟨kv, hkv, h⟩ := bind_eq_ok.mp h
    obtain ⟨hfits, rfl⟩ := readAt_eq_ok.mp hkv
    obtain ⟨⟨⟩, hcheck, -⟩ := map_eq_ok.mp h
    refine ⟨⟨hfits, not_not.mp hother, ?_, ?_⟩, hcheck⟩
    · exact Nat.not_lt.mp fun hmin => hunsupported (.inl hmin)
    · exact Nat.not_lt.mp fun hmax => hunsupported (.inr hmax)
  · rintro ⟨⟨hlong, hmagic, hmin, hmax⟩, hcheck⟩
    have hsize : 24 ≤ file.size := hlong
    refine ⟨⟨numberAt 4 (file.bytes.drop 4), numberAt 8 (file.bytes.drop 8),
      numberAt 8 (file.bytes.drop 16), file.size⟩, ?_⟩
    rw [if_neg (by omega)]
    refine bind_eq_ok.mpr ⟨_, mapError_eq_ok.mpr (readAt_eq_ok.mpr ⟨by omega, rfl⟩), ?_⟩
    refine (if_neg (not_not.mpr hmagic)).trans ?_
    refine bind_eq_ok.mpr ⟨_, readAt_eq_ok.mpr ⟨by omega, rfl⟩, ?_⟩
    refine (if_neg ?_).trans ?_
    · rintro (hlow | hhigh)
      · exact Nat.not_lt.mpr hmin hlow
      · exact Nat.not_lt.mpr hmax hhigh
    refine bind_eq_ok.mpr ⟨_, readAt_eq_ok.mpr ⟨by omega, rfl⟩, ?_⟩
    refine bind_eq_ok.mpr ⟨_, readAt_eq_ok.mpr ⟨by omega, rfl⟩, ?_⟩
    exact map_eq_ok.mpr ⟨(), hcheck, rfl⟩

/-- **The validator accepts exactly the files with a well-formed header**, where it reads the pairs
as the grammar does. -/
theorem accepts_iff (file : File) (h : Plain file) : Accepts file ↔ WellFormed file.bytes := by
  rw [accepts_header, wellFormed_iff]
  constructor
  · rintro ⟨hheader, hcheck⟩
    exact ⟨hheader, (checkPairs_iff hheader.1 (h.pairs hheader)).mp hcheck⟩
  · rintro ⟨hheader, hpairs⟩
    exact ⟨hheader, (checkPairs_iff hheader.1 (h.pairs hheader)).mpr hpairs⟩

/-- A header with one pair, which has the key "k" and a value of type `valType`. -/
def oneValue (valType : UInt8) (value : Bytes) : Bytes :=
  ggufMagic ++ [3, 0, 0, 0] ++ [0, 0, 0, 0, 0, 0, 0, 0] ++ [1, 0, 0, 0, 0, 0, 0, 0] ++
    ([1, 0, 0, 0, 0, 0, 0, 0] ++ [0x6b] ++ [valType, 0, 0, 0] ++ value)

/-- An array of the two numbers 7 and 8, of four bytes each. -/
def numbers : File where
  bytes := oneValue 9 ([4, 0, 0, 0] ++ [2, 0, 0, 0, 0, 0, 0, 0] ++ [7, 0, 0, 0, 8, 0, 0, 0])
  length_lt := by decide

theorem accepts_numbers : Accepts numbers ↔ WellFormed numbers.bytes := by
  refine accepts_iff numbers
    (.of_pairs (.succ ⟨by decide, fun _ => ⟨by decide, by decide, by decide⟩⟩ ?_))
  intro pair rest _ _
  exact .zero _ _

/-- An array of the bytes 1 to 4, at the end of the file. -/
def fourBytes : File where
  bytes := oneValue 9 ([0, 0, 0, 0] ++ [4, 0, 0, 0, 0, 0, 0, 0] ++ [1, 2, 3, 4])
  length_lt := by decide

/-- The validator looks for 16 bytes. -/
theorem not_accepts_fourBytes : WellFormed fourBytes.bytes ∧ ¬ Accepts fourBytes := by
  constructor
  · refine ⟨[3, 0, 0, 0], [0, 0, 0, 0, 0, 0, 0, 0], [1, 0, 0, 0, 0, 0, 0, 0], _, rfl, rfl, rfl, rfl,
      by decide, by decide, ?_⟩
    refine pairs_succ.mpr ⟨_, [], (List.append_nil _).symm, .mk rfl rfl rfl ?_, pairs_zero _⟩
    refine @Value.array [0, 0, 0, 0] [4, 0, 0, 0, 0, 0, 0, 0] [[1], [2], [3],
      [4]] rfl (by decide) rfl rfl ?_
    intro elem helem
    simp only [List.mem_cons, List.not_mem_nil, or_false] at helem
    rcases helem with rfl | rfl | rfl | rfl <;> exact .fixed rfl
  · rintro ⟨header, h⟩
    have hrejected : (validateGguf fourBytes).isOk = false := by decide
    rw [h] at hrejected
    nomatch hrejected

end Whole

end NiraOS.AiDaemon.Validator
