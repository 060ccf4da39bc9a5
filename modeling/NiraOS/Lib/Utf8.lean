import Mathlib.Data.List.Basic
import Mathlib.Tactic.Common

/-!
# Texts as bytes

The bytes of a text in UTF-8 as a list, what texts the valid lists decode to, and dropping single
ASCII bytes or a first character: what is left of a valid list is valid.
-/

namespace Utf8

abbrev Bytes := List UInt8

def encode (text : String) : Bytes := text.toUTF8.data.toList

/-- The text of valid bytes. -/
def decode? (bytes : Bytes) : Option String := String.fromUTF8? bytes.toByteArray

/-- The bytes are those of a text. -/
def Valid (bytes : Bytes) : Prop := ∃ text, encode text = bytes

variable {bytes rest : Bytes} {text : String} {c : Char} {b : UInt8}

theorem toByteArray_encode (text : String) : (encode text).toByteArray = text.toUTF8 := by
  refine ByteArray.ext ?_
  rw [List.data_toByteArray]
  exact Array.toArray_toList

theorem encode_eq_iff : encode text = bytes ↔ text.toUTF8 = bytes.toByteArray := by
  rw [← toByteArray_encode, List.toByteArray_inj]

theorem decode?_eq_some : decode? bytes = some text ↔ encode text = bytes := by
  rw [encode_eq_iff]
  unfold decode? String.fromUTF8?
  split_ifs with hvalid
  · rw [Option.some.injEq]
    exact ⟨fun h => h ▸ rfl, fun h => String.toByteArray_inj.mp h.symm⟩
  · exact ⟨nofun, fun h => absurd (h ▸ text.isValidUTF8) hvalid⟩

theorem encode_ofList (chars : List Char) :
    encode (String.ofList chars) = chars.flatMap String.utf8EncodeChar := by
  rw [encode, String.toUTF8_eq_toByteArray, String.toByteArray_ofList, List.utf8Encode,
    List.toList_data_toByteArray]

theorem valid_iff : Valid bytes ↔ ∃ chars :
    List Char, chars.flatMap String.utf8EncodeChar = bytes := by
  constructor
  · rintro ⟨text, rfl⟩
    obtain ⟨chars, rfl⟩ := text.exists_eq_ofList
    exact ⟨chars, (encode_ofList chars).symm⟩
  · rintro ⟨chars, rfl⟩
    exact ⟨_, encode_ofList chars⟩

/-- What decodes is valid. -/
theorem valid_iff_isValidUTF8 : Valid bytes ↔ bytes.toByteArray.IsValidUTF8 := by
  constructor
  · rintro ⟨text, rfl⟩
    rw [toByteArray_encode]
    exact text.isValidUTF8
  · intro h
    exact ⟨.fromUTF8 _ h, encode_eq_iff.mpr rfl⟩

theorem valid_nil : Valid [] := ⟨"", rfl⟩

theorem Valid.cons (c : Char) (h : Valid rest) : Valid (String.utf8EncodeChar c ++ rest) := by
  obtain ⟨chars, rfl⟩ := valid_iff.mp h
  exact valid_iff.mpr ⟨c :: chars, rfl⟩

/-- Behind a first character, a valid list is valid. -/
theorem valid_cons_iff : Valid (String.utf8EncodeChar c ++ rest) ↔ Valid rest := by
  have hsingle : (String.utf8EncodeChar c).toByteArray = [c].utf8Encode := by
    rw [List.utf8Encode, List.flatMap_singleton]
  rw [valid_iff_isValidUTF8, valid_iff_isValidUTF8, List.toByteArray_append, hsingle]
  exact ByteArray.isValidUTF8_utf8Encode_singleton_append_iff

/-- An ASCII byte is a character of its own. -/
theorem eq_singleton_of_mem (h : b ∈ String.utf8EncodeChar c) (hascii : b < 128) :
    String.utf8EncodeChar c = [b] := by
  -- all other characters take bytes from 128 on
  have hlarge {n : ℕ} (hlow : 128 ≤ n) (hhigh : n < 256) : b ≠ UInt8.ofNat n := by
    rintro rfl
    rw [UInt8.lt_iff_toNat_lt, UInt8.toNat_ofNat_of_lt' hhigh] at hascii
    exact absurd hlow (Nat.not_le.mpr hascii)
  unfold String.utf8EncodeChar at h ⊢
  dsimp only at h ⊢
  split_ifs at h ⊢ <;> simp only [List.mem_cons, List.not_mem_nil, or_false] at h
  · rw [h]
  · rcases h with h | h <;> exact absurd h (hlarge (by omega) (by omega))
  · rcases h with h | h | h <;> exact absurd h (hlarge (by omega) (by omega))
  · rcases h with h | h | h | h <;> exact absurd h (hlarge (by omega) (by omega))

theorem eq_of_encode {text' : String} (h : encode text = encode text') : text = text' := by
  have hdecode : decode? (encode text') = some text := decode?_eq_some.mpr h
  rw [decode?_eq_some.mpr rfl] at hdecode
  exact (Option.some.inj hdecode).symm

/-- An ASCII byte stands for its own character only. -/
theorem eq_of_mem {d : Char} (h : b ∈ String.utf8EncodeChar c) (hascii : b < 128)
    (hd : String.utf8EncodeChar d = [b]) :
    c = d := by
  have hencode : encode (String.ofList [c]) = encode (String.ofList [d]) := by
    rw [encode_ofList, encode_ofList, List.flatMap_singleton, List.flatMap_singleton,
      eq_singleton_of_mem h hascii, hd]
  exact (List.cons.inj (String.ofList_injective (eq_of_encode hencode))).1

end Utf8
