import NiraOS.Lib.Utf8

/-!
# Reading a text file

A `QTextStream` over a file that is opened with `QIODevice::Text`.  Text mode drops the carriage
return of a line end, and the decoder drops a byte order mark:

```text
bytes               the text read
CR LF               LF
a byte order mark   nothing
invalid UTF-8       replacement characters
all else            the characters
```
-/

namespace TextStream

open Utf8

/-- `QIODevice::Text`: CR before LF is dropped. -/
def textMode : Bytes → Bytes
  | 0x0d :: 0x0a :: rest => 0x0a :: textMode rest
  | b :: rest => b :: textMode rest
  | [] => []

def byteOrderMark : Bytes := [0xef, 0xbb, 0xbf]

section Reading

-- what the decoder makes of bytes that are not UTF-8
variable (replaced : Bytes → String)

/-- `QTextStream::readAll` with `QStringConverter::Utf8`. -/
def readAll (bytes : Bytes) : String :=
  let data := if byteOrderMark <+: bytes then bytes.drop 3 else bytes
  match decode? data with
  | some text => text
  | none => replaced data

end Reading

/-! ## What text mode leaves -/

section TextMode

variable {bytes rest front : Bytes}

theorem textMode_cons {b : UInt8} (h : ∀ rest', b = 0x0d → rest ≠ 0x0a :: rest') :
    textMode (b :: rest) = b :: textMode rest := textMode.eq_2 b rest h

theorem textMode_append (h : 0x0d ∉ front) : textMode (front ++ rest) = front ++ textMode rest := by
  induction front with
  | nil => rfl
  | cons b front ih =>
      rw [List.mem_cons, not_or] at h
      rw [List.cons_append, textMode_cons fun _ heq => absurd heq.symm h.1, ih h.2,
        List.cons_append]

theorem length_textMode (bytes : Bytes) : (textMode bytes).length ≤ bytes.length := by
  fun_induction textMode bytes with
  | case1 rest ih =>
      simp only [List.length_cons]
      omega
  | case2 b rest hpair ih =>
      simp only [List.length_cons]
      omega
  | case3 => exact Nat.le_refl _

/-- Where text mode drops nothing, there is no CR LF. -/
theorem noCrLf_of_length (h : (textMode bytes).length = bytes.length) :
    ¬ [0x0d, 0x0a] <:+: bytes := by
  fun_induction textMode bytes with
  | case1 rest ih =>
      have hle := length_textMode rest
      simp only [List.length_cons] at h
      omega
  | case2 b rest hpair ih =>
      simp only [List.length_cons, Nat.add_right_cancel_iff] at h
      intro hinfix
      rcases List.infix_cons_iff.mp hinfix with ⟨tail, htail⟩ | hrest
      · obtain ⟨hb, hrest⟩ := List.cons.inj htail
        exact hpair tail hb.symm hrest.symm
      · exact ih h hrest
  | case3 => exact fun hinfix => nomatch List.infix_nil.mp hinfix

theorem textMode_of_noCrLf (h : ¬ [0x0d, 0x0a] <:+: bytes) : textMode bytes = bytes := by
  fun_induction textMode bytes with
  | case1 rest ih => exact absurd (List.prefix_append [0x0d, 0x0a] rest).isInfix h
  | case2 b rest hpair ih => rw [ih fun hrest => h (hrest.trans (List.suffix_cons b rest).isInfix)]
  | case3 => rfl

/-- Text mode drops nothing of a text without CR LF. -/
theorem textMode_encode {text : String} (h : ¬ ['\r', '\n'] <:+: text.toList) :
    textMode (encode text) = encode text := by
  rw [← String.ofList_toList (s := text), encode_ofList]
  generalize text.toList = chars at h ⊢
  induction chars with
  | nil => rfl
  | cons c chars ih =>
      have hrest := ih fun hinfix => h (List.infix_cons hinfix)
      rw [List.flatMap_cons]
      by_cases hcr : 0x0d ∈ String.utf8EncodeChar c
      · -- the CR stands alone, and no LF follows
        rw [eq_singleton_of_mem hcr (by decide), List.singleton_append, textMode_cons, hrest]
        rintro rest' - hlf
        cases chars with
        | nil => nomatch hlf
        | cons d chars =>
            have hmem : (0x0a : UInt8) ∈ String.utf8EncodeChar d := by
              have hne : String.utf8EncodeChar d ≠ [] := String.utf8EncodeChar_ne_nil
              obtain ⟨b, bs, hb⟩ := List.exists_cons_of_ne_nil hne
              rw [List.flatMap_cons, hb, List.cons_append] at hlf
              rw [hb, (List.cons.inj hlf).1]
              exact List.mem_cons_self ..
            rw [eq_of_mem (d := '\r') hcr (by decide) (by decide),
              eq_of_mem (d := '\n') hmem (by decide) (by decide)] at h
            exact h (List.prefix_append ['\r', '\n'] chars).isInfix
      · rw [textMode_append hcr, hrest]

/-- What text mode leaves of UTF-8 is UTF-8. -/
theorem valid_textMode (h : Valid bytes) : Valid (textMode bytes) := by
  obtain ⟨chars, rfl⟩ := valid_iff.mp h
  induction chars with
  | nil => exact valid_nil
  | cons c chars ih =>
      have hrest := ih (valid_iff.mpr ⟨chars, rfl⟩)
      rw [List.flatMap_cons]
      by_cases hcr : 0x0d ∈ String.utf8EncodeChar c
      · -- a CR stands alone, and goes if LF follows
        have hsingle := eq_singleton_of_mem hcr (by decide)
        by_cases hlf : ∃ rest', chars.flatMap String.utf8EncodeChar = 0x0a :: rest'
        · obtain ⟨rest', heq⟩ := hlf
          rw [heq, textMode_cons fun _ hlf => absurd hlf (by decide)] at hrest
          rw [hsingle, heq]
          exact hrest
        · rw [hsingle, List.singleton_append, textMode_cons fun rest' _ heq => hlf ⟨rest', heq⟩]
          rw [← List.singleton_append, ← hsingle]
          exact hrest.cons c
      · rw [textMode_append hcr]
        exact hrest.cons c

end TextMode

/-! ## What the decoder leaves -/

section Decoding

variable {replaced : Bytes → String} {bytes : Bytes}

theorem readAll_encode {text : String} (hmark : ¬ byteOrderMark <+: encode text) :
    readAll replaced (encode text) = text := by
  unfold readAll
  dsimp only
  rw [if_neg hmark, decode?_eq_some.mpr rfl]

theorem encode_readAll (hvalid : Valid bytes) (hmark : ¬ byteOrderMark <+: bytes) :
    encode (readAll replaced bytes) = bytes := by
  obtain ⟨text, rfl⟩ := hvalid
  rw [readAll_encode hmark]

/-- A byte order mark is lost. -/
theorem length_readAll (hvalid : Valid bytes) (hmark : byteOrderMark <+: bytes) :
    (encode (readAll replaced bytes)).length < bytes.length := by
  obtain ⟨rest, rfl⟩ := hmark
  have hchar : String.utf8EncodeChar '\uFEFF' = byteOrderMark := by decide
  obtain ⟨text, rfl⟩ := valid_cons_iff.mp (hchar ▸ hvalid)
  have hdrop : (byteOrderMark ++ encode text).drop 3 = encode text := List.drop_left' rfl
  unfold readAll
  dsimp only
  rw [if_pos (List.prefix_append ..), hdrop, decode?_eq_some.mpr rfl, List.length_append]
  change (encode text).length < 3 + (encode text).length
  omega

end Decoding

end TextStream
