import NiraOS.Lib.TextStream
import NiraOS.Notepad.FileDialogHelper

/-!
# Saving what was read

`readFile` and `writeFile` of `FileDialogHelper` (`apps/notepad/src/main.cpp`), on the bytes of the
files.  Reading goes through text mode and the UTF-8 decoder, writing through the encoder alone:

```text
bytes               the text read             the bytes written
CR LF               LF                        LF
a byte order mark   nothing                   nothing
invalid UTF-8       replacement characters    their encoding
all else            the characters            the same bytes
```
-/

namespace NiraOS.Notepad

open TextStream Utf8

/-- The bytes of the regular files. -/
abbrev ByteDisk := String → Option Bytes

/-! ## Reading -/

section Reading

-- what the decoder makes of bytes that are not UTF-8
variable (replaced : Bytes → String)

/-- 32 MiB. -/
def maxSize : ℕ := 32 * 1024 * 1024

structure ReadFaults where
  openFile : Bool
  read : Bool

def readFile (faults : ReadFaults) (disk : ByteDisk) (path : String) : ReadResult :=
  match disk path with
  | none => .failure
  | some bytes =>
      if bytes.length > maxSize then .tooLarge
      else if faults.openFile then .failure
      else if faults.read then .failure
      else .success (readAll replaced (textMode bytes))

end Reading

/-! ## Writing -/

/-- `writeFile` on bytes: the text is encoded without a byte order mark. -/
def writeBytes (faults : WriteFaults) (disk : ByteDisk) (path content : String) : Bool × ByteDisk :=
  if path = "" then (false, disk)
  else if faults.openFile then (false, disk)
  else if faults.write then (false, Function.update disk (tmpPath path) none)
  else
    let disk := Function.update disk (tmpPath path) (some (encode content))
    if (disk path).isSome && faults.remove then (false, Function.update disk (tmpPath path) none)
    else
      let disk := Function.update disk path none
      if faults.rename then (false, Function.update disk (tmpPath path) none)
      else
        (true, Function.update (Function.update disk (tmpPath path) none) path
          (some (encode content)))

section Writing

variable {faults : WriteFaults} {disk : ByteDisk} {path content : String}

/-- The texts of a disk, as `view` shows them. -/
def ByteDisk.texts (view : Bytes → String) (disk : ByteDisk) : Disk := fun p => (disk p).map view

theorem texts_update (view : Bytes → String) (disk : ByteDisk) (path : String)
    (bytes : Option Bytes) :
    ByteDisk.texts view (Function.update disk path bytes) =
      Function.update (ByteDisk.texts view disk) path (bytes.map view) := by
  funext p
  by_cases hp : p = path
  · rw [hp, Function.update_self, ByteDisk.texts, Function.update_self]
  · rw [Function.update_of_ne hp, ByteDisk.texts, Function.update_of_ne hp, ByteDisk.texts]

/-- A write to the texts of a disk is a write to its bytes. -/
theorem writeFile_texts (view : Bytes → String) (hview : view (encode content) = content) :
    writeFile faults (disk.texts view) path content =
      ((writeBytes faults disk path content).1,
        (writeBytes faults disk path content).2.texts view) := by
  have hsome : (Function.update (disk.texts view) (tmpPath path) (some content) path).isSome =
      (Function.update disk (tmpPath path) (some (encode content)) path).isSome := by
    rw [← hview, ← Option.map_some, ← texts_update, ByteDisk.texts, Option.isSome_map, hview]
  unfold writeFile writeBytes
  dsimp only
  rw [hsome]
  split_ifs <;> simp only [texts_update, Option.map_none, Option.map_some, hview]

theorem writeBytes_written (h : (writeBytes faults disk path content).1 = true) :
    (writeBytes faults disk path content).2 path = some (encode content) := by
  unfold writeBytes at h ⊢
  dsimp only at h ⊢
  split_ifs at h ⊢
  exact Function.update_self ..

end Writing

/-! ## The round trip -/

/-- The bytes are a text with its own line ends and no byte order mark. -/
def Plain (bytes : Bytes) : Prop :=
  Valid bytes ∧ ¬ byteOrderMark <+: bytes ∧ ¬ [0x0d, 0x0a] <:+: bytes

section RoundTrip

variable {replaced : Bytes → String} {bytes : Bytes}

/-- What is written of the text that was read. -/
theorem encode_read_iff : encode (readAll replaced (textMode bytes)) = bytes ↔ Plain bytes := by
  constructor
  · intro h
    have hvalid : Valid bytes := ⟨_, h⟩
    have htextMode := valid_textMode hvalid
    have hle := length_textMode bytes
    have hlength := congrArg List.length h
    have hmark : ¬ byteOrderMark <+: textMode bytes := by
      intro hmark
      have hshorter : (encode (readAll replaced (textMode bytes))).length <
          (textMode bytes).length :=
        length_readAll htextMode hmark
      omega
    rw [encode_readAll htextMode hmark] at h hlength
    exact ⟨hvalid, h ▸ hmark, noCrLf_of_length hlength⟩
  · rintro ⟨hvalid, hmark, hcrlf⟩
    rw [textMode_of_noCrLf hcrlf]
    exact encode_readAll hvalid hmark

/-- **Saving the text that was read leaves the bytes as they were exactly if they are plain.** -/
theorem roundTrip_iff (replaced : Bytes → String) {readFaults : ReadFaults}
    {writeFaults : WriteFaults} {disk : ByteDisk}
    {path content : String} {bytes : Bytes} (hfile : disk path = some bytes)
    (hread : readFile replaced readFaults disk path = .success content)
    (hwrite : (writeBytes writeFaults disk path content).1 = true) :
    (writeBytes writeFaults disk path content).2 path = some bytes ↔ Plain bytes := by
  have hcontent : content = readAll replaced (textMode bytes) := by
    simp only [readFile, hfile] at hread
    split_ifs at hread
    exact (ReadResult.success.inj hread).symm
  rw [writeBytes_written hwrite, Option.some.injEq, hcontent]
  exact encode_read_iff

/-- A disk with the one file "a". -/
def oneFile (bytes : Bytes) : ByteDisk := fun p => if p = "a" then some bytes else none

theorem read_oneFile {text : String} (hmark : ¬ byteOrderMark <+: encode text)
    (hdata : textMode bytes = encode text)
    (hsize : bytes.length ≤ maxSize) :
    readFile replaced ⟨false, false⟩ (oneFile bytes) "a" = .success text := by
  change (if bytes.length > maxSize then ReadResult.tooLarge
    else .success (readAll replaced (textMode bytes))) = _
  rw [if_neg (Nat.not_lt.mpr hsize), hdata, readAll_encode hmark]

theorem roundTrip_plain :
    (writeBytes {} (oneFile [0x61, 0x0a, 0x62, 0x0a]) "a" "a\nb\n").2 "a" =
        some [0x61, 0x0a, 0x62, 0x0a] ↔
      Plain [0x61, 0x0a, 0x62, 0x0a] :=
  roundTrip_iff (fun _ => "") rfl (read_oneFile (by decide) (by decide) (by decide)) (by decide)

/-- The line end of Windows is not written back. -/
theorem not_roundTrip_crLf :
    readFile (fun _ => "") ⟨false, false⟩ (oneFile [0x61, 0x0d, 0x0a]) "a" = .success "a\n" ∧
      (writeBytes {} (oneFile [0x61, 0x0d, 0x0a]) "a" "a\n").1 = true ∧
      (writeBytes {} (oneFile [0x61, 0x0d, 0x0a]) "a" "a\n").2 "a" ≠ some [0x61, 0x0d, 0x0a] :=
  ⟨read_oneFile (by decide) (by decide) (by decide), by decide, by decide⟩

end RoundTrip

end NiraOS.Notepad
