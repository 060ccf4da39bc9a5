import Mathlib.Algebra.Group.Nat.Defs
import Mathlib.Data.List.Basic
import Mathlib.Data.Nat.Notation
import Mathlib.Tactic.Common

/-!
# The validator of model files

`Validator::validate_gguf` (`core/ai-daemon/src/models/validator.rs`), on the bytes of a file that
can be opened and read.  Positions are `u64`; they wrap around, as in a release build.
-/

namespace NiraOS.AiDaemon.Validator

abbrev Bytes := List UInt8

/-- The bytes of a file: their number is an `off_t`. -/
structure File where
  bytes : Bytes
  length_lt : bytes.length < 2 ^ 63

def File.size (file : File) : ℕ := file.bytes.length

/-- "GGUF" in ASCII. -/
def ggufMagic : Bytes := [0x47, 0x47, 0x55, 0x46]

structure GgufHeader where
  version : ℕ
  tensorCount : ℕ
  metadataKvCount : ℕ
  totalSizeBytes : ℕ
  deriving DecidableEq

/-! ## Reading -/

/-- `u32::from_le_bytes` and `u64::from_le_bytes`. -/
def fromLeBytes (bytes : Bytes) : ℕ := bytes.foldr (fun b n => b.toNat + 256 * n) 0

/-- A sum or a product of `u64`. -/
def wrap (n : ℕ) : ℕ := n % 2 ^ 64

def unexpectedEof : String := "failed to fill whole buffer"

/-- `file.seek(SeekFrom::Start(pos))` and `read_exact`. -/
def File.readAt (file : File) (pos count : ℕ) : Except String Bytes :=
  if 2 ^ 63 ≤ pos then .error "Invalid argument (os error 22)"
  else if pos + count ≤ file.size then .ok ((file.bytes.drop pos).take count)
  else .error unexpectedEof

/-- A byte by `{:02x}`. -/
def hex (b : UInt8) : String :=
  let digit := fun n => String.ofList [Nat.digitChar n]
  digit (b.toNat / 16) ++ digit (b.toNat % 16)

/-! ## One pair -/

section Pair

variable (file : File)

/-- What the value of a pair takes; the position is that of the value. -/
def valSize (pos valType : ℕ) : Except String ℕ :=
  match valType with
  | 0 | 1 => .ok 1
  | 2 | 3 => .ok 2
  | 4 | 5 | 6 => .ok 4
  | 7 => .ok 1
  | 8 =>
      if wrap (pos + 8) > file.size then
        .error ("GGUF string value length out of bounds at byte " ++ toString pos)
      else (file.readAt pos 8).map fun strLenBytes => wrap (8 + fromLeBytes strLenBytes)
  | 9 =>
      if wrap (wrap (pos + 4) + 8) > file.size then
        .error ("GGUF array header out of bounds at byte " ++ toString pos)
      else
        -- the element type is read and not used
        (file.readAt pos 12).map fun header => wrap (12 + wrap (fromLeBytes (header.drop 4) * 4))
  | 10 | 11 | 12 => .ok 8
  | 13 | 14 => .ok 2
  | _ => .error ("unknown GGUF metadata value type: " ++ toString valType)

/-- A round of the loop: the position after the pair. -/
def checkPair (i pos : ℕ) : Except String ℕ :=
  if pos ≥ file.size then
    .error ("GGUF metadata KV pair " ++ toString i ++ " extends beyond file at byte " ++
      toString pos)
  else
    (file.readAt pos 8).bind fun keyLenBytes =>
      let pos := wrap (pos + wrap (8 + fromLeBytes keyLenBytes))
      if wrap (pos + 4) > file.size then
        .error ("GGUF metadata value type out of bounds at byte " ++ toString pos)
      else
        (file.readAt pos 4).bind fun valTypeBytes =>
          let pos := wrap (pos + 4)
          (valSize file pos (fromLeBytes valTypeBytes)).bind fun valSize =>
            let pos := wrap (pos + valSize)
            if pos > file.size then
              .error ("GGUF metadata KV pair " ++ toString i ++ " exceeds file at byte " ++
                toString pos)
            else .ok pos

/-- The loop from pair `i` on, with how many pairs are left. -/
def checkPairs : ℕ → ℕ → ℕ → Except String Unit
  | 0, _, _ => .ok ()
  | left + 1, i, pos => (checkPair file i pos).bind fun pos => checkPairs left (i + 1) pos

end Pair

/-! ## The header -/

def minSize : ℕ := 16

def validateGguf (file : File) : Except String GgufHeader :=
  if file.size < minSize then
    .error ("file too small for GGUF header: " ++ toString file.size ++ " bytes (minimum 16)")
  else
    ((file.readAt 0 4).mapError fun e => "failed to read magic bytes: " ++ e).bind fun magic =>
      if magic ≠ ggufMagic then
        .error ("invalid GGUF magic: expected 'GGUF' (0x47475546), got [" ++
          ", ".intercalate (magic.map hex) ++ "]")
      else
        (file.readAt 4 4).bind fun versionBytes =>
          let version := fromLeBytes versionBytes
          if version < 1 ∨ version > 3 then
            .error ("unsupported GGUF version: " ++ toString version ++ " (expected 1-3)")
          else
            (file.readAt 8 8).bind fun tensorBytes =>
              (file.readAt 16 8).bind fun kvBytes =>
                let metadataKvCount := fromLeBytes kvBytes
                (checkPairs file metadataKvCount 0 24).map fun _ =>
                  ⟨version, fromLeBytes tensorBytes, metadataKvCount, file.size⟩

/-- The file is taken for a model. -/
def Accepts (file : File) : Prop := ∃ header, validateGguf file = .ok header

end NiraOS.AiDaemon.Validator
