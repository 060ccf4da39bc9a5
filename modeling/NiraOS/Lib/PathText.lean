import NiraOS.Lib.FileTree
import Mathlib.Data.List.DropRight

/-!
# Texts of absolute paths

An absolute path is a slash and a body, and is held as the pieces of its body between the
slashes; `display` gives the text back.  Pieces that are empty or `.` name nothing:

```text
text            pieces               parent       file name
/               [""]                 none         none
/a/b            ["a", "b"]           /a           b
//a/./b/        ["", "a", ".", "b", ""]  //a      b
/a/..           ["a", ".."]          /a           none
```
-/

namespace PathText

/-- The pieces of an absolute path. -/
def pieces? (text : String) : Option (List String) :=
  match text.toList with
  | '/' :: body => some ((body.splitOn '/').map String.ofList)
  | _ => none

def display (pieces : List String) : String :=
  String.ofList ('/' :: ['/'].intercalate (pieces.map String.toList))

def isTrivial (piece : String) : Bool := piece = "" || piece = "."

/-- The pieces up to the last that names something. -/
def trimmed (pieces : List String) : List String := pieces.rdropWhile isTrivial

/-- `Path::parent`, and what `PathBuf::pop` leaves. -/
def parent (pieces : List String) : Option (List String) :=
  match trimmed pieces with
  | [] => none
  | piece :: rest => some (trimmed (piece :: rest).dropLast)

/-- `Path::file_name`. -/
def fileName (pieces : List String) : Option String :=
  match (trimmed pieces).getLast? with
  | some name => if name = ".." then none else some name
  | none => none

/-- A piece as the system reads it.  One that names nothing still asks for a directory. -/
def step (piece : String) : Step String :=
  if isTrivial piece then .stay else if piece = ".." then .up else .down piece

def steps (pieces : List String) : List (Step String) := pieces.map step

/-- The pieces that name something. -/
def components (pieces : List String) : List (Step String) := (steps pieces).filter (· ≠ .stay)

/-- `QFileInfo::fileName`: what comes after the last slash. -/
def fileNameOf (path : String) : String :=
  String.ofList (path.toList.reverse.takeWhile (· ≠ '/')).reverse

/-- `completeBaseName` and `suffix`: what comes before and after the last dot. -/
def splitSuffix (name : String) : String × String :=
  if '.' ∈ name.toList then
    (String.ofList (name.toList.reverse.dropWhile (· ≠ '.')).tail.reverse,
      String.ofList (name.toList.reverse.takeWhile (· ≠ '.')).reverse)
  else (name, "")

theorem trimmed_length_le (pieces : List String) : (trimmed pieces).length ≤ pieces.length :=
  (List.rdropWhile_prefix _ _).length_le

theorem length_lt_of_parent {pieces rest : List String} (h : parent pieces = some rest) :
    rest.length < pieces.length := by
  unfold parent at h
  split at h
  · nomatch h
  · next piece tail heq =>
      obtain rfl := Option.some.inj h
      have hle := trimmed_length_le pieces
      rw [heq] at hle
      have hlt := trimmed_length_le (piece :: tail).dropLast
      rw [List.length_dropLast] at hlt
      rw [List.length_cons] at hle hlt
      omega

example : (pieces? "//a/./b/").bind parent = some ["", "a"] := by decide

end PathText
