import Mathlib.Logic.Function.Basic
import Mathlib.Tactic.Common

/-!
# Notepad's file access

`FileDialogHelper` (`apps/notepad/src/main.cpp`): the file operations that the window calls.
A disk holds the texts of the regular files; which primitives fail is up to the caller.
-/

namespace NiraOS.Notepad

abbrev Disk := String → Option String

/-! ## Reading -/

/-- What `readFile` returns; `tooLarge` is a failure with the flag `too_large`. -/
inductive ReadResult
  | success (content : String)
  | tooLarge
  | failure

/-! ## Writing -/

/-- The primitives that fail during a `writeFile`. -/
structure WriteFaults where
  openFile : Bool := false
  write : Bool := false
  remove : Bool := false
  rename : Bool := false

def tmpPath (path : String) : String := path ++ ".nira-tmp"

/-- The text goes to a temporary file, which then takes the place of the file. -/
def writeFile (faults : WriteFaults) (disk : Disk) (path content : String) : Bool × Disk :=
  if path = "" then (false, disk)
  else if faults.openFile then (false, disk)
  else if faults.write then (false, Function.update disk (tmpPath path) none)
  else
    let disk := Function.update disk (tmpPath path) (some content)
    if (disk path).isSome && faults.remove then (false, Function.update disk (tmpPath path) none)
    else
      -- the destination is removed first
      let disk := Function.update disk path none
      if faults.rename then (false, Function.update disk (tmpPath path) none)
      else (true, Function.update (Function.update disk (tmpPath path) none) path (some content))

/-- No primitive fails that the write comes to. -/
def WriteFaults.Harmless (faults : WriteFaults) (disk : Disk) (path : String) : Prop :=
  path ≠ "" ∧ faults.openFile = false ∧ faults.write = false ∧
    ((disk path).isSome = true → faults.remove = false) ∧ faults.rename = false

theorem tmpPath_ne (path : String) : path ≠ tmpPath path := by
  intro h
  have hlength := congrArg String.length h
  rw [tmpPath, String.length_append] at hlength
  have hsuffix : ".nira-tmp".length = 9 := by decide
  omega

theorem writeFile_success (faults : WriteFaults) (disk : Disk) (path content : String) :
    (writeFile faults disk path content).1 = true ↔ faults.Harmless disk path := by
  unfold writeFile WriteFaults.Harmless
  dsimp only
  rw [Function.update_of_ne (tmpPath_ne path)]
  split_ifs with hpath hopen hwrite hremove hrename <;> simp_all

end NiraOS.Notepad
