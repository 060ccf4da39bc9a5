import NiraOS.Files.Qt
import NiraOS.Lib.PathText
import NiraOS.Lib.QString

/-!
# The file manager's operations

`FileOperations` (`apps/files/src/FileOperations.cpp`).  The recursions over directories take
fuel; everything else follows the source.  `moveToTrash` and `performMove` are cut before their
last step, since what that step meets decides whether they are safe: `copyToTrash` and
`copyAway` are what comes before it.

`getFileInfo`, `openFile` and the like change nothing and are left out.
-/

namespace NiraOS.Files

open PathText (splitSuffix)

/-! ## Names -/

def fileName (path : Path) : String := path.getLastD ""

/-- The extension with its dot. -/
def dotted (ext : String) : String := if ext = "" then "" else "." ++ ext

/-- Names that would escape the parent directory are refused. -/
def isSafeName (name : String) : Bool :=
  name ≠ "" && name ≠ "." && name ≠ ".." && !name.toList.contains '/' && !name.toList.contains '\\'

/-- The first candidate that is not taken, or else the last one. -/
def firstFree (taken : Path → Bool) (candidate : ℕ → Path) (i : ℕ) : ℕ → Path
  | 0 => candidate i
  | more + 1 => if taken (candidate i) then firstFree taken candidate (i + 1) more else candidate i

/-! ## The recursions -/

section Recursions

variable (env : Env)

/-- The loop over a directory that is copied. -/
def copyEntries (copyDir : Path → Path → Command World) (sourceDir destDir : Path) :
    List FileInfo → Command World :=
  Command.forEach fun entry =>
    if entry.isDir then copyDir (sourceDir ++ [entry.fileName]) (destDir ++ [entry.fileName])
    else QFile.copy env (sourceDir ++ [entry.fileName]) (destDir ++ [entry.fileName])

def performRecursiveCopy : ℕ → Path → Path → Command World
  | 0, _, _ => .outOfFuel
  | fuel + 1, sourceDir, destDir => fun w =>
      if env.isDir w.tree sourceDir then
        let entries : Command World := fun w =>
          copyEntries env (performRecursiveCopy fuel) sourceDir destDir
            (env.entryInfoList w.tree sourceDir) w
        if env.isDir w.tree destDir then entries w else (QDir.mkpath env destDir).andThen entries w
      else (some false, w)

/-- The loop over a directory that is deleted. -/
def deleteEntries (deleteDir : Path → Command World) (path : Path) :
    List FileInfo → Command World :=
  Command.forEach fun entry =>
    if entry.isDir then deleteDir (path ++ [entry.fileName])
    else QFile.remove env (path ++ [entry.fileName])

def performRecursiveDelete : ℕ → Path → Command World
  | 0, _ => .outOfFuel
  | fuel + 1, path => fun w =>
      if env.isDir w.tree path then
        (deleteEntries env (performRecursiveDelete fuel) path
          (env.entryInfoList w.tree path)).andThen
          (QDir.rmdir env path) w
      else (some true, w)

end Recursions

/-! ## Moving and deleting -/

section Performing

variable (env : Env) (fuel : ℕ)

/-- What a command comes to before its last step: it has ended, or the last step is next. -/
inductive Progress
  | ended (success : Option Bool)
  | next
  deriving DecidableEq

/-- The first free name in the Trash. -/
def trashTarget (t : Tree) (path : Path) : Path :=
  let base := (splitSuffix (fileName path)).1
  let ext := (splitSuffix (fileName path)).2
  firstFree (env.exists t) (fun i =>
    env.trashDir ++ [if i = 0 then fileName path
      else QString.arg (QString.arg (QString.arg "%1 (%2)%3" base) (toString i)) (dotted ext)])
        0 9999

/-- A directory with what is in it, or a file. -/
def copyAny (source target : Path) : Command World := fun w =>
  if env.isDir w.tree source then performRecursiveCopy env fuel source target w
  else QFile.copy env source target w

/-- `moveToTrash` until what was copied is to be deleted. -/
def copyToTrash (path : Path) (w : World) : Progress × World :=
  match gioTrash env path w with
  | (some true, w) => (.ended (some true), w)
  | (_, w) =>
      -- whether the directory could be made is not checked
      let w := (QDir.mkpath env env.trashDir w).2
      let target := trashTarget env w.tree path
      match QFile.rename env path target w with
      | (some true, w) => (.ended (some true), w)
      | (_, w) =>
          match copyAny env fuel path target w with
          | (some true, w) => (.next, w)
          | (success, w) => (.ended success, w)

def moveToTrash (path : Path) : Command World := fun w =>
  match copyToTrash env fuel path w with
  | (.ended success, w) => (success, w)
  | (.next, w) => performRecursiveDelete env fuel path w

def performDelete (path : Path) (permanent : Bool) : Command World := fun w =>
  if env.exists w.tree path then
    if permanent then
      if env.isDir w.tree path then performRecursiveDelete env fuel path w
        else QFile.remove env path w
    else moveToTrash env fuel path w
  else (some true, w)

/-- `performMove` until what was copied is to be deleted. -/
def copyAway (source dest : Path) (w : World) : Progress × World :=
  match QFile.rename env source dest w with
  | (some true, w) => (.ended (some true), w)
  | (_, w) =>
      match copyAny env fuel source dest w with
      | (some true, w) => (.next, w)
      | (success, w) => (.ended success, w)

def performMove (source dest : Path) : Command World := fun w =>
  match copyAway env fuel source dest w with
  | (.ended success, w) => (success, w)
  | (.next, w) => performDelete env fuel source false w

/-- A target that is a directory takes the source under its own name. -/
def resolveDestination (t : Tree) (source dest : Path) : Path :=
  if env.isDir t dest then dest ++ source.getLast?.toList else dest

end Performing

/-! ## The operations -/

/-- What an operation signals when it is finished. -/
structure Finished where
  success : Bool
  error : String
  deriving DecidableEq

/-- The signal of an operation that tries something; there is none while it runs. -/
def finished (result : Option Bool × World) (error : String) : Option Finished × World :=
  (result.1.map fun success => ⟨success, if success then "" else error⟩, result.2)

section Operations

variable (env : Env) (fuel : ℕ)

def FileOperations.copy (source dest : Path) (w : World) : Option Finished × World :=
  if env.exists w.tree source then
    finished (copyAny env fuel source (resolveDestination env w.tree source dest) w)
      ("Failed to copy " ++ fileName source)
  else (some ⟨false, "Source does not exist: /" ++ "/".intercalate source⟩, w)

def FileOperations.move (source dest : Path) (w : World) : Option Finished × World :=
  finished (performMove env fuel source (resolveDestination env w.tree source dest) w)
    ("Failed to move " ++ fileName source)

def FileOperations.rename (path : Path) (newName : String) (w : World) : Option Finished × World :=
  if isSafeName newName then
    let destPath := path.dropLast ++ [newName]
    if env.exists w.tree destPath ∧ destPath ≠ path then
      (some ⟨false, "A file named " ++ newName ++ " already exists."⟩, w)
    else finished (QFile.rename env path destPath w) ("Failed to rename to " ++ newName)
  else (some ⟨false, "Invalid name: " ++ newName⟩, w)

def FileOperations.delete_ (path : Path) (permanent : Bool) (w : World) : Option Finished × World :=
  finished (performDelete env fuel path permanent w) ("Failed to delete " ++ fileName path)

def FileOperations.createFolder (parentDir : Path) (name : String) (w : World) :
    Option Finished × World :=
  if isSafeName name then
    finished (QDir.mkpath env (parentDir ++ [name]) w) ("Failed to create folder " ++ name)
  else (some ⟨false, "Invalid folder name: " ++ name⟩, w)

def FileOperations.createFile (parentDir : Path) (name : String) (w : World) :
    Option Finished × World :=
  if isSafeName name then
    finished (QFile.openWriteOnly env (parentDir ++ [name]) w)
      ("Failed to create file " ++ name ++ ": " ++ env.errorString)
  else (some ⟨false, "Invalid file name: " ++ name⟩, w)

/-- The first free name for a copy beside the original. -/
def duplicateTarget (t : Tree) (path : Path) : Path :=
  let base := (splitSuffix (fileName path)).1
  let ext := (splitSuffix (fileName path)).2
  firstFree (env.exists t) (fun i =>
    path.dropLast ++ [if i = 1 then base ++ " (copy)" ++ dotted ext
      else QString.arg (QString.arg (QString.arg "%1 (copy %2)%3" base) (toString i)) (dotted ext)])
        1 998

def FileOperations.duplicate (path : Path) (w : World) : Option Finished × World :=
  finished (copyAny env fuel path (duplicateTarget env w.tree path) w)
    ("Failed to duplicate " ++ fileName path)

end Operations

/-! ## Calls -/

inductive Call
  | copy (source dest : Path)
  | move (source dest : Path)
  | rename (path : Path) (newName : String)
  | delete (path : Path) (permanent : Bool)
  | createFolder (parentDir : Path) (name : String)
  | createFile (parentDir : Path) (name : String)
  | duplicate (path : Path)

def perform (env : Env) (fuel : ℕ) : Call → World → Option Finished × World
  | .copy source dest => FileOperations.copy env fuel source dest
  | .move source dest => FileOperations.move env fuel source dest
  | .rename path newName => FileOperations.rename env path newName
  | .delete path permanent => FileOperations.delete_ env fuel path permanent
  | .createFolder parentDir name => FileOperations.createFolder env parentDir name
  | .createFile parentDir name => FileOperations.createFile env parentDir name
  | .duplicate path => FileOperations.duplicate env fuel path

end NiraOS.Files
