import NiraOS.Desktop.DesktopFile
import NiraOS.Desktop.Names
import NiraOS.Desktop.SplitCommand
import NiraOS.Lib.TextStream
import Mathlib.Data.List.Sort

/-!
# The icons on the desktop

`scanDirectory` and `entryFromInfo` of `DesktopIconModel`
(`desktop/shell/src/DesktopIconModel.cpp`), on a file tree.  Times, sizes, permissions and MIME
types are left out.
-/

namespace NiraOS.Desktop

open FileTree (attempt fileAt openTruncate)
open TextStream (readAll textMode)
open PathText (splitSuffix)
open Utf8 (Bytes encode)

/-- What the model gets from Qt and the system, and `showHidden_`. -/
structure Env where
  /-- How many links may be followed. -/
  limit : ℕ
  desktopPath : List String
  showHidden : Bool
  /-- The order of `QDir::Name`. -/
  nameLe : String → String → Bool
  /-- The entries that cannot be opened for reading. -/
  unreadable : String → Bool
  /-- `QUrl::toLocalFile`, where `isLocalFile`. -/
  localFile : String → Option String
  /-- What the decoder makes of bytes that are not UTF-8. -/
  replaced : Bytes → String
  /-- The icon of an entry that is no shortcut and no directory. -/
  fileIcon : String → String

structure DesktopEntry where
  filePath : List String
  name : String
  targetPath : String
  iconName : String
  exec : String
  isDirectory : Bool
  isShortcut : Bool
  isHidden : Bool
  deriving DecidableEq

/-! ## Scanning -/

section Scanning

variable (env : Env) (t : Tree)

def Env.pathOf (fileName : String) : Steps := env.desktopPath.map .down ++ [.down fileName]

/-- The names in the desktop's directory, directories first, without broken links. -/
def entryInfoList : List String :=
  match t.seek env.limit (env.desktopPath.map .down) with
  | none => []
  | some d =>
      let names := (t.children d).filter fun name => (t.seek env.limit (env.pathOf name)).isSome
      (names.filter fun name => isDir env.limit t (env.pathOf name)).insertionSort (fun a b =>
        env.nameLe a b) ++
        (names.filter fun name => !isDir env.limit t (env.pathOf name)).insertionSort (fun a b =>
          env.nameLe a b)

def isHidden (fileName : String) : Bool := fileName.toList.head? = some '.'

/-- Case folding, as far as it comes to letters of ASCII. -/
def foldCase (c : Char) : Char :=
  if c = '\u017f' then 's'
  else if c = '\u212a' then 'k'
  else c.toLower

/-- The suffix is compared without regard to case. -/
def isDesktopFile (fileName : String) : Bool :=
  (splitSuffix fileName).2.toList.map foldCase = "desktop".toList

/-- The target of a shortcut. -/
def targetOf (f : Fields) : String :=
  let target := if f.path = "" ∧ f.url ≠ "" then (env.localFile f.url).getD f.url else f.path
  if target = "" ∧ f.exec ≠ "" then (splitCommand f.exec).headD "" else target

/-- `parseDesktopFile`, of the bytes of the file if it could be opened. -/
def parseDesktopFile (bytes : Option Bytes) (entry : DesktopEntry) : DesktopEntry :=
  match bytes with
  | none => { entry with iconName := "text-x-generic" }
  | some bytes =>
      let f := parse (readAll env.replaced (textMode bytes))
      { entry with
        name := if f.name = "" then entry.name else f.name
        iconName := if f.icon = "" then "application-x-desktop" else f.icon
        exec := f.exec
        targetPath := targetOf env f }

def entryFromInfo (fileName : String) : DesktopEntry :=
  let dir := isDir env.limit t (env.pathOf fileName)
  let entry : DesktopEntry :=
    ⟨env.desktopPath ++ [fileName], fileName, "", "", "", dir, false, isHidden fileName⟩
  if isDesktopFile fileName then
    parseDesktopFile env (if env.unreadable fileName then none
      else fileAt env.limit t (env.pathOf fileName))
      { entry with isShortcut := true }
  else if dir then { entry with iconName := "folder" }
  else { entry with iconName := env.fileIcon fileName }

def scanDirectory : List DesktopEntry :=
  ((entryInfoList env t).filter fun fileName => env.showHidden || !isHidden fileName).map
    (entryFromInfo env t)

end Scanning

section Entries

variable {env : Env} {t : Tree} {d : List String} {fileName : String} {e : DesktopEntry}

theorem mem_entryInfoList (hd : t.seek env.limit (env.desktopPath.map .down) = some d) :
    fileName ∈ entryInfoList env t ↔
      t.node (d ++ [fileName]) ≠ none ∧ (t.seek env.limit (env.pathOf fileName)).isSome = true := by
  unfold entryInfoList
  rw [hd]
  simp only [List.mem_append, List.mem_insertionSort, List.mem_filter, FileTree.mem_children]
  cases isDir env.limit t (env.pathOf fileName) <;> simp

@[simp] theorem filePath_parseDesktopFile (env : Env) (bytes : Option Bytes) (e : DesktopEntry) :
    (parseDesktopFile env bytes e).filePath = e.filePath := by
  cases bytes <;> simp only [parseDesktopFile]

@[simp] theorem isShortcut_parseDesktopFile (env : Env) (bytes : Option Bytes) (e : DesktopEntry) :
    (parseDesktopFile env bytes e).isShortcut = e.isShortcut := by
  cases bytes <;> simp only [parseDesktopFile]

theorem filePath_entryFromInfo (env : Env) (t : Tree) (fileName : String) :
    (entryFromInfo env t fileName).filePath = env.desktopPath ++ [fileName] := by
  unfold entryFromInfo
  dsimp only
  split_ifs <;> simp

end Entries

end NiraOS.Desktop
