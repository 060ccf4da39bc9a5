import NiraOS.Lib.FileTree.Files
import Mathlib.Algebra.GroupWithZero.Nat
import Mathlib.Algebra.Notation.Pi.Defs

/-!
# The file system as the file manager sees it

What `FileOperations` uses of Qt and of the system, on a file tree.  A path is absolute and
clean, the list of its names.  `exists`, `isDir` and the listing of a directory follow links, as
`QFileInfo` does; removing and renaming act on the entry itself; nothing overwrites an existing
target.  Each primitive may fail, and which do is up to the environment.

Of a file that is written nothing is there until all of it is.
-/

namespace NiraOS.Files

abbrev Path := List String

abbrev Tree := FileTree String String

/-- What comes of `gio trash`; exit code 0 means that the entry is in the Trash. -/
inductive Gio
  | missing
  | failed
  | trashed (place : List String)

/-- What may fail. -/
inductive Primitive
  /-- The system's rename of an entry. -/
  | rename
  /-- A directory that is made, or a file that is copied. -/
  | make
  /-- A file that is opened for writing, or written. -/
  | write
  /-- A file or a directory that is removed. -/
  | remove
  deriving DecidableEq

structure Env where
  linkLimit : ℕ
  /-- The primitives of a kind that fail, by the order in which they are called. -/
  fails : Primitive → ℕ → Bool
  /-- The order of a listing. -/
  order : Path → List String → List String
  order_perm : ∀ path names, (order path names).Perm names
  gio : Gio
  /-- `Trash/files` of the user. -/
  trashDir : Path
  /-- `QFile::errorString` of a file that could not be opened. -/
  errorString : String

structure World where
  tree : Tree
  /-- How many primitives of a kind were called. -/
  calls : Primitive → ℕ

/-- One more call. -/
def World.count (w : World) (primitive : Primitive) : World :=
  { w with calls := Function.update w.calls primitive (w.calls primitive + 1) }

/-! ## Queries -/

section Queries

variable (env : Env) (t : Tree)

def Env.locate (path : Path) : Option (List String) := t.locate env.linkLimit path

/-- The entry that a path names, whether or not anything is there. -/
def Env.entry (path : Path) : Option (List String) := t.entry env.linkLimit path

/-- `QFileInfo::exists`. -/
def Env.exists (path : Path) : Bool := (env.locate t path).isSome

/-- `QFileInfo::isDir` and `QDir::exists`. -/
def Env.isDir (path : Path) : Bool :=
  match env.locate t path with
  | none => false
  | some d => t.node d = some .dir

def isHidden (name : String) : Bool := name.toList.head? = some '.'

/-- An entry of a listing, with what is known of it then. -/
structure FileInfo where
  fileName : String
  isDir : Bool

/-- `QDir::AllEntries | QDir::NoDotAndDotDot`: neither hidden entries nor broken links. -/
def Env.entryInfoList (path : Path) : List FileInfo :=
  match env.locate t path with
  | none => []
  | some d =>
      (env.order path ((t.children d).filter fun name =>
        !isHidden name && env.exists t (path ++ [name]))).map fun name =>
          ⟨name, env.isDir t (path ++ [name])⟩

end Queries

/-! ## Primitives -/

section Primitives

variable (env : Env)

/-- A primitive that fails changes nothing. -/
def attempt (primitive : Primitive) (effect : Tree → Option Tree) : Command World := fun w =>
  if env.fails primitive (w.calls primitive) then (some false, w.count primitive)
  else
    match effect w.tree with
    | none => (some false, w.count primitive)
    | some t => (some true, { w.count primitive with tree := t })

/-- One step of `QFile::rename`. -/
def renameStep : FileTree.RenameStep → (Tree → Option Tree) → Command World
  | .rename => attempt env .rename
  | .opening | .write => attempt env .write
  | .remove => attempt env .remove

/-- `QFile::rename`. -/
def QFile.rename (source dest : Path) : Command World :=
  FileTree.rename World.tree (renameStep env) env.linkLimit (source.map .down) (dest.map .down)

def QFile.copied (source dest : Path) (t : Tree) : Option Tree :=
  if env.exists t dest then none
  else
    match (env.locate t source).bind t.node with
    | some (.file content) => (env.entry t dest).bind fun q => t.tryInsert q (.file content)
    | _ => none

/-- `QFile::copy`, of the file that a link leads to if the source is one. -/
def QFile.copy (source dest : Path) : Command World :=
  attempt env .make (QFile.copied env source dest)

def QFile.removed (path : Path) (t : Tree) : Option Tree :=
  FileTree.removed env.linkLimit t (path.map .down)

/-- `QFile::remove`. -/
def QFile.remove (path : Path) : Command World := attempt env .remove (QFile.removed env path)

def QDir.removedDir (path : Path) (t : Tree) : Option Tree :=
  (env.entry t path).bind fun p =>
    match t.node p with
    | some .dir => t.tryErase p
    | _ => none

/-- `QDir::rmdir`. -/
def QDir.rmdir (path : Path) : Command World := attempt env .remove (QDir.removedDir env path)

def QDir.madeDir (path : Path) (t : Tree) : Option Tree :=
  (env.entry t path).bind fun q => t.tryInsert q .dir

/-- One directory of `QDir::mkpath`. -/
def QDir.mkdir (path : Path) : Command World := fun w =>
  if env.isDir w.tree path then (some true, w) else attempt env .make (QDir.madeDir env path) w

/-- `QDir::mkpath`. -/
def QDir.mkpath (path : Path) : Command World := Command.forEach (QDir.mkdir env) path.inits

/-- `QFile::open(QIODevice::WriteOnly)`: the file is truncated, or created. -/
def QFile.opened (path : Path) (t : Tree) : Option Tree :=
  (FileTree.openTruncate env.linkLimit t (path.map .down)).map Prod.snd

def QFile.openWriteOnly (path : Path) : Command World := attempt env .write (QFile.opened env path)

/-- `gio trash`. -/
def gioTrash (path : Path) : Command World := fun w =>
  match env.gio with
  | .missing | .failed => (some false, w)
  | .trashed place =>
      match (env.entry w.tree path).bind fun p =>
        if (w.tree.node p).isSome then w.tree.tryRelocate p place else none with
      | none => (some false, w)
      | some t => (some true, { w with tree := t })

end Primitives

end NiraOS.Files
