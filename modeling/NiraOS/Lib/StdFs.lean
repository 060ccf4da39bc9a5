import NiraOS.Lib.FileTree.Edits
import NiraOS.Lib.PathText

/-!
# A file system through `std::fs`

The calls of Rust's `std::fs` and `std::path` on a file tree, each as one step.  A call that needs
something to be there fails with the text of an error, which is up to the system; `exists` and
`is_file` answer `false` instead.
-/

namespace StdFs

open PathText

inductive Content
  | regular (bytes : List UInt8)
  /-- A socket, a pipe or a device. -/
  | special
  deriving DecidableEq

abbrev Tree := FileTree String Content

abbrev Location := List String

structure Os where
  linkLimit : ℕ
  /-- The renames that fail although the tree would allow them. -/
  refuses : Location → Location → Bool
  /-- The text of the error of a call on a path. -/
  error : String → String

/-- A system that refuses nothing. -/
def calmOs : Os where
  linkLimit := 40
  refuses _ _ := false
  error _ := "No such file or directory (os error 2)"

section Calls

variable (os : Os) (t : Tree)

/-- `Path::exists`. -/
def Os.exists (path : List String) : Bool := (t.seek os.linkLimit (steps path)).isSome

/-- `fs::symlink_metadata`. -/
def Os.symlinkMetadata (path : List String) : Except String (Node String Content) :=
  match (t.seekEntry os.linkLimit (steps path)).bind t.node with
  | some n => .ok n
  | none => .error (os.error (display path))

/-- `Path::canonicalize`. -/
def Os.canonicalize (path : List String) : Except String Location :=
  match t.seek os.linkLimit (steps path) with
  | some p => .ok p
  | none => .error (os.error (display path))

/-- `Path::is_file`, of a canonical path. -/
def isFile (p : Location) : Bool :=
  match t.node p with
  | some (.file (.regular _)) => true
  | _ => false

/-- `fs::rename` of a regular file.  A file or a link at the target is replaced. -/
def Os.rename (p q : Location) : Option Tree :=
  if os.refuses p q then none
  else
    match t.node q with
    | none => t.tryRelocate p q
    | some .dir => none
    | some _ => if p = q then some t else (t.tryErase q).bind fun t => t.tryRelocate p q

end Calls

end StdFs
