import NiraOS.Lib.Transition
import Mathlib.Logic.Function.Basic

/-!
# Changing the wallpaper

`change_wallpaper` (`core/action-manager/src/actions/desktop.rs`).  A call copies its source to a
temporary file next to the store, named by the process and the clock, and renames it.  Any number
of calls run at once, and between two steps of one the others may take any number.

An open file is an inode: what a call writes goes to the file that it has created, whatever name
that file has by then.  A call that has failed removes its temporary name, whoever has created
the file behind it.
-/

namespace NiraOS.ActionManager.Wallpaper

abbrev Content := List UInt8

abbrev Inode := ℕ

/-! ## What is checked first -/

/-- What the file system and the clock say of a source. -/
structure Checks where
  exists_ : Bool
  isFile : Bool
  len : Except String ℕ
  extension : Option String
  storeDirIsDir : Bool
  /-- The nanoseconds since the epoch. -/
  clock : Except String ℕ

def storeDir : String := "/var/lib/niraos/desktop"

def wallpaperStore : String := storeDir ++ "/wallpaper.png"

/-- The clock reading of a source that may be installed. -/
def validate (path : String) (checks : Checks) : Except String ℕ := do
  if !checks.exists_ then
    throw ("wallpaper file does not exist: " ++ path)
  if !checks.isFile then
    throw ("wallpaper path is not a regular file: " ++ path)
  let len ← checks.len
  if len = 0 then
    throw ("wallpaper file is empty: " ++ path)
  if len > 50 * 1024 * 1024 then
    throw "wallpaper file exceeds 50 MB limit"
  let ext := (checks.extension.map String.toLower).getD ""
  if ext ∉ ["png", "jpg", "jpeg", "bmp", "svg", "webp"] then
    throw ("unsupported wallpaper format: ." ++ ext ++ " (expected png/jpg/bmp/svg/webp)")
  if !checks.storeDirIsDir then
    throw ("wallpaper state directory is unavailable: " ++ storeDir)
  checks.clock

def failedToInstall (error : String) : String :=
  "failed to install wallpaper at " ++ wallpaperStore ++ ": " ++ error

/-! ## Calls -/

inductive Pc
  | validating
  | opening (nonce : ℕ)
  | creating (nonce : ℕ)
  /-- The file behind the open handle, and how much of the source is in it. -/
  | copying (nonce : ℕ) (file : Inode) (written : ℕ)
  | syncing (nonce : ℕ)
  /-- `set_unix_perms` asks for the metadata of the temporary name. -/
  | inspecting (nonce : ℕ)
  | permitting (nonce : ℕ)
  | installing (nonce : ℕ)
  | cleaning (nonce : ℕ) (error : String)
  | returned (result : Except String Unit)

/-- The nonce of a call that still runs. -/
def Pc.nonce? : Pc → Option ℕ
  | .validating | .returned _ => none
  | .opening nonce | .creating nonce | .copying nonce _ _ | .syncing nonce | .inspecting nonce
  | .permitting nonce | .installing nonce | .cleaning nonce _ => some nonce

structure Call where
  path : String
  source : Content
  pc : Pc

structure State where
  inodes : Inode → Content
  nextInode : Inode
  /-- The file under the name of the store. -/
  store : Option Inode
  /-- The files under the temporary names of this process, by nonce. -/
  temp : ℕ → Option Inode
  calls : ℕ → Option Call
  next : ℕ
  /-- What the store held before the first call. -/
  before : Option Content
  /-- What was renamed to the store, and by which call. -/
  installs : List (ℕ × Content)

/-- Before the first call. -/
def State.new (before : Option Content) : State where
  inodes _ := before.getD []
  nextInode := 1
  store := before.map fun _ => 0
  temp _ := none
  calls _ := none
  next := 0
  before := before
  installs := []

/-- What a reader of the store sees. -/
def State.content (s : State) : Option Content := s.store.map s.inodes

def State.goto (s : State) (t : ℕ) (call : Call) (pc : Pc) : State :=
  { s with calls := Function.update s.calls t (some { call with pc := pc }) }

inductive Event
  | change (path : String) (source : Content)
  | validate (t : ℕ) (checks : Checks)
  /-- The next step of a call; it fails when there is an error.  `count` is how much a step of
  `io::copy` writes, less one. -/
  | advance (t : ℕ) (count : ℕ) (error : Option String)

/-- `O_CREAT | O_EXCL`, on a name that is free. -/
def State.create (s : State) (nonce : ℕ) : State :=
  { s with
    inodes := Function.update s.inodes s.nextInode []
    nextInode := s.nextInode + 1
    temp := Function.update s.temp nonce (some s.nextInode) }

def State.write (s : State) (file : Inode) (bytes : Content) : State :=
  { s with inodes := Function.update s.inodes file (s.inodes file ++ bytes) }

def State.remove (s : State) (nonce : ℕ) : State :=
  { s with temp := Function.update s.temp nonce none }

/-- The temporary name of `nonce` becomes the store. -/
def State.install (s : State) (t nonce : ℕ) (file : Inode) : State :=
  { s.remove nonce with store := some file, installs := s.installs ++ [(t, s.inodes file)] }

def notFound : String := "No such file or directory (os error 2)"

/-- What a call that does not fail does next. -/
def proceed (s : State) (t : ℕ) (call : Call) (count : ℕ) : Option State :=
  match call.pc with
  | .validating | .returned _ => none
  | .opening nonce => some (s.goto t call (.creating nonce))
  | .creating nonce =>
      match s.temp nonce with
      | some _ => some (s.goto t call (.cleaning nonce "File exists (os error 17)"))
      | none => some ((s.create nonce).goto t call (.copying nonce s.nextInode 0))
  | .copying nonce file written =>
      if written < call.source.length then
        some ((s.write file ((call.source.drop written).take (count + 1))).goto t call
          (.copying nonce file (written + (count + 1))))
      else some (s.goto t call (.syncing nonce))
  | .syncing nonce => some (s.goto t call (.inspecting nonce))
  | .inspecting nonce =>
      match s.temp nonce with
      | none => some (s.goto t call (.cleaning nonce notFound))
      | some _ => some (s.goto t call (.permitting nonce))
  | .permitting nonce =>
      match s.temp nonce with
      | none => some (s.goto t call (.cleaning nonce notFound))
      | some _ => some (s.goto t call (.installing nonce))
  | .installing nonce =>
      match s.temp nonce with
      | none => some (s.goto t call (.cleaning nonce notFound))
      | some file => some ((s.install t nonce file).goto t call (.returned (.ok ())))
  | .cleaning nonce error =>
      some ((s.remove nonce).goto t call (.returned (.error (failedToInstall error))))

/-- The next step of a call.  Whether the name could be removed is not looked at. -/
def advance (s : State) (t : ℕ) (call : Call) (count : ℕ) (error : Option String) : Option State :=
  match call.pc, error with
  | .cleaning .., _ | _, none => proceed s t call count
  | pc, some error => pc.nonce?.map fun nonce => s.goto t call (.cleaning nonce error)

def step (s : State) : Event → Option State
  | .change path source =>
      some ({ s with next := s.next + 1 }.goto s.next ⟨path, source, .validating⟩ .validating)
  | .validate t checks =>
      match s.calls t with
      | some call =>
          match call.pc, validate call.path checks with
          | .validating, .ok nonce => some (s.goto t call (.opening nonce))
          | .validating, .error error => some (s.goto t call (.returned (.error error)))
          | _, _ => none
      | none => none
  | .advance t count error =>
      match s.calls t with
      | some call => advance s t call count error
      | none => none

def system : Transition.System State Event where
  init s := ∃ before, s = .new before
  step := step

end NiraOS.ActionManager.Wallpaper
