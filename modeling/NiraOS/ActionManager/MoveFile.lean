import NiraOS.Lib.StdFs

/-!
# Moving a file

`move_file_safely` (`core/action-manager/src/actions/filesystem.rs`).  The tree is what the
manager can see of the file system, and nothing else changes it during a call.

What a move needs is `IsMove`, read off the two texts.  The same validator is applied to the
source, which must exist, and to the destination, which must not:

```text
at the destination           exists()    validate_no_symlinks
nothing                      false       cannot inspect path component
a link that leads nowhere    false       symbolic link in path component
a file or a directory        true        not reached
a link to one of these       true        not reached
```

So no call gets to the rename (`moveFileSafely_refuses`).
-/

namespace NiraOS.ActionManager.MoveFile

open PathText StdFs

/-! ## The code -/

section Code

variable (os : Os) (t : Tree)

def isSymlink : Node String Content → Bool
  | .link _ => true
  | _ => false

def validateNoSymlinks (current : List String) : Except String Unit :=
  match os.symlinkMetadata t current with
  | .error e => .error ("cannot inspect path component " ++ display current ++ ": " ++ e)
  | .ok found =>
      if isSymlink found then .error ("symbolic link in path component: " ++ display current)
      else
        match _h : parent current with
        | none => .ok ()
        | some rest => validateNoSymlinks rest
termination_by current.length
decreasing_by exact length_lt_of_parent _h

/-- `Path::new("/home/nira")`. -/
def home : List String := ["home", "nira"]

/-- `ok_or_else`. -/
def okOr {α : Type} (error : String) : Option α → Except String α
  | some value => .ok value
  | none => .error error

/-- Everything before the rename: from where to where it goes. -/
def checkMove (src dest : String) : Except String (Location × Location) := do
  let allowedRoot ← os.canonicalize t home
  match pieces? src, pieces? dest with
  | some sourceRaw, some destination =>
      if os.exists t destination then
        throw "destination already exists"
      validateNoSymlinks os t sourceRaw
      validateNoSymlinks os t destination
      let source ← os.canonicalize t sourceRaw
      if !allowedRoot.isPrefixOf source || !isFile t source then
        throw "source must be a regular file under /home/nira"
      let directory ← okOr "destination has no parent directory" (parent destination)
      let destinationParent ← os.canonicalize t directory
      if !allowedRoot.isPrefixOf destinationParent then
        throw "destination must remain under /home/nira"
      let name ← okOr "destination has no file name" (fileName destination)
      return (source, destinationParent ++ [name])
  | _, _ => throw "absolute paths are required for file moves"

/-- The answer, and the file system after it. -/
def moveFileSafely (src dest : String) : Except String Unit × Tree :=
  match checkMove os t src dest with
  | .error e => (.error e, t)
  | .ok (p, q) =>
      match os.rename t p q with
      | none => (.error (os.error dest), t)
      | some t' => (.ok (), t')

end Code

/-! ## What a move is -/

section Specification

variable (os : Os) (t : Tree)

/-- No component of a path is a symbolic link. -/
def LinkFree (path : List String) : Prop :=
  ∀ pre ∈ (components path).inits, ∀ n ∈ (t.seekEntry os.linkLimit pre).bind t.node,
    isSymlink n = false

/-- A move that the two texts ask for, and the tree after it. -/
structure Move (src dest : String) where
  source : List String
  destination : List String
  directory : List String
  name : String
  root : Location
  file : Location
  place : Location
  after : Tree
  source_eq : pieces? src = some source
  destination_eq : pieces? dest = some destination
  directory_eq : parent destination = some directory
  name_eq : fileName destination = some name
  root_eq : t.seek os.linkLimit (steps home) = some root
  file_eq : t.seek os.linkLimit (steps source) = some file
  place_eq : t.seek os.linkLimit (steps directory) = some place
  linkFree : LinkFree os t source ∧ LinkFree os t directory
  regular : isFile t file = true
  inside : root <+: file ∧ root <+: place
  free : t.node (place ++ [name]) = none
  renamed : os.rename t file (place ++ [name]) = some after

structure MeetsSpecification (src dest : String) : Prop where
  ok_iff : (moveFileSafely os t src dest).1 = .ok () ↔ Nonempty (Move os t src dest)
  moved : (moveFileSafely os t src dest).1 = .ok () →
    ∃ move : Move os t src dest, (moveFileSafely os t src dest).2 = move.after
  unchanged : ∀ e, (moveFileSafely os t src dest).1 = .error e →
    (moveFileSafely os t src dest).2 = t

end Specification

/-! ## Every call is refused -/

section Refusal

variable {os : Os} {t : Tree}

/-- What the validator accepts is there. -/
theorem exists_of_validateNoSymlinks {path : List String}
    (h : validateNoSymlinks os t path = .ok ()) :
    os.exists t path = true := by
  unfold validateNoSymlinks at h
  split at h
  · nomatch h
  · next found hfound =>
      split at h
      · nomatch h
      · next hlink =>
          unfold Os.symlinkMetadata at hfound
          split at hfound
          · next n hn =>
              obtain rfl := Except.ok.inj hfound
              obtain ⟨e, he, hnode⟩ := Option.bind_eq_some_iff.mp hn
              have hseek := FileTree.seek_of_seekEntry he fun target heq => by
                obtain rfl := Option.some.inj (hnode.symm.trans heq)
                exact hlink rfl
              exact Option.isSome_iff_exists.mpr ⟨e, hseek⟩
          · nomatch hfound

/-- What a sequence of fallible steps returns, the first of them has let through. -/
theorem exists_of_bind_eq_ok {ε α β : Type} {x : Except ε α} {f : α → Except ε β} {b : β}
    (h : x >>= f = .ok b) : ∃ a, x = .ok a ∧ f a = .ok b := by
  cases x with
  | error e => nomatch h
  | ok a => exact ⟨a, rfl, h⟩

theorem checkMove_ne_ok (src dest : String) (places : Location × Location) :
    checkMove os t src dest ≠ .ok places := by
  intro h
  unfold checkMove at h
  obtain ⟨root, -, h⟩ := exists_of_bind_eq_ok h
  split at h
  · next source destination _ _ =>
      -- the destination is not there, so the validator cannot inspect it
      by_cases hexists : os.exists t destination = true
      · rw [if_pos hexists] at h
        nomatch h
      · rw [if_neg hexists] at h
        obtain ⟨-, -, h⟩ := exists_of_bind_eq_ok h
        obtain ⟨⟨⟩, hvalid, -⟩ := exists_of_bind_eq_ok h
        exact hexists (exists_of_validateNoSymlinks hvalid)
  · nomatch h

theorem moveFileSafely_refuses (os : Os) (t : Tree) (src dest : String) :
    ∃ e, moveFileSafely os t src dest = (.error e, t) := by
  unfold moveFileSafely
  cases h : checkMove os t src dest with
  | error e => exact ⟨e, rfl⟩
  | ok places => exact absurd h (checkMove_ne_ok src dest places)

/-- **Moving a file** is as specified where no move is possible, and there only. -/
theorem meetsSpecification_iff (os : Os) (t : Tree) (src dest : String) :
    MeetsSpecification os t src dest ↔ ¬ Nonempty (Move os t src dest) := by
  obtain ⟨e, he⟩ := moveFileSafely_refuses os t src dest
  have hrefused : (moveFileSafely os t src dest).1 ≠ .ok () := by
    rw [he]
    nofun
  constructor
  · intro h
    exact fun hmove => hrefused (h.ok_iff.mpr hmove)
  · intro hnone
    refine ⟨⟨fun hok => absurd hok hrefused, fun hmove => absurd hmove hnone⟩,
      fun hok => absurd hok hrefused, fun _ _ => by rw [he]⟩

end Refusal

/-! ## A file in the home directory -/

section Homely

def homely : Tree :=
  (FileTree.empty.grow
    [(["home"], .dir), (["home", "nira"], .dir), (["home", "nira", "a"], .file (.regular []))]).getD
      .empty

theorem rename_homely :
    (calmOs.rename homely ["home", "nira", "a"] ["home", "nira", "b"]).isSome = true := by
  decide +kernel

def moveOfHomely : Move calmOs homely "/home/nira/a" "/home/nira/b" where
  source := ["home", "nira", "a"]
  destination := ["home", "nira", "b"]
  directory := ["home", "nira"]
  name := "b"
  root := ["home", "nira"]
  file := ["home", "nira", "a"]
  place := ["home", "nira"]
  after := (calmOs.rename homely ["home", "nira", "a"] ["home", "nira", "b"]).get rename_homely
  source_eq := by decide +kernel
  destination_eq := by decide +kernel
  directory_eq := by decide +kernel
  name_eq := by decide +kernel
  root_eq := by decide +kernel
  file_eq := by decide +kernel
  place_eq := by decide +kernel
  linkFree := by
    unfold LinkFree
    decide +kernel
  regular := by decide +kernel
  inside := by decide +kernel
  free := by decide +kernel
  renamed := Option.some_get rename_homely |>.symm

/-- A regular file next to which nothing is in the way cannot be moved. -/
theorem not_meetsSpecification_homely :
    ¬ MeetsSpecification calmOs homely "/home/nira/a" "/home/nira/b" := by
  intro h
  obtain ⟨e, he⟩ := moveFileSafely_refuses calmOs homely "/home/nira/a" "/home/nira/b"
  have hok := h.ok_iff.mpr ⟨moveOfHomely⟩
  rw [he] at hok
  nomatch hok

end Homely

end NiraOS.ActionManager.MoveFile
