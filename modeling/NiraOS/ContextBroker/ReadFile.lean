import NiraOS.Lib.FileTree.Places
import NiraOS.Lib.StdFs
import NiraOS.Lib.Transition
import NiraOS.Lib.Utf8

/-!
# Reading a file as context

`read_file_safely` (`core/context-broker/src/collectors/filesystem.rs`), one call to the system
at a time.  Between two of them the file system may change in any way.

The type, the size and the bytes are each looked up by the path that `canonicalize` has given, and
a path leads through whatever links are there by then:

```text
call            by             establishes
canonicalize    "/home/nira"   the home directory is here
canonicalize    the request    a path without links
is_file         that path      a regular file, in the home directory
metadata        that path      not over 500 000 bytes
read_to_string  that path
```

What a call has established is `Relied`, and a change that keeps it is harmless.  Under harmless
changes only, what a call returns has been read from an ordinary file of the user
(`ordinary_of_reachableWhere`).
-/

namespace NiraOS.ContextBroker.ReadFile

open PathText StdFs Transition

/-! ## The code -/

/-- `Path::new("/home/nira")`. -/
def home : List String := ["home", "nira"]

/-- Where a call stands, with the values that it holds. -/
inductive Point
  | start
  | rooted (requested : List String) (allowedRoot : Location)
  | resolved (allowedRoot canonical : Location)
  | typed (canonical : Location)
  | measured (canonical : Location)
  | failed (error : String)
  /-- The content; for the record, the file system that it was read from and where. -/
  | returned (content : String) (time : Tree) (place : Location)

section Calls

variable (os : Os) (t : Tree)

/-- The file that a path leads to. -/
def fileAt (path : Location) : Option (Location × Content) :=
  match t.locate os.linkLimit path with
  | none => none
  | some place =>
      match t.node place with
      | some (.file content) => some (place, content)
      | _ => none

/-- `Path::is_file`. -/
def isFileAt (path : Location) : Bool :=
  match fileAt os t path with
  | some (_, .regular _) => true
  | _ => false

/-- The length in `fs::metadata`; that of anything but a regular file is up to the system. -/
def metadataLen (other : ℕ) (path : Location) : Except String ℕ :=
  match (t.locate os.linkLimit path).bind t.node with
  | some (.file (.regular bytes)) => .ok bytes.length
  | some _ => .ok other
  | none => .error (os.error (display path))

/-- `fs::read_to_string`, with where it reads.  What a device gives is up to the device. -/
def readToString (device : Utf8.Bytes) (path : Location) : Except String (String × Location) :=
  match fileAt os t path with
  | none => .error (os.error (display path))
  | some (place, content) =>
      let bytes := match content with
        | .regular bytes => bytes
        | .special => device
      match Utf8.decode? bytes with
      | some text => .ok (text, place)
      | none => .error "stream did not contain valid UTF-8"

end Calls

/-- What the system says of a file that is not regular. -/
structure Answer where
  length : ℕ
  device : Utf8.Bytes

variable (os : Os) (path : String)

/-- `read_file_safely`, up to the next call to the system. -/
def advance (t : Tree) (answer : Answer) : Point → Point
  | .start =>
      match pieces? path with
      | none => .failed "absolute paths are required"
      | some requested =>
          match os.canonicalize t home with
          | .error e => .failed e
          | .ok allowedRoot => .rooted requested allowedRoot
  | .rooted requested allowedRoot =>
      match os.canonicalize t requested with
      | .error e => .failed e
      | .ok canonical => .resolved allowedRoot canonical
  | .resolved allowedRoot canonical =>
      if !allowedRoot.isPrefixOf canonical || !isFileAt os t canonical then
        .failed "file context is restricted to regular files under /home/nira"
      else .typed canonical
  | .typed canonical =>
      match metadataLen os t answer.length canonical with
      | .error e => .failed e
      | .ok len =>
          if len > 500000 then .failed "file exceeds the 500 KB context limit"
            else .measured canonical
  | .measured canonical =>
      match readToString os t answer.device canonical with
      | .error e => .failed e
      | .ok (content, place) => .returned content t place
  | .failed error => .failed error
  | .returned content time place => .returned content time place

/-- A call to the system fails, for a reason that the tree does not show. -/
def refuse (error : String) : Point → Point
  | .failed error => .failed error
  | .returned content time place => .returned content time place
  | _ => .failed error

structure State where
  tree : Tree
  point : Point

inductive Event
  | advance (answer : Answer)
  | refuse (error : String)
  /-- Another process changes the file system. -/
  | change (tree : Tree)

/-- A call that asks for `path`, in any file system. -/
def system : System State Event where
  init s := s.point = .start
  step s
    | .advance answer => some { s with point := advance os path s.tree answer s.point }
    | .refuse error => some { s with point := refuse error s.point }
    | .change tree => some { s with tree }

/-! ## What is asked of a call -/

section Specification

variable (t : Tree)

/-- A place is under the directory that `/home/nira` leads to. -/
def UnderHome (place : Location) : Prop :=
  ∃ root ∈ t.seek os.linkLimit (steps home), root <+: place

/-- What is returned was read from a regular file under `/home/nira`, and is not too long. -/
def Ordinary : Point → Prop
  | .returned content time place =>
      UnderHome os time place ∧ time.node place = some (.file (.regular (Utf8.encode content))) ∧
        (Utf8.encode content).length ≤ 500000
  | _ => True

/-- The file that a path leads to, if any, is under `/home/nira`. -/
def InHome (path : Location) : Prop := ∀ found ∈ fileAt os t path, UnderHome os t found.1

def Regular (path : Location) : Prop := ∀ found ∈ fileAt os t path, found.2 ≠ .special

def Fits (path : Location) : Prop :=
  ∀ found ∈ fileAt os t path, ∀ bytes, found.2 = .regular bytes → bytes.length ≤ 500000

/-- What a call relies on from a point on. -/
def Relied : Point → Prop
  | .rooted _ allowedRoot => UnderHome os t allowedRoot
  | .resolved allowedRoot canonical => allowedRoot <+: canonical → InHome os t canonical
  | .typed canonical => InHome os t canonical ∧ Regular os t canonical
  | .measured canonical => InHome os t canonical ∧ Regular os t canonical ∧ Fits os t canonical
  | _ => True

end Specification

/-- A change of the file system keeps what a call relies on. -/
def Harmless (s : State) : Event → Prop
  | .change tree => Relied os s.tree s.point → Relied os tree s.point
  | _ => True

/-! ## One call to the system -/

section Steps

variable {os : Os} {path : String} {t : Tree} {p root : Location}

theorem UnderHome.mono (h : UnderHome os t root) (hle : root <+: p) : UnderHome os t p := by
  obtain ⟨top, htop, hroot⟩ := h
  exact ⟨top, htop, hroot.trans hle⟩

theorem canonicalize_eq_ok {pieces : List String} :
    os.canonicalize t pieces = .ok p ↔ t.seek os.linkLimit (steps pieces) = some p := by
  unfold Os.canonicalize
  cases t.seek os.linkLimit (steps pieces) with
  | none => exact iff_of_false nofun nofun
  | some q => simp only [Except.ok.injEq, Option.some.injEq]

/-- A path that `canonicalize` has just given leads to itself. -/
theorem fst_of_fileAt (hobject : t.IsObject p) {found : Location × Content}
    (hfound : found ∈ fileAt os t p) : found.1 = p := by
  rw [Option.mem_def, fileAt, FileTree.locate_self hobject] at hfound
  dsimp only at hfound
  split at hfound
  · exact (congrArg Prod.fst (Option.some.inj hfound)).symm
  · nomatch hfound

theorem regular_of_isFileAt (h : isFileAt os t p = true) : Regular os t p := by
  intro found hfound hspecial
  obtain ⟨place, content⟩ := found
  subst hspecial
  rw [isFileAt, Option.mem_def.mp hfound] at h
  nomatch h

theorem fits_of_metadataLen {other len : ℕ} (h : metadataLen os t other p = .ok len)
    (hlen : len ≤ 500000) :
    Fits os t p := by
  intro found hfound bytes hbytes
  obtain ⟨place, content⟩ := found
  subst hbytes
  rw [Option.mem_def, fileAt] at hfound
  split at hfound
  · nomatch hfound
  · next place hplace =>
      split at hfound
      · next content hnode =>
          obtain ⟨rfl, rfl⟩ := Prod.mk.inj (Option.some.inj hfound)
          rw [metadataLen, hplace, Option.bind_some, hnode] at h
          rw [← Except.ok.inj h] at hlen
          exact hlen
      · nomatch hfound

theorem node_of_fileAt {place : Location} {content : Content}
    (h : fileAt os t p = some (place, content)) :
    t.node place = some (.file content) := by
  rw [fileAt] at h
  split at h
  · nomatch h
  · split at h
    · next hnode =>
        obtain ⟨rfl, rfl⟩ := Prod.mk.inj (Option.some.inj h)
        exact hnode
    · nomatch h

/-- What is relied on is enough for what is read to be in order. -/
theorem ordinary_of_readToString (h : Relied os t (.measured p)) {device : Utf8.Bytes}
    {content : String}
    {place : Location} (hread : readToString os t device p = .ok (content, place)) :
    Ordinary os (.returned content t place) := by
  obtain ⟨hhome, hregular, hfits⟩ := h
  unfold readToString at hread
  split at hread
  · nomatch hread
  · next found kind hfound =>
      cases kind with
      | special => exact absurd rfl (hregular _ hfound)
      | regular bytes =>
          dsimp only at hread
          split at hread
          · next text htext =>
              obtain ⟨rfl, rfl⟩ := Prod.mk.inj (Except.ok.inj hread)
              have hbytes := Utf8.decode?_eq_some.mp htext
              refine ⟨hhome _ hfound, ?_, ?_⟩
              · rw [hbytes]
                exact node_of_fileAt hfound
              · rw [hbytes]
                exact hfits _ hfound bytes rfl
          · nomatch hread

theorem relied_advance {point : Point} (h : Relied os t point) (answer : Answer) :
    Relied os t (advance os path t answer point) := by
  cases point with
  | start =>
      rw [advance]
      split
      · trivial
      · split
        · trivial
        · next root hroot =>
            show UnderHome os t root
            exact ⟨root, canonicalize_eq_ok.mp hroot, List.prefix_refl root⟩
  | rooted requested root =>
      rw [advance]
      split
      · trivial
      · next p hp =>
          have hobject := FileTree.isObject_of_seek (canonicalize_eq_ok.mp hp)
          show root <+: p → InHome os t p
          intro hle found hfound
          rw [fst_of_fileAt hobject hfound]
          exact h.mono hle
  | resolved root p =>
      rw [advance]
      split
      · trivial
      · next hchecks =>
          simp only [Bool.or_eq_true, Bool.not_eq_true', not_or, Bool.not_eq_false] at hchecks
          obtain ⟨hbelow, hfile⟩ := hchecks
          show InHome os t p ∧ Regular os t p
          exact ⟨h (List.isPrefixOf_iff_prefix.mp hbelow), regular_of_isFileAt hfile⟩
  | typed p =>
      rw [advance]
      split
      · trivial
      · next len hlen =>
          split
          · trivial
          · next hle => exact ⟨h.1, h.2, fits_of_metadataLen hlen (Nat.le_of_not_gt hle)⟩
  | measured p =>
      rw [advance]
      split <;> trivial
  | failed error => trivial
  | returned content time place => trivial

theorem ordinary_advance {point : Point} (h : Relied os t point) (hpoint : Ordinary os point)
    (answer : Answer) :
    Ordinary os (advance os path t answer point) := by
  cases point with
  | measured p =>
      rw [advance]
      split
      · trivial
      · next hread => exact ordinary_of_readToString h hread
  | returned content time place => exact hpoint
  | failed error => trivial
  | start =>
      rw [advance]
      split
      · trivial
      · split <;> trivial
  | rooted requested root =>
      rw [advance]
      split <;> trivial
  | resolved root p =>
      rw [advance]
      split <;> trivial
  | typed p =>
      rw [advance]
      split
      · trivial
      · split <;> trivial

end Steps

/-! ## Whole calls -/

section Runs

variable {os : Os} {path : String}

/-- What a call relies on holds, and what it has returned is in order. -/
def Inv (os : Os) (s : State) : Prop := Relied os s.tree s.point ∧ Ordinary os s.point

theorem Inv.step {s s' : State} {e : Event} (h : Inv os s) (hharmless : Harmless os s e)
    (hstep : (system os path).step s e = some s') : Inv os s' := by
  cases e with
  | advance answer =>
      obtain rfl := Option.some.inj hstep
      exact ⟨relied_advance h.1 answer, ordinary_advance h.1 h.2 answer⟩
  | change tree =>
      obtain rfl := Option.some.inj hstep
      exact ⟨hharmless h.1, h.2⟩
  | refuse error =>
      obtain rfl := Option.some.inj hstep
      show Relied os s.tree (refuse error s.point) ∧ Ordinary os (refuse error s.point)
      cases hpoint : s.point with
      | returned content time place =>
          have hordinary := h.2
          rw [hpoint] at hordinary
          exact ⟨trivial, hordinary⟩
      | _ => exact ⟨trivial, trivial⟩

/-- **Reading a file** under changes that are harmless returns what an ordinary file of the user
holds. -/
theorem ordinary_of_reachableWhere {s : State}
    (h : (system os path).ReachableWhere (Harmless os) s) : Ordinary os s.point := by
  have hinv : Inv os s := by
    refine h.invariant ?_ fun s e s' _ hs hok hstep => hs.step hok hstep
    intro s hinit
    have hstart : s.point = .start := hinit
    rw [Inv, hstart]
    exact ⟨trivial, trivial⟩
  exact hinv.2

end Runs

/-! ## A note, and a link in its place -/

section Note

instance (t : Tree) (place : Location) : Decidable (UnderHome os t place) :=
  inferInstanceAs (Decidable (∃ root ∈ t.seek os.linkLimit (steps home), root <+: place))

instance (content : Content) (n : ℕ) :
    Decidable (∀ bytes, content = .regular bytes → bytes.length ≤ n) :=
  match content with
  | .regular bytes =>
      decidable_of_iff (bytes.length ≤ n)
        ⟨fun h _ heq => Content.regular.inj heq ▸ h, fun h => h bytes rfl⟩
  | .special => isTrue nofun

instance : (point : Point) → Decidable (Ordinary os point)
  | .returned content time place =>
      inferInstanceAs (Decidable (UnderHome os time place ∧
        time.node place = some (.file (.regular (Utf8.encode content))) ∧
          (Utf8.encode content).length ≤ 500000))
  | .start | .rooted .. | .resolved .. | .typed _ | .measured _ | .failed _ => isTrue trivial

instance (t : Tree) : (point : Point) → Decidable (Relied os t point)
  | .rooted _ root => inferInstanceAs (Decidable (UnderHome os t root))
  | .resolved root p =>
      inferInstanceAs (Decidable (root <+: p → ∀ found ∈ fileAt os t p, UnderHome os t found.1))
  | .typed p =>
      inferInstanceAs (Decidable ((∀ found ∈ fileAt os t p, UnderHome os t found.1) ∧
        ∀ found ∈ fileAt os t p, found.2 ≠ .special))
  | .measured p =>
      inferInstanceAs (Decidable ((∀ found ∈ fileAt os t p, UnderHome os t found.1) ∧
        (∀ found ∈ fileAt os t p, found.2 ≠ .special) ∧
        ∀ found ∈ fileAt os t p, ∀ bytes, found.2 = .regular bytes → bytes.length ≤ 500000))
  | .start | .failed _ | .returned .. => isTrue trivial

instance (s : State) : (e : Event) → Decidable (Harmless os s e)
  | .change tree => inferInstanceAs (Decidable (Relied os s.tree s.point → Relied os tree s.point))
  | .advance _ => isTrue trivial
  | .refuse _ => isTrue trivial

/-- A secret, and something under the name of a note in the home directory. -/
def withNote (note : Node String Content) : Tree :=
  (FileTree.empty.grow
    [(["home"], .dir), (["home", "nira"], .dir), (["etc"], .dir),
      (["etc", "shadow"], .file (.regular (Utf8.encode "secret"))),
        (["home", "nira", "note"], note)]).getD .empty

def advanced : Event := .advance ⟨0, []⟩

/-- The note changes after it has been measured. -/
def changing (note : Node String Content) : List Event :=
  [advanced, advanced, advanced, advanced, .change (withNote note), advanced]

def note : Node String Content := .file (.regular (Utf8.encode "a"))

def longerNote : Node String Content := .file (.regular (Utf8.encode "ab"))

def linkToSecret : Node String Content := .link ⟨true, [.down "etc", .down "shadow"]⟩

def hasReturned (content : String) (s : State) : Bool :=
  match s.point with
  | .returned text _ _ => text = content
  | _ => false

theorem ordinary_longerNote : ∃ s, hasReturned "ab" s = true ∧ Ordinary calmOs s.point := by
  have hrun : ((system calmOs "/home/nira/note").runWhere (Harmless calmOs) ⟨withNote note, .start⟩
      (changing longerNote)).any (hasReturned "ab") = true := by
    decide +kernel
  obtain ⟨s, hs, hreturned⟩ := System.exists_reachableWhere_of_run rfl hrun
  exact ⟨s, hreturned, ordinary_of_reachableWhere hs⟩

/-- What has been checked of a path is not what is read by it. -/
theorem not_ordinary_linkToSecret :
    ¬ ∀ s, (system calmOs "/home/nira/note").Reachable s → Ordinary calmOs s.point := by
  intro h
  have hrun : ((system calmOs "/home/nira/note").run ⟨withNote note,
    .start⟩ (changing linkToSecret)).any
      (fun s => hasReturned "secret" s && !decide (Ordinary calmOs s.point)) = true := by
    decide +kernel
  obtain ⟨s, hs, hwrong⟩ := System.exists_reachable_of_run rfl hrun
  rw [Bool.and_eq_true, Bool.not_eq_true', decide_eq_false_iff_not] at hwrong
  exact hwrong.2 (h s hs)

end Note

end NiraOS.ContextBroker.ReadFile
