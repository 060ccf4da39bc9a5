import NiraOS.Lib.FileTree.Files
import NiraOS.Lib.Transition
import NiraOS.Lib.Utf8

/-!
# When a save is atomic

`FileDialogHelper::writeFile` (`apps/notepad/src/main.cpp`) step by step, on a file tree: any step
may fail, and a state that is reached is what an interruption there leaves.  A path is absolute,
the steps of its text; the empty text has none.

The text goes to a temporary file beside the file, which is removed and then replaced.  Three steps
can lose something: the temporary file is opened over whatever is at its place; between the removal
and the renaming nothing is at the path; and a renaming that the system refuses is made up for by a
copy, which is at the path while it grows.  Without these (`Kept`), every state is one of:

```text
                          at the path    elsewhere
before the renaming       as it was      as it was, and the temporary file
returned false            as it was      as it was, and perhaps the temporary file
returned true             the text       as it was
```
-/

namespace NiraOS.Notepad.AtomicSave

open Utf8
open FileTree (fileExists fileAt openTruncate removed canRename renamed attempt attempt_eq_some)

abbrev Tree := FileTree String Bytes

abbrev Steps := List (Step String)

/-! ## Paths -/

/-- `QFileInfo::absoluteFilePath`: dots are resolved in the text. -/
def absoluteFilePath (path : Steps) : List String :=
  path.foldl (fun names step =>
    match step with
    | .stay => names
    | .up => names.dropLast
    | .down name => names ++ [name]) []

/-- A suffix to the text of the path. -/
def tmpPath (path : Steps) : Steps :=
  let names := absoluteFilePath path
  (names.dropLast ++ [names.getLastD "" ++ ".nira-tmp"]).map .down

/-! ## The steps -/

inductive Pc
  | opening
  /-- The file is open at a place, and so many bytes of the text are in it. -/
  | writing (place : List String) (count : ℕ)
  | replacing
  | moving
  /-- `QFile::rename` copies instead, so many bytes of `source` so far. -/
  | copying (place : List String) (source : Bytes) (count : ℕ)
  /-- The copy is removed that was not finished. -/
  | uncopying
  /-- After a failure, the temporary file is removed. -/
  | cleaning
  | returned (result : Bool)
  deriving DecidableEq

structure State where
  tree : Tree
  pc : Pc

/-- What the system makes of a `rename`. -/
inductive Renaming
  | moved
  | refused
  /-- Refused, and the file can be copied. -/
  | copied
  deriving DecidableEq

inductive Event
  | start (ok : Bool)
  | write (count : ℕ)
  | writeFails
  | flush
  | replace (ok : Bool)
  | rename (how : Renaming)
  | copy (count : ℕ)
  | copyFails
  | copyDone (ok : Bool)
  | uncopy (ok : Bool)
  | clean (ok : Bool)

section Steps

variable (limit : ℕ) (path : Steps) (content : String)

def step (s : State) (e : Event) : Option State :=
  match s.pc, e with
  | .opening, .start ok =>
      if path = [] then some ⟨s.tree, .returned false⟩
      else
        match attempt ok (openTruncate limit s.tree (tmpPath path)) with
        | none => some ⟨s.tree, .returned false⟩
        | some (place, t) => some ⟨t, .writing place 0⟩
  | .writing place count, .write more =>
      if count + more ≤ (encode content).length then
        (s.tree.tryWrite place ((encode content).take (count + more))).map fun t =>
          ⟨t, .writing place (count + more)⟩
      else none
  | .writing _ _, .writeFails => some ⟨s.tree, .cleaning⟩
  | .writing _ count, .flush =>
      if count = (encode content).length then some ⟨s.tree, .replacing⟩ else none
  | .replacing, .replace ok =>
      if fileExists limit s.tree path then
        match attempt ok (removed limit s.tree path) with
        | none => some ⟨s.tree, .cleaning⟩
        | some t => some ⟨t, .moving⟩
      else some ⟨s.tree, .moving⟩
  | .moving, .rename how =>
      if canRename limit s.tree (tmpPath path) path then
        match how with
        | .moved => (renamed limit s.tree (tmpPath path) path).map fun t => ⟨t, .returned true⟩
        | .refused => some ⟨s.tree, .cleaning⟩
        | .copied =>
            match fileAt limit s.tree (tmpPath path), openTruncate limit s.tree path with
            | some source, some (place, t) => some ⟨t, .copying place source 0⟩
            | _, _ => some ⟨s.tree, .cleaning⟩
      else some ⟨s.tree, .cleaning⟩
  | .copying place source count, .copy more =>
      if count + more ≤ source.length then
        (s.tree.tryWrite place (source.take (count + more))).map fun t =>
          ⟨t, .copying place source (count + more)⟩
      else none
  | .copying _ _ _, .copyFails => some ⟨s.tree, .uncopying⟩
  | .copying _ source count, .copyDone ok =>
      if count = source.length then
        match attempt ok (removed limit s.tree (tmpPath path)) with
        | none => some ⟨s.tree, .uncopying⟩
        | some t => some ⟨t, .returned true⟩
      else none
  | .uncopying, .uncopy ok => some ⟨(attempt ok (removed limit s.tree path)).getD s.tree, .cleaning⟩
  | .cleaning, .clean ok =>
      some ⟨(attempt ok (removed limit s.tree (tmpPath path))).getD s.tree, .returned false⟩
  | _, _ => none

/-- `writeFile`, called when the file system is `t`. -/
def writeFile (t : Tree) : Transition.System State Event where
  init s := s = ⟨t, .opening⟩
  step := step limit path content

/-! ## What a save should keep -/

/-- At every moment the file at the path is the old one or the new one, what `writeFile` returns
says which, and all else that was there is as it was. -/
structure Atomic (t : Tree) (s : State) : Prop where
  oldOrNew : fileAt limit s.tree path = fileAt limit t path ∨
    fileAt limit s.tree path = some (encode content)
  failed : s.pc = .returned false → fileAt limit s.tree path = fileAt limit t path
  saved : s.pc = .returned true → fileAt limit s.tree path = some (encode content)
  spared : ∀ p n, t.node p = some n → t.place limit path ≠ some p → s.tree.node p = some n

/-- The temporary file is opened where nothing is, and not where the path leads; no file at the path
is removed; and the renaming need not copy. -/
def Kept (s : State) : Event → Prop
  | .start ok => ok = true → ∀ place, s.tree.place limit (tmpPath path) = some place →
      s.tree.node place = none ∧ s.tree.landing limit [] path ≠ some place
  | .replace ok => fileExists limit s.tree path = true →
      attempt ok (removed limit s.tree path) = none
  | .rename how => how ≠ .copied
  | _ => True

instance (s : State) (e : Event) : Decidable (Kept limit path s e) :=
  match e with
  | .start ok => inferInstanceAs
      (Decidable (ok = true → ∀ place ∈ s.tree.place limit (tmpPath path),
      s.tree.node place = none ∧ s.tree.landing limit [] path ≠ some place))
  | .replace ok =>
      inferInstanceAs (Decidable (fileExists limit s.tree path = true →
        attempt ok (removed limit s.tree path) = none))
  | .rename how => inferInstanceAs (Decidable (how ≠ .copied))
  | .write _ | .writeFails | .flush | .copy _ | .copyFails | .copyDone _ | .uncopy _ | .clean _ =>
      .isTrue trivial

end Steps

/-! ## The temporary file beside the rest -/

section Beside

variable {limit : ℕ} {path : Steps} {t t' : Tree} {data : Bytes}

/-- `t'` is `t` with a temporary file that holds `data`. -/
def Beside (limit : ℕ) (path : Steps) (t t' : Tree) (data : Bytes) : Prop :=
  ∃ place, t.place limit (tmpPath path) = some place ∧ t.node place = none ∧
    t.landing limit [] path ≠ some place ∧
    t'.node = Function.update t.node place (some (.file data))

theorem Beside.le (h : Beside limit path t t' data) : t ≤ t' := by
  obtain ⟨place, -, hfree, -, hnode⟩ := h
  exact FileTree.le_of_file hnode hfree

theorem Beside.fileAt (h : Beside limit path t t' data) :
    fileAt limit t' path = fileAt limit t path := by
  have hle := h.le
  obtain ⟨place, -, hfree, hland, hnode⟩ := h
  refine FileTree.fileAt_congr (FileTree.seek_of_file hnode hfree hland) fun p hp => ?_
  -- what the path leads to was there before
  obtain ⟨n, hn, -⟩ := FileTree.isObject_of_seek hp
  rw [hn, hle _ _ hn]

theorem exists_tmpPath (path : Steps) : ∃ pre name, tmpPath path = pre ++ [.down name] :=
  ⟨_, _, List.map_append⟩

/-- Opening puts the temporary file where nothing was. -/
theorem openTruncate_beside {place : List String}
    (hkept : ∀ place, t.place limit (tmpPath path) = some place →
      t.node place = none ∧ t.landing limit [] path ≠ some place)
    (h : openTruncate limit t (tmpPath path) = some (place, t')) :
    Beside limit path t t' [] ∧ t.place limit (tmpPath path) = some place := by
  obtain ⟨p, hp⟩ : ∃ p, t.place limit (tmpPath path) = some p := by
    obtain ⟨pre, name, htmp⟩ := exists_tmpPath path
    rw [htmp] at h ⊢
    exact FileTree.exists_place_of_openTruncate h
  obtain ⟨hfree, hland⟩ := hkept p hp
  unfold openTruncate at h
  split at h
  · next q hq => exact absurd hfree (FileTree.node_of_seek hq hp)
  · rw [FileTree.landing_of_place hp hfree, Option.bind_some] at h
    obtain ⟨t₁, ht₁, heq⟩ := Option.map_eq_some_iff.mp h
    obtain ⟨rfl, rfl⟩ := Prod.mk.inj heq
    obtain ⟨-, -, hnode⟩ := FileTree.tryInsert_eq_some ht₁
    exact ⟨⟨p, hp, hfree, hland, hnode⟩, hp⟩

/-- More of the text is written. -/
theorem Beside.write {place : List String} {more : Bytes} {t'' : Tree}
    (h : Beside limit path t t' data)
    (hplace : t.place limit (tmpPath path) = some place)
    (hwrite : t'.tryWrite place more = some t'') :
    Beside limit path t t'' more := by
  obtain ⟨p, hp, hfree, hland, hnode⟩ := h
  obtain rfl := Option.some.inj (hp.symm.trans hplace)
  obtain ⟨-, hwritten⟩ := FileTree.tryWrite_eq_some hwrite
  refine ⟨p, hp, hfree, hland, ?_⟩
  rw [hwritten, hnode, Function.update_idem]

/-- Without the temporary file, all is as it was. -/
theorem Beside.clean {t'' : Tree} (h : Beside limit path t t' data)
    (hremoved : removed limit t' (tmpPath path) = some t'') : t''.node = t.node := by
  have hle := h.le
  obtain ⟨place, hplace, hfree, -, hnode⟩ := h
  unfold removed at hremoved
  rw [FileTree.place_mono hle hplace, Option.bind_some, hnode, Function.update_self] at hremoved
  obtain ⟨-, -, herased⟩ := FileTree.tryErase_eq_some hremoved
  rw [herased, hnode, Function.update_idem, ← hfree, Function.update_eq_self]

/-- The temporary file moves to the path. -/
theorem Beside.rename {t'' : Tree} (h : Beside limit path t t' data)
    (hrenamed : renamed limit t' (tmpPath path) path = some t'') :
    t ≤ t'' ∧ FileTree.fileAt limit t'' path = some data := by
  have hle := h.le
  obtain ⟨place, hplace, hfree, -, hnode⟩ := h
  obtain ⟨p, q, hp, hq, hmoved⟩ := FileTree.renamed_eq_some hrenamed
  obtain rfl := Option.some.inj ((FileTree.place_mono hle hplace).symm.trans hp)
  have hkeep : t ≤ t'' := by
    intro r n hr
    refine hmoved.kept ?_ (hle r n hr)
    exact FileTree.not_prefix_of_occupied hfree (by simp [hr])
  refine ⟨hkeep, ?_⟩
  -- the path names the same place as before, which holds the temporary file now
  obtain ⟨pre, name, rfl⟩ := FileTree.exists_of_place hq
  obtain ⟨d, hd, hdir, rfl⟩ := FileTree.place_concat.mp hq
  have hbefore := FileTree.seek_dir_of_file hnode hfree hd hdir
  obtain ⟨n, hn, -⟩ := FileTree.isObject_of_seek hbefore
  obtain rfl := Option.some.inj ((hle d n hn).symm.trans hdir)
  have hnow : t''.place limit (pre ++ [.down name]) = some (d ++ [name]) :=
    FileTree.place_concat.mpr ⟨d, FileTree.seek_mono hkeep hbefore, hkeep d _ hn, rfl⟩
  have hfile : t''.node (d ++ [name]) = some (.file data) := by
    have harrived := hmoved.arrived []
    rwa [List.append_nil, List.append_nil, hnode, Function.update_self] at harrived
  exact FileTree.fileAt_eq_some.mpr ⟨_, FileTree.seek_of_place hnow hfile (by simp), hfile⟩

end Beside

/-! ## Every state of a save -/

section Runs

variable {limit : ℕ} {path : Steps} {content : String} {t : Tree} {s s' : State} {e : Event}

/-- What each state is in terms of the tree before. -/
def Sound (limit : ℕ) (path : Steps) (content : String) (t : Tree) (s : State) : Prop :=
  match s.pc with
  | .opening => s.tree = t
  | .writing place count =>
      Beside limit path t s.tree ((encode content).take count) ∧
        t.place limit (tmpPath path) = some place
  | .replacing | .moving => Beside limit path t s.tree (encode content)
  | .copying _ _ _ | .uncopying => False
  | .cleaning => ∃ data, Beside limit path t s.tree data
  | .returned false => s.tree.node = t.node ∨ ∃ data, Beside limit path t s.tree data
  | .returned true => t ≤ s.tree ∧ fileAt limit s.tree path = some (encode content)

/-- **Step.**  A step that cannot lose anything keeps the save sound. -/
theorem sound_step (hs : Sound limit path content t s) (hkept : Kept limit path s e)
    (h : step limit path content s e = some s') : Sound limit path content t s' := by
  obtain ⟨tree, pc⟩ := s
  cases pc with
  | opening =>
      cases e with
      | start ok =>
          obtain rfl : tree = t := hs
          simp only [step] at h
          split_ifs at h with hempty
          · obtain rfl := Option.some.inj h
            exact .inl rfl
          · split at h
            · obtain rfl := Option.some.inj h
              exact .inl rfl
            · next place opened hopen =>
                obtain rfl := Option.some.inj h
                obtain ⟨hok, hopen⟩ := attempt_eq_some hopen
                exact openTruncate_beside (hkept hok) hopen
      | _ => cases h
  | writing place count =>
      obtain ⟨hbeside, hplace⟩ := hs
      cases e with
      | write more =>
          simp only [step] at h
          split_ifs at h with hmore
          obtain ⟨t', ht', rfl⟩ := Option.map_eq_some_iff.mp h
          exact ⟨hbeside.write hplace ht', hplace⟩
      | writeFails =>
          obtain rfl := Option.some.inj h
          exact ⟨_, hbeside⟩
      | flush =>
          simp only [step] at h
          split_ifs at h with hcount
          obtain rfl := Option.some.inj h
          rw [hcount, List.take_length] at hbeside
          exact hbeside
      | _ => cases h
  | replacing =>
      cases e with
      | replace ok =>
          simp only [step] at h
          split_ifs at h with hexists
          · rw [hkept hexists] at h
            obtain rfl := Option.some.inj h
            exact ⟨_, hs⟩
          · obtain rfl := Option.some.inj h
            exact hs
      | _ => cases h
  | moving =>
      cases e with
      | rename how =>
          simp only [step] at h
          split_ifs at h with hcan
          · cases how with
            | moved =>
                obtain ⟨t', ht', rfl⟩ := Option.map_eq_some_iff.mp h
                exact Beside.rename hs ht'
            | refused =>
                obtain rfl := Option.some.inj h
                exact ⟨_, hs⟩
            | copied => exact absurd rfl hkept
          · obtain rfl := Option.some.inj h
            exact ⟨_, hs⟩
      | _ => cases h
  | copying => exact hs.elim
  | uncopying => exact hs.elim
  | cleaning =>
      obtain ⟨data, hbeside⟩ := hs
      cases e with
      | clean ok =>
          obtain rfl := Option.some.inj h
          cases hremoved : attempt ok (removed limit tree (tmpPath path)) with
          | none => exact .inr ⟨data, hbeside⟩
          | some t' => exact .inl (hbeside.clean (attempt_eq_some hremoved).2)
      | _ => cases h
  | returned result => cases e <;> cases h

theorem atomic_of_beside {data : Bytes} {pc : Pc} {tree : Tree} (h : Beside limit path t tree data)
    (hpc : pc ≠ .returned true) : Atomic limit path content t ⟨tree, pc⟩ where
  oldOrNew := .inl h.fileAt
  failed _ := h.fileAt
  saved htrue := absurd htrue hpc
  spared p n hp _ := h.le p n hp

theorem Sound.atomic (h : Sound limit path content t s) : Atomic limit path content t s := by
  obtain ⟨tree, pc⟩ := s
  cases pc with
  | opening =>
      obtain rfl : tree = t := h
      exact ⟨.inl rfl, nofun, nofun, fun p n hp _ => hp⟩
  | writing place count => exact atomic_of_beside h.1 nofun
  | replacing => exact atomic_of_beside h nofun
  | moving => exact atomic_of_beside h nofun
  | copying => exact h.elim
  | uncopying => exact h.elim
  | cleaning =>
      obtain ⟨data, hbeside⟩ := h
      exact atomic_of_beside hbeside nofun
  | returned result =>
      cases result with
      | false =>
          rcases h with hsame | ⟨data, hbeside⟩
          · refine ⟨.inl (FileTree.fileAt_of_node hsame), fun _ => FileTree.fileAt_of_node hsame,
              nofun, fun p n hp _ => ?_⟩
            change tree.node p = some n
            rwa [hsame]
          · exact atomic_of_beside hbeside nofun
      | true =>
          obtain ⟨hle, hfile⟩ := h
          exact ⟨.inr hfile, nofun, fun _ => hfile, fun p n hp _ => hle p n hp⟩

/-- **A save whose steps cannot lose anything is atomic**: at every moment, whatever fails. -/
theorem writeFile_atomic (limit : ℕ) (path : Steps) (content : String) (t : Tree)
    (h : (writeFile limit path content t).ReachableWhere (Kept limit path) s) :
    Atomic limit path content t s := by
  refine Sound.atomic (h.invariant ?_ ?_)
  · rintro _ rfl
    rfl
  · intro s e s' _ hs hkept hstep
    exact sound_step hs hkept hstep

/-- A text saved to a new path. -/
theorem writeFile_atomic_newFile :
    ∃ s, (writeFile 0 [.down "a"] "x" .empty).ReachableWhere (Kept 0 [.down "a"]) s ∧
    s.pc = .returned true ∧ Atomic 0 [.down "a"] "x" .empty s := by
  have hrun : ((writeFile 0 [.down "a"] "x" .empty).runWhere (Kept 0 [.down "a"]) ⟨.empty, .opening⟩
      [.start true, .write 1, .flush, .replace true, .rename .moved]).any
        (fun s => s.pc = .returned true) = true := by
    decide
  obtain ⟨s, hs, htest⟩ := Transition.System.exists_reachableWhere_of_run rfl hrun
  exact ⟨s, hs, of_decide_eq_true htest, writeFile_atomic 0 [.down "a"] "x" .empty hs⟩

/-- A file that holds the byte 1. -/
def oldFile : Tree := FileTree.empty.insert ["a"] (.file [1]) rfl rfl

/-- Interrupted between the removal and the renaming, the file is gone. -/
theorem not_atomic_oldFile : ∃ s, (writeFile 0 [.down "a"] "x" oldFile).Reachable s ∧
    ¬ Atomic 0 [.down "a"] "x" oldFile s := by
  have hrun : ((writeFile 0 [.down "a"] "x" oldFile).run ⟨oldFile, .opening⟩
      [.start true, .write 1, .flush, .replace true]).any
        (fun s => fileAt 0 s.tree [.down "a"] = none) = true := by
    decide
  obtain ⟨s, hs, htest⟩ := Transition.System.exists_reachable_of_run rfl hrun
  refine ⟨s, hs, fun h => ?_⟩
  have hgone := of_decide_eq_true htest
  rcases h.oldOrNew with hold | hnew
  · rw [hgone] at hold
    nomatch hold
  · rw [hgone] at hnew
    nomatch hnew

end Runs

end NiraOS.Notepad.AtomicSave
