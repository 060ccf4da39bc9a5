import NiraOS.Lib.Command
import NiraOS.Lib.FileTree.Places
import NiraOS.Lib.FileTree.Removals

/-!
# Files at paths

What `QFile` does with the file that the steps of a path lead to.  Opening a file for writing
follows a link at the end of the path, and creates the file where the link leads if nothing is
there; removing and renaming act on the entry itself.

`QFile::rename` is not one step.  It checks its paths and has the system rename the entry; where the
system refuses, a file is copied: the target is opened and written and the source removed, or else
the target again.  Any of these steps may fail, so `rename` is a command over a way to perform them,
and `rename_outcome` is what comes of it:

```text
true     the entry is at the target now
         what the source leads to was copied to where the target leads, and the entry is gone
false    nothing was changed
         what was created for the copy is still there
         the entry of the target is gone again, if it was a link for good
```
-/

namespace FileTree

variable {Name Content : Type*}

section Primitives

variable [DecidableEq Name] [DecidableEq Content] (limit : ℕ) (t : FileTree Name Content)

/-- `QFile::exists`. -/
def fileExists (path : List (Step Name)) : Bool := (t.seek limit path).isSome

/-- What the file at a path holds. -/
def fileAt (path : List (Step Name)) : Option Content :=
  match (t.seek limit path).bind t.node with
  | some (.file content) => some content
  | _ => none

/-- `QFile::open` with `WriteOnly | Truncate`: the place of the open file, which holds nothing, that
is the default content. -/
def openTruncate [Inhabited Content] (path : List (Step Name)) :
    Option (List Name × FileTree Name Content) :=
  match t.seek limit path with
  | some place => (t.tryWrite place default).map fun t => (place, t)
  | none =>
      (t.landing limit [] path).bind fun place =>
        (t.tryInsert place (.file default)).map fun t => (place, t)

/-- `QFile::remove`, of the link itself if the path is one. -/
def removed (path : List (Step Name)) : Option (FileTree Name Content) :=
  (t.place limit path).bind fun place =>
    match t.node place with
    | none | some .dir => none
    | some _ => t.tryErase place

/-- What `QFile::rename` checks. -/
def canRename (source dest : List (Step Name)) : Bool :=
  source ≠ dest && fileExists limit t source && !fileExists limit t dest

/-- The system's `rename`, onto nothing. -/
def renamed (source dest : List (Step Name)) : Option (FileTree Name Content) :=
  (t.place limit source).bind fun p => (t.place limit dest).bind fun q => t.tryRelocate p q

end Primitives

/-- A primitive that the environment lets succeed or not. -/
def attempt {α : Type*} (ok : Bool) (effect : Option α) : Option α := if ok then effect else none

theorem attempt_eq_some {α : Type*} {ok : Bool} {effect : Option α} {a : α}
    (h : attempt ok effect = some a) : ok = true ∧ effect = some a := by
  unfold attempt at h
  split_ifs at h with hok
  exact ⟨hok, h⟩

variable {limit : ℕ} {t t' : FileTree Name Content} {path source dest : List (Step Name)}
  {content : Content} {p q : List Name}

/-! ## Looking -/

theorem fileAt_eq_some : fileAt limit t path = some content ↔
    ∃ s, t.seek limit path = some s ∧ t.node s = some (.file content) := by
  unfold fileAt
  constructor
  · intro h
    split at h
    · next old hold =>
        obtain rfl := Option.some.inj h
        exact Option.bind_eq_some_iff.mp hold
    · cases h
  · intro h
    obtain ⟨s, hs, hfile⟩ := h
    rw [hs, Option.bind_some, hfile]

theorem fileAt_congr (hseek : t'.seek limit path = t.seek limit path)
    (hnode : ∀ p, t.seek limit path = some p → t'.node p = t.node p) :
    fileAt limit t' path = fileAt limit t path := by
  apply Option.ext
  intro content
  rw [fileAt_eq_some, fileAt_eq_some, hseek]
  apply exists_congr
  intro s
  rw [and_congr_right_iff]
  intro hs
  rw [hnode s hs]

theorem fileAt_of_node (h : t'.node = t.node) : fileAt limit t' path = fileAt limit t path := by
  have hle : t ≤ t' := fun p n hp => by rwa [h]
  have hge : t' ≤ t := fun p n hp => by rwa [← h]
  refine fileAt_congr (Option.ext fun p => ⟨seek_mono hge, seek_mono hle⟩) fun p _ => ?_
  rw [h]

variable [DecidableEq Name]

theorem canRename_eq_true : canRename limit t source dest = true ↔
    source ≠ dest ∧ fileExists limit t source = true ∧ fileExists limit t dest = false := by
  unfold canRename
  rw [Bool.and_eq_true, Bool.and_eq_true, decide_eq_true_iff, Bool.not_eq_true', and_assoc]

/-! ## Creating -/

/-- `u` is `t` with a file at a place that was free. -/
structure Created (t u : FileTree Name Content) (place : List Name) (content : Content) : Prop where
  dir : t.node place.dropLast = some .dir
  free : t.node place = none
  node : u.node = Function.update t.node place (some (.file content))

section Created

variable {u u' : FileTree Name Content} {place : List Name}

theorem Created.le (h : Created t u place content) : t ≤ u := le_of_file h.node h.free

theorem Created.write {more : Content} (h : Created t u place content)
    (hwrite : u.tryWrite place more = some u') : Created t u' place more := by
  obtain ⟨-, hwritten⟩ := tryWrite_eq_some hwrite
  refine ⟨h.dir, h.free, ?_⟩
  rw [hwritten, h.node, Function.update_idem]

end Created

variable [DecidableEq Content]

/-- What is at a path that leads nowhere, if it is named there, is a link. -/
theorem node_of_not_exists (hexists : fileExists limit t path = false)
    (he : t.place limit path = some q) :
    t.node q = none ∨ ∃ target, t.node q = some (.link target) := by
  cases hn : t.node q with
  | none => exact .inl rfl
  | some n =>
      cases n with
      | link target => exact .inr ⟨target, rfl⟩
      | dir =>
          rw [fileExists, seek_of_place he hn (by simp)] at hexists
          cases hexists
      | file content =>
          rw [fileExists, seek_of_place he hn (by simp)] at hexists
          cases hexists

/-! ## Opening -/

section Opening

variable [Inhabited Content] {place : List Name}

/-- A file is opened where its path names it, or would. -/
theorem exists_place_of_openTruncate {pre : List (Step Name)} {name : Name}
    (h : openTruncate limit t (pre ++ [.down name]) = some (place, t')) :
    ∃ p, t.place limit (pre ++ [.down name]) = some p := by
  unfold openTruncate at h
  split at h
  · next p hp => exact exists_place_of_seek hp
  · obtain ⟨p, hp, -⟩ := Option.bind_eq_some_iff.mp h
    exact exists_place_of_landing hp

/-- Where nothing is found, a file is created. -/
theorem openTruncate_created (hexists : fileExists limit t path = false)
    (h : openTruncate limit t path = some (place, t')) :
    t.landing limit [] path = some place ∧ t.tryInsert place (.file default) = some t' := by
  have hnone : t.seek limit path = none := by
    rwa [fileExists, Option.isSome_eq_false_iff, Option.isNone_iff_eq_none] at hexists
  rw [openTruncate, hnone] at h
  obtain ⟨q, hq, h⟩ := Option.bind_eq_some_iff.mp h
  obtain ⟨u, hu, heq⟩ := Option.map_eq_some_iff.mp h
  obtain ⟨rfl, rfl⟩ := Prod.mk.inj heq
  exact ⟨hq, hu⟩

end Opening

/-! ## Removing and renaming -/

theorem removed_eq_some (h : removed limit t path = some t') :
    ∃ p n, t.place limit path = some p ∧ t.node p = some n ∧ n ≠ .dir ∧ t.tryErase p = some t' := by
  obtain ⟨p, hp, h⟩ := Option.bind_eq_some_iff.mp h
  split at h
  · cases h
  · cases h
  · next n hnone hnode => exact ⟨p, n, hp, hnode, fun heq => hnone heq, h⟩

theorem removed_of_place {n : Node Name Content} (hp : t.place limit path = some p)
    (hn : t.node p = some n) (hnodir : n ≠ .dir) (herase : t.tryErase p = some t') :
    removed limit t path = some t' := by
  rw [removed, hp, Option.bind_some, hn]
  cases n with
  | dir => exact absurd rfl hnodir
  | file content => exact herase
  | link target => exact herase

theorem renamed_eq_some (h : renamed limit t source dest = some t') :
    ∃ p q, t.place limit source = some p ∧ t.place limit dest = some q ∧
      Relocated t t' p q := by
  obtain ⟨p, hp, h⟩ := Option.bind_eq_some_iff.mp h
  obtain ⟨q, hq, h⟩ := Option.bind_eq_some_iff.mp h
  exact ⟨p, q, hp, hq, relocated_of_tryRelocate h⟩

/-! ## A copy in place of a rename -/

section Created

variable {u u' : FileTree Name Content} {place : List Name}

theorem created_of_tryInsert (h : t.tryInsert place (.file content) = some u) :
    Created t u place content := by
  obtain ⟨hdir, hfree, hnode⟩ := tryInsert_eq_some h
  exact ⟨hdir, hfree, hnode⟩

/-- The source is removed after it was copied. -/
theorem Created.removeSource (h : Created t u place content)
    (hsource : fileExists limit t source = true) (hremoved : removed limit u source = some u') :
    ∃ p n, t.place limit source = some p ∧ t.node p = some n ∧ n ≠ .dir ∧
      u'.node = Function.update (Function.update t.node place (some (.file content))) p none := by
  obtain ⟨p, n, hp, hn, hnodir, herase⟩ := removed_eq_some hremoved
  obtain ⟨-, -, herased⟩ := tryErase_eq_some herase
  obtain ⟨s, hs⟩ := Option.isSome_iff_exists.mp hsource
  obtain ⟨pre, name, rfl⟩ := exists_of_place hp
  obtain ⟨p', hp'⟩ := exists_place_of_seek hs
  obtain rfl := Option.some.inj ((place_mono h.le hp').symm.trans hp)
  obtain ⟨m, hm⟩ := Option.ne_none_iff_exists'.mp (node_of_seek hs hp')
  obtain rfl := Option.some.inj ((h.le _ _ hm).symm.trans hn)
  exact ⟨p', m, hp', hm, hnodir, by rw [herased, h.node]⟩

/-- The target is removed after an error: what was created, or the link that led there. -/
theorem Created.removeTarget (h : Created t u place content)
    (hfree : fileExists limit t dest = false) (hland : t.landing limit [] dest = some place)
    (hremoved : removed limit u dest = some u') :
    ∃ q, t.place limit dest = some q ∧ (q = place ∨ ∃ target, t.node q = some (.link target)) ∧
      u'.node = Function.update (Function.update t.node place (some (.file content))) q none := by
  obtain ⟨q, n, hq, -, -, herase⟩ := removed_eq_some hremoved
  obtain ⟨-, -, herased⟩ := tryErase_eq_some herase
  obtain ⟨pre, name, rfl⟩ := exists_of_place hq
  obtain ⟨q', hq'⟩ := exists_place_of_landing hland
  obtain rfl := Option.some.inj ((place_mono h.le hq').symm.trans hq)
  refine ⟨q', hq', ?_, by rw [herased, h.node]⟩
  rcases node_of_not_exists hfree hq' with hnone | hlink
  · exact .inl (Option.some.inj ((landing_of_place hq' hnone).symm.trans hland))
  · exact .inr hlink

end Created

/-! ## The rename as a whole -/

/-- The steps that may fail. -/
inductive RenameStep
  | rename
  | opening
  | write
  | remove

section Rename

variable {σ : Type*} [Inhabited Content] (tree : σ → FileTree Name Content)
  (perform : RenameStep → (FileTree Name Content → Option (FileTree Name Content)) → Command σ)

open Command

/-- What `QFile::rename` does where the system refuses; a directory cannot be opened. -/
def copyOver (limit : ℕ) (source dest : List (Step Name)) : Command σ := fun s =>
  match fileAt limit (tree s) source, openTruncate limit (tree s) dest with
  | some content, some (place, _) =>
      ((perform .opening fun t => (openTruncate limit t dest).map Prod.snd).andThen
        (((perform .write fun t => t.tryWrite place content).andThen
          (perform .remove fun t => removed limit t source)).orElse
          ((perform .remove fun t => removed limit t dest).followedBy (result false)))) s
  | _, _ => (some false, s)

/-- `QFile::rename`. -/
def rename (limit : ℕ) (source dest : List (Step Name)) : Command σ := fun s =>
  if canRename limit (tree s) source dest then
    ((perform .rename fun t => renamed limit t source dest).orElse
      (copyOver tree perform limit source dest)) s
  else (some false, s)

/-- A step that is performed has its effect, or fails and changes nothing. -/
def Performs : Prop := ∀ step effect s,
  (∃ s', perform step effect s = (some false, s') ∧ tree s' = tree s) ∨
    ∃ s', perform step effect s = (some true, s') ∧ effect (tree s) = some (tree s')

end Rename

variable [Inhabited Content]

/-- What a rename may make of `t`, with what it returns. -/
inductive Renames (limit : ℕ) (source dest : List (Step Name)) (t : FileTree Name Content) :
    Bool → FileTree Name Content → Prop
  | unchanged : Renames limit source dest t false t
  | moved {u : FileTree Name Content} {p q : List Name}
      (hexists : fileExists limit t source = true) (hp : t.place limit source = some p)
      (hq : t.place limit dest = some q) (h : Relocated t u p q) :
        Renames limit source dest t true u
  | copied {u v : FileTree Name Content} {p place : List Name} {n : Node Name Content}
      {content : Content} (hp : t.place limit source = some p) (hn : t.node p = some n)
      (hnodir : n ≠ .dir) (hfile : fileAt limit t source = some content)
      (hfree : fileExists limit t dest = false)
      (hland : t.landing limit [] dest = some place) (hv : Created t v place content)
      (hu : u.node = Function.update v.node p none) : Renames limit source dest t true u
  | left {u : FileTree Name Content} {place : List Name} {content : Content}
      (hcontent : content = default ∨ fileAt limit t source = some content)
      (hfree : fileExists limit t dest = false)
      (hland : t.landing limit [] dest = some place) (hu : Created t u place content) :
      Renames limit source dest t false u
  | undone {u v : FileTree Name Content} {q place : List Name} {content : Content}
      (hcontent : content = default ∨ fileAt limit t source = some content)
      (hfree : fileExists limit t dest = false) (hq : t.place limit dest = some q)
      (hlink : q = place ∨ ∃ target, t.node q = some (.link target))
      (hland : t.landing limit [] dest = some place) (hv : Created t v place content)
      (hu : u.node = Function.update v.node q none) : Renames limit source dest t false u

section Renames

variable {u : FileTree Name Content} {success : Bool}

/-- A file that is not in what is renamed stays. -/
theorem Renames.kept (h : Renames limit source dest t success u) {r : List Name}
    (hfile : t.node r = some (.file content))
    (hout : ∀ p, t.place limit source = some p → ¬ p <+: r) : u.node r = some (.file content) := by
  cases h with
  | unchanged => exact hfile
  | moved hexists hp hq hmoved => exact hmoved.kept (hout _ hp) hfile
  | @copied _ v p _ _ _ hp hn hnodir hold hfree hland hv hu =>
      have hne : r ≠ p := fun heq => hout p hp (heq ▸ List.prefix_refl r)
      rw [hu, Function.update_of_ne hne]
      exact hv.le r _ hfile
  | left _ hfree hland hu => exact hu.le r _ hfile
  | @undone _ v q place _ _ hfree hq hlink hland hv hu =>
      -- what is removed is new, or a link
      have hne : r ≠ q := by
        rintro rfl
        rcases hlink with rfl | ⟨target, htarget⟩
        · cases hv.free.symm.trans hfile
        · cases htarget.symm.trans hfile
      rw [hu, Function.update_of_ne hne]
      exact hv.le r _ hfile

/-- What a file in it held, a file holds still. -/
theorem Renames.carried (h : Renames limit source dest t success u) {r : List Name}
    (hfile : t.node r = some (.file content)) : ∃ r', u.node r' = some (.file content) := by
  by_cases hin : ∃ p, t.place limit source = some p ∧ p <+: r
  · obtain ⟨p, hp, rel, rfl⟩ := hin
    cases h with
    | unchanged => exact ⟨p ++ rel, hfile⟩
    | @moved _ p' q hexists hp' hq hmoved =>
        obtain rfl := Option.some.inj (hp'.symm.trans hp)
        exact ⟨q ++ rel, (hmoved.arrived rel).trans hfile⟩
    | @copied _ v p' place n held hp' hn hnodir hheld hfree hland hv hu =>
        obtain rfl := Option.some.inj (hp'.symm.trans hp)
        have hrel : rel = [] := by
          by_contra hrel
          have hdir := dir_of_below hrel (by simp [hfile] : t.node (p' ++ rel) ≠ none)
          exact hnodir (Option.some.inj (hn.symm.trans hdir))
        rw [hrel, List.append_nil] at hfile
        -- the file itself is copied, so its copy is there
        have hseek := seek_of_place hp hfile (by simp)
        obtain ⟨s, hs, hcontent⟩ := fileAt_eq_some.mp hheld
        obtain rfl := Option.some.inj (hs.symm.trans hseek)
        obtain ⟨rfl⟩ := Node.file.inj (Option.some.inj (hcontent.symm.trans hfile))
        refine ⟨place, ?_⟩
        rw [hu, Function.update_of_ne, hv.node, Function.update_self]
        rintro rfl
        cases hv.free.symm.trans hfile
    | left hold hfree hland hu => exact ⟨p ++ rel, hu.le _ _ hfile⟩
    | @undone _ v q place _ _ hfree hq hlink hland hv hu =>
        have hne : p ++ rel ≠ q := by
          rintro rfl
          rcases hlink with rfl | ⟨target, htarget⟩
          · cases hv.free.symm.trans hfile
          · cases htarget.symm.trans hfile
        refine ⟨p ++ rel, ?_⟩
        rw [hu, Function.update_of_ne hne]
        exact hv.le _ _ hfile
  · exact ⟨r, h.kept hfile fun p hp hpr => hin ⟨p, hp, hpr⟩⟩

/-- A rename that fails changes no entry that is there. -/
theorem Renames.leaves (h : Renames limit source dest t false u) : Leaves t u := by
  cases h with
  | unchanged => exact .of_le (le_refl t)
  | left _ hfree hland hu => exact .of_ge hu.le
  | undone _ hfree hq hlink hland hv hu => exact (Leaves.of_ge hv.le).erase hu

end Renames

section Plain

variable {u : FileTree Name Content} {pre : List (Step Name)} {name : Name}

omit [Inhabited Content] in
/-- Where no link bears the name, a file is created where its path names it. -/
theorem place_of_landing {place : List Name}
    (hland : t.landing limit [] (pre ++ [.down name]) = some place)
    (hplain : ∀ q, t.place limit (pre ++ [.down name]) = some q → t.node q = none) :
    t.place limit (pre ++ [.down name]) = some place := by
  obtain ⟨q, hq⟩ := exists_place_of_landing hland
  rw [hq, ← landing_of_place hq (hplain q hq), hland]

/-- **A file** that is renamed has moved, if no link bears its new name. -/
theorem Renames.relocated (h : Renames limit source dest t true u)
    (hdest : dest = pre ++ [.down name])
    (hplain : ∀ q, t.place limit dest = some q → t.node q = none)
    (hsource : ∀ p target, t.place limit source = some p → t.node p ≠ some (.link target)) :
    ∃ p q, t.place limit source = some p ∧ t.place limit dest = some q ∧ Relocated t u p q := by
  subst hdest
  cases h with
  | moved hexists hp hq hmoved => exact ⟨_, _, hp, hq, hmoved⟩
  | @copied _ v p place n content hp hn hnodir hfile hfree hland hv hu =>
      obtain ⟨s, hs, hcontent⟩ := fileAt_eq_some.mp hfile
      have hself : t.seek limit source = some p :=
        seek_of_place hp hn fun target heq => hsource p target hp (heq ▸ hn)
      obtain rfl := Option.some.inj (hs.symm.trans hself)
      refine ⟨s, place, hp, place_of_landing hland hplain, ?_⟩
      exact relocated_of_file hv.dir hv.free hcontent (by rw [hu, hv.node])

/-- A file that is not renamed has stayed, and with it all else, but for what was created. -/
theorem Renames.refused (h : Renames limit source dest t false u)
    (hdest : dest = pre ++ [.down name])
    (hplain : ∀ q, t.place limit dest = some q → t.node q = none) :
    u.node = t.node ∨ ∃ q content, t.place limit dest = some q ∧ Created t u q content := by
  subst hdest
  cases h with
  | unchanged => exact .inl rfl
  | left _ hfree hland hu => exact .inr ⟨_, _, place_of_landing hland hplain, hu⟩
  | @undone _ v q place _ _ hfree hq hlink hland hv hu =>
      refine .inl ?_
      rcases hlink with rfl | ⟨target, htarget⟩
      · rw [hu, hv.node, Function.update_idem, ← hv.free, Function.update_eq_self]
      · cases (hplain q hq).symm.trans htarget

end Plain

section Rename

open Command

variable {σ : Type*} {tree : σ → FileTree Name Content}
  {perform : RenameStep → (FileTree Name Content → Option (FileTree Name Content)) → Command σ}
  {s : σ}

/-- The target is removed after an error. -/
theorem uncopied {place : List Name} (hperform : Performs tree perform)
    (hcontent : content = default ∨ fileAt limit t source = some content)
    (hfree : fileExists limit t dest = false) (hland : t.landing limit [] dest = some place)
    (hu : Created t (tree s) place content) :
    ∃ s', ((perform .remove fun t => removed limit t dest).followedBy (result false)) s =
      (some false, s') ∧ Renames limit source dest t false (tree s') := by
  unfold Command.followedBy
  rcases hperform .remove (fun t => removed limit t dest) s with
    ⟨s', hs', htree⟩ | ⟨s', hs', heffect⟩
  · rw [hs']
    exact ⟨s', rfl, htree ▸ .left hcontent hfree hland hu⟩
  · rw [hs']
    obtain ⟨q, hq, hlink, hnode⟩ := hu.removeTarget hfree hland heffect
    exact ⟨s', rfl, .undone hcontent hfree hq hlink hland hu (by rw [hnode, hu.node])⟩

/-- What is no file is not copied. -/
theorem copyOver_of_no_file (hfile : fileAt limit (tree s) source = none) :
    copyOver tree perform limit source dest s = (some false, s) := by
  rw [copyOver, hfile]

theorem copyOver_outcome (hperform : Performs tree perform)
    (hexists : fileExists limit (tree s) source = true)
    (hfree : fileExists limit (tree s) dest = false) :
    ∃ success s', copyOver tree perform limit source dest s = (some success, s') ∧
      Renames limit source dest (tree s) success (tree s') := by
  unfold copyOver
  split
  · next content place t₁ hfile hopen =>
      obtain ⟨hland, hinsert⟩ := openTruncate_created hfree hopen
      unfold Command.andThen
      rcases hperform .opening (fun t => (openTruncate limit t dest).map Prod.snd) s with
        ⟨s₁, hs₁, htree⟩ | ⟨s₁, hs₁, heffect⟩
      · rw [hs₁]
        exact ⟨false, s₁, rfl, htree ▸ .unchanged⟩
      · rw [hs₁]
        rw [hopen, Option.map_some, Option.some_inj] at heffect
        have hcreated : Created (tree s) (tree s₁) place default :=
          heffect ▸ created_of_tryInsert hinsert
        unfold Command.orElse
        rcases hperform .write (fun t => t.tryWrite place content) s₁ with
          ⟨s₂, hs₂, htree⟩ | ⟨s₂, hs₂, heffect⟩
        · obtain ⟨s', hs', hout⟩ :=
            uncopied hperform (.inl rfl) hfree hland (htree.symm ▸ hcreated)
          simp only [hs₂]
          exact ⟨false, s', hs', hout⟩
        · have hwritten := hcreated.write heffect
          rcases hperform .remove (fun t => removed limit t source) s₂ with
            ⟨s₃, hs₃, htree⟩ | ⟨s₃, hs₃, heffect⟩
          · obtain ⟨s', hs', hout⟩ :=
              uncopied hperform (.inr hfile) hfree hland (htree.symm ▸ hwritten)
            simp only [hs₂, hs₃]
            exact ⟨false, s', hs', hout⟩
          · obtain ⟨p, n, hp, hn, hnodir, hnode⟩ := hwritten.removeSource hexists heffect
            simp only [hs₂, hs₃]
            exact ⟨true, s₃, rfl,
              .copied hp hn hnodir hfile hfree hland hwritten (by rw [hnode, hwritten.node])⟩
  · exact ⟨false, s, rfl, .unchanged⟩

/-- **What comes of a rename**, whichever of its steps fail. -/
theorem rename_outcome (hperform : Performs tree perform) (limit : ℕ)
    (source dest : List (Step Name)) (s : σ) :
    ∃ success s', rename tree perform limit source dest s = (some success, s') ∧
      Renames limit source dest (tree s) success (tree s') := by
  unfold rename
  split
  · next hcan =>
      obtain ⟨-, hexists, hfree⟩ := canRename_eq_true.mp hcan
      unfold Command.orElse
      rcases hperform .rename (fun t => renamed limit t source dest) s with
        ⟨s₁, hs₁, htree⟩ | ⟨s₁, hs₁, heffect⟩
      · rw [hs₁]
        rw [← htree] at hexists hfree ⊢
        exact copyOver_outcome hperform hexists hfree
      · rw [hs₁]
        obtain ⟨p, q, hp, hq, hmoved⟩ := renamed_eq_some heffect
        exact ⟨true, s₁, rfl, .moved hexists hp hq hmoved⟩
  · exact ⟨false, s, rfl, .unchanged⟩

end Rename

end FileTree
