import NiraOS.Files.FileOperations

/-!
# What the operations leave alone

Copying and making directories only add entries (`Grows`).  A recursive delete removes nothing
but what it reaches from its path by names that are not hidden, links followed on the way
(`Reached`).
-/

namespace NiraOS.Files

open Command

variable {env : Env}

/-! ## Primitives -/

section Count

variable {w : World} {primitive other : Primitive}

@[simp]
theorem count_tree : (w.count primitive).tree = w.tree := rfl

@[simp]
theorem count_calls_of_ne (h : other ≠ primitive) :
    (w.count primitive).calls other = w.calls other :=
  Function.update_of_ne h ..

@[simp]
theorem count_calls_self : (w.count primitive).calls primitive = w.calls primitive + 1 :=
  Function.update_self ..

end Count

variable (env) in
/-- A primitive succeeds with its effect, or fails and changes nothing. -/
theorem attempt_cases (primitive : Primitive) (effect : Tree → Option Tree) (w : World) :
    attempt env primitive effect w = (some false, w.count primitive) ∨
      ∃ t, env.fails primitive (w.calls primitive) = false ∧ effect w.tree = some t ∧
        attempt env primitive effect w = (some true, { w.count primitive with tree := t }) := by
  unfold attempt
  split
  · exact .inl rfl
  · next hok =>
      split
      · exact .inl rfl
      · next t heq => exact .inr ⟨t, Bool.eq_false_iff.mpr hok, heq, rfl⟩

theorem attempt_of_effect {primitive : Primitive} {effect : Tree → Option Tree}
    {w : World} {t : Tree}
    (hfails : env.fails primitive (w.calls primitive) = false) (heffect : effect w.tree = some t) :
    attempt env primitive effect w = (some true, { w.count primitive with tree := t }) := by
  rw [attempt, if_neg (by rw [hfails]; exact Bool.false_ne_true), heffect]

theorem keeps_attempt {P : Tree → Prop} {primitive : Primitive} {effect : Tree → Option Tree}
    (h : ∀ t t', P t → effect t = some t' → P t') :
    Keeps (fun w => P w.tree) (attempt env primitive effect) := by
  intro w hw
  rcases attempt_cases env primitive effect w with hfail | ⟨t, -, heffect, hok⟩
  · rw [hfail]
    exact hw
  · rw [hok]
    exact h _ t hw heffect

/-- A primitive counts as one of its kind. -/
theorem calls_attempt {primitive other : Primitive} (hne : other ≠ primitive)
    (effect : Tree → Option Tree) (calls : ℕ) :
    Keeps (fun w => w.calls other = calls) (attempt env primitive effect) := by
  intro w hw
  rcases attempt_cases env primitive effect w with hfail | ⟨t, -, -, hok⟩
  · rw [hfail, count_calls_of_ne hne, hw]
  · rw [hok]
    exact (count_calls_of_ne hne).trans hw

variable (env) in
theorem gioTrash_cases (path : Path) (w : World) :
    gioTrash env path w = (some false, w) ∨
      ∃ p place t, env.entry w.tree path = some p ∧ w.tree.tryRelocate p place = some t ∧
        gioTrash env path w = (some true, { w with tree := t }) := by
  unfold gioTrash
  split
  · exact .inl rfl
  · exact .inl rfl
  · next place _ =>
      split
      · exact .inl rfl
      · next t heq =>
          obtain ⟨p, hp, heq⟩ := Option.bind_eq_some_iff.mp heq
          split_ifs at heq
          exact .inr ⟨p, place, t, hp, heq, rfl⟩

theorem copied_eq_some {source dest : Path} {t t' : Tree}
    (h : QFile.copied env source dest t = some t') :
    ∃ p content q, env.locate t source = some p ∧ t.node p = some (.file content) ∧
      env.entry t dest = some q ∧ t.tryInsert q (.file content) = some t' := by
  unfold QFile.copied at h
  split at h
  · nomatch h
  · split at h
    · next content hcontent =>
        obtain ⟨p, hp, hnode⟩ := Option.bind_eq_some_iff.mp hcontent
        obtain ⟨q, hq, h⟩ := Option.bind_eq_some_iff.mp h
        exact ⟨p, content, q, hp, hnode, hq, h⟩
    · nomatch h

theorem removed_eq_some {path : Path} {t t' : Tree} (h : QFile.removed env path t = some t') :
    ∃ p n, env.entry t path = some p ∧ t.node p = some n ∧ n ≠ .dir ∧ t.tryErase p = some t' := by
  obtain ⟨p, n, hp, hrest⟩ := FileTree.removed_eq_some h
  rw [FileTree.place_map_down] at hp
  exact ⟨p, n, hp, hrest⟩

theorem removed_of_entry {path : Path} {t t' : Tree} {p : List String} {n : Node String String}
    (hp : env.entry t path = some p) (hn : t.node p = some n) (hnodir : n ≠ .dir)
    (herase : t.tryErase p = some t') : QFile.removed env path t = some t' :=
  FileTree.removed_of_place ((FileTree.place_map_down path).trans hp) hn hnodir herase

theorem removedDir_eq_some {path : Path} {t t' : Tree} (h : QDir.removedDir env path t = some t') :
    ∃ p, env.entry t path = some p ∧ t.node p = some .dir ∧ t.tryErase p = some t' := by
  obtain ⟨p, hp, h⟩ := Option.bind_eq_some_iff.mp h
  split at h
  · next hnode => exact ⟨p, hp, hnode, h⟩
  · nomatch h

theorem opened_cases {path : Path} {t t' : Tree} (h : QFile.opened env path t = some t') :
    (∃ p, env.locate t path = some p ∧ t.tryWrite p "" = some t') ∨
      ∃ q, t.tryInsert q (.file "") = some t' := by
  obtain ⟨⟨place, u⟩, hopen, rfl⟩ := Option.map_eq_some_iff.mp h
  unfold FileTree.openTruncate at hopen
  split at hopen
  · next p hp =>
      obtain ⟨v, hv, heq⟩ := Option.map_eq_some_iff.mp hopen
      obtain ⟨rfl, rfl⟩ := Prod.mk.inj heq
      exact .inl ⟨p, hp, hv⟩
  · obtain ⟨q, -, hopen⟩ := Option.bind_eq_some_iff.mp hopen
    obtain ⟨v, hv, heq⟩ := Option.map_eq_some_iff.mp hopen
    obtain ⟨rfl, rfl⟩ := Prod.mk.inj heq
    exact .inr ⟨q, hv⟩

/-! ## Renaming -/

section Renaming

variable {source dest : Path} {w w' : World} {success : Bool}

theorem performs_renameStep : FileTree.Performs World.tree (renameStep env) := by
  have hattempt : ∀ (primitive : Primitive) (effect : Tree → Option Tree) (w : World),
      (∃ w', attempt env primitive effect w = (some false, w') ∧ w'.tree = w.tree) ∨
        ∃ w', attempt env primitive effect w = (some true, w') ∧ effect w.tree = some w'.tree := by
    intro primitive effect w
    rcases attempt_cases env primitive effect w with hfail | ⟨t, -, heffect, hok⟩
    · exact .inl ⟨_, hfail, rfl⟩
    · exact .inr ⟨_, hok, heffect⟩
  intro step effect w
  cases step with
  | rename => exact hattempt .rename effect w
  | opening => exact hattempt .write effect w
  | write => exact hattempt .write effect w
  | remove => exact hattempt .remove effect w

variable (env source dest w) in
theorem rename_cases : ∃ success w', QFile.rename env source dest w = (some success, w') ∧
    FileTree.Renames env.linkLimit (source.map .down) (dest.map .down) w.tree success w'.tree :=
  FileTree.rename_outcome performs_renameStep ..

theorem renames_of_rename (h : QFile.rename env source dest w = (some success, w')) :
    FileTree.Renames env.linkLimit (source.map .down) (dest.map .down) w.tree success w'.tree := by
  obtain ⟨_, _, heq, hrenames⟩ := rename_cases env source dest w
  obtain ⟨hsuccess, rfl⟩ := Prod.mk.inj (heq.symm.trans h)
  rwa [Option.some.inj hsuccess] at hrenames

/-- What is not there is not renamed. -/
theorem rename_of_missing (hexists : env.exists w.tree source = false) :
    QFile.rename env source dest w = (some false, w) := by
  refine if_neg fun hcan => ?_
  cases hexists.symm.trans (FileTree.canRename_eq_true.mp hcan).2.1

/-- Nothing is renamed onto what is there. -/
theorem rename_of_taken (hexists : env.exists w.tree dest = true) :
    QFile.rename env source dest w = (some false, w) := by
  refine if_neg fun hcan => ?_
  cases hexists.symm.trans (FileTree.canRename_eq_true.mp hcan).2.2

theorem ne_of_rename (h : QFile.rename env source dest w = (some true, w')) : source ≠ dest := by
  rintro rfl
  have hrefused : QFile.rename env source source w = (some false, w) :=
    if_neg fun hcan => (FileTree.canRename_eq_true.mp hcan).1 rfl
  cases hrefused.symm.trans h

/-- What the system can rename, it does unless it fails. -/
theorem rename_of_effect {t : Tree} (hne : source ≠ dest)
    (hexists : env.exists w.tree source = true)
    (hfree : env.exists w.tree dest = false) (hfails : env.fails .rename (w.calls .rename) = false)
    {p q : List String} (hp : env.entry w.tree source = some p)
    (hq : env.entry w.tree dest = some q) (hmove : w.tree.tryRelocate p q = some t) :
    QFile.rename env source dest w = (some true, { w.count .rename with tree := t }) := by
  have hcan : FileTree.canRename env.linkLimit w.tree (source.map .down) (dest.map .down) =
      true := by
    refine FileTree.canRename_eq_true.mpr ⟨fun heq => hne ?_, hexists, hfree⟩
    exact List.map_injective_iff.mpr (fun _ _ => Step.down.inj) heq
  have heffect : FileTree.renamed env.linkLimit w.tree (source.map .down) (dest.map .down) =
      some t := by
    rw [FileTree.renamed, FileTree.place_map_down, FileTree.place_map_down]
    exact Option.bind_eq_some_iff.mpr ⟨p, hp, Option.bind_eq_some_iff.mpr ⟨q, hq, hmove⟩⟩
  have hattempt : attempt env .rename
      (fun t => FileTree.renamed env.linkLimit t (source.map .down) (dest.map .down)) w =
        (some true, { w.count .rename with tree := t }) := attempt_of_effect hfails heffect
  unfold QFile.rename FileTree.rename
  rw [if_pos hcan, Command.orElse, renameStep, hattempt]

/-- A directory is no file. -/
theorem fileAt_of_isDir {t : Tree} {path : Path} (hdir : env.isDir t path = true) :
    FileTree.fileAt env.linkLimit t (path.map .down) = none := by
  apply Option.eq_none_iff_forall_not_mem.mpr
  intro content hcontent
  obtain ⟨s, hs, hnode⟩ := FileTree.fileAt_eq_some.mp hcontent
  unfold Env.isDir at hdir
  have hlocate : env.locate t path = some s := hs
  rw [hlocate] at hdir
  simp [hnode] at hdir

/-- **A directory** is renamed by the system or not at all. -/
theorem rename_of_isDir (hdir : env.isDir w.tree source = true) :
    QFile.rename env source dest w = (some false, w) ∨
      QFile.rename env source dest w = (some false, w.count .rename) ∨
        ∃ w', QFile.rename env source dest w = (some true, w') := by
  have hfile := fileAt_of_isDir hdir
  unfold QFile.rename FileTree.rename
  split
  · rcases attempt_cases env .rename
      (fun t => FileTree.renamed env.linkLimit t (source.map .down) (dest.map .down)) w with
      hfail | ⟨t, -, -, hok⟩
    · refine .inr (.inl ?_)
      rw [Command.orElse, renameStep, hfail]
      exact FileTree.copyOver_of_no_file hfile
    · refine .inr (.inr ⟨{ w.count .rename with tree := t }, ?_⟩)
      rw [Command.orElse, renameStep, hok]
  · exact .inl rfl

end Renaming

/-! ## Growing -/

/-- Nothing is taken away from `t`. -/
def Grows (t : Tree) (c : Command World) : Prop := Keeps (fun w => t ≤ w.tree) c

section Grows

variable {t : Tree}

theorem grows_copy (source dest : Path) : Grows t (QFile.copy env source dest) :=
  keeps_attempt fun u u' hu h => by
    obtain ⟨_, _, q, _, _, _, hinsert⟩ := copied_eq_some h
    exact le_trans hu (FileTree.le_of_tryInsert hinsert)

theorem grows_mkdir (path : Path) : Grows t (QDir.mkdir env path) := by
  intro w hw
  unfold QDir.mkdir
  split
  · exact hw
  · refine keeps_attempt (P := fun u => t ≤ u) (fun u u' hu h => ?_) w hw
    obtain ⟨q, -, hinsert⟩ := Option.bind_eq_some_iff.mp h
    exact le_trans hu (FileTree.le_of_tryInsert hinsert)

theorem grows_mkpath (path : Path) : Grows t (QDir.mkpath env path) :=
  Keeps.forEach fun dir _ => grows_mkdir dir

theorem keeps_copyEntries_of {I : World → Prop} {copyDir : Path → Path → Command World}
    (hcopy : ∀ source dest, Keeps I (QFile.copy env source dest))
    (h : ∀ source dest, Keeps I (copyDir source dest))
    (sourceDir destDir : Path) (entries : List FileInfo) :
    Keeps I (copyEntries env copyDir sourceDir destDir entries) := by
  refine Keeps.forEach fun entry _ => ?_
  split
  · exact h _ _
  · exact hcopy _ _

/-- **A recursive copy** keeps what each directory that is made and each file that is copied keeps.
-/
theorem keeps_copying {I : World → Prop} (hmkdir : ∀ path, Keeps I (QDir.mkdir env path))
    (hcopy : ∀ source dest, Keeps I (QFile.copy env source dest)) (fuel : ℕ)
    (sourceDir destDir : Path) :
    Keeps I (performRecursiveCopy env fuel sourceDir destDir) := by
  induction fuel generalizing sourceDir destDir with
  | zero => exact keeps_outOfFuel
  | succ fuel ih =>
      intro w hw
      have hentries : Keeps I fun w =>
          copyEntries env (performRecursiveCopy env fuel) sourceDir destDir
            (env.entryInfoList w.tree sourceDir) w :=
        keeps_of_state fun w _ => keeps_copyEntries_of hcopy ih sourceDir destDir _
      have hmkpath : Keeps I (QDir.mkpath env destDir) := Keeps.forEach fun dir _ => hmkdir dir
      unfold performRecursiveCopy
      split
      · split
        · exact hentries w hw
        · exact hmkpath.andThen hentries w hw
      · exact hw

theorem grows_performRecursiveCopy (fuel : ℕ) (sourceDir destDir : Path) :
    Grows t (performRecursiveCopy env fuel sourceDir destDir) :=
  keeps_copying grows_mkdir grows_copy fuel sourceDir destDir

theorem grows_copyEntries (fuel : ℕ) (sourceDir destDir : Path) (entries : List FileInfo) :
    Grows t (copyEntries env (performRecursiveCopy env fuel) sourceDir destDir entries) :=
  keeps_copyEntries_of grows_copy (grows_performRecursiveCopy fuel) sourceDir destDir entries

variable (env) in
theorem grows_copyAny (fuel : ℕ) (source target : Path) :
    Grows t (copyAny env fuel source target) := by
  intro w hw
  unfold copyAny
  split
  · exact grows_performRecursiveCopy fuel source target w hw
  · exact grows_copy source target w hw

/-- Only directories are made, and files copied. -/
theorem calls_mkdir {primitive : Primitive} (hne : primitive ≠ .make) (path : Path) (calls : ℕ) :
    Keeps (fun w => w.calls primitive = calls) (QDir.mkdir env path) := by
  intro w hw
  unfold QDir.mkdir
  split
  · exact hw
  · exact calls_attempt hne (QDir.madeDir env path) calls w hw

theorem calls_mkpath {primitive : Primitive} (hne : primitive ≠ .make) (path : Path) (calls : ℕ) :
    Keeps (fun w => w.calls primitive = calls) (QDir.mkpath env path) :=
  Keeps.forEach fun dir _ => calls_mkdir hne dir calls

variable (env) in
/-- A copy removes nothing. -/
theorem removals_copyAny (fuel : ℕ) (source target : Path) (calls : ℕ) :
    Keeps (fun w => w.calls .remove = calls) (copyAny env fuel source target) := by
  have hne : Primitive.remove ≠ .make := by decide
  have hcopy : ∀ source dest,
      Keeps (fun w => w.calls .remove = calls) (QFile.copy env source dest) :=
    fun source dest => calls_attempt hne (QFile.copied env source dest) calls
  intro w hw
  unfold copyAny
  split
  · exact keeps_copying (fun path => calls_mkdir hne path calls) hcopy fuel source target w hw
  · exact hcopy source target w hw

end Grows

/-! ## Deleting -/

/-- What a recursive delete comes to, from a path by names that are not hidden. -/
def Env.Reached (env : Env) (t : Tree) (path : Path) (q : List String) : Prop :=
  ∃ rel, (∀ name ∈ rel, isHidden name = false) ∧ env.exists t (path ++ rel) = true ∧
    env.entry t (path ++ rel) = some q

/-- Of `t` nothing is taken away but what is reached from the path. -/
structure Reaps (env : Env) (t : Tree) (path : Path) (u : Tree) : Prop where
  le : u ≤ t
  reached : ∀ q, t.node q ≠ none → u.node q = none → env.Reached t path q

section Reaps

variable {t : Tree} {path : Path}

theorem exists_mono {u : Tree} (h : u ≤ t) {path : Path} (hu : env.exists u path = true) :
    env.exists t path = true := by
  obtain ⟨d, hd⟩ := Option.isSome_iff_exists.mp hu
  exact Option.isSome_iff_exists.mpr ⟨d, FileTree.locate_mono h hd⟩

theorem isDir_eq_true {t : Tree} {path : Path} :
    env.isDir t path = true ↔ ∃ d, env.locate t path = some d ∧ t.node d = some .dir := by
  unfold Env.isDir
  cases env.locate t path with
  | none => exact ⟨nofun, fun ⟨_, h, _⟩ => nomatch h⟩
  | some d => simp

theorem isDir_mono {t u : Tree} {path : Path} (h : t ≤ u) (hdir : env.isDir t path = true) :
    env.isDir u path = true := by
  obtain ⟨d, hd, hnode⟩ := isDir_eq_true.mp hdir
  exact isDir_eq_true.mpr ⟨d, FileTree.locate_mono h hd, h d _ hnode⟩

theorem exists_of_isDir {t : Tree} {path : Path} (h : env.isDir t path = true) :
    env.exists t path = true := by
  obtain ⟨d, hd, -⟩ := isDir_eq_true.mp h
  exact Option.isSome_iff_exists.mpr ⟨d, hd⟩

theorem entryInfoList_eq {t : Tree} {path : Path} {d : List String}
    (hd : env.locate t path = some d) :
    env.entryInfoList t path =
      (env.order path ((t.children d).filter fun name =>
        !isHidden name && env.exists t (path ++ [name]))).map fun name =>
          ⟨name, env.isDir t (path ++ [name])⟩ := by
  unfold Env.entryInfoList
  rw [hd]

theorem mem_entryInfoList {t : Tree} {path : Path} {entry : FileInfo}
    (h : entry ∈ env.entryInfoList t path) :
    isHidden entry.fileName = false ∧ env.exists t (path ++ [entry.fileName]) = true ∧
      entry.isDir = env.isDir t (path ++ [entry.fileName]) := by
  cases hd : env.locate t path with
  | none =>
      rw [Env.entryInfoList, hd] at h
      nomatch h
  | some d =>
      rw [entryInfoList_eq hd] at h
      obtain ⟨name, hname, rfl⟩ := List.mem_map.mp h
      rw [(env.order_perm path _).mem_iff, List.mem_filter] at hname
      obtain ⟨-, hname⟩ := hname
      rw [Bool.and_eq_true] at hname
      exact ⟨by simpa using hname.1, hname.2, rfl⟩

theorem visible_concat {rel : Path} {name : String} (hrel : ∀ x ∈ rel, isHidden x = false)
    (hname : isHidden name = false) : ∀ x ∈ rel ++ [name], isHidden x = false := by
  intro x hx
  rcases List.mem_append.mp hx with hmem | hmem
  · exact hrel x hmem
  · rwa [List.mem_singleton.mp hmem]

/-- An entry that is reached goes. -/
theorem Reaps.erase {u u' : Tree} (h : Reaps env t path u) {rel : Path}
    (hrel : ∀ name ∈ rel, isHidden name = false) (hexists : env.exists t (path ++ rel) = true)
    {p : List String} (hp : env.entry u (path ++ rel) = some p) (herase : u.tryErase p = some u') :
    Reaps env t path u' := by
  refine ⟨le_trans (FileTree.le_of_tryErase herase) h.le, fun q hq hq' => ?_⟩
  by_cases hqu : u.node q = none
  · exact h.reached q hq hqu
  · obtain ⟨-, -, hnode⟩ := FileTree.tryErase_eq_some herase
    have hqp : q = p := by
      by_contra hne
      rw [hnode, Function.update_of_ne hne] at hq'
      exact hqu hq'
    rw [hqp]
    exact ⟨rel, hrel, hexists, FileTree.entry_mono h.le hp⟩

theorem performRecursiveDelete_of_isDir {fuel : ℕ} {path : Path} {w : World}
    (hdir : env.isDir w.tree path = true) :
    performRecursiveDelete env (fuel + 1) path w =
      (deleteEntries env (performRecursiveDelete env fuel) path
        (env.entryInfoList w.tree path)).andThen
        (QDir.rmdir env path) w :=
  if_pos hdir

/-- **A recursive delete** keeps what each removal keeps, of a file or of a directory that it has
come to by names that are not hidden. -/
theorem keeps_performRecursiveDelete {I : Tree → Prop} (path : Path)
    (hremove : ∀ rel t u u', (∀ name ∈ rel, isHidden name = false) → I t → I u →
      env.exists t (path ++ rel) = true → env.isDir t (path ++ rel) = false →
      QFile.removed env (path ++ rel) u = some u' → I u')
    (hrmdir : ∀ rel t u u', (∀ name ∈ rel, isHidden name = false) → I t → I u →
      env.isDir t (path ++ rel) = true → QDir.removedDir env (path ++ rel) u = some u' → I u')
    (fuel : ℕ) {rel : Path} (hrel : ∀ name ∈ rel, isHidden name = false) :
    Keeps (fun w => I w.tree) (performRecursiveDelete env fuel (path ++ rel)) := by
  induction fuel generalizing rel with
  | zero => exact keeps_outOfFuel
  | succ fuel ih =>
      intro w hw
      have hentries : Keeps (fun w => I w.tree)
          (deleteEntries env (performRecursiveDelete env fuel) (path ++ rel)
            (env.entryInfoList w.tree (path ++ rel))) := by
        refine Keeps.forEach fun entry hentry => ?_
        obtain ⟨hvisible, hexists, hdir⟩ := mem_entryInfoList hentry
        have hrel' := visible_concat hrel hvisible
        rw [List.append_assoc] at hexists hdir ⊢
        split
        · exact ih hrel'
        · next hfile =>
            have hnodir := hdir.symm.trans (Bool.eq_false_iff.mpr hfile)
            exact keeps_attempt fun u u' hu h => hremove _ w.tree u u' hrel' hw hu hexists hnodir h
      unfold performRecursiveDelete
      split
      · next hdir =>
          exact hentries.andThen
            (keeps_attempt fun u u' hu h => hrmdir rel w.tree u u' hrel hw hu hdir h) w hw
      · exact hw

variable (env t path) in
/-- **A recursive delete** removes only what it reaches. -/
theorem reaps_performRecursiveDelete (fuel : ℕ) {rel : Path}
    (hrel : ∀ name ∈ rel, isHidden name = false) :
    Keeps (fun w => Reaps env t path w.tree) (performRecursiveDelete env fuel (path ++ rel)) := by
  refine keeps_performRecursiveDelete path ?_ ?_ fuel hrel
  · intro rel v u u' hrel hv hu hexists _ h
    obtain ⟨p, n, hp, -, -, herase⟩ := removed_eq_some h
    exact hu.erase hrel (exists_mono hv.le hexists) hp herase
  · intro rel v u u' hrel hv hu hdir h
    obtain ⟨p, hp, -, herase⟩ := removedDir_eq_some h
    exact hu.erase hrel (exists_mono hv.le (exists_of_isDir hdir)) hp herase

theorem Reaps.refl (t : Tree) (path : Path) : Reaps env t path t :=
  ⟨le_refl t, fun _ hq hq' => absurd hq' hq⟩

end Reaps

/-! ## Before the last step -/

section Steps

variable {env : Env} {fuel : ℕ} {source target path : Path} {step : Progress} {w w' : World}

/-- Until its last step a move renames its source, or fails to and copies it. -/
theorem copyAway_cases (h : copyAway env fuel source target w = (step, w')) :
    step = .ended (some true) ∧ QFile.rename env source target w = (some true, w') ∨
      ∃ m success, QFile.rename env source target w = (some false, m) ∧
        copyAny env fuel source target m = (success, w') ∧
          (success = some true ∧ step = .next ∨ success ≠ some true ∧ step = .ended success) := by
  unfold copyAway at h
  obtain ⟨success, m, hrename, -⟩ := rename_cases env source target w
  rw [hrename] at h ⊢
  cases success with
  | true =>
      obtain ⟨rfl, rfl⟩ := Prod.mk.inj h
      exact .inl ⟨rfl, rfl⟩
  | false =>
      refine .inr ⟨m, (copyAny env fuel source target m).1, rfl, ?_⟩
      dsimp only at h
      split at h
      · next heq =>
          obtain ⟨rfl, rfl⟩ := Prod.mk.inj h
          rw [heq]
          exact ⟨rfl, .inl ⟨rfl, rfl⟩⟩
      · next copied _ hne heq =>
          obtain ⟨rfl, rfl⟩ := Prod.mk.inj h
          rw [heq]
          refine ⟨rfl, .inr ⟨?_, rfl⟩⟩
          rintro rfl
          exact hne rfl

/-- When `gio` does not take it, a path is moved to the Trash as it is moved anywhere. -/
theorem copyToTrash_eq (hgio : gioTrash env path w = (some false, w)) :
    copyToTrash env fuel path w =
      copyAway env fuel path (trashTarget env (QDir.mkpath env env.trashDir w).2.tree path)
        (QDir.mkpath env env.trashDir w).2 := by
  rw [copyToTrash, hgio]
  rfl

end Steps
end NiraOS.Files
