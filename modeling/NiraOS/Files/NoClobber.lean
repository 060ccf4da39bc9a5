import NiraOS.Files.Frames
import NiraOS.Lib.Transition

/-!
# No operation clobbers a file

In any run of copies, moves, renames, duplicates and creations a regular file should stay where it
is, with what it holds, unless it is itself moved or renamed.

Two things stand against it.  `createFile` truncates the file that its path leads to.  And a move
that has to copy, to the Trash in the end, deletes what it reaches from its source by following
links.  A call that does neither spares every file (`Spares`).
-/

namespace NiraOS.Files

open Command

/-! ## Runs of calls -/

/-- A call, with what the system does meanwhile. -/
structure Event where
  env : Env
  fuel : ℕ
  call : Call

/-- The runs from a file tree. -/
def filesystem (t : Tree) : Transition.System Tree Event where
  init u := u = t
  step u e := some (perform e.env e.fuel e.call ⟨u, 0⟩).2.tree

/-- The location of what a path itself names. -/
def Env.own (env : Env) (t : Tree) (path : Path) : Option (List String) :=
  if path = [] then some [] else env.entry t path

/-- What is at a location is moved, or lies in what is moved. -/
def Event.Moves (e : Event) (t : Tree) (q : List String) : Prop :=
  match e.call with
  | .move path _ | .rename path _ => ∃ p, e.env.own t path = some p ∧ p <+: q
  | _ => False

/-- A creation does not meet a file that holds something; a delete at the end of a move reaches
no file but what is moved. -/
def Spares (t : Tree) (e : Event) : Prop :=
  match e.call with
  | .createFile parentDir name =>
      isSafeName name = true → e.env.fails .write 0 = false → ∀ p content,
        e.env.locate t (parentDir ++ [name]) = some p → t.node p = some (.file content) →
        content = ""
  | .move source dest =>
      ∀ w w', copyAway e.env e.fuel source (resolveDestination e.env t source dest) ⟨t, 0⟩ =
        (.next, w) →
        copyToTrash e.env e.fuel source w = (.next, w') →
        ∀ q content, t.node q = some (.file content) →
          e.env.Reached w'.tree source q → ∃ p, e.env.own t source = some p ∧ p <+: q
  | .delete .. => False
  | _ => True

section Kept

variable {env : Env} {t : Tree} {q : List String} {content : String} {source : Path}

/-! ## Moving the source -/

theorem own_of_ne_nil {path : Path} (hne : path ≠ []) :
    env.own t path = env.entry t path := if_neg hne

/-- The source is where it was, whatever was added. -/
theorem own_of_entry {u : Tree} (h : t ≤ u) (hexists : env.exists t source = true) {p : List String}
    (hp : env.entry u source = some p) : env.own t source = some p := by
  unfold Env.own
  by_cases hne : source = []
  · rw [hne] at hp
    nomatch hp
  · obtain ⟨d, hd⟩ := Option.isSome_iff_exists.mp hexists
    obtain ⟨e, he, -⟩ := FileTree.entry_of_locate hne hd
    have hpe : some e = some p := (FileTree.entry_mono h he).symm.trans hp
    rw [if_neg hne, ← hpe]
    exact he

theorem own_of_place {p : List String}
    (hp : t.place env.linkLimit (source.map .down) = some p) : env.own t source = some p := by
  rw [FileTree.place_map_down] at hp
  rw [own_of_ne_nil]
  · exact hp
  · rintro rfl
    cases hp

theorem own_of_entry_self (hexists : env.exists t source = true) {p : List String}
    (hp : env.entry t source = some p) : env.own t source = some p :=
  own_of_entry (le_refl t) hexists hp

/-- Where the source is found still, it is where it was, though a rename that failed may have left
something or taken a link away. -/
theorem own_of_leaves {u : Tree} (h : FileTree.Leaves t u) (hexists : env.exists t source = true)
    {p : List String} (hp : env.own u source = some p) : env.own t source = some p := by
  unfold Env.own at hp ⊢
  by_cases hne : source = []
  · rwa [if_pos hne] at hp ⊢
  · rw [if_neg hne] at hp ⊢
    obtain ⟨pre, name, rfl⟩ := FileTree.exists_of_entry hp
    obtain ⟨d, hd, -, rfl⟩ := FileTree.entry_concat.mp hp
    obtain ⟨e, he⟩ := Option.isSome_iff_exists.mp hexists
    obtain ⟨d', hd', hdir, -⟩ := FileTree.locate_concat he
    obtain rfl := FileTree.locate_eq_of_leaves h hd' hd
    exact FileTree.entry_concat.mpr ⟨d, hd', hdir, rfl⟩

theorem own_of_le {u : Tree} (h : t ≤ u) (hexists : env.exists t source = true) {p : List String}
    (hp : env.own u source = some p) : env.own t source = some p :=
  own_of_leaves (.of_ge h) hexists hp

/-! ## The way to the Trash -/

theorem exists_of_copyAny {fuel : ℕ} {target : Path} {w : World}
    (h : (copyAny env fuel source target w).1 = some true) : env.exists w.tree source = true := by
  unfold copyAny at h
  split at h
  · next hdir => exact exists_of_isDir hdir
  · rcases attempt_cases env .make (QFile.copied env source target) w with
      hfail | ⟨u, -, hcopied, -⟩
    · rw [QFile.copy, hfail] at h
      nomatch h
    · obtain ⟨p, _, _, hp, -, -, -⟩ := copied_eq_some hcopied
      exact Option.isSome_iff_exists.mpr ⟨p, hp⟩

/-- Until the last step of a move only the source is moved. -/
theorem kept_copyAway {fuel : ℕ} {target : Path} {w : World}
    (hfile : w.tree.node q = some (.file content))
    (hout : ∀ p, env.own w.tree source = some p → ¬ p <+: q)
    {step : Progress} {w' : World} (h : copyAway env fuel source target w = (step, w')) :
    w'.tree.node q = some (.file content) ∧ (step = .next → env.exists w'.tree source = true ∧
      ∀ p, env.own w'.tree source = some p → env.own w.tree source = some p) := by
  have hentry : ∀ success m, QFile.rename env source target w = (success, m) →
      m.tree.node q = some (.file content) := by
    intro success m hrename
    obtain ⟨_, _, heq, hrenames⟩ := rename_cases env source target w
    obtain ⟨-, rfl⟩ := Prod.mk.inj (heq.symm.trans hrename)
    exact hrenames.kept hfile fun p hp => hout p (own_of_place hp)
  rcases copyAway_cases h with ⟨rfl, hrename⟩ | ⟨m, success, hrename, hcopy, hstep⟩
  · exact ⟨hentry _ _ hrename, nofun⟩
  · have hcopied := grows_copyAny env fuel source target m (le_refl m.tree)
    rw [hcopy] at hcopied
    refine ⟨hcopied q _ (hentry _ _ hrename), ?_⟩
    rcases hstep with ⟨rfl, rfl⟩ | ⟨-, rfl⟩
    · have hthere : env.exists m.tree source = true := exists_of_copyAny (congrArg Prod.fst hcopy)
      refine fun _ => ⟨exists_mono hcopied hthere, fun p hp => ?_⟩
      have hm := own_of_le hcopied hthere hp
      cases hexists : env.exists w.tree source with
      | true => exact own_of_leaves (renames_of_rename hrename).leaves hexists hm
      | false =>
          -- then nothing was tried
          rw [rename_of_missing hexists] at hrename
          rwa [← (Prod.mk.inj hrename).2] at hm
    · nofun

theorem kept_copyToTrash {fuel : ℕ} {w : World} (hexists : env.exists w.tree source = true)
    (hfile : w.tree.node q = some (.file content))
    (hout : ∀ p, env.own w.tree source = some p → ¬ p <+: q) {step : Progress} {w' : World}
    (h : copyToTrash env fuel source w = (step, w')) :
    w'.tree.node q = some (.file content) ∧ (step = .next → env.exists w'.tree source = true ∧
      ∀ p, env.own w'.tree source = some p → env.own w.tree source = some p) := by
  rcases gioTrash_cases env source w with hgio | ⟨p, place, u, hp, hmove, hgio⟩
  · rw [copyToTrash_eq hgio] at h
    have hmade : w.tree ≤ (QDir.mkpath env env.trashDir w).2.tree :=
      grows_mkpath env.trashDir w (le_refl w.tree)
    obtain ⟨hkept, hnext⟩ := kept_copyAway (hmade q _ hfile)
      (fun p hp => hout p (own_of_le hmade hexists hp)) h
    refine ⟨hkept, fun hstep => ?_⟩
    obtain ⟨hthere, hown⟩ := hnext hstep
    exact ⟨hthere, fun p hp => own_of_le hmade hexists (hown p hp)⟩
  · rw [copyToTrash, hgio] at h
    obtain ⟨rfl, rfl⟩ := Prod.mk.inj h
    have hrelocated := FileTree.relocated_of_tryRelocate hmove
    exact ⟨hrelocated.kept (hout p (own_of_entry_self hexists hp)) hfile, by simp⟩

end Kept

/-! ## One call -/

section Calls

variable {t : Tree} {q : List String} {content : String}

/-- What a recursive delete does not reach stays. -/
theorem kept_performRecursiveDelete {env : Env} {fuel : ℕ} {path : Path} {w : World}
    (hfile : w.tree.node q = some (.file content)) (hreach : ¬ env.Reached w.tree path q) :
    (performRecursiveDelete env fuel path w).2.tree.node q = some (.file content) := by
  have hreaps := @reaps_performRecursiveDelete env w.tree path fuel [] nofun w
  rw [List.append_nil] at hreaps
  obtain ⟨hle, hreached⟩ := hreaps (Reaps.refl w.tree path)
  cases hnode : (performRecursiveDelete env fuel path w).2.tree.node q with
  | none => exact absurd (hreached q (by rw [hfile]; nofun) hnode) hreach
  | some n =>
      have heq := hle q n hnode
      rw [hfile] at heq
      exact heq.symm

theorem kept_move {env : Env} {fuel : ℕ} {source dest : Path}
    (hfile : t.node q = some (.file content))
    (hspares : Spares t ⟨env, fuel, .move source dest⟩)
    (hmoves : ¬ Event.Moves ⟨env, fuel, .move source dest⟩ t q) :
    (FileOperations.move env fuel source dest ⟨t, 0⟩).2.tree.node q = some (.file content) := by
  have hout : ∀ p, env.own t source = some p → ¬ p <+: q := fun p hp hpq => hmoves ⟨p, hp, hpq⟩
  have hreach : ∀ w w', copyAway env fuel source (resolveDestination env t source dest) ⟨t, 0⟩ =
      (.next, w) → copyToTrash env fuel source w = (.next, w') →
        ¬ env.Reached w'.tree source q := by
    intro w w' haway htrash hreached
    obtain ⟨p, hp, hpq⟩ := hspares w w' haway htrash q content hfile hreached
    exact hout p hp hpq
  change (performMove env fuel source (resolveDestination env t source dest) ⟨t, 0⟩).2.tree.node
    q = _
  generalize resolveDestination env t source dest = target at hreach ⊢
  cases haway : copyAway env fuel source target ⟨t, 0⟩ with
  | mk step w =>
      obtain ⟨hkept, hnext⟩ := kept_copyAway hfile hout haway
      cases step with
      | ended success =>
          rw [performMove, haway]
          exact hkept
      | next =>
          obtain ⟨-, hown⟩ := hnext rfl
          rw [performMove, haway]
          change (performDelete env fuel source false w).2.tree.node q = _
          unfold performDelete
          split
          · next hexists =>
            rw [if_neg Bool.false_ne_true, moveToTrash]
            cases htrash : copyToTrash env fuel source w with
            | mk step w' =>
                obtain ⟨hkept', -⟩ :=
                  kept_copyToTrash hexists hkept (fun p hp => hout p (hown p hp)) htrash
                cases step with
                | ended success => exact hkept'
                | next => exact kept_performRecursiveDelete hkept' (hreach w w' haway htrash)
          · exact hkept

theorem kept_rename {env : Env} {fuel : ℕ} {path : Path} {newName : String}
    (hfile : t.node q = some (.file content))
    (hmoves : ¬ Event.Moves ⟨env, fuel, .rename path newName⟩ t q) :
    (FileOperations.rename env path newName ⟨t, 0⟩).2.tree.node q = some (.file content) := by
  have hout : ∀ p, env.own t path = some p → ¬ p <+: q := fun p hp hpq => hmoves ⟨p, hp, hpq⟩
  unfold FileOperations.rename
  split
  · dsimp only
    split
    · exact hfile
    · change (QFile.rename env path (path.dropLast ++ [newName]) ⟨t, 0⟩).2.tree.node q = _
      obtain ⟨success, w', heq, hrenames⟩ :=
        rename_cases env path (path.dropLast ++ [newName]) ⟨t, 0⟩
      rw [heq]
      exact hrenames.kept hfile fun p hp => hout p (own_of_place hp)
  · exact hfile

theorem kept_createFile {env : Env} {fuel : ℕ} {parentDir : Path} {name : String}
    (hfile : t.node q = some (.file content))
    (hspares : Spares t ⟨env, fuel, .createFile parentDir name⟩) :
    (FileOperations.createFile env parentDir name ⟨t, 0⟩).2.tree.node q = some (.file content) := by
  unfold FileOperations.createFile
  split
  · next hsafe =>
      change (QFile.openWriteOnly env (parentDir ++ [name]) ⟨t, 0⟩).2.tree.node q = _
      rcases attempt_cases env .write (QFile.opened env (parentDir ++ [name])) ⟨t, 0⟩ with
        hfail | ⟨u, hok, hopened, heq⟩
      · rw [QFile.openWriteOnly, hfail]
        exact hfile
      · rw [QFile.openWriteOnly, heq]
        change u.node q = _
        rcases opened_cases hopened with ⟨p, hp, hwrite⟩ | ⟨p, hinsert⟩
        · obtain ⟨⟨old, hold⟩, hnode⟩ := FileTree.tryWrite_eq_some hwrite
          rw [hnode]
          by_cases hqp : q = p
          · -- it holds nothing that could be lost
            rw [← hqp] at hold
            have hempty := hspares hsafe hok p content hp (by rw [← hqp]; exact hfile)
            rw [hqp, Function.update_self, hempty]
          · rw [Function.update_of_ne hqp, hfile]
        · exact FileTree.le_of_tryInsert hinsert q _ hfile
  · exact hfile

/-- **A call that spares** keeps every file that it does not move. -/
theorem kept_perform {e : Event} (hfile : t.node q = some (.file content)) (hspares : Spares t e)
    (hmoves : ¬ e.Moves t q) :
    (perform e.env e.fuel e.call ⟨t, 0⟩).2.tree.node q = some (.file content) := by
  obtain ⟨env, fuel, call⟩ := e
  cases call with
  | copy source dest =>
      simp only [perform, FileOperations.copy]
      split
      · exact grows_copyAny env fuel source _ ⟨t, 0⟩ (le_refl t) q _ hfile
      · exact hfile
  | move source dest => exact kept_move hfile hspares hmoves
  | rename path newName => exact kept_rename hfile hmoves
  | delete path permanent => exact hspares.elim
  | createFolder parentDir name =>
      simp only [perform, FileOperations.createFolder]
      split
      · exact grows_mkpath (parentDir ++ [name]) ⟨t, 0⟩ (le_refl t) q _ hfile
      · exact hfile
  | createFile parentDir name => exact kept_createFile hfile hspares
  | duplicate path => exact grows_copyAny env fuel path _ ⟨t, 0⟩ (le_refl t) q _ hfile

end Calls

/-! ## Any run -/

/-- **Files are kept** in every run of calls that spare them, as long as they are not moved. -/
theorem file_kept {t t' : Tree} {q : List String} {content : String}
    (hfile : t.node q = some (.file content))
    (h : (filesystem t).ReachableWhere (fun u e => Spares u e ∧ ¬ e.Moves u q) t') :
    t'.node q = some (.file content) := by
  refine h.invariant (I := fun u => u.node q = some (.file content)) ?_
    fun u e u' _ hu hok hstep => ?_
  · rintro u rfl
    exact hfile
  · obtain rfl := Option.some.inj hstep
    exact kept_perform hu hok.1 hok.2

/-! ## Examples of runs -/

/-- Nothing fails, and there is no `gio`. -/
def calmEnv : Env where
  linkLimit := 40
  fails _ _ := false
  order _ names := names
  order_perm _ _ := .refl _
  gio := .missing
  trashDir := ["Trash", "files"]
  errorString := ""

/-- A folder with one file. -/
def home : Tree :=
  (FileTree.empty.grow [(["home"], .dir), (["home", "New File"], .file "draft")]).getD .empty

theorem home_file : home.node ["home", "New File"] = some (.file "draft") := by
  decide +kernel

/-- A call when nothing fails. -/
def after (t : Tree) (call : Call) : Tree := (perform calmEnv 5 call ⟨t, 0⟩).2.tree

/-- The file is duplicated, and the duplicate is moved into a new folder and renamed. -/
theorem file_kept_duplicating :
    ∃ t', (filesystem home).ReachableWhere (fun u e => Spares u e ∧
      ¬ e.Moves u ["home", "New File"]) t' ∧
      t'.node ["home", "New File"] = some (.file "draft") ∧
      t'.node ["home", "old", "notes.txt"] = some (.file "draft") := by
  have hcopied : (filesystem home).ReachableWhere
      (fun u e => Spares u e ∧ ¬ e.Moves u ["home", "New File"])
      (after (after home (.duplicate ["home", "New File"])) (.createFolder ["home"] "old")) :=
    .step (e := ⟨calmEnv, 5, .createFolder ["home"] "old"⟩)
      (.step (e := ⟨calmEnv, 5, .duplicate ["home", "New File"]⟩) (.init rfl) ⟨trivial, id⟩ rfl)
      ⟨trivial, id⟩ rfl
  generalize ht : after (after home (.duplicate ["home", "New File"]))
    (.createFolder ["home"] "old") = t
    at hcopied
  have hmoved : (filesystem home).ReachableWhere
      (fun u e => Spares u e ∧ ¬ e.Moves u ["home", "New File"])
      (after t (.move ["home", "New File (copy)"] ["home", "old"])) := by
    refine .step (e := ⟨calmEnv, 5, .move ["home", "New File (copy)"] ["home", "old"]⟩) hcopied
      ⟨?_, ?_⟩ rfl
    · have hrenamed : (copyAway calmEnv 5 ["home", "New File (copy)"]
          (resolveDestination calmEnv t ["home", "New File (copy)"] ["home", "old"]) ⟨t, 0⟩).1 =
          .ended (some true) := by
        subst ht
        decide +kernel
      intro w w' haway
      rw [haway] at hrenamed
      nomatch hrenamed
    · have hown : calmEnv.own t ["home", "New File (copy)"] = some ["home", "New File (copy)"] := by
        subst ht
        decide +kernel
      rintro ⟨p, hp, hpq⟩
      obtain rfl := Option.some.inj (hown.symm.trans hp)
      exact absurd hpq (by decide)
  generalize ht' : after t (.move ["home", "New File (copy)"] ["home", "old"]) = t' at hmoved
  have hrenamed : (filesystem home).ReachableWhere
      (fun u e => Spares u e ∧ ¬ e.Moves u ["home", "New File"])
      (after t' (.rename ["home", "old", "New File (copy)"] "notes.txt")) := by
    refine .step (e := ⟨calmEnv, 5, .rename ["home", "old", "New File (copy)"] "notes.txt"⟩) hmoved
      ⟨trivial, ?_⟩ rfl
    have hown : calmEnv.own t' ["home", "old", "New File (copy)"] =
        some ["home", "old", "New File (copy)"] := by
      subst ht'
      subst ht
      decide +kernel
    rintro ⟨p, hp, hpq⟩
    obtain rfl := Option.some.inj (hown.symm.trans hp)
    exact absurd hpq (by decide)
  have hnotes : (after t' (.rename ["home", "old", "New File (copy)"] "notes.txt")).node
      ["home", "old", "notes.txt"] = some (.file "draft") := by
    subst ht'
    subst ht
    decide +kernel
  exact ⟨_, hrenamed, file_kept home_file hrenamed, hnotes⟩

/-- A new file takes the place of one that has the name the view always passes. -/
theorem not_kept_createFile :
    ¬ ∀ t t' q content, t.node q = some (.file content) →
      (filesystem t).ReachableWhere
        (fun u e => ¬ e.Moves u q ∧ ∀ path permanent, e.call ≠ .delete path permanent) t' →
      t'.node q = some (.file content) := by
  intro h
  have hkept := h home _ ["home", "New File"] "draft" home_file
    (.step (e := ⟨calmEnv, 0, .createFile ["home"] "New File"⟩) (.init rfl) ⟨id,
      fun _ _ => nofun⟩ rfl)
  have hlost : (perform calmEnv 0 (.createFile ["home"] "New File") ⟨home, 0⟩).2.tree.node
      ["home", "New File"] = some (.file "") := by
    decide +kernel
  exact absurd (hlost.symm.trans hkept) (by decide)

end NiraOS.Files
