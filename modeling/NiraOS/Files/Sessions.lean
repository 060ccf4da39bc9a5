import NiraOS.Files.MoveAndTrash
import NiraOS.Lib.FileTree.Provenance

/-!
# Sessions of the file manager

A session is a run of calls, each with its own failures, and from the tree at its start the file
manager

* **invents nothing** (`comesFrom_start`): whatever fails and whatever is deleted, an entry is a
  directory, an empty file, or what some entry was at the start, a file with all it holds or a link;
* **loses nothing** (`kept_of_safe`), if nothing is deleted for good, no call goes wrong (`Careful`)
  and no creation meets a file that holds something: what a file held at the start, a file holds
  still.

The second is about one file at a time.  A call either leaves it where it is or carries it along,
with what is moved, renamed or taken to the Trash.
-/

namespace NiraOS.Files

open Command

/-! ## Nothing is invented -/

/-- What an operation makes itself. -/
def Blank (n : Node String String) : Prop := n = .dir ∨ n = .file ""

section Invented

variable {env : Env} {t : Tree}

/-- What each effect brings in comes from the tree it is applied to. -/
theorem comesFrom_attempt {primitive : Primitive} {effect : Tree → Option Tree}
    (h : ∀ u u', effect u = some u' → u.ComesFrom Blank u') :
    Keeps (fun w => t.ComesFrom Blank w.tree) (attempt env primitive effect) :=
  keeps_attempt fun u u' hu heffect => hu.trans (h u u' heffect)

theorem comesFrom_copy (source dest : Path) :
    Keeps (fun w => t.ComesFrom Blank w.tree) (QFile.copy env source dest) := by
  refine comesFrom_attempt fun u u' h => ?_
  obtain ⟨p, content, q, -, hfile, -, hinsert⟩ := copied_eq_some h
  exact .tryInsert (.inr ⟨p, hfile⟩) hinsert

theorem comesFrom_mkdir (path : Path) :
    Keeps (fun w => t.ComesFrom Blank w.tree) (QDir.mkdir env path) := by
  intro w hw
  unfold QDir.mkdir
  split
  · exact hw
  · refine comesFrom_attempt (fun u u' h => ?_) w hw
    obtain ⟨q, -, hinsert⟩ := Option.bind_eq_some_iff.mp h
    exact .tryInsert (.inl (.inl rfl)) hinsert

theorem comesFrom_mkpath (path : Path) :
    Keeps (fun w => t.ComesFrom Blank w.tree) (QDir.mkpath env path) :=
  Keeps.forEach fun dir _ => comesFrom_mkdir dir

theorem comesFrom_rename (source dest : Path) :
    Keeps (fun w => t.ComesFrom Blank w.tree) (QFile.rename env source dest) := by
  intro w hw
  obtain ⟨success, w', heq, hrenames⟩ := rename_cases env source dest w
  rw [heq]
  exact hw.trans (hrenames.comesFrom (.inr rfl))

theorem comesFrom_openWriteOnly (path : Path) :
    Keeps (fun w => t.ComesFrom Blank w.tree) (QFile.openWriteOnly env path) := by
  refine comesFrom_attempt fun u u' h => ?_
  rcases opened_cases h with ⟨p, -, hwrite⟩ | ⟨q, hinsert⟩
  · exact .tryWrite (.inr rfl) hwrite
  · exact .tryInsert (.inl (.inr rfl)) hinsert

theorem comesFrom_remove (path : Path) :
    Keeps (fun w => t.ComesFrom Blank w.tree) (QFile.remove env path) := by
  refine comesFrom_attempt fun u u' h => ?_
  obtain ⟨p, n, -, -, -, herase⟩ := removed_eq_some h
  exact .of_le (FileTree.le_of_tryErase herase)

theorem comesFrom_copyAny (fuel : ℕ) (source target : Path) :
    Keeps (fun w => t.ComesFrom Blank w.tree) (copyAny env fuel source target) := by
  intro w hw
  unfold copyAny
  split
  · exact keeps_copying comesFrom_mkdir comesFrom_copy fuel source target w hw
  · exact comesFrom_copy source target w hw

theorem comesFrom_performRecursiveDelete (fuel : ℕ) (path : Path) :
    Keeps (fun w => t.ComesFrom Blank w.tree) (performRecursiveDelete env fuel path) := by
  intro w hw
  exact hw.trans (.of_le (shrinks_performRecursiveDelete fuel path w (le_refl w.tree)))

variable {fuel : ℕ} {source target path : Path} {step : Progress} {w w' : World}

theorem comesFrom_copyAway (hw : t.ComesFrom Blank w.tree)
    (h : copyAway env fuel source target w = (step, w')) :
    t.ComesFrom Blank w'.tree := by
  have hrenamed : t.ComesFrom Blank (QFile.rename env source target w).2.tree :=
    comesFrom_rename source target w hw
  rcases copyAway_cases h with ⟨-, hrename⟩ | ⟨m, success, hrename, hcopy, -⟩
  · rwa [hrename] at hrenamed
  · rw [hrename] at hrenamed
    have hcopied : t.ComesFrom Blank (copyAny env fuel source target m).2.tree :=
      comesFrom_copyAny fuel source target m hrenamed
    rwa [hcopy] at hcopied

theorem comesFrom_copyToTrash (hw : t.ComesFrom Blank w.tree)
    (h : copyToTrash env fuel path w = (step, w')) :
    t.ComesFrom Blank w'.tree := by
  rcases gioTrash_cases env path w with hgio | ⟨p, place, u, -, hmove, hgio⟩
  · rw [copyToTrash_eq hgio] at h
    exact comesFrom_copyAway (comesFrom_mkpath env.trashDir w hw) h
  · rw [copyToTrash, hgio] at h
    obtain ⟨-, rfl⟩ := Prod.mk.inj h
    exact hw.trans (FileTree.relocated_of_tryRelocate hmove).comesFrom

theorem comesFrom_performDelete (fuel : ℕ) (path : Path) (permanent : Bool) :
    Keeps (fun w => t.ComesFrom Blank w.tree) (performDelete env fuel path permanent) := by
  intro w hw
  unfold performDelete
  split_ifs
  · exact comesFrom_performRecursiveDelete fuel path w hw
  · exact comesFrom_remove path w hw
  · rw [moveToTrash]
    cases htrash : copyToTrash env fuel path w with
    | mk step w' =>
        have hw' := comesFrom_copyToTrash hw htrash
        cases step with
        | ended success => exact hw'
        | next => exact comesFrom_performRecursiveDelete fuel path w' hw'
  · exact hw

theorem comesFrom_performMove (fuel : ℕ) (source dest : Path) :
    Keeps (fun w => t.ComesFrom Blank w.tree) (performMove env fuel source dest) := by
  intro w hw
  cases haway : copyAway env fuel source dest w with
  | mk step w' =>
      have hw' := comesFrom_copyAway hw haway
      rw [performMove, haway]
      cases step with
      | ended success => exact hw'
      | next => exact comesFrom_performDelete fuel source false w' hw'

theorem comesFrom_perform (env : Env) (fuel : ℕ) (call : Call) (hw : t.ComesFrom Blank w.tree) :
    t.ComesFrom Blank (perform env fuel call w).2.tree := by
  cases call with
  | copy source dest =>
      simp only [perform, FileOperations.copy]
      split
      · exact comesFrom_copyAny fuel source _ w hw
      · exact hw
  | move source dest => exact comesFrom_performMove fuel source _ w hw
  | rename path newName =>
      simp only [perform, FileOperations.rename]
      split_ifs
      · exact hw
      · exact comesFrom_rename path _ w hw
      · exact hw
  | delete path permanent => exact comesFrom_performDelete fuel path permanent w hw
  | createFolder parentDir name =>
      simp only [perform, FileOperations.createFolder]
      split
      · exact comesFrom_mkpath _ w hw
      · exact hw
  | createFile parentDir name =>
      simp only [perform, FileOperations.createFile]
      split
      · exact comesFrom_openWriteOnly _ w hw
      · exact hw
  | duplicate path => exact comesFrom_copyAny fuel path _ w hw

end Invented

/-- The folder after its file was duplicated. -/
def duplicated : Tree := after home (.duplicate ["home", "New File"])

/-- What a file holds in `t`, a file holds in `u`. -/
def Kept (t u : Tree) : Prop :=
  ∀ q content, t.node q = some (.file content) → ∃ q', u.node q' = some (.file content)

/-- The call returns, deletes nothing for good, nothing goes wrong in it, and if it creates a file
it meets none that holds something. -/
def Safe (t : Tree) (e : Event) : Prop :=
  (perform e.env e.fuel e.call ⟨t, 0⟩).1 ≠ none ∧ Careful e.env e.fuel ⟨t, 0⟩ e.call ∧
    match e.call with
    | .delete _ permanent => permanent = false
    | .createFile .. => Spares t e
    | _ => True

section Lost

variable {env : Env} {fuel : ℕ} {t : Tree} {source path : Path} {p q : List String}
    {content : String}
  {dest : Path} {v w : World}

/-- What was copied to the Trash is as it was until it is deleted, and can be deleted as before. -/
theorem deletable_of_next (hexists : env.exists w.tree path = true)
    (hp : env.own w.tree path = some p) (hdiscards : Discards env fuel path w)
    (h : copyToTrash env fuel path w = (.next, v)) : env.Deletable path v := by
  have hdeletable := hdiscards.removable (congrArg Prod.fst h)
  rcases gioTrash_outcome env path w with ⟨hleft, hgio⟩ | ⟨p', place, u, -, -, -, hgio⟩
  · obtain ⟨name, hname⟩ := exists_trashTarget env (atTrash env w).tree path
    have haway : copyAway env fuel path (env.trashDir ++ [name]) (atTrash env w) = (.next, v) := by
      rw [← h, copyToTrash_eq hgio, ← hname]
      rfl
    rcases atTrash_cases hexists hp (hdiscards.room hexists hleft) (fun hended => by cases hended)
      hname haway with ⟨hended, -⟩ | ⟨-, hkept, hnext⟩
    · cases hended
    · obtain ⟨m, d, hnode, hcalls, -, -, -, -, hcopy⟩ := hnext rfl
      have hgrown := grows_copyAny env fuel path (env.trashDir ++ [name]) m (le_refl m.tree)
      have hremovals := removals_copyAny env fuel path (env.trashDir ++ [name]) _ m rfl
      rw [hcopy] at hgrown hremovals
      have hle : w.tree ≤ v.tree :=
        le_trans (grows_atTrash env w) (le_trans (le_of_node hnode) hgrown)
      apply hdeletable.of_ge hle (hremovals.trans (hcalls hdeletable.1))
      intro p' hp'
      obtain rfl := Option.some.inj (hp'.symm.trans hp)
      exact hkept
  · rw [copyToTrash, hgio] at h
    cases (Prod.mk.inj h).1

/-- **A delete into the Trash** leaves the files that are not in what it deletes. -/
theorem kept_performDelete (hdiscards : Discards env fuel path w)
    (hfile : w.tree.node q = some (.file content))
    (hout : ∀ p, env.own w.tree path = some p → ¬ p <+: q) :
    (performDelete env fuel path false w).2.tree.node q = some (.file content) := by
  unfold performDelete
  split
  · next hexists =>
      rw [if_neg Bool.false_ne_true, moveToTrash]
      cases htrash : copyToTrash env fuel path w with
      | mk step v =>
          obtain ⟨hkept, hnext⟩ := kept_copyToTrash hexists hfile hout htrash
          cases step with
          | ended success => exact hkept
          | next =>
              obtain ⟨-, hown⟩ := hnext rfl
              obtain ⟨p, hp⟩ := exists_own hexists
              obtain ⟨hdir, hdeletable⟩ := deletable_of_next hexists hp hdiscards htrash
              dsimp only
              rcases hdeletable with hfails | ⟨-, hplain⟩
              · rw [(first_removal_failed fuel hfails hdir).2]
                exact hkept
              · -- the directory is plain, so what is reached from it lies in it
                obtain ⟨p', hp'⟩ := exists_own (exists_of_isDir hdir)
                obtain rfl := Option.some.inj ((hown p' hp').symm.trans hp)
                have hne : path ≠ [] := by
                  intro hroot
                  rw [hroot] at hp'
                  obtain rfl := Option.some.inj hp'
                  exact hout [] hp List.nil_prefix
                have hplain' := (hplain p' hp').1
                have hlocate := locate_of_plain hne hp' (exists_of_isDir hdir) hplain'
                rw [own_of_ne_nil hne] at hp'
                rw [kept_outside fuel hp' hlocate hplain' (hout p' hp)]
                exact hkept
  · exact hfile

/-- **A move** leaves the files that are not in what it moves. -/
theorem kept_performMove {target : Path} (hmoves : Moves env fuel source dest target ⟨t, 0⟩)
    (hfile : t.node q = some (.file content))
    (hout : ∀ p, env.own t source = some p → ¬ p <+: q) :
    (performMove env fuel source target ⟨t, 0⟩).2.tree.node q = some (.file content) := by
  cases haway : copyAway env fuel source target ⟨t, 0⟩ with
  | mk step v =>
      obtain ⟨hkept, hnext⟩ := kept_copyAway hfile hout haway
      rw [performMove, haway]
      cases step with
      | ended success => exact hkept
      | next =>
          obtain ⟨-, hown⟩ := hnext rfl
          exact kept_performDelete (hmoves.discards haway) hkept fun p hp => hout p (hown p hp)

/-- What is renamed is carried along. -/
theorem carried_rename {newName : String} (hfile : t.node q = some (.file content)) :
    ∃ q', (FileOperations.rename env path newName ⟨t, 0⟩).2.tree.node q' =
      some (.file content) := by
  unfold FileOperations.rename
  split
  · dsimp only
    split
    · exact ⟨q, hfile⟩
    · obtain ⟨success, w', heq, hrenames⟩ :=
        rename_cases env path (path.dropLast ++ [newName]) ⟨t, 0⟩
      change ∃ q', (QFile.rename env path (path.dropLast ++ [newName]) ⟨t, 0⟩).2.tree.node q' = _
      rw [heq]
      exact hrenames.carried hfile
  · exact ⟨q, hfile⟩

/-- **A safe call** keeps what every file holds: it leaves the file or carries it along. -/
theorem kept_of_call {e : Event} (hsafe : Safe t e) :
    Kept t (perform e.env e.fuel e.call ⟨t, 0⟩).2.tree := by
  intro q content hfile
  obtain ⟨env, fuel, call⟩ := e
  obtain ⟨hreturns, hcareful, hspares⟩ := hsafe
  dsimp only at hreturns hcareful ⊢
  cases call with
  | copy source dest =>
      exact ⟨q, kept_perform hfile (e := ⟨env, fuel, .copy source dest⟩) trivial id⟩
  | createFolder parentDir name =>
      exact ⟨q, kept_perform hfile (e := ⟨env, fuel, .createFolder parentDir name⟩) trivial id⟩
  | createFile parentDir name =>
      exact ⟨q, kept_perform hfile (e := ⟨env, fuel, .createFile parentDir name⟩) hspares id⟩
  | duplicate path => exact ⟨q, kept_perform hfile (e := ⟨env, fuel, .duplicate path⟩) trivial id⟩
  | rename path newName => exact carried_rename hfile
  | move source dest =>
      obtain ⟨finished, hfinished⟩ := Option.ne_none_iff_exists'.mp hreturns
      have hrun := of_finished (Prod.ext hfinished rfl)
      by_cases hmoved : ∃ p, env.own t source = some p ∧ p <+: q
      · obtain ⟨p, hp, rel, rfl⟩ := hmoved
        obtain ⟨q', hq', -⟩ :=
          (lossless_performMove hcareful rfl hrun).content p rel content hp hfile
        exact ⟨q', hq'⟩
      · exact ⟨q, kept_performMove hcareful hfile fun p hp hpq => hmoved ⟨p, hp, hpq⟩⟩
  | delete path permanent =>
      obtain rfl : permanent = false := hspares
      obtain ⟨finished, hfinished⟩ := Option.ne_none_iff_exists'.mp hreturns
      have hrun := of_finished (Prod.ext hfinished rfl)
      by_cases hdeleted : ∃ p, env.own t path = some p ∧ p <+: q
      · obtain ⟨p, hp, rel, rfl⟩ := hdeleted
        obtain ⟨q', hq', -⟩ := (lossless_performDelete hcareful hrun).content p rel content hp hfile
        exact ⟨q', hq'⟩
      · exact ⟨q, kept_performDelete hcareful hfile fun p hp hpq => hdeleted ⟨p, hp, hpq⟩⟩

end Lost

/-- **Nothing is lost**, in any session of safe calls. -/
theorem kept_of_safe {t u : Tree} (h : (filesystem t).ReachableWhere Safe u) : Kept t u := by
  refine h.invariant (I := fun u => Kept t u) ?_ fun u e u' _ hu hsafe hstep => ?_
  · intro u hinit
    obtain rfl := hinit
    exact fun q content hfile => ⟨q, hfile⟩
  · obtain rfl := Option.some.inj hstep
    intro q content hfile
    obtain ⟨q', hq'⟩ := hu q content hfile
    exact kept_of_call hsafe q' content hq'

/-- The file is duplicated and the duplicate renamed, and the original is moved away. -/
theorem kept_of_safe_moving : ∃ u, Kept home u ∧ u.node ["home", "New File"] = none ∧
    u.node ["New File"] = some (.file "draft") ∧
    u.node ["home", "notes.txt"] = some (.file "draft") := by
  have hduplicated : (filesystem home).ReachableWhere Safe duplicated :=
    .step (e := ⟨calmEnv, 5, .duplicate ["home", "New File"]⟩) (.init rfl)
      ⟨by decide +kernel, trivial, trivial⟩ rfl
  have hrenamed : (filesystem home).ReachableWhere Safe
      (after duplicated (.rename ["home", "New File (copy)"] "notes.txt")) :=
    .step (e := ⟨calmEnv, 5, .rename ["home", "New File (copy)"] "notes.txt"⟩) hduplicated
      ⟨by decide +kernel, trivial, trivial⟩ rfl
  generalize ht : after duplicated (.rename ["home", "New File (copy)"] "notes.txt") = t at hrenamed
  have haway : (copyAway calmEnv 5 ["home", "New File"]
      (resolveDestination calmEnv t ["home", "New File"] []) ⟨t, 0⟩).1 = .ended (some true) := by
    subst ht
    decide +kernel
  have hrename : (QFile.rename calmEnv ["home", "New File"]
      (resolveDestination calmEnv t ["home", "New File"] []) ⟨t, 0⟩).1 = some true := by
    subst ht
    decide +kernel
  have htrash : copyAwayToTrash calmEnv 5 ["home", "New File"]
      (resolveDestination calmEnv t ["home", "New File"] []) ⟨t, 0⟩ = .ended (some true) := by
    subst ht
    decide +kernel
  have hvacated : calmEnv.entry t (resolveDestination calmEnv t ["home", "New File"] []) =
      some ["New File"] ∧ t.node ["New File"] = none := by
    subst ht
    decide +kernel
  have hreturns : (perform calmEnv 5 (.move ["home", "New File"] []) ⟨t, 0⟩).1 ≠ none := by
    subst ht
    decide +kernel
  have hcareful : Moves calmEnv 5 ["home", "New File"] []
      (resolveDestination calmEnv t ["home", "New File"] []) ⟨t, 0⟩ := by
    refine ⟨fun hfail => ?_, fun hfail => ?_, fun honto => ?_, fun _ _ q hq => ?_,
      fun _ _ => .inr rfl, fun hnext => ?_, fun hnext => ?_, fun hnext => ?_⟩
    · cases hrename.symm.trans hfail
    · cases hrename.symm.trans hfail
    · cases honto
    · obtain rfl := Option.some.inj (hq.symm.trans hvacated.1)
      exact hvacated.2
    · cases haway.symm.trans hnext
    · cases haway.symm.trans hnext
    · cases htrash.symm.trans hnext
  have hmoved : (filesystem home).ReachableWhere Safe (after t (.move ["home", "New File"] [])) :=
    .step (e := ⟨calmEnv, 5, .move ["home", "New File"] []⟩) hrenamed ⟨hreturns, hcareful,
      trivial⟩ rfl
  subst ht
  exact ⟨_, kept_of_safe hmoved, by decide +kernel, by decide +kernel, by decide +kernel⟩

end NiraOS.Files
