import NiraOS.Files.Copying

/-!
# What an operation leaves, however it ends

A directory that is made, a copy and a recursive delete may each stop on the way.  What they have
changed by then is

```text
making the directory of a path    directories on the way to its place
a copy to where nothing was       the same, and what lies below its place
a recursive delete, plain         what lies at and below the directory
```

A recursive delete of a plain directory in which no removal fails does not fail, and one of which
the first removal fails changes nothing.
-/

namespace NiraOS.Files

open Command

variable {env : Env} {t u : Tree} {path source target : Path} {p q : List String}

/-! ## Making a directory -/

theorem mkpath_concat (env : Env) (path : Path) (name : String) :
    QDir.mkpath env (path ++ [name]) =
      (QDir.mkpath env path).andThen (QDir.mkdir env (path ++ [name])) := by
  have hinits : (path ++ [name]).inits = path.inits ++ [path ++ [name]] := by
    simp [List.inits_append]
  unfold QDir.mkpath
  rw [hinits]
  exact forEach_concat ..

/-- A directory that could not be made changes nothing. -/
theorem mkdir_failed {w : World} (h : (QDir.mkdir env path w).1 ≠ some true) :
    (QDir.mkdir env path w).2.tree = w.tree := by
  unfold QDir.mkdir at h ⊢
  split at h
  · exact absurd rfl h
  · next hdir =>
      rw [if_neg hdir]
      rcases attempt_cases env .make (QDir.madeDir env path) w with hfail | ⟨v, -, -, hok⟩
      · rw [hfail, count_tree]
      · rw [hok] at h
        exact absurd rfl h

theorem mkpath_nil (env : Env) (w : World) : QDir.mkpath env [] w = (some true, w) := by
  have hroot : env.isDir w.tree [] = true :=
    isDir_eq_true.mpr ⟨[], FileTree.locate_nil, w.tree.root⟩
  have hmkdir : QDir.mkdir env [] w = (some true, w) := if_pos hroot
  have hlist : ([] : Path).inits = [] ++ [[]] := rfl
  unfold QDir.mkpath
  rw [hlist, forEach_concat]
  exact hmkdir

/-- **However it ends**, the directory of a part of the path was made, or nothing. -/
theorem mkpath_outcome (env : Env) (path : Path) (w : World) :
    (QDir.mkpath env path w).2.tree = w.tree ∨
      ∃ pre q, pre <+: path ∧ Made env w.tree (QDir.mkpath env path w).2.tree pre q := by
  induction path using List.reverseRecOn with
  | nil =>
      rw [mkpath_nil]
      exact Or.inl rfl
  | append_singleton path name ih =>
      by_cases hsuccess : (QDir.mkpath env (path ++ [name]) w).1 = some true
      · rcases mkpath_cases (Prod.ext hsuccess rfl) with ⟨-, hsame⟩ | ⟨q, hmade⟩
        · exact Or.inl hsame
        · exact Or.inr ⟨path ++ [name], q, List.prefix_refl _, hmade⟩
      · -- the last directory was not made
        have hlast : (QDir.mkpath env (path ++ [name]) w).2.tree =
            (QDir.mkpath env path w).2.tree := by
          rw [mkpath_concat] at hsuccess ⊢
          unfold Command.andThen at hsuccess ⊢
          split
          · next m heq =>
              rw [heq] at hsuccess ⊢
              exact mkdir_failed hsuccess
          · next heq => rw [heq]
          · next heq => rw [heq]
        rw [hlast]
        rcases ih with hsame | ⟨pre, q, hpre, hmade⟩
        · exact Or.inl hsame
        · exact Or.inr ⟨pre, q, hpre.trans (List.prefix_append path [name]), hmade⟩

theorem Env.Place.not_exists (h : env.Place t path p) : env.exists t path = false := by
  obtain ⟨pre, name, rest, d, rfl, -, hfree, -⟩ := h
  rw [List.append_cons]
  refine Bool.eq_false_iff.mpr fun hexists => ?_
  nomatch (exists_of_append hexists).symm.trans hfree

/-- The place of a part of a path that leads nowhere is on the way to that of the path. -/
theorem Env.Place.below {rest : Path} (h : env.Place t path p) :
    env.Place t (path ++ rest) (p ++ rest) := by
  obtain ⟨pre, name, more, d, rfl, hd, hfree, rfl⟩ := h
  refine ⟨pre, name, more ++ rest, d, ?_, hd, hfree, ?_⟩
  · rw [List.append_assoc, List.cons_append]
  · rw [List.append_assoc, List.cons_append]

theorem Env.Place.onTheWay {pre : Path} (h : env.Place t path p) (hq : env.Place t pre q)
    (hpre : pre <+: path) :
    q <+: p := by
  obtain ⟨rest, rfl⟩ := hpre
  rw [h.unique hq.below]
  exact List.prefix_append q rest

/-- What making a directory changes lies on the way to its place. -/
theorem changed_mkpath (env : Env) {w : World} (hplace : env.Place w.tree path q) {r : List String}
    (hr : (QDir.mkpath env path w).2.tree.node r ≠ w.tree.node r) : r <+: q := by
  rcases mkpath_outcome env path w with hsame | ⟨pre, q', hpre, hmade⟩
  · rw [hsame] at hr
    exact absurd rfl hr
  · exact (hmade.only r hr).1.trans (hplace.onTheWay hmade.place hpre)

/-- A directory that is there is not made. -/
theorem mkpath_of_exists (env : Env) {w : World} (hexists : env.exists w.tree path = true) :
    (QDir.mkpath env path w).2.tree = w.tree := by
  rcases mkpath_outcome env path w with hsame | ⟨pre, q, hpre, hmade⟩
  · exact hsame
  · obtain ⟨rest, rfl⟩ := hpre
    nomatch (exists_of_append hexists).symm.trans hmade.place.not_exists

/-! ## Renaming -/

section SameNodes

variable (h : u.node = t.node)
include h

theorem le_of_node : t ≤ u := fun r n hr => by rwa [h]

theorem ge_of_node : u ≤ t := fun r n hr => by rwa [← h]

theorem locate_of_node (path : Path) : env.locate u path = env.locate t path :=
  Option.ext fun _ => ⟨FileTree.locate_mono (ge_of_node h), FileTree.locate_mono (le_of_node h)⟩

theorem exists_of_node (path : Path) : env.exists u path = env.exists t path := by
  rw [Env.exists, Env.exists, locate_of_node h]

theorem isDir_of_node (path : Path) : env.isDir u path = env.isDir t path := by
  unfold Env.isDir
  rw [locate_of_node h, h]

theorem own_of_node (path : Path) : env.own u path = env.own t path := by
  unfold Env.own
  congr 1
  exact Option.ext fun _ => ⟨FileTree.entry_mono (ge_of_node h), FileTree.entry_mono (le_of_node h)⟩

theorem place_of_node (hq : env.Place u path q) : env.Place t path q := by
  obtain ⟨pre, name, rest, d, hpath, hd, hfree, hplace⟩ := hq
  rw [locate_of_node h] at hd
  rw [exists_of_node h] at hfree
  exact ⟨pre, name, rest, d, hpath, hd, hfree, hplace⟩

end SameNodes

/-- No broken link bears the name. -/
def Env.Vacated (env : Env) (t : Tree) (target : Path) : Prop :=
  env.exists t target = false → ∀ q, env.entry t target = some q → t.node q = none

/-- A path that leads to a file is that file, or the system does not refuse to rename it. -/
def Env.Itself (env : Env) (t : Tree) (source : Path) (renames : ℕ) : Prop :=
  (∀ p link, env.own t source = some p → t.node p ≠ some (.link link)) ∨
    env.fails .rename renames = false

/-- **What is renamed** has moved. -/
theorem relocated_of_rename {w w' : World}
    (hvacated : env.isDir w.tree source = false → env.Vacated w.tree target)
    (hitself : env.isDir w.tree source = false → env.Itself w.tree source (w.calls .rename))
    (h : QFile.rename env source target w = (some true, w')) :
    env.exists w.tree source = true ∧ ∃ p q, env.entry w.tree source = some p ∧
      env.entry w.tree target = some q ∧ FileTree.Relocated w.tree w'.tree p q := by
  have hexists : env.exists w.tree source = true := by
    by_contra hmissing
    rw [rename_of_missing (Bool.eq_false_iff.mpr hmissing)] at h
    cases h
  refine ⟨hexists, ?_⟩
  have hrenames := renames_of_rename h
  by_cases hdir : env.isDir w.tree source = true
  · generalize w'.tree = u at hrenames
    cases hrenames with
    | moved _ hp hq hmoved =>
        rw [FileTree.place_map_down] at hp hq
        exact ⟨_, _, hp, hq, hmoved⟩
    | copied _ _ _ hfile => cases (fileAt_of_isDir hdir).symm.trans hfile
  have hnodir := Bool.eq_false_iff.mpr hdir
  have hfree : env.exists w.tree target = false := by
    refine Bool.eq_false_iff.mpr fun htaken => ?_
    rw [rename_of_taken htaken] at h
    cases h
  obtain ⟨pre, name, rfl⟩ :=
    (List.eq_nil_or_concat' target).resolve_left (ne_nil_of_not_exists hfree)
  have hdest : (pre ++ [name]).map Step.down = pre.map .down ++ [.down name] := by
    rw [List.map_append, List.map_singleton]
  have hvacant := hvacated hnodir hfree
  rcases hitself hnodir with hnolink | hfails
  · obtain ⟨p, q, hp, hq, hmoved⟩ := hrenames.relocated hdest
      (fun q hq => hvacant q (by rwa [FileTree.place_map_down] at hq))
      fun p link hp => hnolink p link (own_of_place hp)
    rw [FileTree.place_map_down] at hp hq
    exact ⟨p, q, hp, hq, hmoved⟩
  · -- the system has not failed, so it has renamed the entry
    obtain ⟨e, he⟩ := Option.isSome_iff_exists.mp hexists
    generalize hu : w'.tree = u at hrenames
    cases hrenames with
    | moved _ hp hq hmoved =>
        rw [FileTree.place_map_down] at hp hq
        exact ⟨_, _, hp, hq, hmoved⟩
    | @copied _ v p place n content hp hn hnotdir hfile _ hland hv hu' =>
        rw [hdest] at hland
        obtain ⟨q, hq⟩ := FileTree.exists_place_of_landing hland
        rw [← hdest, FileTree.place_map_down] at hq
        rw [FileTree.place_map_down] at hp
        have hnone := hvacant q hq
        obtain ⟨d, hd, hdir, rfl⟩ := FileTree.entry_concat.mp hq
        have hapart : ¬ p <+: d ++ [name] := by
          intro hpre
          rcases List.prefix_concat_iff.mp hpre with rfl | ⟨rel, rfl⟩
          · cases hnone.symm.trans hn
          · by_cases hrel : rel = []
            · rw [hrel, List.append_nil, hn] at hdir
              exact hnotdir (Option.some.inj hdir)
            · have habove :=
                FileTree.dir_of_below hrel (by simp [hdir] : w.tree.node (p ++ rel) ≠ none)
              rw [hn] at habove
              exact hnotdir (Option.some.inj habove)
        obtain ⟨t', ht'⟩ := FileTree.exists_tryRelocate (FileTree.entry_ne_nil hp)
          (by rwa [List.dropLast_concat]) hnone hapart
        have hsystem := rename_of_effect (ne_of_rename h) hexists hfree hfails hp hq ht'
        rw [hsystem] at h
        rw [← hu, ← (Prod.mk.inj h).2]
        exact ⟨p, _, hp, hq, FileTree.relocated_of_tryRelocate ht'⟩

/-- **What is not renamed** has stayed, and with it all else; or what was created for the copy of a
file is at the target. -/
theorem refused_of_rename {w w' : World}
    (hvacated : env.isDir w.tree source = false → env.Vacated w.tree target)
    (h : QFile.rename env source target w = (some false, w')) :
    w'.tree.node = w.tree.node ∧
        (env.isDir w.tree source = true → w'.calls .remove = w.calls .remove) ∨
      ∃ q content, env.entry w.tree target = some q ∧
        FileTree.Created w.tree w'.tree q content := by
  by_cases hdir : env.isDir w.tree source = true
  · refine .inl ?_
    have hrename : QFile.rename env source target w = (some false, w) ∨
        QFile.rename env source target w = (some false, w.count .rename) ∨
          ∃ w', QFile.rename env source target w = (some true, w') := rename_of_isDir hdir
    rcases hrename with hsame | hcount | ⟨w'', hok⟩
    · obtain ⟨-, rfl⟩ := Prod.mk.inj (hsame.symm.trans h)
      exact ⟨rfl, fun _ => rfl⟩
    · obtain ⟨-, rfl⟩ := Prod.mk.inj (hcount.symm.trans h)
      exact ⟨rfl, fun _ => count_calls_of_ne (by decide)⟩
    · cases (Prod.mk.inj (hok.symm.trans h)).1
  have hnodir := Bool.eq_false_iff.mpr hdir
  cases hexists : env.exists w.tree target with
  | true =>
      rw [rename_of_taken hexists] at h
      rw [(Prod.mk.inj h).2]
      exact .inl ⟨rfl, fun _ => rfl⟩
  | false =>
      obtain ⟨pre, name, rfl⟩ := (List.eq_nil_or_concat' target).resolve_left
        (ne_nil_of_not_exists hexists)
      rcases (renames_of_rename h).refused (by rw [List.map_append, List.map_singleton])
        (fun q hq => hvacated hnodir hexists q (by rwa [FileTree.place_map_down] at hq)) with
        hsame | hnew
      · exact .inl ⟨hsame, fun hdir' => absurd hdir' hdir⟩
      · simp only [FileTree.place_map_down] at hnew
        exact .inr hnew

/-! ## Copying -/

/-- Copying below a target that was made leaves what lies elsewhere. -/
theorem keptBelow_outside (m : Tree) :
    KeptBelow env target q fun u => Tidy env target q u ∧ ∀ r, ¬ q <+: r → u.node r = m.node r where
  made _ h := ⟨h.1.targetAt, h.1.dir⟩
  insert t u rel e n h hrel hvisible he hnolink hinsert := by
    refine ⟨h.1.insert hrel hvisible he hnolink hinsert, fun r hr => ?_⟩
    obtain ⟨pre, name, rfl⟩ := (List.eq_nil_or_concat' rel).resolve_left hrel
    rw [← List.append_assoc] at he
    obtain ⟨d, hd, -, rfl⟩ := FileTree.entry_concat.mp he
    obtain rfl := FileTree.locate_append_of_linkFree h.1.targetAt h.1.plain.linkFree hd
    obtain ⟨-, -, hnode⟩ := FileTree.tryInsert_eq_some hinsert
    rw [hnode, Function.update_of_ne, h.2 r hr]
    rintro rfl
    apply hr
    rw [List.append_assoc]
    exact List.prefix_append q _

/-- **However it ends**, a copy to where nothing was changes what is on the way to its place, or
below. -/
theorem changed_copyAny {fuel : ℕ} {w : World} (hfree : env.exists w.tree target = false)
    (hplace : env.Place w.tree target q) {r : List String}
    (hr : (copyAny env fuel source target w).2.tree.node r ≠ w.tree.node r) :
    r <+: q ∨ q <+: r := by
  by_contra hapart
  rw [not_or] at hapart
  apply hr
  unfold copyAny
  split
  · next hdir =>
      cases fuel with
      | zero => rfl
      | succ fuel =>
          unfold performRecursiveCopy
          rw [if_pos hdir, if_neg fun htarget =>
            Bool.eq_false_iff.mp hfree (exists_of_isDir htarget)]
          have hmkpath : (QDir.mkpath env target w).2.tree.node r = w.tree.node r := by
            by_contra hchanged
            exact hapart.1 (changed_mkpath env hplace hchanged)
          unfold Command.andThen
          split
          · next m heq =>
              rw [heq] at hmkpath
              obtain ⟨q', hmade⟩ := (mkpath_cases heq).resolve_left fun hthere =>
                Bool.eq_false_iff.mp hfree (exists_of_isDir hthere.1)
              obtain rfl := hplace.unique hmade.place
              have htidy : Tidy env target q m.tree :=
                ⟨hmade.locate, hmade.dir, .of_empty (by simp [hmade.dir]) fun _ => hmade.empty⟩
              have hnothing : ∀ name ∈ ([] : Path), isHidden name = false := (by simp)
              have hbelow : KeptBelow env target q _ := keptBelow_outside m.tree
              have hcopies : Keeps (fun w => Tidy env target q w.tree ∧ ∀ r, ¬ q <+: r →
                w.tree.node r = m.tree.node r)
                  (copyEntries env (performRecursiveCopy env fuel) source (target ++ [])
                    (env.entryInfoList m.tree source)) :=
                keeps_copyEntries hbelow
                  (fun source _ hvisible => keeps_performRecursiveCopy hbelow fuel source hvisible)
                  hnothing source m.tree
              rw [List.append_nil] at hcopies
              rw [(hcopies m ⟨htidy, fun _ _ => rfl⟩).2 r hapart.2, hmkpath]
          · next heq =>
              rw [heq] at hmkpath
              exact hmkpath
          · next heq =>
              rw [heq] at hmkpath
              exact hmkpath
  · rcases attempt_cases env .make (QFile.copied env source target) w with
      hfail | ⟨u, -, hcopied, hok⟩
    · rw [QFile.copy, hfail, count_tree]
    · rw [QFile.copy, hok]
      obtain ⟨_, content, q', -, -, hq', hinsert⟩ := copied_eq_some hcopied
      obtain ⟨-, hnone, hnode⟩ := FileTree.tryInsert_eq_some hinsert
      obtain rfl := (place_of_entry hq' hnone).unique hplace
      refine (congrFun hnode r).trans (Function.update_of_ne ?_ ..)
      rintro rfl
      exact hapart.1 (List.prefix_refl r)

/-- A copy of which neither the directory can be made nor the file changes nothing. -/
theorem copyAny_stuck {fuel : ℕ} {w : World}
    (hdirs : ¬ (env.isDir w.tree source = true ∧ env.isDir w.tree target = true))
    (hmkpath : env.isDir w.tree target = false →
      (QDir.mkpath env target w).1 ≠ some true ∧ (QDir.mkpath env target w).2.tree = w.tree)
    (hcopied : QFile.copied env source target w.tree = none) :
    (copyAny env fuel source target w).1 ≠ some true ∧
    (copyAny env fuel source target w).2.tree = w.tree := by
  unfold copyAny
  split
  · next hdir =>
      have hnodir : ¬ env.isDir w.tree target = true := fun htarget => hdirs ⟨hdir, htarget⟩
      cases fuel with
      | zero => exact ⟨by simp [performRecursiveCopy, Command.outOfFuel], rfl⟩
      | succ fuel =>
          unfold performRecursiveCopy
          rw [if_pos hdir, if_neg hnodir]
          have hstuck := hmkpath (Bool.eq_false_iff.mpr hnodir)
          rw [andThen_of_ne_true hstuck.1]
          exact hstuck
  · rcases attempt_cases env .make (QFile.copied env source target) w with hfail | ⟨u, -, hsome, -⟩
    · rw [QFile.copy, hfail]
      exact ⟨by simp, rfl⟩
    · cases hcopied.symm.trans hsome

/-- Nothing is copied over what is there, unless both are directories. -/
theorem copyAny_of_exists (fuel : ℕ) {w : World} (hexists : env.exists w.tree target = true)
    (hdirs : ¬ (env.isDir w.tree source = true ∧ env.isDir w.tree target = true)) :
    (copyAny env fuel source target w).1 ≠ some true ∧
    (copyAny env fuel source target w).2.tree = w.tree := by
  apply copyAny_stuck hdirs
  · intro hnodir
    refine ⟨fun hsuccess => ?_, mkpath_of_exists env hexists⟩
    obtain ⟨hthere, -⟩ | ⟨q, hmade⟩ := mkpath_cases (Prod.ext hsuccess rfl)
    · nomatch hthere.symm.trans hnodir
    · nomatch hexists.symm.trans hmade.place.not_exists
  · exact if_pos hexists

/-- Nothing is copied to where a broken link is. -/
theorem copyAny_of_occupied {fuel : ℕ} {w : World} (hplace : env.Place w.tree target q)
    (hq : w.tree.node q ≠ none) :
    (copyAny env fuel source target w).1 ≠ some true ∧
    (copyAny env fuel source target w).2.tree = w.tree := by
  have hfree := Bool.eq_false_iff.mp hplace.not_exists
  apply copyAny_stuck fun hdirs => hfree (exists_of_isDir hdirs.2)
  · intro hnodir
    constructor
    · intro hsuccess
      obtain ⟨hthere, -⟩ | ⟨q', hmade⟩ := mkpath_cases (Prod.ext hsuccess rfl)
      · nomatch hthere.symm.trans hnodir
      · obtain rfl := hplace.unique hmade.place
        exact hq hmade.free
    · rcases mkpath_outcome env target w with hsame | ⟨pre, q', hpre, hmade⟩
      · exact hsame
      · exact absurd (FileTree.node_eq_none_beneath hmade.free
          (hplace.onTheWay hmade.place hpre)) hq
  · rw [Option.eq_none_iff_forall_not_mem]
    intro u hcopied
    obtain ⟨_, content, q', -, -, hq', hinsert⟩ := copied_eq_some hcopied
    obtain ⟨-, hnone, -⟩ := FileTree.tryInsert_eq_some hinsert
    obtain rfl := (place_of_entry hq' hnone).unique hplace
    exact hq hnone

/-! ## Deleting recursively -/

/-- What is reached from a plain directory lies at or below it. -/
theorem below_of_reached (he : env.entry t path = some p) (hp : env.locate t path = some p)
    (hplain : Plain t p)
    (h : env.Reached t path q) : p <+: q := by
  obtain ⟨rel, -, -, hq⟩ := h
  by_cases hrel : rel = []
  · rw [hrel, List.append_nil] at hq
    rw [Option.some.inj (he.symm.trans hq)]
  · obtain ⟨pre, name, rfl⟩ := (List.eq_nil_or_concat' rel).resolve_left hrel
    rw [← List.append_assoc] at hq
    obtain ⟨d, hd, -, rfl⟩ := FileTree.entry_concat.mp hq
    obtain rfl := FileTree.locate_append_of_linkFree hp hplain.linkFree hd
    rw [List.append_assoc]
    exact List.prefix_append p _

/-- **However it ends**, a recursive delete of a plain directory leaves what lies elsewhere. -/
theorem kept_outside (fuel : ℕ) {w : World} (he : env.entry w.tree path = some p)
    (hp : env.locate w.tree path = some p) (hplain : Plain w.tree p) {r : List String}
    (hr : ¬ p <+: r) :
    (performRecursiveDelete env fuel path w).2.tree.node r = w.tree.node r := by
  have hnothing : ∀ name ∈ ([] : Path), isHidden name = false := nofun
  have hreaps :=
    reaps_performRecursiveDelete env w.tree path fuel hnothing w (Reaps.refl w.tree path)
  rw [List.append_nil] at hreaps
  cases hu : (performRecursiveDelete env fuel path w).2.tree.node r with
  | some n => exact (hreaps.le r n hu).symm
  | none =>
      by_contra hne
      exact hr (below_of_reached he hp hplain (hreaps.reached r (Ne.symm hne) hu))

theorem shrinks_performRecursiveDelete (fuel : ℕ) (path : Path) :
    Keeps (fun w => w.tree ≤ t) (performRecursiveDelete env fuel path) := by
  have hnothing : ∀ name ∈ ([] : Path), isHidden name = false := nofun
  rw [← List.append_nil path]
  apply keeps_performRecursiveDelete (I := fun u => u ≤ t) path ?_ ?_ fuel hnothing
  · intro rel v u u' _ _ hu _ _ h
    obtain ⟨p, n, -, -, -, herase⟩ := removed_eq_some h
    exact le_trans (FileTree.le_of_tryErase herase) hu
  · intro rel v u u' _ _ hu _ h
    obtain ⟨p, -, -, herase⟩ := removedDir_eq_some h
    exact le_trans (FileTree.le_of_tryErase herase) hu

theorem shrinks_deleteEntries (fuel : ℕ) (path : Path) (entries : List FileInfo) :
    Keeps (fun w => w.tree ≤ t)
      (deleteEntries env (performRecursiveDelete env fuel) path entries) := by
  refine Keeps.forEach fun entry _ => ?_
  split
  · exact shrinks_performRecursiveDelete fuel _
  · refine keeps_attempt (P := fun u => u ≤ t) fun u u' hu h => ?_
    obtain ⟨p, n, -, -, -, herase⟩ := removed_eq_some h
    exact le_trans (FileTree.le_of_tryErase herase) hu

/-- A recursive delete that succeeds has removed the directory. -/
theorem gone_of_deleted {fuel : ℕ} {w w' : World} (hdir : env.isDir w.tree path = true)
    (h : performRecursiveDelete env fuel path w = (some true, w')) :
    ∃ p, env.entry w.tree path = some p ∧ w'.tree.node p = none := by
  cases fuel with
  | zero => nomatch h
  | succ fuel =>
      rw [performRecursiveDelete_of_isDir hdir] at h
      obtain ⟨m, hentries, hrmdir⟩ := andThen_eq_true.mp h
      have hle : m.tree ≤ w.tree := by
        have hshrinks : (deleteEntries env (performRecursiveDelete env fuel) path
            (env.entryInfoList w.tree path) w).2.tree ≤ w.tree :=
          shrinks_deleteEntries fuel path _ w (le_refl w.tree)
        rwa [hentries] at hshrinks
      rcases attempt_cases env .remove (QDir.removedDir env path) m with
        hfail | ⟨u, -, hremoved, hok⟩
      · rw [QDir.rmdir, hfail] at hrmdir
        nomatch hrmdir
      · rw [QDir.rmdir, hok] at hrmdir
        obtain ⟨-, rfl⟩ := Prod.mk.inj hrmdir
        obtain ⟨p, hp, -, herase⟩ := removedDir_eq_some hremoved
        obtain ⟨-, -, hnode⟩ := FileTree.tryErase_eq_some herase
        refine ⟨p, FileTree.entry_mono hle hp, ?_⟩
        rw [hnode, Function.update_self]

/-! ### The first removal fails -/

/-- **Nothing is changed** by a recursive delete of which the first removal fails. -/
theorem first_removal_failed (fuel : ℕ) {path : Path} {w : World}
    (hfails : env.fails .remove (w.calls .remove) = true) (hdir : env.isDir w.tree path = true) :
    (performRecursiveDelete env fuel path w).1 ≠ some true ∧
      (performRecursiveDelete env fuel path w).2.tree = w.tree := by
  have hattempt : ∀ effect : Tree → Option Tree,
      attempt env .remove effect w = (some false, w.count .remove) := fun effect => if_pos hfails
  induction fuel generalizing path with
  | zero => exact ⟨nofun, rfl⟩
  | succ fuel ih =>
      rw [performRecursiveDelete_of_isDir hdir]
      cases hlist : env.entryInfoList w.tree path with
      | nil =>
          change (QDir.rmdir env path w).1 ≠ some true ∧ (QDir.rmdir env path w).2.tree = w.tree
          rw [QDir.rmdir, hattempt]
          exact ⟨nofun, rfl⟩
      | cons entry rest =>
          have hmem : entry ∈ env.entryInfoList w.tree path :=
            by rw [hlist]; exact List.mem_cons_self
          obtain ⟨-, -, hisDir⟩ := mem_entryInfoList hmem
          -- the first entry, whether a directory or a file
          have hfirst : ∀ c : Command World, (c w).1 ≠ some true ∧ (c w).2.tree = w.tree →
              ∀ d e : Command World, ((c.andThen d).andThen e w).1 ≠ some true ∧
                ((c.andThen d).andThen e w).2.tree = w.tree := by
            intro c hc d e
            have hcd := andThen_of_ne_true (d := d) hc.1
            rw [andThen_of_ne_true (by rw [hcd]; exact hc.1), hcd]
            exact hc
          apply hfirst
          dsimp only
          split
          · next hentry => exact ih (hisDir.symm.trans hentry)
          · rw [QFile.remove, hattempt]
            exact ⟨nofun, rfl⟩

/-! ### No removal fails -/

/-- No primitive of a kind fails from now on. -/
def Calm (env : Env) (primitive : Primitive) (w : World) : Prop :=
  ∀ k, w.calls primitive ≤ k → env.fails primitive k = false

theorem calm_attempt (primitive : Primitive) (effect : Tree → Option Tree) :
    Keeps (Calm env primitive) (attempt env primitive effect) := by
  intro w hw k hk
  apply hw
  have hcount : w.calls primitive ≤ (w.count primitive).calls primitive := by
    rw [count_calls_self]
    exact Nat.le_succ _
  rcases attempt_cases env primitive effect w with hfail | ⟨u, -, -, hok⟩
  · rw [hfail] at hk
    exact le_trans hcount hk
  · rw [hok] at hk
    exact le_trans hcount hk

theorem calm_performRecursiveDelete (fuel : ℕ) (path : Path) :
    Keeps (Calm env .remove) (performRecursiveDelete env fuel path) := by
  induction fuel generalizing path with
  | zero => exact keeps_outOfFuel
  | succ fuel ih =>
      intro w hw
      have hentries : Keeps (Calm env .remove)
          (deleteEntries env (performRecursiveDelete env fuel) path
            (env.entryInfoList w.tree path)) := by
        refine Keeps.forEach fun entry _ => ?_
        split
        · exact ih _
        · exact calm_attempt _ _
      unfold performRecursiveDelete
      split
      · exact hentries.andThen (calm_attempt _ _) w hw
      · exact hw

/-- The way to a directory does not lead through what is in it. -/
def Env.Direct (env : Env) (t : Tree) (path : Path) (p : List String) : Prop :=
  ∃ v : Tree, v ≤ t ∧ (∀ r, p <+: r → r ≠ p → v.node r = none) ∧ env.locate v path = some p

theorem Env.Direct.mono (h : env.Direct t path p) (hle : t ≤ u) : env.Direct u path p := by
  obtain ⟨v, hv, hempty, hpath⟩ := h
  exact ⟨v, le_trans hv hle, hempty, hpath⟩

/-- So it leads there still when only what is in it has changed. -/
theorem Env.Direct.locate (h : env.Direct t path p)
    (houtside : ∀ r, (p <+: r → r = p) → u.node r = t.node r) : env.locate u path = some p := by
  obtain ⟨v, hv, hempty, hpath⟩ := h
  refine FileTree.locate_mono (fun r n hr => ?_) hpath
  rw [houtside, hv r n hr]
  intro hpre
  by_contra hne
  rw [hempty r hpre hne] at hr
  cases hr

/-- Of the entries of `p` those called `names` were deleted, with what is in them. -/
structure Emptied (t u : Tree) (p : List String) (names : List String) : Prop where
  le : u ≤ t
  outside : ∀ r, (p <+: r → r = p) → u.node r = t.node r
  removed : ∀ name ∈ names, u.node (p ++ [name]) = none
  todo : ∀ name ∉ names, ∀ rel, u.node (p ++ name :: rel) = t.node (p ++ name :: rel)

theorem Emptied.refl (t : Tree) (p : List String) : Emptied t t p [] :=
  ⟨le_refl t, fun _ _ => rfl, nofun, fun _ _ _ => rfl⟩

/-- One more entry is gone. -/
theorem Emptied.snoc {v : Tree} {names : List String} {name : String} (h : Emptied t u p names)
    (hle : v ≤ u)
    (hgone : v.node (p ++ [name]) = none) (hsame : ∀ r, ¬ p ++ [name] <+: r → v.node r = u.node r) :
    Emptied t v p (names ++ [name]) := by
  refine ⟨le_trans hle h.le, fun r hr => ?_, fun other hother => ?_, fun other hother rel => ?_⟩
  · rw [hsame, h.outside r hr]
    intro hpre
    rw [hr ((List.prefix_append p [name]).trans hpre)] at hpre
    have hlength := hpre.length_le
    rw [List.length_append, List.length_singleton] at hlength
    omega
  · rcases List.mem_append.mp hother with hmem | hmem
    · exact FileTree.eq_none_of_le hle (h.removed other hmem)
    · rwa [List.mem_singleton.mp hmem]
  · rw [List.mem_append, not_or] at hother
    rw [hsame, h.todo other hother.1]
    intro hpre
    rw [List.prefix_append_right_inj] at hpre
    exact hother.2 (List.mem_singleton.mpr (List.cons_prefix_cons.mp hpre).1.symm)

theorem Emptied.locate {names : List String} (h : Emptied t u p names)
    (hdirect : env.Direct t path p) :
    env.locate u path = some p :=
  hdirect.locate h.outside

/-- The way to a directory that is still there does not lead through it either. -/
theorem Emptied.direct {names : List String} {name : String} (h : Emptied t u p names)
    (hdirect : env.Direct t path p) (hdir : u.node (p ++ [name]) = some .dir) :
    env.Direct u (path ++ [name]) (p ++ [name]) := by
  obtain ⟨v, hv, hempty, hpath⟩ := hdirect
  have hvu : v ≤ u := by
    intro r n hr
    rw [h.outside, hv r n hr]
    intro hpre
    by_contra hne
    rw [hempty r hpre hne] at hr
    cases hr
  have hfree : v.node (p ++ [name]) = none := hempty _ (List.prefix_append p [name]) (by simp)
  have hvdir : v.node p = some .dir := by
    obtain ⟨n, hn, -⟩ := FileTree.isObject_of_locate hpath
    have hparent := u.parent p name (by simp [hdir])
    rw [hn, ← hvu p n hn, hparent]
  -- the directory alone is enough to get there
  obtain ⟨v', hv'⟩ := FileTree.exists_tryInsert (n := .dir) hvdir hfree
  obtain ⟨-, -, hnode⟩ := FileTree.tryInsert_eq_some hv'
  refine ⟨v', fun r n hr => ?_, fun r hpre hne => ?_, ?_⟩
  · rw [hnode] at hr
    by_cases hrp : r = p ++ [name]
    · rw [hrp, Function.update_self] at hr
      rw [hrp, hdir, hr]
    · rw [Function.update_of_ne hrp] at hr
      exact hvu r n hr
  · rw [hnode, Function.update_of_ne hne]
    apply hempty r ((List.prefix_append p [name]).trans hpre)
    rintro rfl
    have hlength := hpre.length_le
    rw [List.length_append, List.length_singleton] at hlength
    omega
  · have hchild : v'.node (p ++ [name]) = some .dir := by rw [hnode, Function.update_self]
    have hpath' := FileTree.locate_mono (FileTree.le_of_tryInsert hv') hpath
    exact FileTree.locate_concat_of_node hpath' hchild fun _ => by simp

theorem Emptied.plain {names : List String} {name : String} (h : Emptied t u p names)
    (hplain : Plain t p)
    (hname : name ∉ names) : Plain u (p ++ [name]) := by
  refine ⟨fun rel hne => ?_, fun rel link => ?_⟩
  · rw [List.append_assoc, List.singleton_append, h.todo name hname] at hne
    exact fun other hother =>
      hplain.visible (name :: rel) hne other (List.mem_cons_of_mem name hother)
  · rw [List.append_assoc, List.singleton_append, h.todo name hname]
    exact hplain.linkFree (name :: rel) link

/-- When all its entries are gone, the directory can be removed. -/
theorem Emptied.rmdir {names : List String} {w : World} (h : Emptied t w.tree p names)
    (hcalm : Calm env .remove w)
    (hdirect : env.Direct t path p) (he : env.entry t path = some p) (hdir : t.node p = some .dir)
    (hall : ∀ name, t.node (p ++ [name]) ≠ none → name ∈ names) :
    (QDir.rmdir env path w).1 ≠ some false := by
  have hnode : w.tree.node p = some .dir := (h.outside p fun _ => rfl).trans hdir
  have hentry : env.entry w.tree path = some p := by
    have hne : path ≠ [] := by
      rintro rfl
      cases he
    obtain ⟨e, he', -⟩ := FileTree.entry_of_locate hne (h.locate hdirect)
    rw [Option.some.inj ((FileTree.entry_mono h.le he').symm.trans he)] at he'
    exact he'
  have hleaf : w.tree.children p = [] := by
    apply List.eq_nil_iff_forall_not_mem.mpr
    intro name hmem
    have hthere := w.tree.mem_children.mp hmem
    apply hthere
    apply h.removed name (hall name _)
    intro hnone
    exact hthere (FileTree.eq_none_of_le h.le hnone)
  obtain ⟨u, hu⟩ := FileTree.exists_tryErase (FileTree.entry_ne_nil he) hleaf
  have heffect : QDir.removedDir env path w.tree = some u := by
    simp only [QDir.removedDir, hentry, Option.bind_some, hnode]
    exact hu
  rw [QDir.rmdir, attempt_of_effect (hcalm _ (Nat.le_refl _)) heffect]
  simp

/-- **A file** of the directory is removed. -/
theorem Emptied.removeFile {names : List String} {name : String} {w : World}
    (h : Emptied t w.tree p names)
    (hcalm : Calm env .remove w) (hdirect : env.Direct t path p) (hdir : t.node p = some .dir)
    (hname : name ∉ names)
    {content : String} (hfile : t.node (p ++ [name]) = some (.file content)) :
    ∃ w', QFile.remove env (path ++ [name]) w = (some true, w') ∧
      Emptied t w'.tree p (names ++ [name]) := by
  have hnode : w.tree.node (p ++ [name]) = some (.file content) :=
    (h.todo name hname []).trans hfile
  have hentry : env.entry w.tree (path ++ [name]) = some (p ++ [name]) :=
    FileTree.entry_concat.mpr ⟨p, h.locate hdirect, (h.outside p fun _ => rfl).trans hdir, rfl⟩
  have hleaf : w.tree.children (p ++ [name]) = [] := by
    apply List.eq_nil_iff_forall_not_mem.mpr
    intro other hmem
    apply w.tree.mem_children.mp hmem
    exact FileTree.node_below_eq_none (by simp [hnode]) (List.cons_ne_nil other [])
  obtain ⟨u, hu⟩ := FileTree.exists_tryErase (FileTree.entry_ne_nil hentry) hleaf
  have heffect : QFile.removed env (path ++ [name]) w.tree = some u :=
    removed_of_entry hentry hnode (by simp) hu
  refine ⟨_, attempt_of_effect (hcalm _ (Nat.le_refl _)) heffect, ?_⟩
  obtain ⟨-, -, herased⟩ := FileTree.tryErase_eq_some hu
  apply h.snoc (FileTree.le_of_tryErase hu)
  · rw [herased, Function.update_self]
  · intro r hr
    rw [herased, Function.update_of_ne]
    rintro rfl
    exact hr (List.prefix_refl _)

/-- **A directory** in the directory is deleted. -/
theorem Emptied.deleteDir {fuel : ℕ} {names : List String} {name : String} {w w' : World}
    (h : Emptied t w.tree p names) (hdirect : env.Direct t path p) (hdir : t.node p = some .dir)
    (hplain : Plain t p) (hname : name ∉ names) (hchild : w.tree.node (p ++ [name]) = some .dir)
    (hdelete : performRecursiveDelete env fuel (path ++ [name]) w = (some true, w')) :
    Emptied t w'.tree p (names ++ [name]) := by
  have hpath := h.locate hdirect
  have hentry : env.entry w.tree (path ++ [name]) = some (p ++ [name]) :=
    FileTree.entry_concat.mpr ⟨p, hpath, (h.outside p fun _ => rfl).trans hdir, rfl⟩
  have hlocate : env.locate w.tree (path ++ [name]) = some (p ++ [name]) :=
    FileTree.locate_concat_of_node hpath hchild fun _ => nofun
  apply h.snoc
  · have hshrinks : (performRecursiveDelete env fuel (path ++ [name]) w).2.tree ≤ w.tree :=
      shrinks_performRecursiveDelete fuel _ w (le_refl w.tree)
    rwa [hdelete] at hshrinks
  · obtain ⟨e, he, hgone⟩ := gone_of_deleted (isDir_eq_true.mpr ⟨_, hlocate, hchild⟩) hdelete
    rwa [Option.some.inj (he.symm.trans hentry)] at hgone
  · intro r hr
    have hkept : (performRecursiveDelete env fuel (path ++ [name]) w).2.tree.node r =
        w.tree.node r :=
      kept_outside fuel hentry hlocate (h.plain hplain hname) hr
    rwa [hdelete] at hkept

/-- **A plain directory** is deleted unless a removal fails. -/
theorem neverFails_performRecursiveDelete (fuel : ℕ) {path : Path} {p : List String} {t : Tree}
    (he : env.entry t path = some p) (hdir : t.node p = some .dir) (hplain : Plain t p)
    (hdirect : env.Direct t path p) :
    NeverFails (fun w => w.tree = t ∧
      Calm env .remove w) (performRecursiveDelete env fuel path) fun _ => True := by
  induction fuel generalizing path p t with
  | zero => exact fun _ _ => ⟨nofun, nofun⟩
  | succ fuel ih =>
      rintro w ⟨rfl, hcalm⟩
      have hp : env.locate w.tree path = some p := hdirect.locate fun _ _ => rfl
      rw [performRecursiveDelete_of_isDir (isDir_eq_true.mpr ⟨p, hp, hdir⟩)]
      have hnames := names_entryInfoList hp
      have hloop : NeverFails (fun v => Emptied w.tree v.tree p [] ∧ Calm env .remove v)
          (deleteEntries env (performRecursiveDelete env fuel) path (env.entryInfoList w.tree path))
          (fun v => Emptied w.tree v.tree p
            ((env.entryInfoList w.tree path).map FileInfo.fileName) ∧
            Calm env .remove v) := by
        refine NeverFails.forEach
          (I := fun done v => Emptied w.tree v.tree p (done.map FileInfo.fileName) ∧
            Calm env .remove v) ?_
        rintro done entry rest hlist v ⟨hemptied, hcalm'⟩
        have hnodup : ((env.entryInfoList w.tree path).map FileInfo.fileName).Nodup :=
          hnames.nodup_iff.mpr ((w.tree.nodup_children p).filter _)
        have hmem : entry ∈ env.entryInfoList w.tree path := by
          rw [hlist]
          simp
        have hchild := w.tree.mem_children.mp
          (List.mem_filter.mp (hnames.mem_iff.mp (List.mem_map_of_mem hmem))).1
        have hnew : entry.fileName ∉ done.map FileInfo.fileName := by
          rw [hlist, List.map_append, List.map_cons] at hnodup
          intro hdone
          exact List.disjoint_of_nodup_append hnodup hdone List.mem_cons_self
        have hlocate := hplain.locate hp hchild
        obtain ⟨-, -, hisDir⟩ := mem_entryInfoList hmem
        rw [List.map_append, List.map_singleton]
        split
        · next hentry =>
            obtain ⟨d, hd, hddir⟩ := isDir_eq_true.mp (hisDir.symm.trans hentry)
            rw [Option.some.inj (hd.symm.trans hlocate)] at hddir
            have hthere : v.tree.node (p ++ [entry.fileName]) = some .dir :=
              (hemptied.todo _ hnew []).trans hddir
            have hentry' : env.entry v.tree (path ++ [entry.fileName]) =
                some (p ++ [entry.fileName]) :=
              FileTree.entry_concat.mpr
                ⟨p, hemptied.locate hdirect, (hemptied.outside p fun _ => rfl).trans hdir, rfl⟩
            have hnever :=
              ih hentry' hthere (hemptied.plain hplain hnew) (hemptied.direct hdirect hthere) v
              ⟨rfl, hcalm'⟩
            refine ⟨hnever.1, fun hsuccess => ⟨?_, calm_performRecursiveDelete fuel _ v hcalm'⟩⟩
            exact hemptied.deleteDir hdirect hdir hplain hnew hthere (Prod.ext hsuccess rfl)
        · next hentry =>
            have hnodir : w.tree.node (p ++ [entry.fileName]) ≠ some .dir := by
              intro hddir
              exact hentry (hisDir.trans (isDir_eq_true.mpr ⟨_, hlocate, hddir⟩))
            obtain ⟨n, hn⟩ := Option.ne_none_iff_exists'.mp hchild
            cases n with
            | dir => exact absurd hn hnodir
            | link link => exact absurd hn (hplain.linkFree [entry.fileName] link)
            | file content =>
                obtain ⟨v', hremove, hnext⟩ := hemptied.removeFile hcalm' hdirect hdir hnew hn
                have hcalm'' :=
                  calm_attempt .remove (QFile.removed env (path ++ [entry.fileName])) v hcalm'
                rw [← QFile.remove, hremove] at hcalm''
                rw [hremove]
                exact ⟨nofun, fun _ => ⟨hnext, hcalm''⟩⟩
      have hrmdir : NeverFails
          (fun v => Emptied w.tree v.tree p
            ((env.entryInfoList w.tree path).map FileInfo.fileName) ∧
            Calm env .remove v)
          (QDir.rmdir env path) fun _ => True := by
        intro v hv
        refine ⟨hv.1.rmdir hv.2 hdirect he hdir fun name hchild => ?_, fun _ => trivial⟩
        apply hnames.mem_iff.mpr
        have hexists : env.exists w.tree (path ++ [name]) = true :=
          Option.isSome_iff_exists.mpr ⟨_, hplain.locate hp hchild⟩
        have hvisible := hplain.visible [name] hchild name (List.mem_singleton_self name)
        rw [List.mem_filter]
        exact ⟨w.tree.mem_children.mpr hchild, by rw [hvisible, hexists]; rfl⟩
      exact hloop.andThen hrmdir w ⟨Emptied.refl w.tree p, hcalm⟩

end NiraOS.Files
