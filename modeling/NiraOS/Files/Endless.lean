import NiraOS.Files.Termination

/-!
# Copies into the source

A copy of a directory to a vacant place inside it asks, for each directory that it makes, for
another one inside that.  It never succeeds, and where no primitive fails it does not fail either:
it never ends (`not_ends_of_inside`).
-/

namespace NiraOS.Files

open Command

/-! ## It does not fail -/

section NoFailure

variable {env : Env} {source target path : Path} {q d : List String} {name : String}
    {w : World} {m : Tree}

theorem calm_mkdir (path : Path) : Keeps (Calm env .make) (QDir.mkdir env path) := by
  intro w hw
  unfold QDir.mkdir
  split
  · exact hw
  · exact calm_attempt .make _ w hw

theorem calm_mkpath (path : Path) : Keeps (Calm env .make) (QDir.mkpath env path) :=
  Keeps.forEach fun dir _ => calm_mkdir dir

theorem calm_performRecursiveCopy (fuel : ℕ) (source dest : Path) :
    Keeps (Calm env .make) (performRecursiveCopy env fuel source dest) :=
  keeps_copying calm_mkdir (fun _ _ => calm_attempt .make _) fuel source dest

theorem not_exists_of_free {t : Tree} (hd : env.locate t path = some d)
    (hfree : t.node (d ++ [name]) = none) :
    env.exists t (path ++ [name]) = false :=
  (place_concat hd hfree).not_exists

theorem mkpath_concat_of_true {w' : World} (h : QDir.mkpath env path w = (some true, w')) :
    QDir.mkpath env (path ++ [name]) w = QDir.mkdir env (path ++ [name]) w' := by
  rw [mkpath_concat, andThen_of_true h]

/-- A directory that is there is not made again. -/
theorem mkpath_of_isDir (hdir : env.isDir w.tree path = true) :
    QDir.mkpath env path w = (some true, w) := by
  induction path using List.reverseRecOn with
  | nil => exact mkpath_nil env w
  | append_singleton path name ih =>
      obtain ⟨e, he, -⟩ := isDir_eq_true.mp hdir
      obtain ⟨d, hd, habove, -⟩ := FileTree.locate_concat he
      have hpath := ih (isDir_eq_true.mpr ⟨d, hd, habove⟩)
      rw [mkpath_concat_of_true hpath]
      exact if_pos hdir

theorem mkdir_of_free (hcalm : Calm env .make w) (hd : env.locate w.tree path = some d)
    (hdir : w.tree.node d = some .dir)
    (hfree : w.tree.node (d ++ [name]) = none) :
    (QDir.mkdir env (path ++ [name]) w).1 = some true := by
  obtain ⟨u, hinsert⟩ := FileTree.exists_tryInsert (n := .dir) hdir hfree
  have hmade : QDir.madeDir env (path ++ [name]) w.tree = some u := by
    have hentry : env.entry w.tree (path ++ [name]) = some (d ++ [name]) :=
      FileTree.entry_concat.mpr ⟨d, hd, hdir, rfl⟩
    rw [QDir.madeDir, hentry]
    exact hinsert
  unfold QDir.mkdir
  split
  · rfl
  · rw [attempt_of_effect (hcalm _ (le_refl _)) hmade]

/-- The directory of a vacant place is made. -/
theorem mkpath_of_vacant (hcalm : Calm env .make w) (hq : env.Vacant w.tree target q) :
    (QDir.mkpath env target w).1 = some true := by
  obtain ⟨pre, name, rest, d, rfl, hd, hdir, hfree, -⟩ := hq
  induction rest using List.reverseRecOn with
  | nil =>
      have hpre : QDir.mkpath env pre w = (some true, w) :=
        mkpath_of_isDir (isDir_eq_true.mpr ⟨d, hd, hdir⟩)
      rw [mkpath_concat_of_true hpre]
      exact mkdir_of_free hcalm hd hdir hfree
  | append_singleton rest last ih =>
      have hsplit : pre ++ name :: (rest ++ [last]) = (pre ++ name :: rest) ++ [last] := by simp
      have hfirst : QDir.mkpath env (pre ++ name :: rest) w =
          (some true, (QDir.mkpath env (pre ++ name :: rest) w).2) :=
        Prod.ext ih rfl
      have hthere : env.isDir w.tree (pre ++ name :: rest) = false := by
        rw [List.append_cons]
        refine Bool.eq_false_iff.mpr fun hisDir => ?_
        nomatch (exists_of_append (exists_of_isDir hisDir)).symm.trans (not_exists_of_free hd hfree)
      obtain ⟨hisDir, -⟩ | ⟨q, hmade⟩ := mkpath_cases hfirst
      · nomatch hisDir.symm.trans hthere
      · rw [hsplit, mkpath_concat_of_true hfirst]
        exact mkdir_of_free (calm_mkpath _ w hcalm) hmade.locate hmade.dir
          (hmade.empty (List.cons_ne_nil last []))

theorem Env.Vacant.place (h : env.Vacant m target q) : env.Place m target q := by
  obtain ⟨pre, name, rest, d, rfl, hd, -, hfree, rfl⟩ := h
  exact ⟨pre, name, rest, d, rfl, hd, not_exists_of_free hd hfree, rfl⟩

theorem vacant_concat (hd : env.locate m path = some d) (hdir : m.node d = some .dir)
    (hfree : m.node (d ++ [name]) = none) : env.Vacant m (path ++ [name]) (d ++ [name]) :=
  ⟨path, name, [], d, rfl, hd, hdir, hfree, rfl⟩

/-- In the loop of a copy from a directory of `m`, the entries of `done` are through. -/
structure Unhindered (env : Env) (m : Tree) (q : List String) (done : List FileInfo)
    (w : World) : Prop where
  calm : Calm env .make w
  le : m ≤ w.tree
  free : ∀ name ∉ done.map FileInfo.fileName, w.tree.node (q ++ [name]) = none

variable {done : List FileInfo} {entry : FileInfo}

/-- A round changes nothing beside its own entry. -/
theorem Unhindered.snoc {w' : World} (h : Unhindered env m q done w) (hcalm : Calm env .make w')
    (hle : w.tree ≤ w'.tree)
    (hsame : ∀ r, w'.tree.node r ≠ w.tree.node r →
      r <+: q ++ [entry.fileName] ∨ q ++ [entry.fileName] <+: r) :
    Unhindered env m q (done ++ [entry]) w' := by
  refine ⟨hcalm, le_trans h.le hle, fun name hname => ?_⟩
  rw [List.map_append, List.mem_append, not_or, List.map_singleton, List.mem_singleton] at hname
  rw [← h.free name hname.1]
  by_contra hchanged
  apply hname.2
  rcases hsame _ hchanged with hpre | hpre
  · exact List.singleton_injective (List.append_cancel_left (hpre.eq_of_length (by simp)))
  · exact (List.singleton_injective (List.append_cancel_left (hpre.eq_of_length (by simp)))).symm

/-- **A file** is copied. -/
theorem Unhindered.copy (h : Unhindered env m q done w)
    (hentry : entry ∈ env.entryInfoList m source)
    (hfile : entry.isDir = false) (htarget : env.locate m target = some q)
    (hdir : m.node q = some .dir)
    (hnew : entry.fileName ∉ done.map FileInfo.fileName) :
    (QFile.copy env (source ++ [entry.fileName]) (target ++ [entry.fileName]) w).1 = some true ∧
      Unhindered env m q (done ++ [entry])
        (QFile.copy env (source ++ [entry.fileName]) (target ++ [entry.fileName]) w).2 := by
  obtain ⟨-, hexists, hisDir⟩ := mem_entryInfoList hentry
  obtain ⟨e, he⟩ := Option.isSome_iff_exists.mp hexists
  obtain ⟨n, hn, hnolink⟩ := FileTree.isObject_of_locate he
  have hdirW := h.le _ _ hdir
  have htargetW : env.locate w.tree target = some q := FileTree.locate_mono h.le htarget
  have hfree := h.free _ hnew
  cases n with
  | link target => exact absurd rfl (hnolink target)
  | dir => nomatch (isDir_eq_true.mpr ⟨e, he, hn⟩).symm.trans (hisDir.symm.trans hfile)
  | file content =>
      obtain ⟨u, hinsert⟩ := FileTree.exists_tryInsert (n := .file content) hdirW hfree
      have hlocate : env.locate w.tree (source ++ [entry.fileName]) = some e :=
        FileTree.locate_mono h.le he
      have htargetEntry : env.entry w.tree (target ++ [entry.fileName]) =
          some (q ++ [entry.fileName]) :=
        FileTree.entry_concat.mpr ⟨q, htargetW, hdirW, rfl⟩
      have hcopied :
          QFile.copied env (source ++ [entry.fileName]) (target ++ [entry.fileName]) w.tree =
            some u := by
        unfold QFile.copied
        rw [if_neg (by rw [not_exists_of_free htargetW hfree]; nofun), hlocate, Option.bind_some,
          h.le _ _ hn,
          htargetEntry]
        exact hinsert
      have hattempt := attempt_of_effect (h.calm _ (le_refl _)) hcopied
      obtain ⟨-, -, hnode⟩ := FileTree.tryInsert_eq_some hinsert
      unfold QFile.copy
      refine ⟨by rw [hattempt], h.snoc (calm_attempt .make _ w h.calm) ?_ fun r hr => ?_⟩
      · rw [hattempt]
        exact FileTree.le_of_tryInsert hinsert
      · rw [hattempt] at hr
        refine Or.inl ?_
        by_cases hrq : r = q ++ [entry.fileName]
        · rw [hrq]
        · dsimp only at hr
          rw [hnode, Function.update_of_ne hrq] at hr
          exact absurd rfl hr

/-- The copies of directories, with some fuel, do not fail at vacant places. -/
def Unfailing (env : Env) (fuel : ℕ) : Prop :=
  ∀ source target q, NeverFails
    (fun w => Calm env .make w ∧ env.isDir w.tree source = true ∧ env.Vacant w.tree target q)
    (performRecursiveCopy env fuel source target) fun _ => True

/-- **A directory** is copied, unless the fuel is used up. -/
theorem Unhindered.copyDir {fuel : ℕ} (hcopies : Unfailing env fuel) (h : Unhindered env m q done w)
    (hentry : entry ∈ env.entryInfoList m source) (hisDir : entry.isDir = true)
    (htarget : env.locate m target = some q) (hdir : m.node q = some .dir)
    (hnew : entry.fileName ∉ done.map FileInfo.fileName) :
    (performRecursiveCopy env fuel (source ++ [entry.fileName]) (target ++ [entry.fileName]) w).1 ≠
      some false ∧
      Unhindered env m q (done ++ [entry])
        (performRecursiveCopy env fuel (source ++ [entry.fileName]) (target ++
        [entry.fileName]) w).2 := by
  obtain ⟨-, -, hsame⟩ := mem_entryInfoList hentry
  have hsource := isDir_mono h.le (hsame.symm.trans hisDir)
  have hvacant : env.Vacant w.tree (target ++ [entry.fileName]) (q ++ [entry.fileName]) :=
    vacant_concat (FileTree.locate_mono h.le htarget) (h.le _ _ hdir) (h.free _ hnew)
  refine ⟨(hcopies _ _ _ w ⟨h.calm, hsource, hvacant⟩).1, h.snoc ?_ ?_ fun r hr => ?_⟩
  · exact calm_performRecursiveCopy fuel _ _ w h.calm
  · exact grows_performRecursiveCopy fuel _ _ w (le_refl _)
  · have hcopyAny : copyAny env fuel (source ++ [entry.fileName]) (target ++ [entry.fileName]) w =
        performRecursiveCopy env fuel (source ++ [entry.fileName]) (target ++ [entry.fileName]) w :=
      if_pos hsource
    rw [← hcopyAny] at hr
    exact changed_copyAny hvacant.place.not_exists hvacant.place hr

/-- **The loop** over a directory does not fail. -/
theorem neverFails_copyEntries {fuel : ℕ} (hcopies : Unfailing env fuel)
    (hsource : env.isDir m source = true)
    (htarget : env.locate m target = some q) (hdir : m.node q = some .dir) :
    NeverFails (Unhindered env m q [])
      (copyEntries env (performRecursiveCopy env fuel) source target (env.entryInfoList m source))
      (Unhindered env m q (env.entryInfoList m source)) := by
  refine NeverFails.forEach fun done entry rest hlist u hu => ?_
  have hentry : entry ∈ env.entryInfoList m source := by
    rw [hlist]
    simp
  have hnew : entry.fileName ∉ done.map FileInfo.fileName := by
    obtain ⟨p, hp, -⟩ := isDir_eq_true.mp hsource
    have hnodup := (names_entryInfoList hp).nodup_iff.mpr ((m.nodup_children p).filter _)
    rw [hlist, List.map_append, List.map_cons] at hnodup
    exact fun hdone => List.disjoint_of_nodup_append hnodup hdone List.mem_cons_self
  split
  · next hisDir =>
      obtain ⟨hnot, hnext⟩ := hu.copyDir hcopies hentry hisDir htarget hdir hnew
      exact ⟨hnot, fun _ => hnext⟩
  · next hfile =>
      obtain ⟨hsuccess, hnext⟩ := hu.copy hentry (Bool.eq_false_iff.mpr hfile) htarget hdir hnew
      exact ⟨by rw [hsuccess]; nofun, fun _ => hnext⟩

/-- **No copy to a vacant place fails** where no primitive fails. -/
theorem neverFails_performRecursiveCopy (fuel : ℕ) : Unfailing env fuel := by
  induction fuel with
  | zero => exact fun _ _ _ _ _ => ⟨nofun, nofun⟩
  | succ fuel ih =>
      rintro source target q w ⟨hcalm, hdir, hq⟩
      refine ⟨?_, fun _ => trivial⟩
      have hfree := Bool.eq_false_iff.mp hq.place.not_exists
      obtain ⟨m, hmkpath⟩ : ∃ m, QDir.mkpath env target w = (some true, m) :=
        ⟨_, Prod.ext (mkpath_of_vacant hcalm hq) rfl⟩
      obtain ⟨q', hmade⟩ :=
        (mkpath_cases hmkpath).resolve_left fun hthere => hfree (exists_of_isDir hthere.1)
      obtain rfl := hmade.place.unique hq.place
      have hcalmM : Calm env .make m := by
        have hkept := calm_mkpath target w hcalm
        rwa [hmkpath] at hkept
      have hstart : Unhindered env m.tree q' [] m :=
        ⟨hcalmM, le_refl _, fun name _ => hmade.empty (List.cons_ne_nil name [])⟩
      have hloop :=
        neverFails_copyEntries ih (isDir_mono hmade.le hdir) hmade.locate hmade.dir m hstart
      unfold performRecursiveCopy
      rw [if_pos hdir, if_neg fun htarget => hfree (exists_of_isDir htarget),
        andThen_of_true hmkpath]
      exact hloop.1

end NoFailure

/-! ## It does not succeed -/

section Inside

variable {env : Env} {t u : Tree} {source dest : Path} {p q z rel : List String} {w : World}

/-- What was added to `t` are no links. -/
structure AddsNoLinks (t u : Tree) : Prop where
  le : t ≤ u
  old : ∀ r link, u.node r = some (.link link) → t.node r = some (.link link)

theorem AddsNoLinks.insert {v : Tree} {e : List String} {n : Node String String}
    (h : AddsNoLinks t u)
    (hnolink : ∀ link, n ≠ .link link) (hinsert : u.tryInsert e n = some v) : AddsNoLinks t v := by
  obtain ⟨-, -, hnode⟩ := FileTree.tryInsert_eq_some hinsert
  refine ⟨le_trans h.le (FileTree.le_of_tryInsert hinsert), fun r link hlink => ?_⟩
  by_cases hre : r = e
  · rw [hre, hnode, Function.update_self] at hlink
    exact absurd (Option.some.inj hlink) (hnolink link)
  · rw [hnode, Function.update_of_ne hre] at hlink
    exact h.old r link hlink

theorem addsNoLinks_mkdir (path : Path) :
    Keeps (fun w => AddsNoLinks t w.tree) (QDir.mkdir env path) := by
  intro w hw
  unfold QDir.mkdir
  split
  · exact hw
  · refine keeps_attempt (P := AddsNoLinks t) (fun u v hu hmade => ?_) w hw
    obtain ⟨e, -, hinsert⟩ := Option.bind_eq_some_iff.mp hmade
    exact hu.insert (by nofun) hinsert

theorem addsNoLinks_copy (file copied : Path) :
    Keeps (fun w => AddsNoLinks t w.tree) (QFile.copy env file copied) :=
  keeps_attempt fun u v hu hcopied => by
    obtain ⟨_, content, e, -, -, -, hinsert⟩ := copied_eq_some hcopied
    exact hu.insert (by nofun) hinsert

/-- A vacant place is where its path leads as soon as something is there. -/
theorem Env.Vacant.locate (hq : env.Vacant t dest q) (hu : AddsNoLinks t u) {e : List String}
    (he : env.locate u (dest ++ rel) = some e) : e = q ++ rel := by
  obtain ⟨pre, name, rest, d, rfl, hd, -, hfree, rfl⟩ := hq
  have hsplit : (pre ++ name :: rest) ++ rel = (pre ++ [name]) ++ (rest ++ rel) := by simp
  rw [hsplit] at he
  obtain ⟨x, hx, -⟩ := FileTree.exists_locate_of_append he
  obtain ⟨d', hd', -, hthere⟩ := FileTree.locate_concat hx
  obtain rfl := Option.some.inj ((FileTree.locate_mono hu.le hd).symm.trans hd')
  obtain ⟨n, hn⟩ := Option.ne_none_iff_exists'.mp hthere
  have hfirst := FileTree.locate_concat_of_node hd' hn fun link heq => by
    nomatch hfree.symm.trans (hu.old _ link (hn.trans (congrArg some heq)))
  have hlinkFree : ∀ below link, u.node (d ++ [name] ++ below) ≠ some (.link link) := by
    intro below link hlink
    nomatch (FileTree.node_append_eq_none hfree below).symm.trans (hu.old _ link hlink)
  rw [FileTree.locate_append_of_linkFree hfirst hlinkFree he]
  simp

/-- **Inside the source** there is, next to what has just been made, the next directory to copy. -/
theorem exists_next (hp : env.locate t source = some p) (hq : env.Vacant t dest (p ++ z))
    (hz : ∀ name ∈ z, isHidden name = false) (hvisible : ∀ name ∈ rel, isHidden name = false)
    (hrel : rel <+: z ++ rel) (hu : AddsNoLinks t u) (hdest : env.isDir u (dest ++ rel) = true) :
    ∃ entry ∈ env.entryInfoList u (source ++ rel), entry.isDir = true ∧
      isHidden entry.fileName = false ∧
      rel ++ [entry.fileName] <+: z ++ (rel ++ [entry.fileName]) := by
  obtain ⟨e, he, hdir⟩ := isDir_eq_true.mp hdest
  obtain rfl := hq.locate hu he
  obtain ⟨rest, hrest⟩ := hrel
  cases rest with
  | nil =>
      rw [List.append_nil] at hrest
      obtain rfl : z = [] := List.append_left_eq_self.mp hrest.symm
      obtain ⟨n, hn, -⟩ := FileTree.isObject_of_locate hp
      have hfree := hq.free
      rw [List.append_nil, hn] at hfree
      nomatch hfree
  | cons next rest =>
      -- the next name on the way from the source to what was made
      have hbelow : u.node ((p ++ rel ++ [next]) ++ rest) = some .dir := by
        rw [← hdir, List.append_assoc p z, ← hrest]
        simp
      have hnext : u.node (p ++ rel ++ [next]) = some .dir := by
        by_cases hnil : rest = []
        · rwa [hnil, List.append_nil] at hbelow
        · exact FileTree.dir_of_below hnil (by rw [hbelow]; nofun)
      have hsource : env.locate u (source ++ rel) = some (p ++ rel) :=
        FileTree.locate_append_of_dir (FileTree.locate_mono hu.le hp)
          (u.parent _ next (by rw [hnext]; nofun))
      have hlocate := FileTree.locate_concat_of_node hsource hnext fun _ => nofun
      have hmem : next ∈ z ++ rel := by
        rw [← hrest]
        simp
      have hnextVisible := (List.mem_append.mp hmem).elim (hz next) (hvisible next)
      have hlisted : next ∈ (env.entryInfoList u (source ++ rel)).map FileInfo.fileName := by
        rw [(names_entryInfoList hsource).mem_iff, List.mem_filter, u.mem_children, hnext,
          hnextVisible]
        exact ⟨nofun, Option.isSome_iff_exists.mpr ⟨_, hlocate⟩⟩
      obtain ⟨entry, hentry, rfl⟩ := List.mem_map.mp hlisted
      obtain ⟨-, -, hsame⟩ := mem_entryInfoList hentry
      refine ⟨entry, hentry, hsame.trans (isDir_eq_true.mpr ⟨_, hlocate, hnext⟩), hnextVisible,
        rest ++ [entry.fileName], ?_⟩
      rw [← List.append_assoc z, ← hrest]
      simp

/-- **A copy into the source** does not succeed: the directory that it makes is still to be copied.
-/
theorem ne_true_of_inside (hp : env.locate t source = some p) (hq : env.Vacant t dest (p ++ z))
    (hz : ∀ name ∈ z, isHidden name = false) (fuel : ℕ)
    (hvisible : ∀ name ∈ rel, isHidden name = false)
    (hrel : rel <+: z ++ rel) (hw : AddsNoLinks t w.tree) :
    (performRecursiveCopy env fuel (source ++ rel) (dest ++ rel) w).1 ≠ some true := by
  induction fuel generalizing rel w with
  | zero => simp [performRecursiveCopy, Command.outOfFuel]
  | succ fuel ih =>
      have hentries : ∀ m : World, AddsNoLinks t m.tree → env.isDir m.tree (dest ++ rel) = true →
          (copyEntries env (performRecursiveCopy env fuel) (source ++ rel) (dest ++ rel)
            (env.entryInfoList m.tree (source ++ rel)) m).1 ≠ some true := by
        intro m hm hdest
        obtain ⟨entry, hentry, hisDir, hnextVisible, hnext⟩ :=
          exists_next hp hq hz hvisible hrel hm hdest
        refine forEach_ne_true (I := fun w => AddsNoLinks t w.tree) ?_ hentry ?_ hm
        · intro other _
          split
          · exact keeps_copying addsNoLinks_mkdir addsNoLinks_copy fuel _ _
          · exact addsNoLinks_copy _ _
        · intro v hv
          rw [if_pos hisDir, List.append_assoc, List.append_assoc]
          exact ih (visible_concat hvisible hnextVisible) hnext hv
      unfold performRecursiveCopy
      split
      · split
        · next hdest => exact hentries w hw hdest
        · by_cases hmade : (QDir.mkpath env (dest ++ rel) w).1 = some true
          · have hmkpath : QDir.mkpath env (dest ++ rel) w =
                (some true, (QDir.mkpath env (dest ++ rel) w).2) :=
              Prod.ext hmade rfl
            have hkept : AddsNoLinks t (QDir.mkpath env (dest ++ rel) w).2.tree :=
              Keeps.forEach (fun dir _ => addsNoLinks_mkdir dir) w hw
            have hdest : env.isDir (QDir.mkpath env (dest ++ rel) w).2.tree (dest ++ rel) =
                true := by
              obtain ⟨hthere, hsame⟩ | ⟨e, hmade⟩ := mkpath_cases hmkpath
              · rwa [hsame]
              · exact isDir_eq_true.mpr ⟨e, hmade.locate, hmade.dir⟩
            rw [andThen_of_true hmkpath]
            exact hentries _ hkept hdest
          · rwa [andThen_of_ne_true hmade]
      · simp

end Inside

/-! ## It does not end -/

section Endless

variable {env : Env} {source dest : Path} {p q z : List String} {w : World}

/-- **A copy into the source**, by visible names and without failures, does not end. -/
theorem not_ends_of_inside (hcalm : Calm env .make w) (hp : env.locate w.tree source = some p)
    (hdir : w.tree.node p = some .dir) (hq : env.Vacant w.tree dest (p ++ z))
    (hz : ∀ name ∈ z, isHidden name = false) : ¬ Ends env source dest w := by
  rintro ⟨enough, hends⟩
  have hnotFalse := (neverFails_performRecursiveCopy enough source dest (p ++ z) w
    ⟨hcalm, isDir_eq_true.mpr ⟨p, hp, hdir⟩, hq⟩).1
  have hnotTrue : (performRecursiveCopy env enough (source ++ []) (dest ++ []) w).1 ≠ some true :=
    ne_true_of_inside hp hq hz enough nofun List.nil_prefix ⟨le_refl w.tree, fun _ _ h => h⟩
  rw [List.append_nil, List.append_nil] at hnotTrue
  obtain ⟨success, hsuccess⟩ := Option.ne_none_iff_exists'.mp (hends enough (le_refl enough))
  cases success with
  | false => exact hnotFalse hsuccess
  | true => exact hnotTrue hsuccess

/-- A folder that is copied and pasted into itself. -/
theorem not_ends_home :
    ¬ Ends calmEnv ["home"] (resolveDestination calmEnv home ["home"] ["home"]) ⟨home, 0⟩ := by
  have htarget : resolveDestination calmEnv home ["home"] ["home"] = ["home", "home"] :=
    by decide +kernel
  rw [htarget]
  refine not_ends_of_inside (p := ["home"]) (z := ["home"]) (fun _ _ => rfl) (by decide +kernel)
    (by decide +kernel) ?_
    (by decide +kernel)
  exact ⟨["home"], "home", [], ["home"], rfl, by decide +kernel, by decide +kernel,
    by decide +kernel, rfl⟩

/-- **A recursive copy ends** if a primitive is to fail, or if finitely many directories are all
that it asks for; from a source without links to a vacant place it ends only then. -/
theorem ends_of_bounded (env : Env) (source dest : Path) (w : World) :
    (Bounded env source dest w → Ends env source dest w) ∧
      ∀ p q, env.locate w.tree source = some p →
        (∀ rel target, w.tree.node (p ++ rel) ≠ some (.link target)) →
        env.Vacant w.tree dest q → (Ends env source dest w ↔ Bounded env source dest w) := by
  have hends : Bounded env source dest w → Ends env source dest w := by
    rintro (hfails | ⟨T, hclosed⟩)
    · simp only [Calm, not_forall, Bool.not_eq_false] at hfails
      obtain ⟨last, hle, hlast⟩ := hfails
      exact ends_of_failure hle hlast
    · exact ends_of_covering hclosed
  refine ⟨hends, fun p q hp hlinkFree hq => ⟨fun h => ?_, hends⟩⟩
  by_cases hcalm : Calm env .make w
  · by_cases hinside : ∃ z, q = p ++ z ∧ ∀ name ∈ z, isHidden name = false
    · obtain ⟨z, rfl, hz⟩ := hinside
      obtain ⟨n, hn, -⟩ := FileTree.isObject_of_locate hp
      have hdir := hq.dir_of_prefix (List.prefix_append p z) (by rw [hn]; nofun)
      exact absurd h (not_ends_of_inside hcalm hp hdir hq hz)
    · exact Or.inr (exists_closed hp hlinkFree hq fun z hz hvisible => hinside ⟨z, hz, hvisible⟩)
  · exact Or.inl hcalm

/-- A folder with a link to itself. -/
def withLoop : Tree :=
  (FileTree.empty.grow [(["home"], .dir), (["home", "again"], .link ⟨false, [.stay]⟩)]).getD .empty

/-- It is copied as often as links may be followed. -/
theorem ends_withLoop : Ends { calmEnv with linkLimit := 2 } ["home"] ["backup"] ⟨withLoop, 0⟩ := by
  let T : Tree := (withLoop.grow
    [(["backup"], .dir), (["backup", "again"], .dir), (["backup", "again", "again"], .dir)]).getD
      .empty
  have hcloses : closes { calmEnv with linkLimit := 2 } 3 withLoop T ["home"] ["backup"] = true :=
    by decide +kernel
  exact (ends_of_bounded _ _ _ _).1 (Or.inr ⟨T, closed_of_closes hcloses⟩)

end Endless

end NiraOS.Files
