import NiraOS.Files.Outcomes
import NiraOS.Lib.FileTree.Depth

/-!
# Whether a recursive copy ends

`performRecursiveCopy` follows links, and it lists directories that it may have made itself: neither
the names below a directory nor the tree get less on the way down.  What ends the recursion is that

* a path that leads to a directory is bounded by the depth of the tree and the links that may be
  followed (`length_le_of_isDir`), and
* there is a tree in which all directories that the copy asks for are made already (`Closed`), so
  that the tree that grows never has a directory which that one has not (`Covered`), or
* a primitive fails, and until then the tree has grown by so many entries at most (`Short`).

From a source without links, to a place where nothing is, such a tree exists unless that place lies
inside the source (`exists_closed`).
-/

namespace NiraOS.Files

open Command

/-! ## What it is to end -/

section Definitions

variable (env : Env)

/-- With enough fuel the copy returns: there are finitely many recursive calls. -/
def Ends (source dest : Path) (w : World) : Prop :=
  ∃ enough, ∀ fuel, enough ≤ fuel → (performRecursiveCopy env fuel source dest w).1 ≠ none

/-- `T` is `t` with more directories, among them all that the copy asks for: wherever a path of
visible names leads from the source to a directory, nothing is missing on the way to the same path
from the destination, as far as that way leads. -/
structure Closed (t T : Tree) (source dest : Path) : Prop where
  le : t ≤ T
  only : ∀ q n, T.node q = some n → t.node q = some n ∨ n = .dir
  made : ∀ rel, (∀ name ∈ rel, isHidden name = false) → env.isDir T (source ++ rel) = true →
    ∀ path, path <+: dest ++ rel → ∀ e, env.entry T path = some e → T.node e ≠ none

/-- A primitive is to fail, or the directories that the copy asks for come to an end. -/
def Bounded (source dest : Path) (w : World) : Prop :=
  ¬ Calm env .make w ∨ ∃ T, Closed env w.tree T source dest

end Definitions

/-! ## The recursion -/

section Recursion

variable {env : Env} {I : World → Prop} {source dest path : Path}

/-- A primitive ends. -/
theorem returns_attempt {effect : Tree → Option Tree}
    (h : ∀ w t, I w → env.fails .make (w.calls .make) = false → effect w.tree = some t →
      I { w.count .make with tree := t }) :
    Returns I (attempt env .make effect) I := by
  intro w hw
  rcases attempt_cases env .make effect w with hfail | ⟨t, hok, heffect, hdone⟩
  · rw [hfail]
    exact ⟨nofun, nofun⟩
  · rw [hdone]
    exact ⟨nofun, fun _ => h w t hw hok heffect⟩

theorem returns_mkdir
    (h : ∀ w t, I w → env.fails .make (w.calls .make) = false →
      QDir.madeDir env path w.tree = some t → I { w.count .make with tree := t }) :
    Returns I (QDir.mkdir env path) I := by
  intro w hw
  unfold QDir.mkdir
  split
  · exact ⟨nofun, fun _ => hw⟩
  · exact returns_attempt h w hw

theorem returns_mkpath
    (h : ∀ pre, pre <+: path → ∀ w t, I w → env.fails .make (w.calls .make) = false →
      QDir.madeDir env pre w.tree = some t → I { w.count .make with tree := t }) :
    Returns I (QDir.mkpath env path) I := by
  refine Avoids.forEach (I := fun _ => I) nofun fun done pre rest hlist => ?_
  have hpre : pre <+: path := by
    rw [← List.mem_inits, hlist]
    simp
  exact returns_mkdir (h pre hpre)

/-- **The recursion ends** if what it does keeps the paths short that it goes down. -/
theorem returns_performRecursiveCopy {bound : ℕ}
    (hbound : ∀ w rel, I w → (∀ name ∈ rel, isHidden name = false) →
      env.isDir w.tree (source ++ rel) = true → rel.length ≤ bound)
    (hmkpath : ∀ w rel, I w → (∀ name ∈ rel, isHidden name = false) →
      env.isDir w.tree (source ++ rel) = true → Returns I (QDir.mkpath env (dest ++ rel)) I)
    (hcopy : ∀ file copied, Returns I (QFile.copy env file copied) I) (fuel : ℕ) {rel : Path}
    (hrel : ∀ name ∈ rel, isHidden name = false) (hlength : rel.length ≤ bound)
    (hfuel : bound < fuel + rel.length) :
    Returns I (performRecursiveCopy env fuel (source ++ rel) (dest ++ rel)) I := by
  induction fuel generalizing rel with
  | zero => omega
  | succ fuel ih =>
      have hentries : Returns I (fun w =>
          copyEntries env (performRecursiveCopy env fuel) (source ++ rel) (dest ++ rel)
            (env.entryInfoList w.tree (source ++ rel)) w) I := by
        refine avoids_of_state fun w hw => ?_
        refine Avoids.forEach (I := fun _ => I) (by simp) fun done entry rest hlist => ?_
        have hentry : entry ∈ env.entryInfoList w.tree (source ++ rel) := by
          rw [hlist]
          simp
        obtain ⟨hvisible, -, hdir⟩ := mem_entryInfoList hentry
        rw [List.append_assoc] at hdir ⊢
        rw [List.append_assoc]
        split
        · next hisDir =>
            have hvisible := visible_concat hrel hvisible
            have hshort := hbound w _ hw hvisible (hdir.symm.trans hisDir)
            refine ih hvisible hshort ?_
            rw [List.length_append, List.length_singleton]
            omega
        · exact hcopy _ _
      intro w hw
      unfold performRecursiveCopy
      split
      · next hdir =>
          split
          · exact hentries w hw
          · exact (hmkpath w rel hw hrel hdir).andThen hentries w hw
      · exact ⟨(by simp), (by simp)⟩

theorem ends_of_returns (bound : ℕ) {w : World} (hw : I w)
    (hbound : ∀ w rel, I w → (∀ name ∈ rel, isHidden name = false) →
      env.isDir w.tree (source ++ rel) = true → rel.length ≤ bound)
    (hmkpath : ∀ w rel, I w → (∀ name ∈ rel, isHidden name = false) →
      env.isDir w.tree (source ++ rel) = true → Returns I (QDir.mkpath env (dest ++ rel)) I)
    (hcopy : ∀ file copied, Returns I (QFile.copy env file copied) I) : Ends env source dest w := by
  refine ⟨bound + 1, fun fuel hfuel => ?_⟩
  have hreturns : Returns I (performRecursiveCopy env fuel (source ++ []) (dest ++ [])) I :=
    returns_performRecursiveCopy hbound hmkpath hcopy fuel nofun (Nat.zero_le bound) hfuel
  rw [List.append_nil, List.append_nil] at hreturns
  exact (hreturns w hw).1

/-- A path that leads to a directory is short. -/
theorem length_le_of_isDir {t : Tree} {depth : ℕ} (hdepth : t.Within depth) {rel : Path}
    (hdir : env.isDir t (source ++ rel) = true) :
    rel.length ≤ env.linkLimit * (depth + 1) + depth := by
  obtain ⟨d, hd, -⟩ := isDir_eq_true.mp hdir
  have hle := FileTree.length_le_of_locate hdepth hd
  rw [List.length_append] at hle
  omega

end Recursion

/-! ## A primitive that fails -/

section Failing

variable {env : Env}

/-- Every call so far has added one entry at most. -/
structure Short (depth last : ℕ) (w : World) : Prop where
  calls : w.calls .make ≤ last
  within : w.tree.Within (depth + w.calls .make)

theorem Short.insert {depth last : ℕ} {w : World} (h : Short depth last w)
    (hlast : env.fails .make last = true) (hok : env.fails .make (w.calls .make) = false)
    {e : List String} {n : Node String String} {t : Tree}
    (hinsert : w.tree.tryInsert e n = some t) :
    Short depth last { w.count .make with tree := t } := by
  have hne : w.calls .make ≠ last := by
    intro heq
    rw [heq, hlast] at hok
    cases hok
  have hcount : (w.count .make).calls .make = w.calls .make + 1 := count_calls_self
  obtain ⟨hdir, -, hnode⟩ := FileTree.tryInsert_eq_some hinsert
  refine ⟨?_, fun q hq => ?_⟩
  · dsimp only
    rw [hcount]
    exact Nat.lt_of_le_of_ne h.calls hne
  dsimp only
  rw [hcount]
  by_cases hqe : q = e
  · have hparent := h.within e.dropLast (by rw [hdir]; nofun)
    rw [List.length_dropLast] at hparent
    rw [hqe]
    omega
  · rw [hnode, Function.update_of_ne hqe] at hq
    exact Nat.le_succ_of_le (h.within q hq)

/-- **A copy that meets a failure ends**, and one that has not met it yet has made few directories.
-/
theorem ends_of_failure {source dest : Path} {w : World} {last : ℕ} (hle : w.calls .make ≤ last)
    (hlast : env.fails .make last = true) : Ends env source dest w := by
  obtain ⟨depth, hdepth⟩ := w.tree.exists_within
  have hstart : Short depth last w := ⟨hle, fun q hq => Nat.le_add_right_of_le (hdepth q hq)⟩
  apply ends_of_returns (env.linkLimit * (depth + last + 1) + (depth + last)) hstart
  · intro w rel hw _ hdir
    refine length_le_of_isDir (fun q hq => ?_) hdir
    have hq := hw.within q hq
    have hcalls := hw.calls
    omega
  · intro _ rel _ _ _
    refine returns_mkpath fun pre _ w t hw hok hmade => ?_
    obtain ⟨e, -, hinsert⟩ := Option.bind_eq_some_iff.mp hmade
    exact hw.insert hlast hok hinsert
  · intro file copied
    refine returns_attempt fun w t hw hok hcopied => ?_
    obtain ⟨_, _, e, -, -, -, hinsert⟩ := copied_eq_some hcopied
    exact hw.insert hlast hok hinsert

end Failing

/-! ## A tree with all directories -/

section Closing

variable {env : Env} {t T : Tree} {source dest : Path}

/-- The tree has grown from `t`, by directories of `T` and by files. -/
structure Covered (t T u : Tree) : Prop where
  le : t ≤ u
  dirsIn : u.DirsIn T

theorem Covered.refl (h : Closed env t T source dest) : Covered t T t :=
  ⟨le_refl t, fun q n hn _ => h.le q n hn⟩

theorem Covered.file {u v : Tree} {e : List String} {content : String} (h : Covered t T u)
    (hinsert : u.tryInsert e (.file content) = some v) : Covered t T v := by
  obtain ⟨-, -, hnode⟩ := FileTree.tryInsert_eq_some hinsert
  refine ⟨le_trans h.le (FileTree.le_of_tryInsert hinsert), fun q n hn hnofile => ?_⟩
  by_cases hqe : q = e
  · rw [hqe, hnode, Function.update_self] at hn
    exact absurd (Option.some.inj hn).symm (hnofile content)
  · rw [hnode, Function.update_of_ne hqe] at hn
    exact h.dirsIn q n hn hnofile

/-- A directory that is made is one of those of `T`. -/
theorem Covered.dir {u v : Tree} {pre : Path} (h : Covered t T u)
    (honly : ∀ q n, T.node q = some n → t.node q = some n ∨ n = .dir)
    (hmade : ∀ e, env.entry T pre = some e → T.node e ≠ none)
    (hmkdir : QDir.madeDir env pre u = some v) : Covered t T v := by
  obtain ⟨e, he, hinsert⟩ := Option.bind_eq_some_iff.mp hmkdir
  obtain ⟨-, hfree, hnode⟩ := FileTree.tryInsert_eq_some hinsert
  have hdir : T.node e = some .dir := by
    obtain ⟨path, name, rfl⟩ := FileTree.exists_of_entry he
    obtain ⟨d, hd, hddir, rfl⟩ := FileTree.entry_concat.mp he
    have heT : env.entry T (path ++ [name]) = some (d ++ [name]) := FileTree.entry_concat.mpr
      ⟨d, FileTree.locate_of_dirsIn h.dirsIn hd hddir, h.dirsIn d .dir hddir nofun, rfl⟩
    obtain ⟨n, hn⟩ := Option.ne_none_iff_exists'.mp (hmade _ heT)
    obtain hold | rfl := honly _ n hn
    · nomatch hfree.symm.trans (h.le _ n hold)
    · exact hn
  refine ⟨le_trans h.le (FileTree.le_of_tryInsert hinsert), fun q n hn hnofile => ?_⟩
  by_cases hqe : q = e
  · rw [hqe, hnode, Function.update_self] at hn
    rw [hqe, hdir, hn]
  · rw [hnode, Function.update_of_ne hqe] at hn
    exact h.dirsIn q n hn hnofile

/-- What leads to a directory leads to the one of `T`. -/
theorem Covered.isDir {u : Tree} {path : Path} (h : Covered t T u)
    (hdir : env.isDir u path = true) :
    env.isDir T path = true := by
  obtain ⟨d, hd, hdir⟩ := isDir_eq_true.mp hdir
  exact isDir_eq_true.mpr ⟨d, FileTree.locate_of_dirsIn h.dirsIn hd hdir,
    h.dirsIn d .dir hdir nofun⟩

/-- **A copy that asks for finitely many directories ends.** -/
theorem ends_of_covering {w : World} (h : Closed env w.tree T source dest) :
    Ends env source dest w := by
  obtain ⟨depth, hdepth⟩ := T.exists_within
  apply ends_of_returns (I := fun u => Covered w.tree T u.tree)
    (env.linkLimit * (depth + 1) + depth) (Covered.refl h)
  · intro u rel hu _ hdir
    exact length_le_of_isDir hdepth (hu.isDir hdir)
  · intro u rel hu hvisible hdir
    refine returns_mkpath fun pre hpre v v' hv _ hmkdir => ?_
    exact hv.dir h.only (h.made rel hvisible (hu.isDir hdir) pre hpre) hmkdir
  · intro file copied
    refine returns_attempt fun v v' hv _ hcopied => ?_
    obtain ⟨_, content, e, -, -, -, hinsert⟩ := copied_eq_some hcopied
    exact hv.file hinsert

end Closing

/-! ## Checking a tree -/

section Checking

variable {env : Env} {t T : Tree} {source dest : Path}

/-- The paths of visible names, up to a length, that lead from a path to a directory. -/
def Env.dirsBelow (env : Env) (t : Tree) : ℕ → Path → List Path
  | 0, _ => [[]]
  | length + 1, path =>
      [] :: ((env.entryInfoList t path).filter FileInfo.isDir).flatMap fun entry =>
        (env.dirsBelow t length (path ++ [entry.fileName])).map (entry.fileName :: ·)

theorem mem_dirsBelow {length : ℕ} {path rel : Path} (hlength : rel.length ≤ length)
    (hvisible : ∀ name ∈ rel, isHidden name = false) (hdir : env.isDir t (path ++ rel) = true) :
    rel ∈ env.dirsBelow t length path := by
  induction rel generalizing length path with
  | nil => cases length <;> exact List.mem_cons_self
  | cons name rel ih =>
      cases length with
      | zero => nomatch hlength
      | succ length =>
          rw [List.append_cons] at hdir
          obtain ⟨e, he, hedir⟩ := isDir_eq_true.mp hdir
          obtain ⟨x, hx, hxdir⟩ := FileTree.exists_locate_of_append he
          obtain ⟨d, hd, -, hthere⟩ := FileTree.locate_concat hx
          have hfirst : env.isDir t (path ++ [name]) = true := by
            refine isDir_eq_true.mpr ⟨x, hx, ?_⟩
            by_cases hrel : rel = []
            · rw [hrel, List.append_nil] at he
              rwa [Option.some.inj (hx.symm.trans he)]
            · exact hxdir hrel
          have hlisted : name ∈ (env.entryInfoList t path).map FileInfo.fileName := by
            rw [(names_entryInfoList hd).mem_iff, List.mem_filter, t.mem_children,
              hvisible name List.mem_cons_self,
              exists_of_isDir hfirst]
            exact ⟨hthere, rfl⟩
          obtain ⟨entry, hentry, rfl⟩ := List.mem_map.mp hlisted
          obtain ⟨-, -, hsame⟩ := mem_entryInfoList hentry
          refine List.mem_cons_of_mem _
            (List.mem_flatMap.mpr ⟨entry, ?_, List.mem_map.mpr ⟨rel, ?_, rfl⟩⟩)
          · exact List.mem_filter.mpr ⟨hentry, hsame.trans hfirst⟩
          · refine ih (Nat.le_of_succ_le_succ hlength) (fun x hx => ?_) hdir
            exact hvisible x (List.mem_cons_of_mem _ hx)

/-- Whether `T`, which is nowhere deeper than `depth`, is closed. -/
def closes (env : Env) (depth : ℕ) (t T : Tree) (source dest : Path) : Bool :=
  (T.support.all fun q => q.length ≤ depth) &&
    (t.support.all fun q => t.node q = none || T.node q = t.node q) &&
    (T.support.all fun q => T.node q = t.node q || T.node q = some .dir) &&
    (env.dirsBelow T (env.linkLimit * (depth + 1) + depth) source).all fun rel =>
      (dest ++ rel).inits.all fun path => (env.entry T path).all fun e => (T.node e).isSome

theorem closed_of_closes {depth : ℕ} (h : closes env depth t T source dest = true) :
    Closed env t T source dest := by
  simp only [closes, Bool.and_eq_true, List.all_eq_true, Bool.or_eq_true, decide_eq_true_iff] at h
  obtain ⟨⟨⟨hdepth, hle⟩, honly⟩, hmade⟩ := h
  have hwithin : T.Within depth := fun q hq => hdepth q (T.mem_support q hq)
  refine ⟨fun q n hn => ?_, fun q n hn => ?_, fun rel hvisible hdir path hpath e he => ?_⟩
  · obtain hnone | hsame := hle q (t.mem_support q (by rw [hn]; nofun))
    · nomatch hnone.symm.trans hn
    · exact hsame.trans hn
  · obtain hsame | hdir := honly q (T.mem_support q (by rw [hn]; nofun))
    · exact Or.inl (hsame.symm.trans hn)
    · exact Or.inr (Option.some.inj (hn.symm.trans hdir))
  · have hasked := mem_dirsBelow (length_le_of_isDir hwithin hdir) hvisible hdir
    have hthere := hmade rel hasked path ((List.mem_inits _ _).mpr hpath)
    rw [he] at hthere
    exact Option.isSome_iff_ne_none.mp hthere

end Checking

/-! ## Sources without links -/

section Outside

variable {env : Env} {t : Tree} {source dest : Path} {p q : List String}

/-- The place of a path that leads nowhere, where nothing is in the way of making it. -/
def Env.Vacant (env : Env) (t : Tree) (path : Path) (q : List String) : Prop :=
  ∃ pre name rest d, path = pre ++ name :: rest ∧ env.locate t pre = some d ∧ t.node d = some .dir ∧
    t.node (d ++ [name]) = none ∧ q = d ++ name :: rest

theorem Env.Vacant.free (h : env.Vacant t dest q) : t.node q = none := by
  obtain ⟨pre, name, rest, d, -, -, -, hfree, rfl⟩ := h
  rw [List.append_cons]
  exact FileTree.node_append_eq_none hfree rest

/-- What is there on the way to a vacant place are directories. -/
theorem Env.Vacant.dir_of_prefix (h : env.Vacant t dest q) {r : List String} (hr : r <+: q)
    (hthere : t.node r ≠ none) : t.node r = some .dir := by
  obtain ⟨pre, name, rest, d, -, -, hdir, hfree, rfl⟩ := h
  have hrd : r <+: d := by
    rw [List.append_cons] at hr
    rcases List.prefix_or_prefix_of_prefix hr (List.prefix_append (d ++ [name]) rest) with
      habove | hbelow
    · rcases List.prefix_concat_iff.mp habove with heq | hrd
      · rw [heq] at hthere
        exact absurd hfree hthere
      · exact hrd
    · exact absurd hbelow (FileTree.not_prefix_of_occupied hfree hthere)
  obtain ⟨rel, rfl⟩ := hrd
  by_cases hrel : rel = []
  · rwa [hrel, List.append_nil] at hdir
  · exact FileTree.dir_of_below hrel (by rw [hdir]; nofun)

/-- The directories that a copy of `p` to `q` asks for: those on the way to `q`, and those of `p`,
with what the way to `q` adds to them. -/
def asked (t : Tree) (p q : List String) : List (List String) :=
  q.inits ++ ((t.support ++ q.inits).filter fun s =>
    p <+: s ∧ (∀ name ∈ s.drop p.length, isHidden name = false) ∧
      (t.node s = some .dir ∨ s <+: q)).map
      fun s => q ++ s.drop p.length

theorem mem_asked {x : List String} :
    x ∈ asked t p q ↔ x <+: q ∨ ∃ rel, x = q ++ rel ∧ (∀ name ∈ rel, isHidden name = false) ∧
      (t.node (p ++ rel) = some .dir ∨ p ++ rel <+: q) := by
  unfold asked
  rw [List.mem_append, List.mem_inits, List.mem_map]
  refine or_congr_right ⟨?_, ?_⟩
  · rintro ⟨s, hs, rfl⟩
    rw [List.mem_filter, decide_eq_true_iff] at hs
    obtain ⟨-, ⟨rel, rfl⟩, hvisible, hdir⟩ := hs
    rw [List.drop_left] at hvisible ⊢
    exact ⟨rel, rfl, hvisible, hdir⟩
  · rintro ⟨rel, rfl, hvisible, hdir⟩
    refine ⟨p ++ rel, ?_, by rw [List.drop_left]⟩
    rw [List.mem_filter, decide_eq_true_iff, List.drop_left]
    refine ⟨?_, List.prefix_append p rel, hvisible, hdir⟩
    rw [List.mem_append, List.mem_inits]
    exact hdir.imp_left fun hdir => t.mem_support _ (by rw [hdir]; nofun)

theorem parent_asked (hq : env.Vacant t dest q) (x : List String) (name : String)
    (hx : x ++ [name] ∈ asked t p q)
    (hfree : t.node (x ++ [name]) = none) :
    t.node x = some .dir ∨ t.node x = none ∧ x ∈ asked t p q := by
  have honTheWay : x <+: q → t.node x = some .dir ∨ t.node x = none ∧ x ∈ asked t p q := by
    intro hxq
    by_cases hnone : t.node x = none
    · exact Or.inr ⟨hnone, mem_asked.mpr (Or.inl hxq)⟩
    · exact Or.inl (hq.dir_of_prefix hxq hnone)
  obtain hpre | ⟨rel, heq, hvisible, hdir⟩ := mem_asked.mp hx
  · exact honTheWay ((List.prefix_append x [name]).trans hpre)
  · rcases List.eq_nil_or_concat' rel with rfl | ⟨rel, last, rfl⟩
    · rw [List.append_nil] at heq
      exact honTheWay (heq ▸ List.prefix_append x [name])
    · rw [← List.append_assoc] at heq hdir
      obtain ⟨rfl, -⟩ := List.append_inj' heq rfl
      refine Or.inr ⟨FileTree.node_append_eq_none hq.free rel,
        mem_asked.mpr (Or.inr ⟨rel, rfl, ?_, ?_⟩)⟩
      · exact fun x hx => hvisible x (List.mem_append_left _ hx)
      · rcases hdir with hdir | hpre
        · exact Or.inl (t.parent _ last (by rw [hdir]; nofun))
        · exact Or.inr ((List.prefix_append _ [last]).trans hpre)

/-- **A source without links** is copied to a vacant place with finitely many directories, unless
visible names lead from the source to that place. -/
theorem exists_closed (hp : env.locate t source = some p)
    (hlinkFree : ∀ rel target, t.node (p ++ rel) ≠ some (.link target)) (hq : env.Vacant t dest q)
    (hout : ∀ z, q = p ++ z → ¬ ∀ name ∈ z, isHidden name = false) :
    ∃ T, Closed env t T source dest := by
  set T := t.addDirs (asked t p q) (parent_asked hq) with hT
  have hle : t ≤ T := FileTree.le_addDirs
  have hcases : ∀ {x n}, T.node x = some n → t.node x = some n ∨ n = .dir ∧ x ∈ asked t p q :=
    fun h => FileTree.addDirs_cases h
  have hsourceT : env.locate T source = some p := FileTree.locate_mono hle hp
  -- the destination is where it was to be made
  have hdestT : env.locate T dest = some q := by
    obtain ⟨pre, name, rest, d, rfl, hd, hdir, -, hqd⟩ := id hq
    rw [hqd]
    refine FileTree.locate_append_of_dir (FileTree.locate_mono hle hd) ?_
    rw [← hqd]
    exact FileTree.addDirs_made hq.free (mem_asked.mpr (Or.inl (List.prefix_refl q)))
  refine ⟨T, hle, fun x n hn => (hcases hn).imp_right And.left,
    fun rel hvisible hisDir path hpath e he => ?_⟩
  -- a directory of the source is one of `t`, or was made on the way
  have hdir : t.node (p ++ rel) = some .dir ∨ p ++ rel <+: q := by
    obtain ⟨x, hx, hxdir⟩ := isDir_eq_true.mp hisDir
    obtain rfl : x = p ++ rel := FileTree.locate_append_of_linkFree hsourceT
      (fun rel target hlink => (hcases hlink).elim (hlinkFree rel target) fun hdir =>
        nomatch hdir.1) hx
    obtain hold | ⟨-, hasked⟩ := hcases hxdir
    · exact Or.inl hold
    · obtain hpre | ⟨made, heq, hmade, -⟩ := mem_asked.mp hasked
      · exact Or.inr hpre
      · exfalso
        rcases List.prefix_or_prefix_of_prefix (List.prefix_append p rel) ⟨made, heq.symm⟩ with
          ⟨z, hz⟩ | ⟨z, hz⟩
        · rw [← hz, List.append_assoc] at heq
          rw [List.append_cancel_left heq] at hvisible
          exact hout z hz.symm fun name hname => hvisible name (List.mem_append_left _ hname)
        · obtain ⟨n, hn, -⟩ := FileTree.isObject_of_locate hp
          rw [← hz, FileTree.node_append_eq_none hq.free] at hn
          nomatch hn
  have hmadeT : T.node (q ++ rel) = some .dir :=
    FileTree.addDirs_made (FileTree.node_append_eq_none hq.free rel)
      (mem_asked.mpr (Or.inr ⟨rel, rfl, hvisible, hdir⟩))
  have hcopyT := FileTree.locate_append_of_dir hdestT hmadeT
  obtain ⟨more, hmore⟩ := hpath
  rw [← hmore] at hcopyT
  obtain ⟨x, hx, -⟩ := FileTree.exists_locate_of_append hcopyT
  obtain ⟨e', he', hthere⟩ := FileTree.entry_of_locate (by rintro rfl; nomatch he) hx
  obtain rfl := Option.some.inj (he'.symm.trans he)
  exact hthere

end Outside

end NiraOS.Files
