import NiraOS.Files.NoClobber

/-!
# A delete stays where it is asked to

A permanent delete, and the recursive delete that ends a copy to the Trash, should change nothing
but what lies at its path or beneath it, links not followed (`Confined`).

The recursion asks `isDir`, which follows links, so it comes to entries outside:

```text
outside, and reached              is removed
a file, or a link to one          yes
an empty directory                yes
a directory with entries          no: not all of them can go
a link to a directory             no: rmdir removes no link
```

A delete is confined, in whatever order the entries are listed and whatever primitives fail, when
only the last two are reached (`Harmless`), and then only.
-/

namespace NiraOS.Files

open Command

/-! ## Confinement -/

section Confinement

variable (env : Env) (t : Tree) (path : Path)

/-- Neither at the path nor beneath it. -/
def Env.Outside (q : List String) : Prop := ∀ p, env.own t path = some p → ¬ p <+: q

/-- Nothing has changed outside the path. -/
def Env.ConfinedTo (u : Tree) : Prop := ∀ q, env.Outside t path q → u.node q = t.node q

structure Confined : Prop where
  performDelete : ∀ fuel calls,
    env.ConfinedTo t path (performDelete env fuel path true ⟨t, calls⟩).2.tree
  performRecursiveDelete : ∀ fuel calls,
    env.ConfinedTo t path (performRecursiveDelete env fuel path ⟨t, calls⟩).2.tree

/-- Outside the path only links to directories are reached, and directories with entries. -/
def Harmless : Prop :=
  ∀ rel q, (∀ name ∈ rel, isHidden name = false) → env.exists t (path ++ rel) = true →
    env.entry t (path ++ rel) = some q → env.Outside t path q →
      env.isDir t (path ++ rel) = true ∧ (t.node q = some .dir → t.children q ≠ [])

end Confinement

/-! ## Harmless is enough -/

section Sufficient

variable {env : Env} {t u : Tree} {path rel : Path} {p q : List String}

/-- What is there and leads to a directory in a larger tree leads to one. -/
theorem isDir_of_le (h : u ≤ t) (hexists : env.exists u path = true)
    (hdir : env.isDir t path = true) :
    env.isDir u path = true := by
  obtain ⟨d, hd⟩ := Option.isSome_iff_exists.mp hexists
  obtain ⟨e, he, hnode⟩ := isDir_eq_true.mp hdir
  obtain rfl : d = e := Option.some.inj ((FileTree.locate_mono h hd).symm.trans he)
  obtain ⟨n, hn, -⟩ := FileTree.isObject_of_locate hd
  exact isDir_eq_true.mpr ⟨d, hd, by rw [hn, ← h d n hn, hnode]⟩

/-- As long as something outside is come to, the path itself is still there. -/
theorem own_of_outside (h : u ≤ t) (hp : env.entry u (path ++ rel) = some p)
    (hout : env.Outside t path p) :
    ∃ p₀, env.own t path = some p₀ ∧ u.node p₀ ≠ none := by
  by_cases hpath : path = []
  · exact absurd List.nil_prefix (hout [] (if_pos hpath))
  · have hrel : rel ≠ [] := by
      rintro rfl
      rw [List.append_nil] at hp
      exact hout p ((own_of_ne_nil hpath).trans (FileTree.entry_mono h hp)) (List.prefix_refl p)
    obtain ⟨pre, name, rfl⟩ := (List.eq_nil_or_concat' rel).resolve_left hrel
    rw [← List.append_assoc] at hp
    obtain ⟨d, hd, -, -⟩ := FileTree.entry_concat.mp hp
    obtain ⟨d₀, hd₀, -⟩ := FileTree.exists_locate_of_append hd
    obtain ⟨p₀, hp₀, hnode⟩ := FileTree.entry_of_locate hpath hd₀
    exact ⟨p₀, (own_of_ne_nil hpath).trans (FileTree.entry_mono h hp₀), hnode⟩

/-- What is taken away was reached from the path, and nothing outside it. -/
structure Spared (env : Env) (t : Tree) (path : Path) (u : Tree) :
    Prop extends Reaps env t path u where
  confined : env.ConfinedTo t path u

theorem Spared.erase {u' : Tree} (h : Spared env t path u)
    (hrel : ∀ name ∈ rel, isHidden name = false)
    (hexists : env.exists t (path ++ rel) = true) (hp : env.entry u (path ++ rel) = some p)
    (herase : u.tryErase p = some u') (hin : ¬ env.Outside t path p) : Spared env t path u' := by
  refine ⟨h.toReaps.erase hrel hexists hp herase, fun q hq => ?_⟩
  obtain ⟨-, -, hnode⟩ := FileTree.tryErase_eq_some herase
  have hqp : q ≠ p := by
    rintro rfl
    exact hin hq
  rw [hnode, Function.update_of_ne hqp, h.confined q hq]

theorem spared_performRecursiveDelete (h : Harmless env t path) (fuel : ℕ)
    (hrel : ∀ name ∈ rel, isHidden name = false) :
    Keeps (fun w => Spared env t path w.tree) (performRecursiveDelete env fuel (path ++ rel)) := by
  refine keeps_performRecursiveDelete path ?_ ?_ fuel hrel
  · intro rel v u u' hrel hv hu hexists hnodir hremoved
    obtain ⟨p, n, hp, -, -, herase⟩ := removed_eq_some hremoved
    refine hu.erase hrel (exists_mono hv.le hexists) hp herase fun hout => ?_
    -- outside only what leads to a directory is reached
    have hdir := (h rel p hrel (exists_mono hv.le hexists) (FileTree.entry_mono hu.le hp) hout).1
    exact Bool.eq_false_iff.mp hnodir (isDir_of_le hv.le hexists hdir)
  · intro rel v u u' hrel hv hu hdir hremoved
    obtain ⟨p, hp, hnode, herase⟩ := removedDir_eq_some hremoved
    have hexists := exists_mono hv.le (exists_of_isDir hdir)
    refine hu.erase hrel hexists hp herase fun hout => ?_
    have hentry := FileTree.entry_mono hu.le hp
    obtain ⟨name, hname⟩ :=
      List.exists_mem_of_ne_nil _ ((h rel p hrel hexists hentry hout).2 (hu.le _ _ hnode))
    have hchild := t.mem_children.mp hname
    -- an entry of it is gone: it can only be the path itself
    have hgone : u.node (p ++ [name]) = none := by
      obtain ⟨-, hleaf, -⟩ := FileTree.tryErase_eq_some herase
      by_contra hne
      have hmem := u.mem_children.mpr hne
      rw [hleaf] at hmem
      nomatch hmem
    obtain ⟨p₀, hp₀, hthere⟩ := own_of_outside hu.le hp hout
    have hprefix : p₀ <+: p ++ [name] := by
      by_contra hno
      refine hchild ((hu.confined _ fun p' hp' => ?_).symm.trans hgone)
      rwa [← Option.some.inj (hp₀.symm.trans hp')]
    rcases List.prefix_concat_iff.mp hprefix with heq | habove
    · exact hthere (heq ▸ hgone)
    · exact hout p₀ hp₀ habove

theorem confined_of_harmless (h : Harmless env t path) : Confined env t path := by
  have hrecursive : ∀ fuel calls,
      env.ConfinedTo t path (performRecursiveDelete env fuel path ⟨t, calls⟩).2.tree := by
    intro fuel calls
    have hspared : Keeps (fun w => Spared env t path w.tree)
        (performRecursiveDelete env fuel (path ++ [])) :=
      spared_performRecursiveDelete h fuel nofun
    rw [List.append_nil] at hspared
    exact (hspared ⟨t, calls⟩ ⟨Reaps.refl t path, fun _ _ => rfl⟩).confined
  refine ⟨fun fuel calls => ?_, hrecursive⟩
  unfold performDelete
  split
  · rw [if_pos rfl]
    split
    · exact hrecursive fuel calls
    · rcases attempt_cases env .remove (QFile.removed env path) ⟨t, calls⟩ with
        hfail | ⟨u, -, hremoved, hok⟩
      · rw [QFile.remove, hfail]
        exact fun _ _ => rfl
      · rw [QFile.remove, hok]
        obtain ⟨p, n, hp, -, -, herase⟩ := removed_eq_some hremoved
        obtain ⟨-, -, hnode⟩ := FileTree.tryErase_eq_some herase
        have hne : path ≠ [] := by
          rintro rfl
          nomatch hp
        intro q hq
        have hqp : q ≠ p := by
          rintro rfl
          exact hq q ((own_of_ne_nil hne).trans hp) (List.prefix_refl q)
        exact (congrFun hnode q).trans (Function.update_of_ne hqp ..)
  · exact fun _ _ => rfl

end Sufficient

/-! ## Harmless is needed -/

section Necessary

variable {env : Env} {t : Tree} {path rel : Path} {q : List String}

/-- A listing on the way to `path ++ rel` starts with the next name. -/
def towards (path rel dir : Path) (names : List String) : List String :=
  match rel[dir.length - path.length]? with
  | some name => if name ∈ names then name :: names.erase name else names
  | none => names

theorem towards_perm (path rel dir : Path) (names : List String) :
    (towards path rel dir names).Perm names := by
  unfold towards
  split
  · split
    · next hmem => exact (List.perm_cons_erase hmem).symm
    · exact .refl _
  · exact .refl _

/-- Nothing fails, and a delete goes straight to `path ++ rel`. -/
def Env.heading (env : Env) (path rel : Path) : Env :=
  { env with
    fails := fun _ _ => false
    order := towards path rel
    order_perm := towards_perm path rel }

theorem entryInfoList_heading {pre suf : Path} {name : String} (hrel : rel = pre ++ name :: suf)
    (hvisible : isHidden name = false) (hexists : env.exists t (path ++ (pre ++ [name])) = true) :
    ∃ rest, (env.heading path rel).entryInfoList t (path ++ pre) =
      ⟨name, env.isDir t (path ++ (pre ++ [name]))⟩ :: rest := by
  rw [← List.append_assoc] at hexists ⊢
  obtain ⟨e, he⟩ := Option.isSome_iff_exists.mp hexists
  obtain ⟨d, hd, -, hchild⟩ := FileTree.locate_concat he
  have hmem : name ∈ (t.children d).filter fun name =>
      !isHidden name && (env.heading path rel).exists t (path ++ pre ++ [name]) := by
    refine List.mem_filter.mpr ⟨t.mem_children.mpr hchild, ?_⟩
    rw [hvisible]
    exact hexists
  have hnext : rel[(path ++ pre).length - path.length]? = some name := by
    rw [hrel]
    simp
  have horder : ∀ names, name ∈ names → (env.heading path rel).order (path ++ pre) names =
      name :: names.erase name := by
    intro names hnames
    change towards path rel (path ++ pre) names = _
    rw [towards, hnext]
    exact if_pos hnames
  have hlist : (env.heading path rel).entryInfoList t (path ++ pre) = _ := entryInfoList_eq hd
  rw [hlist, horder _ hmem, List.map_cons]
  exact ⟨_, rfl⟩

/-- What is gone stays gone. -/
theorem keeps_gone (fuel : ℕ) (path : Path) :
    Keeps (fun w => w.tree.node q = none) (performRecursiveDelete env fuel path) := by
  have hkeeps : Keeps (fun w => w.tree.node q = none)
      (performRecursiveDelete env fuel (path ++ [])) := by
    refine keeps_performRecursiveDelete (I := fun u => u.node q = none) path ?_ ?_ fuel nofun
    · intro _ _ _ _ _ _ hu _ _ h
      obtain ⟨_, _, _, _, _, herase⟩ := removed_eq_some h
      exact FileTree.eq_none_of_le (FileTree.le_of_tryErase herase) hu
    · intro _ _ _ _ _ _ hu _ h
      obtain ⟨_, _, _, herase⟩ := removedDir_eq_some h
      exact FileTree.eq_none_of_le (FileTree.le_of_tryErase herase) hu
  rwa [List.append_nil] at hkeeps

theorem keeps_gone_deleteEntries (fuel : ℕ) (path : Path) (entries : List FileInfo) :
    Keeps (fun w => w.tree.node q = none)
      (deleteEntries env (performRecursiveDelete env fuel) path entries) := by
  refine Keeps.forEach fun entry _ => ?_
  split
  · exact keeps_gone fuel _
  · refine keeps_attempt (P := fun u => u.node q = none) fun u u' hu h => ?_
    obtain ⟨_, _, _, _, _, herase⟩ := removed_eq_some h
    exact FileTree.eq_none_of_le (FileTree.le_of_tryErase herase) hu

/-- What can be removed at once: what leads to no directory, and empty directories. -/
def Removable (env : Env) (t : Tree) (path : Path) (q : List String) : Prop :=
  env.isDir t path = false ∨ t.node q = some .dir ∧ t.children q = []

theorem removed_of_not_isDir {w : World} (hfails : env.fails .remove (w.calls .remove) = false)
    (hexists : env.exists w.tree path = true) (hq : env.entry w.tree path = some q)
    (hnodir : env.isDir w.tree path = false) : (QFile.remove env path w).2.tree.node q = none := by
  obtain ⟨d, hd⟩ := Option.isSome_iff_exists.mp hexists
  have hnode : w.tree.node q ≠ some .dir := by
    intro hnode
    have hq' : env.locate w.tree path = some q := FileTree.locate_of_entry hq hnode fun _ => nofun
    exact Bool.eq_false_iff.mp hnodir (isDir_eq_true.mpr ⟨q, hq', hnode⟩)
  have hleaf : w.tree.children q = [] := by
    refine List.eq_nil_iff_forall_not_mem.mpr fun name hname => ?_
    exact w.tree.mem_children.mp hname
      (FileTree.node_below_eq_none hnode (List.cons_ne_nil name []))
  obtain ⟨u, hu⟩ := FileTree.exists_tryErase (FileTree.entry_ne_nil hq) hleaf
  have hremoved : QFile.removed env path w.tree = some u := by
    obtain ⟨e, he, hthere⟩ := FileTree.entry_of_locate (by rintro rfl; nomatch hq) hd
    obtain rfl := Option.some.inj (he.symm.trans hq)
    obtain ⟨n, hn⟩ := Option.ne_none_iff_exists'.mp hthere
    exact removed_of_entry hq hn (fun hdir => hnode (hdir ▸ hn)) hu
  obtain ⟨-, -, hgone⟩ := FileTree.tryErase_eq_some hu
  rw [QFile.remove, attempt_of_effect hfails hremoved]
  exact (congrFun hgone q).trans (Function.update_self ..)

theorem removed_of_empty {w : World} {fuel : ℕ}
    (hfails : env.fails .remove (w.calls .remove) = false)
    (hq : env.entry w.tree path = some q) (hdir : w.tree.node q = some .dir)
    (hleaf : w.tree.children q = []) :
    (performRecursiveDelete env (fuel + 1) path w).2.tree.node q = none := by
  have hlocate : env.locate w.tree path = some q := FileTree.locate_of_entry hq hdir fun _ => nofun
  have hnames : env.order path [] = [] := List.perm_nil.mp (env.order_perm path [])
  have hentries : env.entryInfoList w.tree path = [] := by
    rw [entryInfoList_eq hlocate, hleaf, List.filter_nil, hnames, List.map_nil]
  obtain ⟨u, hu⟩ := FileTree.exists_tryErase (FileTree.entry_ne_nil hq) hleaf
  have hremoved : QDir.removedDir env path w.tree = some u := by
    rw [QDir.removedDir, hq, Option.bind_some, hdir]
    exact hu
  obtain ⟨-, -, hgone⟩ := FileTree.tryErase_eq_some hu
  rw [performRecursiveDelete_of_isDir (isDir_eq_true.mpr ⟨q, hlocate, hdir⟩), hentries]
  change (QDir.rmdir env path w).2.tree.node q = none
  rw [QDir.rmdir, attempt_of_effect hfails hremoved]
  exact (congrFun hgone q).trans (Function.update_self ..)

/-- **A delete that goes straight** to what can be removed at once removes it. -/
theorem gone_of_heading (hvisible : ∀ name ∈ rel, isHidden name = false)
    (hexists : env.exists t (path ++ rel) = true) (hq : env.entry t (path ++ rel) = some q)
    (hremovable : Removable env t (path ++ rel) q) {pre suf : Path} (hrel : rel = pre ++ suf)
    (hsuf : suf ≠ [] ∨ env.isDir t (path ++ rel) = true) (calls : Primitive → ℕ) :
    (performRecursiveDelete (env.heading path rel) (suf.length + 1) (path ++ pre)
      ⟨t, calls⟩).2.tree.node q = none := by
  induction suf generalizing pre calls with
  | nil =>
      rw [List.append_nil] at hrel
      rw [← hrel]
      have hdir := hsuf.resolve_left fun hne => hne rfl
      obtain ⟨hnode, hleaf⟩ := hremovable.resolve_left (Bool.eq_false_iff.not_left.mpr hdir)
      have hgone : ∀ fuel, (performRecursiveDelete (env.heading path rel) (fuel + 1) (path ++ rel)
          ⟨t, calls⟩).2.tree.node q = none :=
        fun _ => removed_of_empty rfl hq hnode hleaf
      exact hgone 0
  | cons name suf ih =>
      have hrel' : rel = (pre ++ [name]) ++ suf := by rw [hrel, List.append_assoc]; rfl
      obtain ⟨e, he⟩ := Option.isSome_iff_exists.mp hexists
      have hnext : path ++ rel = path ++ (pre ++ [name]) ++ suf :=
        by rw [List.append_assoc, ← hrel']
      rw [hnext] at he
      obtain ⟨d, hd, hmore⟩ := FileTree.exists_locate_of_append he
      have hthere : env.exists t (path ++ (pre ++ [name])) = true :=
        Option.isSome_iff_exists.mpr ⟨d, hd⟩
      obtain ⟨rest, hentries⟩ :=
        entryInfoList_heading hrel (hvisible name (by rw [hrel]; simp)) hthere
      have hpre : (env.heading path rel).isDir t (path ++ pre) = true := by
        rw [← List.append_assoc] at hd
        obtain ⟨d', hd', hdir, -⟩ := FileTree.locate_concat hd
        exact isDir_eq_true.mpr ⟨d', hd', hdir⟩
      rw [List.length_cons, performRecursiveDelete_of_isDir hpre, hentries]
      refine andThen_of_keeps (I := fun w : World => w.tree.node q = none) ?_ ?_
      · refine andThen_of_keeps (I := fun w : World => w.tree.node q = none) ?_
          (keeps_gone_deleteEntries (suf.length + 1) (path ++ pre) rest)
        cases hdir : env.isDir t (path ++ (pre ++ [name])) with
        | true =>
            rw [if_pos rfl, List.append_assoc]
            refine ih hrel' ?_ calls
            by_cases hne : suf = []
            · rw [hne, List.append_nil] at hrel'
              exact .inr (hrel' ▸ hdir)
            · exact .inl hne
        | false =>
            -- a way goes on from directories only
            obtain rfl : suf = [] := by
              by_contra hne
              exact Bool.eq_false_iff.mp hdir (isDir_eq_true.mpr ⟨d, hd, hmore hne⟩)
            rw [List.append_nil] at hrel'
            rw [if_neg Bool.false_ne_true, List.append_assoc, ← hrel']
            rw [← hrel'] at hdir
            have hgone : ∀ w : World, w.tree = t →
                (QFile.remove (env.heading path rel) (path ++ rel) w).2.tree.node q = none := by
              rintro w rfl
              exact removed_of_not_isDir rfl hexists hq hdir
            exact hgone ⟨t, calls⟩ rfl
      · refine keeps_attempt (P := fun u => u.node q = none) fun u u' hu h => ?_
        obtain ⟨_, _, _, herase⟩ := removedDir_eq_some h
        exact FileTree.eq_none_of_le (FileTree.le_of_tryErase herase) hu

theorem harmless_of_confined
    (h : ∀ env' : Env, env'.linkLimit = env.linkLimit → Confined env' t path) :
    Harmless env t path := by
  intro rel q hvisible hexists hq hout
  by_contra hbad
  have hremovable : Removable env t (path ++ rel) q := by
    unfold Removable
    by_contra hno
    rw [not_or, Bool.not_eq_false] at hno
    exact hbad ⟨hno.1, fun hdir hleaf => hno.2 ⟨hdir, hleaf⟩⟩
  obtain ⟨d, hd⟩ := Option.isSome_iff_exists.mp hexists
  have hne : path ++ rel ≠ [] := by
    intro hnil
    rw [hnil] at hq
    nomatch hq
  have hthere : t.node q ≠ none := by
    obtain ⟨e, he, hnode⟩ := FileTree.entry_of_locate hne hd
    obtain rfl := Option.some.inj (he.symm.trans hq)
    exact hnode
  have hrel : rel ≠ [] := by
    rintro rfl
    rw [List.append_nil] at hne hq
    exact hout q ((own_of_ne_nil hne).trans hq) (List.prefix_refl q)
  have hgone : (performRecursiveDelete (env.heading path rel) (rel.length + 1) (path ++ [])
      ⟨t, 0⟩).2.tree.node q = none :=
        gone_of_heading hvisible hexists hq hremovable rfl (.inl hrel) 0
  rw [List.append_nil] at hgone
  have hkept := (h (env.heading path rel) rfl).performRecursiveDelete (rel.length + 1) 0 q hout
  exact hthere (hkept.symm.trans hgone)

end Necessary

/-- **A delete is confined**, whatever fails and in whatever order entries are listed, if and only
if it is harmless. -/
theorem confined_iff (env : Env) (t : Tree) (path : Path) :
    (∀ env' : Env, env'.linkLimit = env.linkLimit → Confined env' t path) ↔
      Harmless env t path := by
  refine ⟨harmless_of_confined, fun h env' hlimit => confined_of_harmless ?_⟩
  intro rel q hvisible hexists hq hout
  have hsame : ∀ path, env'.locate t path = env.locate t path := fun path => by
    rw [Env.locate, Env.locate, hlimit]
  have hentry : ∀ path, env'.entry t path = env.entry t path := fun path => by
    rw [Env.entry, Env.entry, hlimit]
  have hexists' : env.exists t (path ++ rel) = true := by rwa [Env.exists, hsame] at hexists
  have hout' : env.Outside t path q := fun p hp => hout p (by rwa [Env.own, hentry])
  have hsafe := h rel q hvisible hexists' (by rwa [hentry] at hq) hout'
  rw [Env.isDir, hsame]
  exact hsafe

/-! ## A link to a directory -/

/-- A folder with a link that leads out of it. -/
def linking : Tree :=
  (FileTree.empty.grow [(["out"], .dir), (["out", "letter"], .file "text"), (["folder"], .dir),
    (["folder", "link"], .link ⟨true, [.down "out"]⟩)]).getD .empty

/-- Deleting the folder empties the other. -/
theorem not_confined_linking : ¬ ∀ env t path, Confined env t path := by
  intro h
  have hout : calmEnv.Outside linking ["folder"] ["out", "letter"] := by
    intro p hp
    obtain rfl : ["folder"] = p :=
      Option.some.inj ((by decide +kernel : _ = some ["folder"]).symm.trans hp)
    decide
  have hkept := (h calmEnv linking ["folder"]).performDelete 3 0 ["out", "letter"] hout
  have hlost : (performDelete calmEnv 3 ["folder"] true ⟨linking, 0⟩).2.tree.node ["out",
      "letter"] = none := by
    decide +kernel
  have hthere : linking.node ["out", "letter"] = some (.file "text") := by decide +kernel
  nomatch (hlost.symm.trans hkept).trans hthere

end NiraOS.Files
