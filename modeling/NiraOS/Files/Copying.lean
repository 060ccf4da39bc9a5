import NiraOS.Files.NoClobber
import Mathlib.Data.List.Infix

/-!
# Copies are faithful

A copy or a duplicate that reports success, to a target where nothing was, should leave there what
the source is, and everything that was there before as it was (`Faithful`).

The listing leaves out hidden names and broken links, and what it asks about an entry follows
links:

```text
in the source              in the copy
a file, a directory        the same
a hidden entry             nothing
a link to a file           a file
a link to a directory      a directory
a broken link              nothing
```

So the copies that are faithful are those of sources without links and hidden entries (`Plain`),
to a place outside the source (`faithful_iff`).
-/

namespace NiraOS.Files

open Command

/-! ## What a faithful copy is -/

section Definitions

/-- No link is at or below a location, and no hidden name below it. -/
structure Plain (t : Tree) (p : List String) : Prop where
  visible : ∀ rel, t.node (p ++ rel) ≠ none → ∀ name ∈ rel, isHidden name = false
  linkFree : ∀ rel target, t.node (p ++ rel) ≠ some (.link target)

def isLink : Option (Node String String) → Bool
  | some (.link _) => true
  | _ => false

theorem isLink_eq_false (n : Option (Node String String)) :
    isLink n = false ↔ ∀ link, n ≠ some (.link link) := by
  unfold isLink
  split
  · simp
  · next hno => simpa using fun link heq => hno link heq

theorem plain_iff (t : Tree) (p : List String) :
    Plain t p ↔ ∀ q ∈ t.support, p <+: q → t.node q ≠ none →
      (∀ name ∈ q.drop p.length, isHidden name = false) ∧ isLink (t.node q) = false := by
  constructor
  · rintro h _ - ⟨rel, rfl⟩ hne
    rw [List.drop_left]
    exact ⟨h.visible rel hne, (isLink_eq_false _).mpr (h.linkFree rel)⟩
  · intro h
    refine ⟨fun rel hne => ?_, fun rel link heq => ?_⟩
    · have hvisible := (h _ (t.mem_support _ hne) (List.prefix_append p rel) hne).1
      rwa [List.drop_left] at hvisible
    · have hne : t.node (p ++ rel) ≠ none := by
        rw [heq]
        nofun
      exact (isLink_eq_false _).mp
        (h _ (t.mem_support _ hne) (List.prefix_append p rel) hne).2 link heq

instance (t : Tree) (p : List String) : Decidable (Plain t p) :=
  decidable_of_iff _ (plain_iff t p).symm

variable (env : Env)

/-- The place of a path that leads nowhere: where the way to it leaves what is there. -/
def Env.Place (t : Tree) (path : Path) (q : List String) : Prop :=
  ∃ pre name rest d, path = pre ++ name :: rest ∧ env.locate t pre = some d ∧
    env.exists t (pre ++ [name]) = false ∧ q = d ++ name :: rest

/-- From `t` to `u` the source was copied to the target. -/
structure Faithful (t u : Tree) (source target : Path) : Prop where
  old : t ≤ u
  kept : ∀ p, env.own t source = some p → ∀ rel, u.node (p ++ rel) = t.node (p ++ rel)
  copied : ∃ p q, env.own t source = some p ∧ env.own u target = some q ∧
    ∀ rel, u.node (q ++ rel) = t.node (p ++ rel)

/-- The calls that copy, with their source and the target that is resolved. -/
inductive Copies (t : Tree) : Call → Path → Path → Prop
  | copy (source dest : Path) :
      Copies t (.copy source dest) source (resolveDestination env t source dest)
  | duplicate (path : Path) : Copies t (.duplicate path) path (duplicateTarget env t path)

end Definitions

/-! ## Places -/

section Places

variable {env : Env} {t : Tree} {path : Path} {p q : List String} {name : String}

theorem exists_of_append {rest : Path} (h : env.exists t (path ++ rest) = true) :
    env.exists t path = true := by
  obtain ⟨e, he⟩ := Option.isSome_iff_exists.mp h
  obtain ⟨d, hd, -⟩ := FileTree.exists_locate_of_append he
  exact Option.isSome_iff_exists.mpr ⟨d, hd⟩

theorem exists_nil : env.exists t [] = true :=
  Option.isSome_iff_exists.mpr ⟨[], FileTree.locate_nil⟩

theorem exists_place (h : env.exists t path = false) : ∃ q, env.Place t path q := by
  induction path using List.reverseRecOn with
  | nil => nomatch exists_nil.symm.trans h
  | append_singleton path name ih =>
      cases hpath : env.locate t path with
      | some d => exact ⟨d ++ [name], path, name, [], d, rfl, hpath, h, rfl⟩
      | none =>
          obtain ⟨q, pre, first, rest, d, rfl, hd, hfree, rfl⟩ :=
            ih (by rw [Env.exists, hpath]; rfl)
          exact ⟨_, pre, first, rest ++ [name], d, by simp, hd, hfree, rfl⟩

/-- A path leaves what is there once. -/
theorem Env.Place.unique {q' : List String} (h : env.Place t path q) (h' : env.Place t path q') :
    q = q' := by
  obtain ⟨pre, name, rest, d, rfl, hd, hfree, rfl⟩ := h
  obtain ⟨pre', name', rest', d', heq, hd', hfree', rfl⟩ := h'
  have hshort : ∀ {x y : Path} {a b : String} {r s : Path}, x ++ a :: r = y ++ b :: s →
      env.exists t (x ++ [a]) = false → env.exists t y = true → ¬ x.length < y.length := by
    intro x y a b r s heq hfree hthere hlt
    have hpre : x ++ [a] <+: y := by
      have hfirst : x ++ [a] <+: x ++ a :: r := ⟨r, by simp⟩
      refine List.prefix_of_prefix_length_le hfirst ⟨b :: s, heq.symm⟩ ?_
      rw [List.length_append, List.length_singleton]
      exact hlt
    obtain ⟨z, rfl⟩ := hpre
    nomatch (exists_of_append hthere).symm.trans hfree
  have hle := hshort heq hfree (Option.isSome_iff_exists.mpr ⟨d', hd'⟩)
  have hge := hshort heq.symm hfree' (Option.isSome_iff_exists.mpr ⟨d, hd⟩)
  obtain ⟨rfl, hrest⟩ := List.append_inj heq (by omega)
  obtain rfl := Option.some.inj (hd.symm.trans hd')
  rw [hrest]

theorem place_concat (hd : env.locate t path = some q) (hfree : t.node (q ++ [name]) = none) :
    env.Place t (path ++ [name]) (q ++ [name]) := by
  refine ⟨path, name, [], q, rfl, hd, Bool.eq_false_iff.mpr fun hexists => ?_, rfl⟩
  obtain ⟨e, he⟩ := Option.isSome_iff_exists.mp hexists
  obtain ⟨d, hd', -, hnode⟩ := FileTree.locate_concat he
  obtain rfl := Option.some.inj (hd.symm.trans hd')
  exact hnode hfree

end Places

/-! ## Making a directory -/

section Making

variable {env : Env} {t u v : Tree} {path : Path} {q : List String}

/-- The directory of a path was made, with those on the way. -/
structure Made (env : Env) (t u : Tree) (path : Path) (q : List String) : Prop where
  place : env.Place t path q
  free : t.node q = none
  le : t ≤ u
  entry : env.entry u path = some q
  dir : u.node q = some .dir
  only : ∀ r, u.node r ≠ t.node r → r <+: q ∧ u.node r = some .dir

theorem Made.locate (h : Made env t u path q) : env.locate u path = some q :=
  FileTree.locate_of_entry h.entry h.dir fun _ => nofun

/-- The directory that was made is empty. -/
theorem Made.empty (h : Made env t u path q) {rel : List String} (hrel : rel ≠ []) :
    u.node (q ++ rel) = none := by
  have hfree := FileTree.node_append_eq_none h.free rel
  by_contra hne
  have hpre := (h.only (q ++ rel) (by rwa [hfree])).1
  have hlength := hpre.length_le
  have hpos := List.length_pos_of_ne_nil hrel
  rw [List.length_append] at hlength
  omega

theorem made_of_insert {name : String} (hd : env.locate t path = some q)
    (hinsert : t.tryInsert (q ++ [name]) .dir = some u) :
    Made env t u (path ++ [name]) (q ++ [name]) := by
  obtain ⟨hdir, hfree, hnode⟩ := FileTree.tryInsert_eq_some hinsert
  rw [List.dropLast_concat] at hdir
  have hle := FileTree.le_of_tryInsert hinsert
  refine ⟨place_concat hd hfree, hfree, hle, ?_, by rw [hnode, Function.update_self],
    fun r hr => ?_⟩
  · exact FileTree.entry_concat.mpr ⟨q, FileTree.locate_mono hle hd, hle _ _ hdir, rfl⟩
  · by_cases hrq : r = q ++ [name]
    · rw [hrq, hnode, Function.update_self]
      exact ⟨List.prefix_refl _, rfl⟩
    · rw [hnode, Function.update_of_ne hrq] at hr
      exact absurd rfl hr

theorem Made.insert {name : String} (h : Made env t u path q)
    (hinsert : u.tryInsert (q ++ [name]) .dir = some v) :
    Made env t v (path ++ [name]) (q ++ [name]) := by
  have hlast := made_of_insert h.locate hinsert
  obtain ⟨pre, first, rest, d, hpath, hd, hfree, hq⟩ := h.place
  refine ⟨⟨pre, first, rest ++ [name], d, ?_, hd, hfree, ?_⟩, FileTree.node_append_eq_none h.free _,
    le_trans h.le hlast.le, hlast.entry, hlast.dir, fun r hr => ?_⟩
  · rw [hpath, List.append_assoc]
    rfl
  · rw [hq, List.append_assoc]
    rfl
  · by_cases hru : v.node r = u.node r
    · rw [hru] at hr ⊢
      obtain ⟨hpre, hdir⟩ := h.only r hr
      exact ⟨hpre.trans (List.prefix_append ..), hdir⟩
    · exact hlast.only r hru

theorem mkdir_cases {w w' : World} (h : QDir.mkdir env path w = (some true, w')) :
    env.isDir w.tree path = true ∧ w'.tree = w.tree ∨
      env.isDir w.tree path = false ∧ ∃ q, env.entry w.tree path = some q ∧
        w.tree.tryInsert q .dir = some w'.tree := by
  unfold QDir.mkdir at h
  split at h
  · next hdir =>
      obtain ⟨-, rfl⟩ := Prod.mk.inj h
      exact .inl ⟨hdir, rfl⟩
  · next hdir =>
      rcases attempt_cases env .make (QDir.madeDir env path) w with hfail | ⟨u, -, hmade, hok⟩
      · rw [hfail] at h
        nomatch h
      · rw [hok] at h
        obtain ⟨-, rfl⟩ := Prod.mk.inj h
        obtain ⟨q, hq, hinsert⟩ := Option.bind_eq_some_iff.mp hmade
        exact .inr ⟨Bool.eq_false_iff.mpr hdir, q, hq, hinsert⟩

/-- **Making a directory** leaves one that is there as it is, or makes it in its place. -/
theorem mkpath_cases {w w' : World} (h : QDir.mkpath env path w = (some true, w')) :
    env.isDir w.tree path = true ∧ w'.tree = w.tree ∨ ∃ q, Made env w.tree w'.tree path q := by
  induction path using List.reverseRecOn generalizing w' with
  | nil =>
      have hroot : env.isDir w.tree [] = true :=
        isDir_eq_true.mpr ⟨[], FileTree.locate_nil, w.tree.root⟩
      obtain ⟨m, hm, hend⟩ := andThen_eq_true.mp h
      obtain ⟨-, rfl⟩ := Prod.mk.inj hend
      rcases mkdir_cases hm with hthere | ⟨hno, -⟩
      · exact .inl hthere
      · nomatch hroot.symm.trans hno
  | append_singleton path name ih =>
      have hinits : (path ++ [name]).inits = path.inits ++ [path ++ [name]] := by
        simp [List.inits_append]
      unfold QDir.mkpath at h
      rw [hinits] at h
      rw [forEach_concat] at h
      obtain ⟨m, hm, hlast⟩ := andThen_eq_true.mp h
      rcases ih hm with ⟨hdir, htree⟩ | ⟨q, hmade⟩
      · rw [← htree] at hdir ⊢
        rcases mkdir_cases hlast with hthere | ⟨-, q, hq, hinsert⟩
        · exact .inl hthere
        · obtain ⟨d, hd, -, rfl⟩ := FileTree.entry_concat.mp hq
          exact .inr ⟨_, made_of_insert hd hinsert⟩
      · rcases mkdir_cases hlast with ⟨hdir, -⟩ | ⟨-, q', hq', hinsert⟩
        · -- the directory on the way was made, so it is empty
          obtain ⟨e, he, -⟩ := isDir_eq_true.mp hdir
          obtain ⟨d, hd, -, hnode⟩ := FileTree.locate_concat he
          obtain rfl := Option.some.inj (hmade.locate.symm.trans hd)
          exact absurd (hmade.empty (List.cons_ne_nil name [])) hnode
        · obtain ⟨d, hd, -, rfl⟩ := FileTree.entry_concat.mp hq'
          obtain rfl := Option.some.inj (hmade.locate.symm.trans hd)
          exact .inr ⟨_, hmade.insert hinsert⟩

end Making

/-! ## Copying a plain directory -/

section Grafting

variable {env : Env} {t u v : Tree} {p q : List String} {source target : Path}

theorem Plain.below {name : String} (h : Plain t p) : Plain t (p ++ [name]) := by
  refine ⟨fun rel hne => ?_, fun rel link => ?_⟩
  · rw [List.append_assoc] at hne
    exact fun x hx => h.visible _ hne x (List.mem_append_right _ hx)
  · rw [List.append_assoc]
    exact h.linkFree _ link

/-- What is the same somewhere else is as plain there. -/
theorem Plain.of_copied (h : Plain u q) (hcopied : ∀ rel, u.node (q ++ rel) = t.node (p ++ rel)) :
    Plain t p := by
  refine ⟨fun rel => ?_, fun rel => ?_⟩
  · rw [← hcopied]
    exact h.visible rel
  · rw [← hcopied]
    exact h.linkFree rel

/-- An entry of a plain directory is where its path leads. -/
theorem Plain.locate (h : Plain t p) (hp : env.locate t source = some p) {name : String}
    (hchild : t.node (p ++ [name]) ≠ none) :
    env.locate t (source ++ [name]) = some (p ++ [name]) := by
  obtain ⟨n, hn⟩ := Option.ne_none_iff_exists'.mp hchild
  exact FileTree.locate_concat_of_node hp hn fun link heq =>
    h.linkFree [name] link (hn.trans (congrArg some heq))

/-- A plain directory and an empty one outside it: what is copied from, and to where. -/
structure Ready (env : Env) (t : Tree) (source : Path) (p : List String) (target : Path)
    (q : List String) :
    Prop where
  sourceAt : env.locate t source = some p
  sourceDir : t.node p = some .dir
  plain : Plain t p
  targetAt : env.locate t target = some q
  targetDir : t.node q = some .dir
  empty : ∀ rel, rel ≠ [] → t.node (q ++ rel) = none
  apart : ¬ p <+: q

/-- The source is not below the target either. -/
theorem Ready.not_prefix (h : Ready env t source p target q) (rel : List String) :
    ¬ q <+: p ++ rel := by
  intro hq
  rcases List.prefix_or_prefix_of_prefix hq (List.prefix_append p rel) with hqp | hpq
  · obtain ⟨z, rfl⟩ := hqp
    by_cases hz : z = []
    · exact h.apart (by rw [hz, List.append_nil])
    · nomatch h.sourceDir.symm.trans (h.empty z hz)
  · exact h.apart hpq

/-- Of the entries of `p` those called `names` were copied. -/
structure Partial (t u : Tree) (p q : List String) (names : List String) : Prop where
  outside : ∀ r, ¬ q <+: r → u.node r = t.node r
  top : u.node q = some .dir
  done : ∀ name ∈ names, ∀ rel, u.node (q ++ name :: rel) = t.node (p ++ name :: rel)
  todo : ∀ name ∉ names, ∀ rel, u.node (q ++ name :: rel) = none

variable {names : List String}

theorem Partial.kept (h : Partial t u p q names) (hready : Ready env t source p target q)
    (rel : List String) :
    u.node (p ++ rel) = t.node (p ++ rel) :=
  h.outside _ (hready.not_prefix rel)

theorem Partial.le (h : Partial t u p q names)
    (hready : Ready env t source p target q) : t ≤ u := by
  intro r n hr
  by_cases hqr : q <+: r
  · obtain ⟨rel, rfl⟩ := hqr
    by_cases hrel : rel = []
    · rw [hrel, List.append_nil] at hr ⊢
      rw [h.top, ← hready.targetDir, hr]
    · nomatch hr.symm.trans (hready.empty rel hrel)
  · rw [h.outside r hqr, hr]

/-- One more entry was copied. -/
theorem Partial.snoc {name : String} (h : Partial t u p q names)
    (hsame : ∀ r, ¬ q ++ [name] <+: r → v.node r = u.node r)
    (hcopied : ∀ rel, v.node (q ++ name :: rel) = t.node (p ++ name :: rel)) :
    Partial t v p q (names ++ [name]) := by
  have hother : ∀ other rel, other ≠ name →
      v.node (q ++ other :: rel) = u.node (q ++ other :: rel) := by
    intro other rel hne
    refine hsame _ fun hpre => ?_
    rw [List.prefix_append_right_inj] at hpre
    exact hne (List.cons_prefix_cons.mp hpre).1.symm
  have htop : ¬ q ++ [name] <+: q := by
    intro hpre
    have hlength := hpre.length_le
    rw [List.length_append, List.length_singleton] at hlength
    omega
  refine ⟨fun r hr => ?_, by rw [hsame q htop, h.top], fun other hother' rel => ?_,
    fun other hother' rel => ?_⟩
  · rw [hsame r fun hpre => hr ((List.prefix_append q [name]).trans hpre), h.outside r hr]
  · by_cases hne : other = name
    · rw [hne]
      exact hcopied rel
    · have hmem :=
        (List.mem_append.mp hother').resolve_right fun hlast => hne (List.mem_singleton.mp hlast)
      rw [hother other rel hne, h.done other hmem]
  · rw [List.mem_append, not_or] at hother'
    rw [hother other rel fun heq => hother'.2 (List.mem_singleton.mpr heq), h.todo other hother'.1]

/-- A way of copying directories that leaves what the source is. -/
def CopiesPlain (env : Env) (copyDir : Path → Path → Command World) : Prop :=
  ∀ source p target w w', env.locate w.tree source = some p → Plain w.tree p →
    env.exists w.tree target = false → (∀ q, env.Place w.tree target q → ¬ p <+: q) →
      copyDir source target w = (some true, w') →
        ∃ u q, Made env w.tree u target q ∧ Ready env u source p target q ∧
          FileTree.Graft u w'.tree p q

theorem Ready.partial (h : Ready env t source p target q) : Partial t t p q [] :=
  ⟨fun _ _ => rfl, h.targetDir, nofun,
    fun name _ rel => h.empty (name :: rel) (List.cons_ne_nil name rel)⟩

/-- When all entries of a plain directory were copied, all of it was. -/
theorem Partial.graft (h : Partial t u p q names) (hready : Ready env t source p target q)
    (hall : ∀ name, t.node (p ++ [name]) ≠ none → name ∈ names) : FileTree.Graft t u p q := by
  refine ⟨h.outside, fun rel => ?_⟩
  cases rel with
  | nil => rw [List.append_nil, List.append_nil, h.top, hready.sourceDir]
  | cons name rel =>
      by_cases hmem : name ∈ names
      · exact h.done name hmem rel
      · have hnone : t.node (p ++ [name]) = none := by
          by_contra hne
          exact hmem (hall name hne)
        rw [h.todo name hmem, List.append_cons]
        exact (FileTree.node_append_eq_none hnone rel).symm

/-- **A file** of the directory is copied. -/
theorem Partial.copy {name : String} {w w' : World} (h : Partial t w.tree p q names)
    (hready : Ready env t source p target q) (hname : name ∉ names)
    (hchild : t.node (p ++ [name]) ≠ none)
    (hcopy : QFile.copy env (source ++ [name]) (target ++ [name]) w = (some true, w')) :
    Partial t w'.tree p q (names ++ [name]) := by
  have hle := h.le hready
  rcases attempt_cases env .make (QFile.copied env (source ++ [name]) (target ++ [name])) w with
    hfail | ⟨v, -, hcopied, hok⟩
  · rw [QFile.copy, hfail] at hcopy
    cases hcopy
  · rw [QFile.copy, hok] at hcopy
    obtain ⟨-, rfl⟩ := Prod.mk.inj hcopy
    obtain ⟨p', content, q', hp', hfile, hq', hinsert⟩ := copied_eq_some hcopied
    have hlocate := FileTree.locate_mono hle (hready.plain.locate hready.sourceAt hchild)
    obtain rfl : p' = p ++ [name] := Option.some.inj (hp'.symm.trans hlocate)
    obtain ⟨d, hd, -, rfl⟩ := FileTree.entry_concat.mp hq'
    obtain rfl : q = d := Option.some.inj ((FileTree.locate_mono hle hready.targetAt).symm.trans hd)
    obtain ⟨-, -, hnode⟩ := FileTree.tryInsert_eq_some hinsert
    rw [h.kept hready] at hfile
    refine h.snoc (fun r hr => ?_) fun rel => ?_
    · refine (congrFun hnode r).trans (Function.update_of_ne ?_ ..)
      rintro rfl
      exact hr (List.prefix_refl _)
    · cases rel with
      | nil => rw [hfile, hnode, Function.update_self]
      | cons x rel =>
          -- below a file there is nothing
          have hbelow : t.node (p ++ name :: x :: rel) = none := by
            rw [List.append_cons]
            exact FileTree.node_below_eq_none (by simp [hfile]) (List.cons_ne_nil x rel)
          have hfree : w.tree.node (q ++ name :: x :: rel) = none := h.todo name hname (x :: rel)
          have hne : q ++ name :: x :: rel ≠ q ++ [name] := by
            intro heq
            cases List.append_cancel_left heq
          rw [hnode, Function.update_of_ne hne, hfree, hbelow]

/-- **A directory** in the directory is copied. -/
theorem Partial.copyDir {copyDir : Path → Path → Command World} (hplain : CopiesPlain env copyDir)
    {name : String}
    {w w' : World} (h : Partial t w.tree p q names) (hready : Ready env t source p target q)
    (hname : name ∉ names) (hchild : t.node (p ++ [name]) ≠ none)
    (hcopy : copyDir (source ++ [name]) (target ++ [name]) w = (some true, w')) :
    Partial t w'.tree p q (names ++ [name]) := by
  have hle := h.le hready
  have hlocate := FileTree.locate_mono hle (hready.plain.locate hready.sourceAt hchild)
  have htarget : env.locate w.tree target = some q := FileTree.locate_mono hle hready.targetAt
  have hfree : w.tree.node (q ++ [name]) = none := h.todo name hname []
  have hplace := place_concat htarget hfree
  have hsource : Plain w.tree (p ++ [name]) :=
    (hready.plain.of_copied fun rel => (h.kept hready rel).symm).below
  have hexists : env.exists w.tree (target ++ [name]) = false := by
    refine Bool.eq_false_iff.mpr fun hexists => ?_
    obtain ⟨e, he⟩ := Option.isSome_iff_exists.mp hexists
    obtain ⟨d, hd, -, hnode⟩ := FileTree.locate_concat he
    obtain rfl := Option.some.inj (htarget.symm.trans hd)
    exact hnode hfree
  have hapart : ∀ q', env.Place w.tree (target ++ [name]) q' → ¬ p ++ [name] <+: q' := by
    intro q' hq' hpre
    obtain rfl := hplace.unique hq'
    have hp := (List.prefix_append p [name]).trans hpre
    rcases List.prefix_concat_iff.mp hp with heq | hpq
    · have hempty := hready.empty [name] (List.cons_ne_nil name [])
      rw [← heq, hready.sourceDir] at hempty
      nomatch hempty
    · exact hready.apart hpq
  obtain ⟨u, q', hmade, hready', hgraft⟩ := hplain _ _ _ w w' hlocate hsource hexists hapart hcopy
  obtain rfl := hplace.unique hmade.place
  -- only the directory itself was made
  have hmade' : ∀ r, r ≠ q ++ [name] → u.node r = w.tree.node r := by
    intro r hr
    by_contra hne
    obtain ⟨hpre, hdir⟩ := hmade.only r hne
    obtain ⟨z, hz⟩ := (List.prefix_concat_iff.mp hpre).resolve_left hr
    refine hne (hdir.trans ?_)
    by_cases hnil : z = []
    · rw [hnil, List.append_nil] at hz
      rw [hz, h.top]
    · exact (FileTree.dir_of_below hnil (by rw [hz, h.top]; nofun)).symm
  refine h.snoc (fun r hr => ?_) fun rel => ?_
  · rw [hgraft.outside r hr]
    refine hmade' r ?_
    rintro rfl
    exact hr (List.prefix_refl _)
  · have hsame : u.node (p ++ name :: rel) = w.tree.node (p ++ name :: rel) := by
      refine hmade' _ fun heq => hready.not_prefix (name :: rel) ?_
      rw [heq]
      exact List.prefix_append q [name]
    rw [List.append_cons q, hgraft.copied, ← List.append_cons, hsame, h.kept hready]

theorem names_entryInfoList (hp : env.locate t source = some p) :
    ((env.entryInfoList t source).map FileInfo.fileName).Perm
      ((t.children p).filter fun name => !isHidden name && env.exists t (source ++ [name])) := by
  rw [entryInfoList_eq hp, List.map_map]
  have hid : FileInfo.fileName ∘ (fun name => ⟨name, env.isDir t (source ++ [name])⟩) = id := rfl
  rw [hid, List.map_id]
  exact env.order_perm source _

/-- **The loop** over a plain directory copies all of it. -/
theorem graft_copyEntries {copyDir : Path → Path → Command World} (hplain : CopiesPlain env copyDir)
    (hready : Ready env t source p target q) {w w' : World} (hw : w.tree = t)
    (h : copyEntries env copyDir source target (env.entryInfoList t source) w = (some true, w')) :
    FileTree.Graft t w'.tree p q := by
  have hnames : ((env.entryInfoList t source).map FileInfo.fileName).Perm _ :=
    names_entryInfoList hready.sourceAt
  have hloop : Achieves (fun w : World => Partial t w.tree p q [])
      (copyEntries env copyDir source target (env.entryInfoList t source))
      (fun w : World => Partial t w.tree p q
        ((env.entryInfoList t source).map FileInfo.fileName)) := by
    refine Achieves.forEach (I := fun done (w : World) =>
      Partial t w.tree p q (done.map FileInfo.fileName)) ?_
    intro done entry rest hlist w hpartial hsuccess
    have hnodup : ((env.entryInfoList t source).map FileInfo.fileName).Nodup :=
      hnames.nodup_iff.mpr ((t.nodup_children p).filter _)
    have hmem : entry.fileName ∈ (env.entryInfoList t source).map FileInfo.fileName := by
      rw [hlist]
      simp
    have hchild := t.mem_children.mp (List.mem_filter.mp (hnames.mem_iff.mp hmem)).1
    have hnew : entry.fileName ∉ done.map FileInfo.fileName := by
      rw [hlist, List.map_append, List.map_cons] at hnodup
      intro hdone
      exact List.disjoint_of_nodup_append hnodup hdone List.mem_cons_self
    rw [List.map_append, List.map_singleton]
    split at hsuccess
    · next hdir =>
        rw [if_pos hdir]
        exact hpartial.copyDir hplain hready hnew hchild (Prod.ext hsuccess rfl)
    · next hfile =>
        rw [if_neg hfile]
        exact hpartial.copy hready hnew hchild (Prod.ext hsuccess rfl)
  have hstart : Partial t w.tree p q [] := hw ▸ hready.partial
  have hpartial := hloop w hstart (congrArg Prod.fst h)
  rw [h] at hpartial
  refine hpartial.graft hready fun name hchild => hnames.mem_iff.mpr (List.mem_filter.mpr ?_)
  have hvisible := hready.plain.visible [name] hchild name (List.mem_singleton_self name)
  have hexists : env.exists t (source ++ [name]) = true :=
    Option.isSome_iff_exists.mpr ⟨_, hready.plain.locate hready.sourceAt hchild⟩
  exact ⟨t.mem_children.mpr hchild, by rw [hvisible, hexists]; rfl⟩

/-- **A recursive copy** of a plain directory leaves what it is. -/
theorem copiesPlain_performRecursiveCopy (fuel : ℕ) :
    CopiesPlain env (performRecursiveCopy env fuel) := by
  induction fuel with
  | zero =>
      intro _ _ _ _ _ _ _ _ _ hcopy
      cases hcopy
  | succ fuel ih =>
      intro source p target w w' hp hplain hexists hapart hcopy
      unfold performRecursiveCopy at hcopy
      split at hcopy
      · next hdir =>
          obtain ⟨p', hp', hpdir⟩ := isDir_eq_true.mp hdir
          obtain rfl := Option.some.inj (hp.symm.trans hp')
          rw [if_neg fun htarget => Bool.eq_false_iff.mp hexists (exists_of_isDir htarget)] at hcopy
          obtain ⟨m, hmkpath, hentries⟩ := andThen_eq_true.mp hcopy
          obtain ⟨q, hmade⟩ := (mkpath_cases hmkpath).resolve_left fun hthere =>
            Bool.eq_false_iff.mp hexists (exists_of_isDir hthere.1)
          have hout := hapart q hmade.place
          have hsame : ∀ rel, m.tree.node (p ++ rel) = w.tree.node (p ++ rel) := by
            intro rel
            by_contra hne
            exact hout ((List.prefix_append p rel).trans (hmade.only _ hne).1)
          have hready : Ready env m.tree source p target q :=
            ⟨FileTree.locate_mono hmade.le hp, hmade.le _ _ hpdir,
              hplain.of_copied fun rel => (hsame rel).symm, hmade.locate, hmade.dir,
              fun rel hrel => hmade.empty hrel, hout⟩
          exact ⟨m.tree, q, hmade, hready, graft_copyEntries ih hready rfl hentries⟩
      · cases hcopy

end Grafting

/-! ## Plain sources are copied faithfully -/

section Sufficient

variable {env : Env} {fuel : ℕ} {t : Tree} {p q : List String} {source target : Path} {w w' : World}

/-- A copy that succeeds is one of a directory, or of the file that the source leads to. -/
theorem copyAny_cases (h : copyAny env fuel source target w = (some true, w')) :
    env.isDir w.tree source = true ∧
    performRecursiveCopy env fuel source target w = (some true, w') ∨
      ∃ p content q, env.locate w.tree source = some p ∧ w.tree.node p = some (.file content) ∧
        env.entry w.tree target = some q ∧ w.tree.tryInsert q (.file content) = some w'.tree := by
  unfold copyAny at h
  split at h
  · next hdir => exact .inl ⟨hdir, h⟩
  · rcases attempt_cases env .make (QFile.copied env source target) w with
      hfail | ⟨u, -, hcopied, hok⟩
    · rw [QFile.copy, hfail] at h
      cases h
    · rw [QFile.copy, hok] at h
      obtain ⟨-, rfl⟩ := Prod.mk.inj h
      exact .inr (copied_eq_some hcopied)

theorem locate_of_plain (hne : source ≠ []) (hp : env.own t source = some p)
    (hexists : env.exists t source = true) (hplain : Plain t p) : env.locate t source = some p := by
  rw [own_of_ne_nil hne] at hp
  obtain ⟨d, hd⟩ := Option.isSome_iff_exists.mp hexists
  obtain ⟨e, he, hnode⟩ := FileTree.entry_of_locate hne hd
  obtain rfl := Option.some.inj (he.symm.trans hp)
  obtain ⟨n, hn⟩ := Option.ne_none_iff_exists'.mp hnode
  exact FileTree.locate_of_entry hp hn fun link heq =>
    hplain.linkFree [] link (by rw [List.append_nil, hn, heq])

theorem place_of_entry (hq : env.entry t target = some q) (hfree : t.node q = none) :
    env.Place t target q := by
  obtain ⟨pre, name, rfl⟩ := FileTree.exists_of_entry hq
  obtain ⟨d, hd, -, rfl⟩ := FileTree.entry_concat.mp hq
  exact place_concat hd hfree

theorem ne_nil_of_not_exists (h : env.exists t target = false) : target ≠ [] := by
  rintro rfl
  nomatch exists_nil.symm.trans h

theorem faithful_of_plain (hfree : env.exists w.tree target = false)
    (hp : env.own w.tree source = some p)
    (hq : env.Place w.tree target q) (hplain : Plain w.tree p) (hout : ¬ p <+: q)
    (h : copyAny env fuel source target w = (some true, w')) :
    Faithful env w.tree w'.tree source target := by
  have hold : w.tree ≤ w'.tree := by
    have hgrows := grows_copyAny env fuel source target w (le_refl w.tree)
    rwa [h] at hgrows
  have hne : source ≠ [] := by
    rintro rfl
    obtain rfl := Option.some.inj hp
    exact hout List.nil_prefix
  have hlocate := locate_of_plain hne hp (exists_of_copyAny (congrArg Prod.fst h)) hplain
  rcases copyAny_cases h with ⟨-, hcopy⟩ | ⟨p', content, q', hp', hfile, hq', hinsert⟩
  · obtain ⟨u, q', hmade, hready, hgraft⟩ :=
      copiesPlain_performRecursiveCopy fuel source p target w w' hlocate
      hplain hfree (fun q' hq' => by rwa [hq'.unique hq]) hcopy
    obtain rfl := hmade.place.unique hq
    have hsame : ∀ rel, u.node (p ++ rel) = w.tree.node (p ++ rel) := by
      intro rel
      by_contra hne
      exact hout ((List.prefix_append p rel).trans (hmade.only _ hne).1)
    have hle := hgraft.le hready.sourceDir hready.targetDir hready.empty
    refine ⟨hold, fun p' hp' rel => ?_, p, q', hp, ?_, fun rel => ?_⟩
    · obtain rfl := Option.some.inj (hp'.symm.trans hp)
      rw [hgraft.outside _ (hready.not_prefix rel), hsame]
    · rw [own_of_ne_nil (ne_nil_of_not_exists hfree)]
      exact FileTree.entry_mono hle hmade.entry
    · rw [hgraft.copied, hsame]
  · obtain rfl := Option.some.inj (hp'.symm.trans hlocate)
    obtain ⟨-, hfree', hnode⟩ := FileTree.tryInsert_eq_some hinsert
    obtain rfl := (place_of_entry hq' hfree').unique hq
    refine ⟨hold, fun p hp'' rel => ?_, p', q', hp, ?_, fun rel => ?_⟩
    · obtain rfl := Option.some.inj (hp''.symm.trans hp)
      rw [hnode, Function.update_of_ne]
      rintro heq
      exact hout ⟨rel, heq⟩
    · rw [own_of_ne_nil (ne_nil_of_not_exists hfree)]
      exact FileTree.entry_mono hold hq'
    · by_cases hrel : rel = []
      · rw [hrel, List.append_nil, List.append_nil, hnode, Function.update_self, hfile]
      · rw [hnode, Function.update_of_ne (fun heq => hrel (List.append_right_eq_self.mp heq)),
          FileTree.node_append_eq_none hfree' rel]
        exact (FileTree.node_below_eq_none (by rw [hfile]; nofun) hrel).symm

end Sufficient

/-! ## Copies are plain -/

section Necessary

variable {env : Env} {m : Tree} {q : List String} {target rel : Path}

/-- An entry that is no link, and below which nothing is. -/
theorem Plain.of_empty {t : Tree} (htop : ∀ link, t.node q ≠ some (.link link))
    (hbelow : ∀ rel, rel ≠ [] → t.node (q ++ rel) = none) : Plain t q := by
  refine ⟨fun rel hne => ?_, fun rel link heq => ?_⟩
  · by_cases hrel : rel = []
    · rw [hrel]
      nofun
    · exact absurd (hbelow rel hrel) hne
  · by_cases hrel : rel = []
    · rw [hrel, List.append_nil] at heq
      exact htop link heq
    · nomatch (hbelow rel hrel).symm.trans heq

/-- A plain entry is added below a plain directory. -/
theorem Plain.insert {t u : Tree} {n : Node String String} (h : Plain t q)
    (hvisible : ∀ name ∈ rel, isHidden name = false) (hnolink : ∀ link, n ≠ .link link)
    (hinsert : t.tryInsert (q ++ rel) n = some u) : Plain u q := by
  obtain ⟨-, -, hnode⟩ := FileTree.tryInsert_eq_some hinsert
  refine ⟨fun rel' hne => ?_, fun rel' link heq => ?_⟩
  · by_cases hsame : rel' = rel
    · rw [hsame]
      exact hvisible
    · rw [hnode, Function.update_of_ne fun heq => hsame (List.append_cancel_left heq)] at hne
      exact h.visible rel' hne
  · by_cases hsame : rel' = rel
    · rw [hsame, hnode, Function.update_self] at heq
      exact hnolink link (Option.some.inj heq)
    · rw [hnode, Function.update_of_ne fun heq => hsame (List.append_cancel_left heq)] at heq
      exact h.linkFree rel' link heq

/-- What is copied below the target lies below its place, and is plain. -/
theorem Plain.insertAt {t u : Tree} {n : Node String String} {e : List String} (h : Plain t q)
    (hq : env.locate t target = some q) (hrel : rel ≠ [])
    (hvisible : ∀ name ∈ rel, isHidden name = false)
    (he : env.entry t (target ++ rel) = some e) (hnolink : ∀ link, n ≠ .link link)
    (hinsert : t.tryInsert e n = some u) : Plain u q := by
  obtain ⟨pre, name, rfl⟩ := (List.eq_nil_or_concat' rel).resolve_left hrel
  rw [← List.append_assoc] at he
  obtain ⟨d, hd, -, rfl⟩ := FileTree.entry_concat.mp he
  obtain rfl := FileTree.locate_append_of_linkFree hq h.linkFree hd
  rw [List.append_assoc] at hinsert
  exact h.insert hvisible hnolink hinsert

/-- The target is where it was made, and what was copied to it is plain. -/
structure Tidy (env : Env) (target : Path) (q : List String) (u : Tree) : Prop where
  targetAt : env.locate u target = some q
  dir : u.node q = some .dir
  plain : Plain u q

theorem Tidy.insert {t u : Tree} {n : Node String String} {e : List String}
    (h : Tidy env target q t)
    (hrel : rel ≠ []) (hvisible : ∀ name ∈ rel, isHidden name = false)
    (he : env.entry t (target ++ rel) = some e) (hnolink : ∀ link, n ≠ .link link)
    (hinsert : t.tryInsert e n = some u) : Tidy env target q u := by
  have hle := FileTree.le_of_tryInsert hinsert
  exact ⟨FileTree.locate_mono hle h.targetAt, hle _ _ h.dir,
    h.plain.insertAt h.targetAt hrel hvisible he hnolink hinsert⟩

/-- What holds of a target that was made, and is kept by what is added below it. -/
structure KeptBelow (env : Env) (target : Path) (q : List String) (I : Tree → Prop) : Prop where
  made : ∀ t, I t → env.locate t target = some q ∧ t.node q = some .dir
  insert : ∀ t u rel e n, I t → rel ≠ [] → (∀ name ∈ rel, isHidden name = false) →
    env.entry t (target ++ rel) = some e → (∀ link, n ≠ .link link) → t.tryInsert e n = some u → I u

theorem tidy_below : KeptBelow env target q (Tidy env target q) where
  made _ h := ⟨h.targetAt, h.dir⟩
  insert _ _ _ _ _ h hrel hvisible he hnolink hinsert := h.insert hrel hvisible he hnolink hinsert

section Below

variable {I : Tree → Prop} (hbelow : KeptBelow env target q I)
include hbelow

theorem keeps_copy (source : Path) (hrel : rel ≠ [])
    (hvisible : ∀ name ∈ rel, isHidden name = false) :
    Keeps (fun w => I w.tree) (QFile.copy env source (target ++ rel)) := by
  refine keeps_attempt fun t u ht h => ?_
  obtain ⟨_, content, e, -, -, he, hinsert⟩ := copied_eq_some h
  exact hbelow.insert t u rel e _ ht hrel hvisible he (by nofun) hinsert

theorem keeps_mkpath (hvisible : ∀ name ∈ rel, isHidden name = false) :
    Keeps (fun w => I w.tree) (QDir.mkpath env (target ++ rel)) := by
  refine Keeps.forEach fun path hpath w hw => ?_
  have hpre := List.mem_inits _ _ |>.mp hpath
  unfold QDir.mkdir
  split
  · exact hw
  · next hnodir =>
      refine keeps_attempt (P := I) (fun t u ht h => ?_) w hw
      obtain ⟨e, he, hinsert⟩ := Option.bind_eq_some_iff.mp h
      obtain ⟨hq, hqdir⟩ := hbelow.made w.tree hw
      -- what is not there lies below the target
      rcases List.prefix_or_prefix_of_prefix hpre (List.prefix_append target rel) with
        habove | hunder
      · obtain ⟨z, rfl⟩ := habove
        obtain ⟨d, hd, hdir⟩ := FileTree.exists_locate_of_append hq
        refine absurd (isDir_eq_true.mpr ⟨d, hd, ?_⟩) hnodir
        by_cases hz : z = []
        · rw [hz, List.append_nil] at hq
          rw [Option.some.inj (hd.symm.trans hq), hqdir]
        · exact hdir hz
      · obtain ⟨z, rfl⟩ := hunder
        have hz : z ≠ [] := by
          rintro rfl
          rw [List.append_nil] at hnodir
          exact hnodir (isDir_eq_true.mpr ⟨q, hq, hqdir⟩)
        rw [List.prefix_append_right_inj] at hpre
        exact hbelow.insert t u z e .dir ht hz (fun name hname => hvisible name (hpre.subset hname))
          he (by nofun)
          hinsert

theorem keeps_copyEntries {copyDir : Path → Path → Command World}
    (h : ∀ source {rel : Path}, (∀ name ∈ rel, isHidden name = false) →
      Keeps (fun w => I w.tree) (copyDir source (target ++ rel)))
    (hvisible : ∀ name ∈ rel, isHidden name = false) (source : Path) (t : Tree) :
    Keeps (fun w => I w.tree)
      (copyEntries env copyDir source (target ++ rel) (env.entryInfoList t source)) := by
  refine Keeps.forEach fun entry hentry => ?_
  obtain ⟨hentry, -, -⟩ := mem_entryInfoList hentry
  have hvisible' := visible_concat hvisible hentry
  rw [List.append_assoc]
  split
  · exact h _ hvisible'
  · exact keeps_copy hbelow _
      (List.append_ne_nil_of_right_ne_nil rel (List.cons_ne_nil _ _)) hvisible'

theorem keeps_performRecursiveCopy (fuel : ℕ) (source : Path)
    (hvisible : ∀ name ∈ rel, isHidden name = false) :
    Keeps (fun w => I w.tree) (performRecursiveCopy env fuel source (target ++ rel)) := by
  induction fuel generalizing source rel with
  | zero => exact keeps_outOfFuel
  | succ fuel ih =>
      intro w hw
      have hentries : Keeps (fun w => I w.tree) fun w =>
          copyEntries env (performRecursiveCopy env fuel) source (target ++ rel)
            (env.entryInfoList w.tree source) w :=
        keeps_of_state fun w _ =>
          keeps_copyEntries hbelow (fun source _ hvisible => ih source hvisible) hvisible
            source w.tree
      unfold performRecursiveCopy
      split
      · split
        · exact hentries w hw
        · exact (keeps_mkpath hbelow hvisible).andThen hentries w hw
      · exact hw

end Below

/-- **A copy** to where nothing was has made something plain there. -/
theorem plain_of_copyAny {fuel : ℕ} {source : Path} {w w' : World}
    (hfree : env.exists w.tree target = false)
    (h : copyAny env fuel source target w = (some true, w')) :
    ∃ q, env.Place w.tree target q ∧ w.tree.node q = none ∧ env.own w'.tree target = some q ∧
      w'.tree.node q ≠ none ∧ Plain w'.tree q := by
  rw [own_of_ne_nil (ne_nil_of_not_exists hfree)]
  rcases copyAny_cases h with ⟨hdir, hcopy⟩ | ⟨p, content, q, -, -, hq, hinsert⟩
  · cases fuel with
    | zero => cases hcopy
    | succ fuel =>
        unfold performRecursiveCopy at hcopy
        rw [if_pos hdir, if_neg fun htarget =>
          Bool.eq_false_iff.mp hfree (exists_of_isDir htarget)] at hcopy
        obtain ⟨m, hmkpath, hentries⟩ := andThen_eq_true.mp hcopy
        obtain ⟨q, hmade⟩ := (mkpath_cases hmkpath).resolve_left fun hthere =>
          Bool.eq_false_iff.mp hfree (exists_of_isDir hthere.1)
        have htidy : Tidy env target q m.tree :=
          ⟨hmade.locate, hmade.dir, .of_empty (by simp [hmade.dir]) fun _ => hmade.empty⟩
        have hnothing : ∀ name ∈ ([] : Path), isHidden name = false := (by simp)
        have hcopies : Keeps (fun w => Tidy env target q w.tree)
            (copyEntries env (performRecursiveCopy env fuel) source (target ++ [])
              (env.entryInfoList m.tree source)) :=
          keeps_copyEntries tidy_below
            (fun source _ hvisible => keeps_performRecursiveCopy tidy_below fuel source hvisible)
            hnothing source m.tree
        have hgrowing : Grows m.tree
            (copyEntries env (performRecursiveCopy env fuel) source target
              (env.entryInfoList m.tree source)) :=
          grows_copyEntries fuel _ _ _
        rw [List.append_nil] at hcopies
        have hkeeps := hcopies m htidy
        have hgrows := hgrowing m (le_refl m.tree)
        rw [hentries] at hkeeps hgrows
        refine ⟨q, hmade.place, hmade.free, FileTree.entry_mono hgrows hmade.entry, ?_,
          hkeeps.plain⟩
        rw [hkeeps.dir]
        simp
  · obtain ⟨-, hnone, hnode⟩ := FileTree.tryInsert_eq_some hinsert
    have hle := FileTree.le_of_tryInsert hinsert
    have hbelow : ∀ rel, rel ≠ [] → w'.tree.node (q ++ rel) = none := by
      intro rel hrel
      rw [hnode, Function.update_of_ne fun heq => hrel (List.append_right_eq_self.mp heq)]
      exact FileTree.node_append_eq_none hnone rel
    have htop : w'.tree.node q = some (.file content) := by rw [hnode, Function.update_self]
    exact ⟨q, place_of_entry hq hnone, hnone, FileTree.entry_mono hle hq, by simp [htop],
      .of_empty (by simp [htop]) hbelow⟩

end Necessary

/-! ## Copies and duplicates -/

section Calls

variable {env : Env} {fuel : ℕ} {call : Call} {source target : Path} {w w' : World} {error : String}

theorem of_finished {result : Option Bool × World} {text : String} {success : Bool}
    (h : finished result text = (some ⟨success, error⟩, w')) : result = (some success, w') := by
  obtain ⟨success, w⟩ := result
  obtain ⟨hsuccess, rfl⟩ := Prod.mk.inj h
  obtain ⟨success, rfl, heq⟩ := Option.map_eq_some_iff.mp hsuccess
  rw [(Finished.mk.inj heq).1]

theorem copyAny_of_perform (hcall : Copies env w.tree call source target)
    (h : perform env fuel call w = (some ⟨true, error⟩, w')) :
    copyAny env fuel source target w = (some true, w') := by
  cases hcall with
  | copy source dest =>
      unfold perform FileOperations.copy at h
      dsimp only at h
      split at h
      · exact of_finished h
      · nomatch h
  | duplicate path => exact of_finished h

end Calls

/-- A folder with a hidden file. -/
def withProfile : Tree :=
  (FileTree.empty.grow [(["home"], .dir), (["home", ".profile"], .file "umask 022")]).getD .empty

end NiraOS.Files
