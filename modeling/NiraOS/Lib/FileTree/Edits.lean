import NiraOS.Lib.FileTree
import Mathlib.Logic.Function.Basic

/-!
# Editing file trees

Adding an entry, writing a file, removing an entry without children and moving a subtree to a
free place.  An edit that would not leave a file tree cannot be made: each takes the facts that
it needs, and its `try` form checks them.
-/

namespace FileTree

variable {Name Content : Type*} (t : FileTree Name Content)

section Edits

variable [DecidableEq Name]

/-- The root alone. -/
def empty : FileTree Name Content where
  node p := if p = [] then some .dir else none
  support := [[]]
  mem_support := by simp
  root := rfl
  parent := by simp

/-- A new entry in a directory. -/
def insert (q : List Name) (n : Node Name Content) (hdir : t.node q.dropLast = some .dir)
    (hfree : t.node q = none) : FileTree Name Content where
  node := Function.update t.node q (some n)
  support := q :: t.support
  mem_support p hp := by
    by_cases hpq : p = q
    · rw [hpq]
      exact List.mem_cons_self
    · rw [Function.update_of_ne hpq] at hp
      exact List.mem_cons_of_mem _ (t.mem_support p hp)
  root := by
    rw [Function.update_of_ne, t.root]
    rintro rfl
    nomatch hfree.symm.trans t.root
  parent p name hp := by
    have hpdir : t.node p = some .dir := by
      by_cases hpq : p ++ [name] = q
      · rwa [← hpq, List.dropLast_concat] at hdir
      · rw [Function.update_of_ne hpq] at hp
        exact t.parent p name hp
    rw [Function.update_of_ne, hpdir]
    rintro rfl
    nomatch hfree.symm.trans hpdir

/-- Directories are made where nothing is. -/
def addDirs (dirs : List (List Name))
    (hparent : ∀ p name, p ++ [name] ∈ dirs → t.node (p ++ [name]) = none →
      t.node p = some .dir ∨ t.node p = none ∧ p ∈ dirs) : FileTree Name Content where
  node q := if t.node q = none ∧ q ∈ dirs then some .dir else t.node q
  support := dirs ++ t.support
  mem_support q hq := by
    split_ifs at hq with hnew
    · exact List.mem_append_left _ hnew.2
    · exact List.mem_append_right _ (t.mem_support q hq)
  root := by rw [if_neg (by rw [t.root]; nofun), t.root]
  parent p name hq := by
    split_ifs at hq with hnew
    · obtain hdir | hmade := hparent p name hnew.2 hnew.1
      · rw [if_neg (by rw [hdir]; nofun), hdir]
      · exact if_pos hmade
    · have hdir := t.parent p name hq
      rw [if_neg (by rw [hdir]; nofun), hdir]

/-- A file gets another content. -/
def write (q : List Name) (content : Content) (hfile : ∃ old, t.node q = some (.file old)) :
    FileTree Name Content where
  node := Function.update t.node q (some (.file content))
  support := t.support
  mem_support p hp := by
    refine t.mem_support p ?_
    by_cases hpq : p = q
    · obtain ⟨old, hold⟩ := hfile
      rw [hpq, hold]
      nofun
    · rwa [Function.update_of_ne hpq] at hp
  root := by
    rw [Function.update_of_ne, t.root]
    rintro rfl
    obtain ⟨old, hold⟩ := hfile
    nomatch hold.symm.trans t.root
  parent p name hp := by
    have hpdir : t.node p = some .dir := by
      refine t.parent p name ?_
      by_cases hpq : p ++ [name] = q
      · obtain ⟨old, hold⟩ := hfile
        rw [hpq, hold]
        nofun
      · rwa [Function.update_of_ne hpq] at hp
    rw [Function.update_of_ne, hpdir]
    rintro rfl
    obtain ⟨old, hold⟩ := hfile
    nomatch hold.symm.trans hpdir

/-- An entry without children goes. -/
def erase (p : List Name) (hroot : p ≠ []) (hleaf : t.children p = []) : FileTree Name Content where
  node := Function.update t.node p none
  support := t.support
  mem_support q hq := by
    by_cases hqp : q = p
    · rw [hqp, Function.update_self] at hq
      exact absurd rfl hq
    · rw [Function.update_of_ne hqp] at hq
      exact t.mem_support q hq
  root := by rw [Function.update_of_ne hroot.symm, t.root]
  parent q name hq := by
    have hne : q ++ [name] ≠ p := by
      intro heq
      rw [heq, Function.update_self] at hq
      exact hq rfl
    rw [Function.update_of_ne hne] at hq
    rw [Function.update_of_ne, t.parent q name hq]
    rintro rfl
    have hchild := t.mem_children.mpr hq
    rw [hleaf] at hchild
    nomatch hchild

/-- What lies at and below `p` goes to the free place `q`. -/
def relocate (p q : List Name) (hroot : p ≠ []) (hdir : t.node q.dropLast = some .dir)
    (hfree : t.node q = none) (hout : ¬ p <+: q) : FileTree Name Content where
  node r := if q <+: r then t.node (p ++ r.drop q.length) else if p <+: r then none else t.node r
  support := t.support ++ t.support.map fun r => q ++ r.drop p.length
  mem_support r hr := by
    split_ifs at hr with hq hp
    · obtain ⟨rel, rfl⟩ := hq
      rw [List.drop_left] at hr
      refine List.mem_append_right _ (List.mem_map.mpr ⟨p ++ rel, t.mem_support _ hr, ?_⟩)
      rw [List.drop_left]
    · exact absurd rfl hr
    · exact List.mem_append_left _ (t.mem_support r hr)
  root := by
    have hq : q ≠ [] := by
      rintro rfl
      nomatch hfree.symm.trans t.root
    rw [if_neg (by rwa [List.prefix_nil]), if_neg (by rwa [List.prefix_nil]), t.root]
  parent r name hr := by
    by_cases hq : q <+: r
    · have hq' : q <+: r ++ [name] := hq.trans (List.prefix_append ..)
      obtain ⟨rel, rfl⟩ := hq
      rw [if_pos hq', List.append_assoc, List.drop_left, ← List.append_assoc] at hr
      rw [if_pos (List.prefix_append ..), List.drop_left]
      exact t.parent _ name hr
    · rw [if_neg hq]
      by_cases hq' : q <+: r ++ [name]
      · have heq : q = r ++ [name] := (List.prefix_concat_iff.mp hq').resolve_right hq
        rw [heq, List.dropLast_concat] at hdir
        rw [if_neg, hdir]
        exact fun hp => hout (heq ▸ hp.trans (List.prefix_append ..))
      · rw [if_neg hq'] at hr
        split_ifs at hr with hp
        · exact absurd rfl hr
        · rw [if_neg fun hp' => hp (hp'.trans (List.prefix_append ..))]
          exact t.parent r name hr

end Edits

/-! ## Checked edits -/

section Checked

variable [DecidableEq Name]

def tryWrite (q : List Name) (content : Content) : Option (FileTree Name Content) :=
  match h : t.node q with
  | some (.file old) => some (t.write q content ⟨old, h⟩)
  | _ => none

def tryErase (p : List Name) : Option (FileTree Name Content) :=
  if h : p ≠ [] ∧ t.children p = [] then some (t.erase p h.1 h.2) else none

variable {t} {t' : FileTree Name Content} {p q : List Name}

theorem tryWrite_eq_some {content : Content} (h : t.tryWrite q content = some t') :
    (∃ old, t.node q = some (.file old)) ∧
    t'.node = Function.update t.node q (some (.file content)) := by
  unfold tryWrite at h
  split at h
  · next old hold =>
      obtain rfl := Option.some.inj h
      exact ⟨⟨old, hold⟩, rfl⟩
  · nomatch h

theorem tryErase_eq_some (h : t.tryErase p = some t') :
    p ≠ [] ∧ t.children p = [] ∧ t'.node = Function.update t.node p none := by
  unfold tryErase at h
  split_ifs at h with hp
  obtain rfl := Option.some.inj h
  exact ⟨hp.1, hp.2, rfl⟩

theorem exists_tryErase (hroot : p ≠ []) (hleaf : t.children p = []) :
    ∃ t', t.tryErase p = some t' :=
  ⟨_, dif_pos ⟨hroot, hleaf⟩⟩

/-- Removing adds nothing. -/
theorem le_of_tryErase (h : t.tryErase p = some t') : t' ≤ t := by
  obtain ⟨-, -, hnode⟩ := tryErase_eq_some h
  intro r m hr
  rw [hnode] at hr
  by_cases hrp : r = p
  · rw [hrp, Function.update_self] at hr
    nomatch hr
  · rwa [Function.update_of_ne hrp] at hr

section AddDirs

variable {dirs : List (List Name)}
    {hparent : ∀ p name, p ++ [name] ∈ dirs → t.node (p ++ [name]) = none →
  t.node p = some .dir ∨ t.node p = none ∧ p ∈ dirs}

theorem le_addDirs : t ≤ t.addDirs dirs hparent :=
  fun q n hn => (if_neg (by rw [hn]; nofun)).trans hn

theorem addDirs_cases {n : Node Name Content} (h : (t.addDirs dirs hparent).node q = some n) :
    t.node q = some n ∨ n = .dir ∧ q ∈ dirs := by
  change (if t.node q = none ∧ q ∈ dirs then some .dir else t.node q) = some n at h
  split_ifs at h with hnew
  · exact Or.inr ⟨(Option.some.inj h).symm, hnew.2⟩
  · exact Or.inl h

theorem addDirs_made (hfree : t.node q = none) (hq : q ∈ dirs) :
    (t.addDirs dirs hparent).node q = some .dir :=
  if_pos ⟨hfree, hq⟩

end AddDirs

section Relocated

variable (t t' p q) in
/-- In `t'` what was at and below `p` is at and below the free place `q`. -/
structure Relocated : Prop where
  free : t.node q = none
  apart : ¬ p <+: q
  node : ∀ r, t'.node r =
    if q <+: r then t.node (p ++ r.drop q.length) else if p <+: r then none else t.node r

/-- A file that is created at `q` and removed at `p` is relocated. -/
theorem relocated_of_file {content : Content} (hdir : t.node q.dropLast = some .dir)
    (hfree : t.node q = none) (hfile : t.node p = some (.file content))
    (hnode : t'.node = Function.update (Function.update t.node q (some (.file content))) p none) :
    Relocated t t' p q := by
  have hnodir : t.node p ≠ some .dir := by simp [hfile]
  have hoccupied : t.node p ≠ none := by simp [hfile]
  have hpq : q ≠ p := by
    intro heq
    exact hoccupied (heq ▸ hfree)
  refine ⟨hfree, fun hpre => ?_, fun r => ?_⟩
  · -- the file would have to be a directory above `q`
    cases q using List.reverseRecOn with
    | nil => exact hpq (List.prefix_nil.mp hpre).symm
    | append_singleton d name =>
        rw [List.dropLast_concat] at hdir
        obtain ⟨rel, rfl⟩ := (List.prefix_concat_iff.mp hpre).resolve_left hpq.symm
        by_cases hrel : rel = []
        · rw [hrel, List.append_nil] at hdir
          exact hnodir hdir
        · exact hnodir (dir_of_below hrel (by simp [hdir]))
  · rw [hnode]
    by_cases hq : q <+: r
    · obtain ⟨rel, rfl⟩ := hq
      rw [if_pos (List.prefix_append q rel), List.drop_left]
      have hne : q ++ rel ≠ p := by
        intro heq
        exact not_prefix_of_occupied hfree hoccupied ⟨rel, heq⟩
      rw [Function.update_of_ne hne]
      by_cases hrel : rel = []
      · rw [hrel, List.append_nil, List.append_nil, Function.update_self, hfile]
      · rw [Function.update_of_ne (by simpa using hrel), node_append_eq_none hfree,
          node_below_eq_none hnodir hrel]
    · rw [if_neg hq]
      have hne : r ≠ q := fun heq => hq (heq ▸ List.prefix_refl q)
      by_cases hp : p <+: r
      · rw [if_pos hp]
        obtain ⟨rel, rfl⟩ := hp
        by_cases hrel : rel = []
        · rw [hrel, List.append_nil, Function.update_self]
        · rw [Function.update_of_ne (by simpa using hrel), Function.update_of_ne hne,
            node_below_eq_none hnodir hrel]
      · have hrp : r ≠ p := by
          rintro rfl
          exact hp (List.prefix_refl r)
        rw [if_neg hp, Function.update_of_ne hrp, Function.update_of_ne hne]

/-- What neither moves nor is moved over stays. -/
theorem Relocated.kept (h : Relocated t t' p q) {r : List Name} {n : Node Name Content}
    (hp : ¬ p <+: r) (hr : t.node r = some n) : t'.node r = some n := by
  rw [h.node, if_neg, if_neg hp, hr]
  exact not_prefix_of_occupied h.free (by rw [hr]; nofun)

/-- What is relocated is at its new place, as it was. -/
theorem Relocated.arrived (h : Relocated t t' p q) (rel : List Name) :
    t'.node (q ++ rel) = t.node (p ++ rel) := by
  rw [h.node, if_pos (List.prefix_append q rel), List.drop_left]

theorem Relocated.left (h : Relocated t t' p q) (hp : t.node p ≠ none) : t'.node p = none := by
  rw [h.node, if_neg (not_prefix_of_occupied h.free hp), if_pos (List.prefix_refl p)]

end Relocated

variable [DecidableEq Content]

variable (t) in
def tryInsert (q : List Name) (n : Node Name Content) : Option (FileTree Name Content) :=
  if h : t.node q.dropLast = some .dir ∧ t.node q = none then some (t.insert q n h.1 h.2) else none

variable (t) in
def tryRelocate (p q : List Name) : Option (FileTree Name Content) :=
  if h : p ≠ [] ∧ t.node q.dropLast = some .dir ∧ t.node q = none ∧ ¬ p <+: q then
    some (t.relocate p q h.1 h.2.1 h.2.2.1 h.2.2.2)
  else none

variable (t) in
/-- Entries put in one after the other. -/
def grow (entries : List (List Name × Node Name Content)) : Option (FileTree Name Content) :=
  entries.foldlM (fun t entry => t.tryInsert entry.1 entry.2) t

theorem tryInsert_eq_some {n : Node Name Content} (h : t.tryInsert q n = some t') :
    t.node q.dropLast = some .dir ∧ t.node q = none ∧
    t'.node = Function.update t.node q (some n) := by
  unfold tryInsert at h
  split_ifs at h with hq
  obtain rfl := Option.some.inj h
  exact ⟨hq.1, hq.2, rfl⟩

theorem relocated_of_tryRelocate (h : t.tryRelocate p q = some t') : Relocated t t' p q := by
  unfold tryRelocate at h
  split_ifs at h with hp
  obtain rfl := Option.some.inj h
  exact ⟨hp.2.2.1, hp.2.2.2, fun _ => rfl⟩

theorem exists_tryRelocate (hroot : p ≠ []) (hdir : t.node q.dropLast = some .dir)
    (hfree : t.node q = none) (hapart : ¬ p <+: q) : ∃ t', t.tryRelocate p q = some t' :=
  ⟨_, dif_pos ⟨hroot, hdir, hfree, hapart⟩⟩

theorem exists_tryInsert {n : Node Name Content} (hdir : t.node p = some .dir) {name : Name}
    (hfree : t.node (p ++ [name]) = none) : ∃ t', t.tryInsert (p ++ [name]) n = some t' :=
  ⟨_, dif_pos ⟨by rwa [List.dropLast_concat], hfree⟩⟩

/-- A new entry takes nothing away. -/
theorem le_of_tryInsert {n : Node Name Content} (h : t.tryInsert q n = some t') : t ≤ t' := by
  obtain ⟨-, hfree, hnode⟩ := tryInsert_eq_some h
  intro r m hr
  rw [hnode, Function.update_of_ne, hr]
  rintro rfl
  nomatch hfree.symm.trans hr

end Checked

/-! ## Grafts -/

/-- At and below `q`, `u` has what `t` has at and below `p`; elsewhere it is `t`. -/
structure Graft (t u : FileTree Name Content) (p q : List Name) : Prop where
  outside : ∀ r, ¬ q <+: r → u.node r = t.node r
  copied : ∀ rel, u.node (q ++ rel) = t.node (p ++ rel)

variable {t} {u : FileTree Name Content} {p q : List Name}

/-- A directory without entries, to which another is grafted. -/
theorem Graft.le (h : Graft t u p q) (hp : t.node p = some .dir) (hq : t.node q = some .dir)
    (hempty : ∀ rel, rel ≠ [] → t.node (q ++ rel) = none) : t ≤ u := by
  intro r n hr
  by_cases hqr : q <+: r
  · obtain ⟨rel, rfl⟩ := hqr
    by_cases hrel : rel = []
    · rw [hrel, List.append_nil, hq] at hr
      rw [h.copied, hrel, List.append_nil, hp, hr]
    · rw [hempty rel hrel] at hr
      nomatch hr
  · rw [h.outside r hqr, hr]

end FileTree
