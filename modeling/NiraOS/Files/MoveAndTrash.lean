import NiraOS.Files.Outcomes
import NiraOS.Lib.FileTree.Removals

/-!
# Moves and the Trash

A move and a delete into the Trash should lose nothing and tell the truth (`Lossless`): what was
under the source is under the source still, or all of it has arrived; success is reported when the
source is gone and what has arrived is the same, failure when the source is as it was.

Both fall back from renaming to copying and deleting, and it goes wrong when

```text
what is met                                    what comes of it
a broken link is deleted                       success, and nothing was done
a file is copied to the Trash                  success, and it is still there
a link to a file is renamed by copying         success, and what it leads to has arrived
a broken link bears the new name of a file     success, and it has arrived behind the link
a removal fails after another                  failure, and part of the source is gone
links or hidden entries are copied             success, and they have not arrived
the copy lies inside the source                the source has changed
both are directories                           they are merged
a link to a directory is moved onto itself     it is moved into the directory
```

Without these (`Careful`) every move and every delete is lossless.
-/

namespace NiraOS.Files

open Command
open PathText (splitSuffix)

/-! ## What should hold -/

section Definitions

variable (env : Env) (t : Tree)

/-- Where a path leads, or would lead if nothing is there. -/
def Env.Leads (path : Path) (q : List String) : Prop :=
  env.locate t path = some q ∨ env.Place t path q

/-- An entry of the Trash: one in its directory, or the one that `gio` makes. -/
def Env.TrashEntry (q : List String) : Prop :=
  (∃ d name, env.Leads t env.trashDir d ∧ q = d ++ [name]) ∨ env.gio = .trashed q

/-- Where the source should arrive: at the target of a move, or else in the Trash. -/
def Env.Arrival (target : Option Path) (q : List String) : Prop :=
  match target with
  | some target => env.Leads t target q
  | none => env.TrashEntry t q

/-- The moves and the deletes into the Trash, with the target that is resolved. -/
inductive Carries : Call → Path → Option Path → Prop
  | move (source dest : Path) :
      Carries (.move source dest) source (some (resolveDestination env t source dest))
  | trash (path : Path) : Carries (.delete path false) path none

/-- From `t` to `u` nothing was lost, and what was reported is so. -/
structure Lossless (u : Tree) (call : Call) (source : Path) (target : Option Path)
    (success : Bool) : Prop where
  content : ∀ p rel content, env.own t source = some p → t.node (p ++ rel) = some (.file content) →
    ∃ q, u.node q = some (.file content) ∧ (p <+: q ∨ ∃ d, env.Arrival t target d ∧ d <+: q)
  gone : success = true → env.exists u source = false ∧ ∀ p, env.own t source = some p →
    u.node p = none
  arrived : success = true → ∀ p, env.own t source = some p → t.node p ≠ none →
    ∃ q, env.Arrival t target q ∧ ∀ rel, u.node (q ++ rel) = t.node (p ++ rel)
  intact : success = false → ∀ p, env.own t source = some p →
    ∀ rel, u.node (p ++ rel) = t.node (p ++ rel)
  /-- A move onto itself changes nothing. -/
  still : ∀ dest, call = .move source dest → dest = source ∨ target = some source → u.node = t.node

end Definitions

section Conditions

variable (env : Env) (fuel : ℕ)

/-- `gio` does not take the path. -/
def Env.LeftByGio (t : Tree) (path : Path) : Prop := (gioTrash env path ⟨t, 0⟩).1 = some false

/-- There is room for a path in the Trash, and nothing in the way. -/
structure Env.HasRoom (t : Tree) (path : Path) : Prop where
  /-- The Trash is not inside it. -/
  apart : ∀ p d, env.own t path = some p → env.Leads t env.trashDir d → ¬ p <+: d
  /-- It is not merged with a directory of the Trash. -/
  noMerge : ¬ (env.isDir t path = true ∧ env.isDir t (trashTarget env t path) = true)
  /-- No broken link bears the name that a file gets. -/
  vacated : env.isDir t path = false → env.Vacated t (trashTarget env t path)

/-- A directory that can be deleted once it was copied: the first removal fails, or the directory is
plain and none does. -/
def Env.Deletable (path : Path) (w : World) : Prop :=
  env.isDir w.tree path = true ∧ (env.fails .remove (w.calls .remove) = true ∨
    Calm env .remove w ∧ ∀ p, env.own w.tree path = some p →
      Plain w.tree p ∧ env.Direct w.tree path p)

/-- **Nothing goes wrong** when a path is deleted into the Trash. -/
structure Discards (path : Path) (w : World) : Prop where
  /-- The path is no broken link. -/
  noLink : env.exists w.tree path = false → ∀ p, env.own w.tree path = some p → w.tree.node p = none
  /-- If `gio` leaves it, there is room for it in the Trash. -/
  room : env.exists w.tree path = true → env.LeftByGio w.tree path → env.HasRoom w.tree path
  /-- A link to a file that is renamed is renamed by the system. -/
  itself : env.LeftByGio w.tree path → (copyToTrash env fuel path w).1 = .ended (some true) →
    env.isDir w.tree path = false → env.Itself w.tree path (w.calls .rename)
  /-- What is copied to the Trash can be deleted. -/
  removable : (copyToTrash env fuel path w).1 = .next → env.Deletable path w

/-- What a copy to `q` may make of `t`: it adds entries, on the way to `q` or below. -/
structure GrownAt (t u : Tree) (q : List String) : Prop where
  le : t ≤ u
  near : ∀ r, u.node r ≠ t.node r → r <+: q ∨ q <+: r

/-- How a move comes to its last step: by copying the source to the target, and then to the Trash.
-/
def copyAwayToTrash (source target : Path) (w : World) : Progress :=
  match copyAway env fuel source target w with
  | (.next, w) => (copyToTrash env fuel source w).1
  | (step, _) => step

/-- **Nothing goes wrong** when a source is moved. -/
structure Moves (source dest target : Path) (w : World) : Prop where
  /-- If it is copied, the copy is not inside it. -/
  apart : (QFile.rename env source target w).1 = some false → ∀ p q,
    env.own w.tree source = some p → env.Place w.tree target q → ¬ p <+: q
  noMerge : (QFile.rename env source target w).1 = some false →
    ¬ (env.isDir w.tree source = true ∧ env.isDir w.tree target = true)
  /-- A directory that is moved onto itself stays, since its name is taken in it. -/
  notOnto : dest = source → env.isDir w.tree source = true →
    (QFile.rename env source target w).1 = some false ∧ env.exists w.tree target = true
  /-- No broken link bears the name that a file gets. -/
  vacated : env.isDir w.tree source = false → env.Vacated w.tree target
  /-- A link to a file that is renamed is renamed by the system. -/
  itself : (QFile.rename env source target w).1 = some true → env.isDir w.tree source = false →
    env.Itself w.tree source (w.calls .rename)
  /-- If it is copied, there is room for it in the Trash, whatever the copy has made of the tree. -/
  room : (copyAway env fuel source target w).1 = .next → ∀ q u, env.Place w.tree target q →
    GrownAt w.tree u q → env.LeftByGio u source → env.HasRoom u source
  /-- What is copied and reaches the Trash is plain, and the Trash is not where it was copied to. -/
  reaches : (copyAway env fuel source target w).1 = .next →
    copyAwayToTrash env fuel source target w ≠ .ended (some false) → ∀ p q,
      env.own w.tree source = some p → env.Place w.tree target q → Plain w.tree p ∧
        (∀ u d, GrownAt w.tree u q → env.Leads u env.trashDir d → ¬ q <+: d) ∧
          ∀ place, env.gio = .trashed place → ¬ q <+: place
  /-- What is copied to the target and to the Trash can be deleted. -/
  removable : copyAwayToTrash env fuel source target w = .next → env.Deletable source w

def Careful (w : World) : Call → Prop
  | .move source dest => Moves env fuel source dest (resolveDestination env w.tree source dest) w
  | .delete path _ => Discards env fuel path w
  | _ => True

end Conditions

/-! ## The Trash -/

section Trash

/-- The state in which a name is looked for in the Trash. -/
def atTrash (env : Env) (w : World) : World := (QDir.mkpath env env.trashDir w).2

variable {env : Env} {t u : Tree} {path : Path} {p q d : List String} {name : String} {w w' : World}

theorem exists_leads (env : Env) (t : Tree) (path : Path) : ∃ d, env.Leads t path d := by
  cases hpath : env.locate t path with
  | some d => exact ⟨d, Or.inl hpath⟩
  | none =>
      have hmissing : env.exists t path = false := by
        rw [Env.exists, hpath]
        rfl
      obtain ⟨q, hq⟩ := exists_place hmissing
      exact ⟨q, Or.inr hq⟩

theorem exists_of_locate (h : env.locate t path = some d) : env.exists t path = true :=
  Option.isSome_iff_exists.mpr ⟨d, h⟩

theorem leads_of_entry (h : env.entry t (path ++ [name]) = some q) :
    ∃ d, env.Leads t path d ∧ q = d ++ [name] := by
  obtain ⟨d, hd, -, rfl⟩ := FileTree.entry_concat.mp h
  exact ⟨d, Or.inl hd, rfl⟩

theorem leads_of_place (h : env.Place t (path ++ [name]) q) :
    ∃ d, env.Leads t path d ∧ q = d ++ [name] := by
  cases hpath : env.locate t path with
  | some d =>
      refine ⟨d, Or.inl hpath, ?_⟩
      exact h.unique ⟨path, name, [], d, rfl, hpath, h.not_exists, rfl⟩
  | none =>
      obtain ⟨d, hd⟩ := exists_leads env t path
      have hplace := hd.resolve_left (by rw [hpath]; nofun)
      exact ⟨d, hd, h.unique hplace.below⟩

/-- What a path leads to when nothing is there is no directory. -/
theorem Env.Place.not_dir (h : env.Place t path q) : t.node q ≠ some .dir := by
  obtain ⟨pre, name, rest, d, rfl, hd, hfree, rfl⟩ := h
  intro hdir
  have hchild : t.node (d ++ [name]) = some .dir := by
    by_cases hrest : rest = []
    · rwa [hrest] at hdir
    · rw [List.append_cons] at hdir
      apply FileTree.dir_of_below hrest
      rw [hdir]
      nofun
  have hexists : env.exists t (pre ++ [name]) = true :=
    exists_of_locate (FileTree.locate_concat_of_node hd hchild fun _ => nofun)
  nomatch hexists.symm.trans hfree

/-- A place where nothing is to be found is above nothing. -/
theorem Env.Place.not_above (h : env.Place t path q) (hp : t.node p ≠ none) (hout : ¬ p <+: q) :
    ¬ q <+: p := by
  rintro ⟨rel, rfl⟩
  by_cases hrel : rel = []
  · rw [hrel, List.append_nil] at hout
    exact hout (List.prefix_refl q)
  · exact h.not_dir (FileTree.dir_of_below hrel hp)

theorem exists_firstFree (taken : Path → Bool) (candidate : ℕ → Path) (more i : ℕ) :
    ∃ k, firstFree taken candidate i more = candidate k := by
  induction more generalizing i with
  | zero => exact ⟨i, rfl⟩
  | succ more ih =>
      unfold firstFree
      split
      · exact ih (i + 1)
      · exact ⟨i, rfl⟩

theorem exists_trashTarget (env : Env) (t : Tree) (path : Path) :
    ∃ name, trashTarget env t path = env.trashDir ++ [name] := by
  obtain ⟨k, hk⟩ := exists_firstFree (env.exists t) (fun i =>
    env.trashDir ++ [if i = 0 then fileName path
      else QString.arg (QString.arg (QString.arg "%1 (%2)%3" (splitSuffix (fileName path)).1)
        (toString i))
        (dotted (splitSuffix (fileName path)).2)]) 9999 0
  exact ⟨_, hk⟩

/-- The Trash is where it was, or was made where it should be. -/
theorem leads_atTrash (h : env.Leads (atTrash env w).tree env.trashDir d) :
    env.Leads w.tree env.trashDir d := by
  rcases mkpath_outcome env env.trashDir w with hsame | ⟨pre, q, ⟨rest, hrest⟩, hmade⟩
  · rw [atTrash, hsame] at h
    exact h
  · have hplace : env.Place w.tree env.trashDir (q ++ rest) := hrest ▸ hmade.place.below
    refine Or.inr (?_ : env.Place w.tree env.trashDir d)
    suffices hd : d = q ++ rest from hd ▸ hplace
    cases rest with
    | nil =>
        rw [List.append_nil] at hrest ⊢
        rw [← hrest] at h
        rcases h with hlocate | hnone
        · exact Option.some.inj (hlocate.symm.trans hmade.locate)
        · nomatch (exists_of_locate hmade.locate).symm.trans hnone.not_exists
    | cons name more =>
        have hfree : env.Place (atTrash env w).tree (pre ++ [name]) (q ++ [name]) :=
          place_concat hmade.locate (hmade.empty (List.cons_ne_nil name []))
        have hbelow : env.Place (atTrash env w).tree env.trashDir (q ++ name :: more) := by
          rw [← hrest, List.append_cons pre, List.append_cons q]
          exact hfree.below
        rcases h with hlocate | hnone
        · nomatch (exists_of_locate hlocate).symm.trans hbelow.not_exists
        · exact hnone.unique hbelow

theorem changed_atTrash (hd : env.Leads w.tree env.trashDir d) {r : List String}
    (hr : (atTrash env w).tree.node r ≠ w.tree.node r) : r <+: d := by
  rcases hd with hlocate | hplace
  · rw [atTrash, mkpath_of_exists env (exists_of_locate hlocate)] at hr
    exact absurd rfl hr
  · exact changed_mkpath env hplace hr

theorem grows_atTrash (env : Env) (w : World) : w.tree ≤ (atTrash env w).tree :=
  grows_mkpath env.trashDir w (le_refl w.tree)

/-- Where the Trash is not there at first, nothing is in it. -/
theorem empty_atTrash {r : List String} (hmissing : env.exists w.tree env.trashDir = false)
    (he : env.entry (atTrash env w).tree (env.trashDir ++ [name]) = some r) :
    (atTrash env w).tree.node r = none := by
  obtain ⟨d, hd, rfl⟩ := leads_of_entry he
  have hplace : env.Place w.tree env.trashDir d := (leads_atTrash hd).resolve_left fun hlocate => by
    cases hmissing.symm.trans (exists_of_locate hlocate)
  have hnone : w.tree.node (d ++ [name]) = none := by
    by_contra hthere
    exact hplace.not_dir (FileTree.dir_of_below (List.cons_ne_nil name []) hthere)
  rw [← hnone]
  by_contra hchanged
  have hpre := changed_atTrash (.inr hplace) hchanged
  have hlength := hpre.length_le
  rw [List.length_append, List.length_singleton] at hlength
  omega

theorem not_exists_atTrash (hmissing : env.exists w.tree env.trashDir = false) :
    env.exists (atTrash env w).tree (env.trashDir ++ [name]) = false := by
  rw [Bool.eq_false_iff]
  intro hexists
  obtain ⟨r, hr⟩ := Option.isSome_iff_exists.mp hexists
  obtain ⟨e, he, hthere⟩ := FileTree.entry_of_locate (by simp) hr
  exact hthere (empty_atTrash hmissing he)

/-- Making the Trash changes nothing of what it is not inside of. -/
theorem intact_atTrash (hout : ∀ d, env.Leads w.tree env.trashDir d → ¬ p <+: d)
    (rel : List String) :
    (atTrash env w).tree.node (p ++ rel) = w.tree.node (p ++ rel) := by
  obtain ⟨d, hd⟩ := exists_leads env w.tree env.trashDir
  by_contra hchanged
  exact hout d hd ((List.prefix_append p rel).trans (changed_atTrash hd hchanged))

/-- There is room in the Trash still when it was made. -/
theorem Env.HasRoom.noMerge_atTrash (h : env.HasRoom w.tree path) :
    ¬ (env.isDir (atTrash env w).tree path = true ∧
      env.isDir (atTrash env w).tree (trashTarget env (atTrash env w).tree path) = true) := by
  rintro ⟨hdir, htarget⟩
  cases htrash : env.exists w.tree env.trashDir with
  | true =>
      have hsame : (atTrash env w).tree = w.tree := mkpath_of_exists env htrash
      rw [hsame] at hdir htarget
      exact h.noMerge ⟨hdir, htarget⟩
  | false =>
      obtain ⟨name, hname⟩ := exists_trashTarget env (atTrash env w).tree path
      rw [hname] at htarget
      cases (not_exists_atTrash htrash).symm.trans (exists_of_isDir htarget)

theorem Env.HasRoom.vacated_atTrash (h : env.HasRoom w.tree path)
    (hnodir : env.isDir (atTrash env w).tree path = false) :
    env.Vacated (atTrash env w).tree (trashTarget env (atTrash env w).tree path) := by
  intro hfree q hq
  cases htrash : env.exists w.tree env.trashDir with
  | true =>
      have hsame : (atTrash env w).tree = w.tree := mkpath_of_exists env htrash
      rw [hsame] at hnodir hfree hq ⊢
      exact h.vacated hnodir hfree q hq
  | false =>
      obtain ⟨name, hname⟩ := exists_trashTarget env (atTrash env w).tree path
      rw [hname] at hq
      exact empty_atTrash htrash hq

/-- `gio` leaves a path, or takes it to its entry of the Trash. -/
theorem gioTrash_outcome (env : Env) (path : Path) (w : World) :
    env.LeftByGio w.tree path ∧ gioTrash env path w = (some false, w) ∨
      ∃ p place u, env.gio = .trashed place ∧ env.entry w.tree path = some p ∧
        FileTree.Relocated w.tree u p place ∧
          gioTrash env path w = (some true, { w with tree := u }) := by
  unfold Env.LeftByGio gioTrash
  cases env.gio with
  | missing => exact .inl ⟨rfl, rfl⟩
  | failed => exact .inl ⟨rfl, rfl⟩
  | trashed place =>
      dsimp only
      cases heq : (env.entry w.tree path).bind fun p =>
          if (w.tree.node p).isSome then w.tree.tryRelocate p place else none with
      | none => exact .inl ⟨rfl, rfl⟩
      | some u =>
          obtain ⟨p, hp, heq⟩ := Option.bind_eq_some_iff.mp heq
          split_ifs at heq
          exact .inr ⟨p, place, u, rfl, hp, FileTree.relocated_of_tryRelocate heq, rfl⟩

end Trash

/-! ## What goes somewhere else -/

/-- From `t` to `u` what was at `p` went to `q`; what else changed is on the way there, or below. -/
structure Taken (env : Env) (t u : Tree) (path : Path) (p q : List String) : Prop where
  free : t.node q = none
  gone : u.node p = none
  missing : env.exists u path = false
  arrived : ∀ rel, u.node (q ++ rel) = t.node (p ++ rel)
  kept : ∀ r, ¬ p <+: r → u.node r ≠ t.node r → r <+: q ∨ q <+: r

section Taking

variable {env : Env} {fuel : ℕ} {t m u : Tree} {path source target : Path} {p q : List String}
    {v w w' : World}

theorem node_of_exists (hexists : env.exists t path = true) (hp : env.own t path = some p) :
    t.node p ≠ none := by
  by_cases hne : path = []
  · subst hne
    obtain rfl := Option.some.inj hp
    rw [t.root]
    nofun
  · rw [own_of_ne_nil hne] at hp
    obtain ⟨d, hd⟩ := Option.isSome_iff_exists.mp hexists
    obtain ⟨e, he, hthere⟩ := FileTree.entry_of_locate hne hd
    rwa [Option.some.inj (he.symm.trans hp)] at hthere

theorem exists_own (hexists : env.exists t path = true) : ∃ p, env.own t path = some p := by
  by_cases hne : path = []
  · exact ⟨[], if_pos hne⟩
  · obtain ⟨d, hd⟩ := Option.isSome_iff_exists.mp hexists
    obtain ⟨e, he, -⟩ := FileTree.entry_of_locate hne hd
    exact ⟨e, (own_of_ne_nil hne).trans he⟩

theorem own_mono (h : t ≤ u) (hp : env.own t path = some p) : env.own u path = some p := by
  by_cases hne : path = []
  · subst hne
    exact hp
  · rw [own_of_ne_nil hne] at hp ⊢
    exact FileTree.entry_mono h hp

/-- What is relocated went to its new place. -/
theorem taken_of_relocated (hp : env.entry t path = some p) (hthere : t.node p ≠ none)
    (h : FileTree.Relocated t u p q) : Taken env t u path p q := by
  have hgone := h.left hthere
  refine ⟨h.free, hgone, ?_, h.arrived, fun r hr hchanged => Or.inr ?_⟩
  · rw [Env.exists, Env.locate, FileTree.locate_eq_none_of_gone h.leaves hp hgone]
    rfl
  · by_contra hbelow
    apply hchanged
    rw [h.node, if_neg hbelow, if_neg hr]

/-- Before it went, directories were made on the way. -/
theorem Taken.of_made (h : Taken env m u path p q) (hle : t ≤ m)
    (hmade : ∀ r, m.node r ≠ t.node r → r <+: q ∧ ¬ p <+: r) : Taken env t u path p q := by
  refine ⟨FileTree.eq_none_of_le hle h.free, h.gone, h.missing, fun rel => ?_,
    fun r hr hchanged => ?_⟩
  · rw [h.arrived]
    by_contra hchanged
    exact (hmade _ hchanged).2 (List.prefix_append p rel)
  · by_cases hsame : m.node r = t.node r
    · apply h.kept r hr
      rwa [hsame]
    · exact Or.inl (hmade r hsame).1

/-- The source is beside its copy. -/
theorem Env.Place.not_below (h : env.Place t target q) (hp : t.node p ≠ none) (hout : ¬ p <+: q)
    (rel : List String) :
    ¬ p <+: q ++ rel := by
  intro hpre
  rcases List.prefix_or_prefix_of_prefix hpre (List.prefix_append q rel) with hpq | hqp
  · exact hout hpq
  · exact h.not_above hp hout hqp

/-- **What is plain** and was copied and deleted went where it was copied to. -/
theorem taken_of_copied (hfree : env.exists w.tree target = false)
    (hp : env.own w.tree path = some p)
    (hq : env.Place w.tree target q) (hplain : Plain w.tree p) (hout : ¬ p <+: q)
    (hdir : env.isDir w.tree path = true) (hcopy : copyAny env fuel path target w = (some true, v))
    (hdelete : performRecursiveDelete env fuel path v = (some true, w')) :
    Taken env w.tree w'.tree path p q := by
  have hfaithful := faithful_of_plain hfree hp hq hplain hout hcopy
  obtain ⟨q', hplace, hnone, hq', -, -⟩ := plain_of_copyAny hfree hcopy
  obtain rfl := hq.unique hplace
  have hthere := node_of_exists (exists_of_isDir hdir) hp
  have hne : path ≠ [] := by
    rintro rfl
    obtain rfl := Option.some.inj hp
    exact hout List.nil_prefix
  -- the source is still there when it is deleted
  have hkept := hfaithful.kept p hp
  have hown : env.own v.tree path = some p := own_mono hfaithful.old hp
  have hdir' : env.isDir v.tree path = true := isDir_mono hfaithful.old hdir
  have hplain' : Plain v.tree p := hplain.of_copied fun rel => (hkept rel).symm
  have hlocate := locate_of_plain hne hown (exists_of_isDir hdir') hplain'
  rw [own_of_ne_nil hne] at hown
  have houtside : ∀ r, ¬ p <+: r → w'.tree.node r = v.tree.node r := by
    intro r hr
    have hsame := kept_outside fuel hown hlocate hplain' hr
    rwa [hdelete] at hsame
  obtain ⟨e, he, hgone⟩ := gone_of_deleted hdir' hdelete
  obtain rfl := Option.some.inj (he.symm.trans hown)
  have hle : w'.tree ≤ v.tree := by
    have hshrinks : (performRecursiveDelete env fuel path v).2.tree ≤ v.tree :=
      shrinks_performRecursiveDelete fuel path v (le_refl v.tree)
    rwa [hdelete] at hshrinks
  refine ⟨hnone, hgone, ?_, fun rel => ?_, fun r hr hchanged => ?_⟩
  · rw [Env.exists, Env.locate,
      FileTree.locate_eq_none_of_gone (FileTree.Leaves.of_le hle) he hgone]
    rfl
  · rw [houtside _ (hq.not_below hthere hout rel)]
    obtain ⟨p', q', hp', hq'', hcopied⟩ := hfaithful.copied
    obtain rfl := Option.some.inj (hp'.symm.trans hp)
    obtain rfl := Option.some.inj (hq''.symm.trans hq')
    exact hcopied rel
  · rw [houtside r hr] at hchanged
    have hcopied : (copyAny env fuel path target w).2.tree.node r ≠ w.tree.node r := by rwa [hcopy]
    exact changed_copyAny hfree hq hcopied

/-- **However it ends**, a copy to a place outside the source leaves the source as it is. -/
theorem intact_copyAny (fuel : ℕ) (hthere : w.tree.node p ≠ none)
    (hapart : ∀ q, env.Place w.tree target q → w.tree.node q = none → ¬ p <+: q)
    (hnoMerge : ¬ (env.isDir w.tree source = true ∧ env.isDir w.tree target = true))
    (rel : List String) :
    (copyAny env fuel source target w).2.tree.node (p ++ rel) = w.tree.node (p ++ rel) := by
  cases hexists : env.exists w.tree target with
  | true => rw [(copyAny_of_exists fuel hexists hnoMerge).2]
  | false =>
      obtain ⟨q, hq⟩ := exists_place hexists
      by_cases hnone : w.tree.node q = none
      · have hout := hapart q hq hnone
        by_contra hchanged
        rcases changed_copyAny hexists hq hchanged with habove | hbelow
        · exact hout ((List.prefix_append p rel).trans habove)
        · rcases List.prefix_or_prefix_of_prefix hbelow (List.prefix_append p rel) with hqp | hpq
          · exact hq.not_above hthere hout hqp
          · exact hout hpq
      · rw [(copyAny_of_occupied hq hnone).2]

end Taking

/-! ## Deleting into the Trash -/

section Discarding

variable {env : Env} {fuel : ℕ} {t u : Tree} {path source target : Path} {p q d : List String}
    {name : String}
  {success : Bool} {v w w' : World}

theorem taken_atTrash (hd : env.Leads w.tree env.trashDir d) (hout : ¬ p <+: d)
    (h : Taken env (atTrash env w).tree u path p (d ++ [name])) :
    Taken env w.tree u path p (d ++ [name]) := by
  apply h.of_made (grows_atTrash env w)
  intro r hchanged
  have hpre := changed_atTrash hd hchanged
  exact ⟨hpre.trans (List.prefix_append d [name]), fun hpr => hout (hpr.trans hpre)⟩

/-- What can be deleted can be deleted when other things were added. -/
theorem Env.Deletable.of_ge (h : env.Deletable path w) (hle : w.tree ≤ v.tree)
    (hcalls : v.calls .remove = w.calls .remove)
    (hsame : ∀ p, env.own w.tree path = some p →
      ∀ rel, v.tree.node (p ++ rel) = w.tree.node (p ++ rel)) : env.Deletable path v := by
  obtain ⟨hdir, hfails | ⟨hcalm, hplain⟩⟩ := h
  · refine ⟨isDir_mono hle hdir, .inl ?_⟩
    rwa [hcalls]
  · refine ⟨isDir_mono hle hdir, .inr ⟨fun k hk => hcalm k (by rwa [hcalls] at hk), ?_⟩⟩
    intro p hp
    obtain ⟨p', hp'⟩ := exists_own (exists_of_isDir hdir)
    obtain rfl := Option.some.inj ((own_mono hle hp').symm.trans hp)
    obtain ⟨hvisible, hdirect⟩ := hplain p' hp'
    exact ⟨hvisible.of_copied fun rel => (hsame p' hp' rel).symm, hdirect.mono hle⟩

/-- **The last step** of a delete into the Trash fails and changes nothing, or what was copied went
there. -/
theorem removed_of_next (hp : env.own w.tree path = some p) (hapart : ¬ p <+: q)
    (hfree : env.exists w.tree target = false) (hq : env.Place w.tree target q)
    (hcopy : copyAny env fuel path target w = (some true, v)) (hdeletable : env.Deletable path w)
    (h : performRecursiveDelete env fuel path v = (some success, w')) :
    success = false ∧ w'.tree = v.tree ∨ success = true ∧ Taken env w.tree w'.tree path p q := by
  have hcalls : v.calls .remove = w.calls .remove := by
    have hkept := removals_copyAny env fuel path target _ w rfl
    rwa [hcopy] at hkept
  have hle : w.tree ≤ v.tree := by
    have hgrows := grows_copyAny env fuel path target w (le_refl w.tree)
    rwa [hcopy] at hgrows
  have hthere := node_of_exists (exists_of_isDir hdeletable.1) hp
  have hkept : ∀ rel, v.tree.node (p ++ rel) = w.tree.node (p ++ rel) := by
    intro rel
    have hnodirs : ¬ (env.isDir w.tree path = true ∧ env.isDir w.tree target = true) := by
      intro hdirs
      cases hfree.symm.trans (exists_of_isDir hdirs.2)
    have hsame := intact_copyAny fuel hthere (fun q' hq' _ => by rwa [hq'.unique hq]) hnodirs rel
    rwa [hcopy] at hsame
  have hlater : env.Deletable path v := by
    apply hdeletable.of_ge hle hcalls
    intro p' hp'
    obtain rfl := Option.some.inj (hp'.symm.trans hp)
    exact hkept
  obtain ⟨hdir, hfails | ⟨hcalm, hplain⟩⟩ := hlater
  · obtain ⟨hnot, hsame⟩ := first_removal_failed fuel hfails hdir
    rw [h] at hnot hsame
    exact Or.inl ⟨Bool.eq_false_iff.mpr fun heq => hnot (congrArg some heq), hsame⟩
  · have hne : path ≠ [] := by
      rintro rfl
      obtain rfl := Option.some.inj hp
      exact hapart List.nil_prefix
    have hown := own_mono hle hp
    obtain ⟨hplain', hdirect⟩ := hplain p hown
    obtain ⟨e, he, hnode⟩ := isDir_eq_true.mp hdir
    have hlocate := locate_of_plain hne hown (exists_of_isDir hdir) hplain'
    obtain rfl := Option.some.inj (he.symm.trans hlocate)
    rw [own_of_ne_nil hne] at hown
    have hnever :=
      (neverFails_performRecursiveDelete fuel hown hnode hplain' hdirect v ⟨rfl, hcalm⟩).1
    rw [h] at hnever
    cases success with
    | false => exact absurd rfl hnever
    | true =>
        have hbefore : Plain w.tree e := hplain'.of_copied hkept
        exact Or.inr ⟨rfl, taken_of_copied hfree hp hq hbefore hapart hdeletable.1 hcopy h⟩

/-- What comes before the last step of a move: the source is renamed; or something was created at
the target, and it is not copied; or all is as it was when it is copied. -/
theorem copyAway_outcome {step : Progress}
    (hvacated : env.isDir w.tree path = false → env.Vacated w.tree target)
    (h : copyAway env fuel path target w = (step, v)) :
    step = .ended (some true) ∧ QFile.rename env path target w = (some true, v) ∨
      (QFile.rename env path target w).1 = some false ∧
        ((step ≠ .ended (some true) ∧ step ≠ .next ∧ ∃ q content,
          env.entry w.tree target = some q ∧ FileTree.Created w.tree v.tree q content) ∨
        ∃ m success, m.tree.node = w.tree.node ∧
          (env.isDir w.tree path = true → m.calls .remove = w.calls .remove) ∧
            copyAny env fuel path target m = (success, v) ∧
              (success = some true ∧ step = .next ∨
                success ≠ some true ∧ step = .ended success)) := by
  rcases copyAway_cases h with hrenamed | ⟨m, success, hrename, hcopy, hstep⟩
  · exact .inl hrenamed
  · refine .inr ⟨congrArg Prod.fst hrename, ?_⟩
    rcases refused_of_rename hvacated hrename with ⟨hsame, hcalls⟩ | ⟨q, content, hq, hcreated⟩
    · exact .inr ⟨m, success, hsame, hcalls, hcopy, hstep⟩
    · -- what was created is in the way
      have hfile : m.tree.node q = some (.file content) := by
        rw [hcreated.node, Function.update_self]
      have hne : target ≠ [] := by
        rintro rfl
        cases hq
      obtain ⟨pre, name, rfl⟩ := (List.eq_nil_or_concat' target).resolve_left hne
      obtain ⟨d, hd, -, rfl⟩ := FileTree.entry_concat.mp hq
      have hthere : env.locate m.tree (pre ++ [name]) = some (d ++ [name]) :=
        FileTree.locate_concat_of_node (FileTree.locate_mono hcreated.le hd) hfile fun _ => by simp
      have hnodirs : ¬ (env.isDir m.tree path = true ∧
          env.isDir m.tree (pre ++ [name]) = true) := by
        intro hdirs
        obtain ⟨d', hd', hdir⟩ := isDir_eq_true.mp hdirs.2
        obtain rfl := Option.some.inj (hthere.symm.trans hd')
        cases hfile.symm.trans hdir
      have hstuck := copyAny_of_exists fuel (exists_of_locate hthere) hnodirs
      rw [hcopy] at hstuck
      have htree : v.tree = m.tree := hstuck.2
      rw [← htree] at hcreated
      obtain ⟨hnot, rfl⟩ := hstep.resolve_left fun hnext => hstuck.1 hnext.1
      refine .inl ⟨fun heq => hnot (Progress.ended.inj heq), by simp, _, content, hq, hcreated⟩

/-- A move that does not rename its source leaves it as it is, as far as its last step. -/
theorem intact_copyAway {step : Progress} (hthere : w.tree.node p ≠ none)
    (hapart : ∀ q, env.Place w.tree target q → w.tree.node q = none → ¬ p <+: q)
    (hnoMerge : ¬ (env.isDir w.tree path = true ∧ env.isDir w.tree target = true))
    (hvacated : env.isDir w.tree path = false → env.Vacated w.tree target)
    (h : copyAway env fuel path target w = (step, v)) (hstep : step ≠ .ended (some true))
    (rel : List String) : v.tree.node (p ++ rel) = w.tree.node (p ++ rel) := by
  rcases copyAway_outcome hvacated h with ⟨hrenamed, -⟩ |
    ⟨-, ⟨-, -, q, content, hq, hcreated⟩ | ⟨m, success, hnode, -, hcopy, -⟩⟩
  · exact absurd hrenamed hstep
  · rw [hcreated.node, Function.update_of_ne]
    intro heq
    have hout := hapart q (place_of_entry hq hcreated.free) hcreated.free
    exact hout (heq ▸ List.prefix_append p rel)
  · have hkept : (copyAny env fuel path target m).2.tree.node (p ++ rel) = m.tree.node (p ++ rel) :=
      intact_copyAny fuel (by rwa [hnode])
        (fun q hq hfree => hapart q (place_of_node hnode hq) (by rwa [hnode] at hfree))
        (by rwa [isDir_of_node hnode, isDir_of_node hnode]) rel
    rw [hcopy, hnode] at hkept
    exact hkept

/-- What `gio` leaves is renamed into the Trash; or it is as it was, and if it was copied, then to
where nothing was. -/
theorem atTrash_cases {step : Progress} (hexists : env.exists w.tree path = true)
    (hp : env.own w.tree path = some p) (hroom : env.HasRoom w.tree path)
    (hitself : step = .ended (some true) → env.isDir w.tree path = false →
      env.Itself w.tree path (w.calls .rename))
    (hname : trashTarget env (atTrash env w).tree path = env.trashDir ++ [name])
    (h : copyAway env fuel path (env.trashDir ++ [name]) (atTrash env w) = (step, v)) :
    (step = .ended (some true) ∧ ∃ q, env.TrashEntry w.tree q ∧ Taken env w.tree v.tree path p q) ∨
      step ≠ .ended (some true) ∧ (∀ rel, v.tree.node (p ++ rel) = w.tree.node (p ++ rel)) ∧
        (step = .next → ∃ m d, m.tree.node = (atTrash env w).tree.node ∧
          (env.isDir w.tree path = true → m.calls .remove = w.calls .remove) ∧
            env.exists m.tree (env.trashDir ++ [name]) = false ∧
              env.Leads w.tree env.trashDir d ∧
                env.Place m.tree (env.trashDir ++ [name]) (d ++ [name]) ∧ ¬ p <+: d ++ [name] ∧
                  copyAny env fuel path (env.trashDir ++ [name]) m = (some true, v)) := by
  have hout : ∀ d, env.Leads w.tree env.trashDir d → ¬ p <+: d := fun d => hroom.apart p d hp
  have hintact := intact_atTrash hout
  have hnoMerge := hroom.noMerge_atTrash
  have hvacated := hroom.vacated_atTrash
  rw [hname] at hnoMerge hvacated
  have hown := own_mono (grows_atTrash env w) hp
  have hthere := node_of_exists (exists_mono (grows_atTrash env w) hexists) hown
  have hmkpath : ∀ primitive, primitive ≠ .make →
      (atTrash env w).calls primitive = w.calls primitive := fun primitive hne =>
    calls_mkpath hne env.trashDir _ w rfl
  have hapart : ∀ q, env.Place (atTrash env w).tree (env.trashDir ++ [name]) q →
      (atTrash env w).tree.node q = none → ¬ p <+: q := by
    intro q hq hnone hpq
    obtain ⟨d, hd, rfl⟩ := leads_of_place hq
    rcases List.prefix_concat_iff.mp hpq with rfl | hpd
    · exact hthere hnone
    · exact hout d (leads_atTrash hd) hpd
  by_cases hstep : step = .ended (some true)
  · refine .inl ⟨hstep, ?_⟩
    subst hstep
    obtain ⟨-, hrename⟩ := (copyAway_outcome hvacated h).resolve_right fun hrefused => by
      rcases hrefused with ⟨-, ⟨hnot, -⟩ | ⟨m, success, -, -, -, ⟨-, hnext⟩ | ⟨hnot, hended⟩⟩⟩
      · exact hnot rfl
      · cases hnext
      · exact hnot (Progress.ended.inj hended).symm
    have hitself' : env.isDir (atTrash env w).tree path = false →
        env.Itself (atTrash env w).tree path ((atTrash env w).calls .rename) := by
      intro hnodir
      rw [hmkpath .rename (by decide)]
      have hnodir' : env.isDir w.tree path = false := by
        rw [Bool.eq_false_iff] at hnodir ⊢
        exact fun hdir => hnodir (isDir_mono (grows_atTrash env w) hdir)
      refine (hitself rfl hnodir').imp_left fun hnolink p' link hp' => ?_
      obtain rfl := Option.some.inj (hown.symm.trans hp')
      have hsame := hintact []
      rw [List.append_nil] at hsame
      rw [hsame]
      exact hnolink p link hp
    obtain ⟨hexists', p', q, hp', hq, hmoved⟩ := relocated_of_rename hvacated hitself' hrename
    obtain rfl := Option.some.inj ((own_of_entry (grows_atTrash env w) hexists hp').symm.trans hp)
    obtain ⟨d, hd, rfl⟩ := leads_of_entry hq
    have hd' := leads_atTrash hd
    exact ⟨d ++ [name], Or.inl ⟨d, name, hd', rfl⟩,
      taken_atTrash hd' (hout d hd') (taken_of_relocated hp' hthere hmoved)⟩
  · refine .inr ⟨hstep, fun rel => ?_, fun hnext => ?_⟩
    · rw [intact_copyAway hthere hapart hnoMerge hvacated h hstep, hintact]
    · obtain ⟨m, success, hnode, hcalls, hcopy, hended⟩ :
          ∃ m success, m.tree.node = (atTrash env w).tree.node ∧
            (env.isDir (atTrash env w).tree path = true →
              m.calls .remove = (atTrash env w).calls .remove) ∧
              copyAny env fuel path (env.trashDir ++ [name]) m = (success, v) ∧
                (success = some true ∧ step = .next ∨
                  success ≠ some true ∧ step = .ended success) := by
        rcases copyAway_outcome hvacated h with ⟨hrenamed, -⟩ | ⟨-, ⟨-, hnot, -⟩ | hcopied⟩
        · exact absurd hrenamed hstep
        · exact absurd hnext hnot
        · exact hcopied
      obtain ⟨rfl, -⟩ := hended.resolve_right fun hended => by cases hnext.symm.trans hended.2
      have hfree : env.exists m.tree (env.trashDir ++ [name]) = false := by
        refine Bool.eq_false_iff.mpr fun htarget => ?_
        apply (copyAny_of_exists fuel htarget _).1 (congrArg Prod.fst hcopy)
        rwa [isDir_of_node hnode, isDir_of_node hnode]
      obtain ⟨q, hq, hnone, -⟩ := plain_of_copyAny hfree hcopy
      have hq' := place_of_node hnode hq
      have hout' := hapart q hq' (by rwa [hnode] at hnone)
      obtain ⟨d, hd, rfl⟩ := leads_of_place hq'
      refine ⟨m, d, hnode, fun hdir => ?_, hfree, leads_atTrash hd, hq, hout', hcopy⟩
      rw [hcalls (isDir_mono (grows_atTrash env w) hdir), hmkpath .remove (by decide)]

/-- **A delete into the Trash** fails and leaves the path as it was, or took it to the Trash. -/
theorem performDelete_outcome (hexists : env.exists w.tree path = true)
    (hp : env.own w.tree path = some p) (hdiscards : Discards env fuel path w)
    (h : performDelete env fuel path false w = (some success, w')) :
    (success = false ∧ ∀ rel, w'.tree.node (p ++ rel) = w.tree.node (p ++ rel)) ∨
      success = true ∧ ∃ q, env.TrashEntry w.tree q ∧ Taken env w.tree w'.tree path p q := by
  rw [performDelete, if_pos hexists, if_neg Bool.false_ne_true, moveToTrash] at h
  rcases gioTrash_outcome env path w with ⟨hleft, hgio⟩ | ⟨p', place, u, hplace, hp', hmoved, hgio⟩
  · have hroom := hdiscards.room hexists hleft
    obtain ⟨name, hname⟩ := exists_trashTarget env (atTrash env w).tree path
    have htrash : copyToTrash env fuel path w =
        copyAway env fuel path (env.trashDir ++ [name]) (atTrash env w) := by
      rw [copyToTrash_eq hgio, ← hname]
      rfl
    have hitself := hdiscards.itself hleft
    rw [htrash] at hitself
    cases haway : copyAway env fuel path (env.trashDir ++ [name]) (atTrash env w) with
    | mk step v =>
        rw [haway] at hitself
        rw [htrash, haway] at h
        rcases atTrash_cases hexists hp hroom hitself hname haway with
          ⟨rfl, htaken⟩ | ⟨hnot, hkept, hnext⟩
        · obtain ⟨hsuccess, rfl⟩ := Prod.mk.inj h
          exact Or.inr ⟨(Option.some.inj hsuccess).symm, htaken⟩
        · cases step with
          | ended result =>
              obtain ⟨rfl, rfl⟩ := Prod.mk.inj h
              refine Or.inl ⟨Bool.eq_false_iff.mpr fun heq => hnot ?_, hkept⟩
              rw [heq]
          | next =>
              obtain ⟨m, d, hnode, hcalls, hfree, hd, hq, hapart, hcopy⟩ := hnext rfl
              have hdeletable := hdiscards.removable (congrArg Prod.fst (htrash.trans haway))
              have hle : w.tree ≤ m.tree := le_trans (grows_atTrash env w) (le_of_node hnode)
              have hout : ∀ d, env.Leads w.tree env.trashDir d → ¬ p <+: d :=
                fun d => hroom.apart p d hp
              have hsame : ∀ p', env.own w.tree path = some p' →
                  ∀ rel, m.tree.node (p' ++ rel) = w.tree.node (p' ++ rel) := by
                intro p' hp' rel
                obtain rfl := Option.some.inj (hp'.symm.trans hp)
                rw [hnode, intact_atTrash hout]
              rcases removed_of_next (own_mono hle hp) hapart hfree hq hcopy
                (hdeletable.of_ge hle (hcalls hdeletable.1) hsame) h with ⟨rfl, hv⟩ | ⟨rfl, htaken⟩
              · rw [hv]
                exact Or.inl ⟨rfl, hkept⟩
              · refine Or.inr ⟨rfl, d ++ [name], Or.inl ⟨d, name, hd, rfl⟩, ?_⟩
                apply taken_atTrash hd (hout d hd)
                exact htaken.of_made (le_of_node hnode) fun r hr => absurd (congrFun hnode r) hr
  · -- `gio` takes it
    rw [copyToTrash, hgio] at h
    obtain ⟨hsuccess, rfl⟩ := Prod.mk.inj h
    obtain rfl := Option.some.inj ((own_of_entry (le_refl w.tree) hexists hp').symm.trans hp)
    refine Or.inr ⟨(Option.some.inj hsuccess).symm, place, Or.inr hplace, ?_⟩
    exact taken_of_relocated hp' (node_of_exists hexists hp) hmoved

end Discarding

/-! ## Nothing is lost -/

section Losing

variable {env : Env} {fuel : ℕ} {t u : Tree} {call : Call} {path source dest target : Path}
    {target? : Option Path}
  {p q : List String} {success : Bool} {v w w' : World}

/-- A failure that leaves the source as it was is lossless. -/
theorem lossless_of_intact
    (hsame : ∀ p, env.own t source = some p → ∀ rel, u.node (p ++ rel) = t.node (p ++ rel))
    (hstill : ∀ dest, call = .move source dest → dest = source ∨ target? = some source →
      u.node = t.node) :
    Lossless env t u call source target? false where
  content p rel _ hp hfile :=
    ⟨p ++ rel, (hsame p hp rel).trans hfile, Or.inl (List.prefix_append p rel)⟩
  gone := nofun
  arrived := nofun
  intact _ := hsame
  still := hstill

/-- A success for which all of the source has arrived is lossless. -/
theorem lossless_of_arrived (hp : env.own t source = some p)
    (hmissing : env.exists u source = false)
    (hgone : u.node p = none) (hq : env.Arrival t target? q)
    (harrived : ∀ rel, u.node (q ++ rel) = t.node (p ++ rel))
    (hstill : ∀ dest, call = .move source dest → dest = source ∨ target? = some source →
      u.node = t.node) :
    Lossless env t u call source target? true := by
  refine ⟨fun p' rel content hp' hfile => ?_, fun _ => ⟨hmissing, fun p' hp' => ?_⟩,
    fun _ p' hp' _ => ?_, nofun, hstill⟩
  · obtain rfl := Option.some.inj (hp'.symm.trans hp)
    exact ⟨q ++ rel, (harrived rel).trans hfile, Or.inr ⟨q, hq, List.prefix_append q rel⟩⟩
  · obtain rfl := Option.some.inj (hp'.symm.trans hp)
    exact hgone
  · obtain rfl := Option.some.inj (hp'.symm.trans hp)
    exact ⟨q, hq, harrived⟩

theorem lossless_performDelete (hdiscards : Discards env fuel path w)
    (h : performDelete env fuel path false w = (some success, w')) :
    Lossless env w.tree w'.tree (.delete path false) path none success := by
  cases hexists : env.exists w.tree path with
  | true =>
      obtain ⟨p, hp⟩ := exists_own hexists
      rcases performDelete_outcome hexists hp hdiscards h with ⟨rfl, hsame⟩ | ⟨rfl, q, hq, htaken⟩
      · refine lossless_of_intact (fun p' hp' => ?_) nofun
        obtain rfl := Option.some.inj (hp'.symm.trans hp)
        exact hsame
      · exact lossless_of_arrived hp htaken.missing htaken.gone hq htaken.arrived nofun
  | false =>
      -- nothing is there
      rw [performDelete, if_neg (Bool.eq_false_iff.mp hexists)] at h
      obtain ⟨hsuccess, rfl⟩ := Prod.mk.inj h
      obtain rfl := Option.some.inj hsuccess
      have hnone := hdiscards.noLink hexists
      refine ⟨fun p rel content hp hfile => ?_, fun _ => ⟨hexists, hnone⟩, fun _ p hp hthere => ?_,
        nofun, nofun⟩
      · nomatch hfile.symm.trans (FileTree.node_append_eq_none (hnone p hp) rel)
      · exact absurd (hnone p hp) hthere

/-- What is not there is not copied. -/
theorem copyAny_of_missing (fuel : ℕ) (target : Path) (hexists : env.exists w.tree source = false) :
    (copyAny env fuel source target w).1 ≠ some true ∧
    (copyAny env fuel source target w).2.tree = w.tree := by
  have hmissing := Bool.eq_false_iff.mp hexists
  unfold copyAny
  rw [if_neg fun hdir => hmissing (exists_of_isDir hdir)]
  rcases attempt_cases env .make (QFile.copied env source target) w with hfail | ⟨u, -, hcopied, -⟩
  · rw [QFile.copy, hfail]
    exact ⟨by simp, rfl⟩
  · obtain ⟨p, _, _, hp, -⟩ := copied_eq_some hcopied
    exact absurd (exists_of_locate hp) hmissing

/-- What is moved onto itself finds that its name is taken. -/
theorem Moves.onto (hmoves : Moves env fuel source dest target w)
    (htarget : target = resolveDestination env w.tree source dest)
    (hexists : env.exists w.tree source = true)
    (honto : dest = source ∨ target = source) :
    (QFile.rename env source target w).1 ≠ some true ∧ env.exists w.tree target = true := by
  by_cases hsame : target = source
  · subst hsame
    refine ⟨fun hsuccess => ?_, hexists⟩
    rw [rename_of_taken hexists] at hsuccess
    cases hsuccess
  · obtain rfl := honto.resolve_right hsame
    have hdir : env.isDir w.tree dest = true := by
      by_contra hnodir
      exact hsame (htarget.trans (if_neg hnodir))
    obtain ⟨hfail, htaken⟩ := hmoves.notOnto rfl hdir
    exact ⟨by simp [hfail], htaken⟩

/-- What was copied and then taken to the Trash has arrived where it was copied to. -/
theorem arrived_of_taken {x : List String} (hp : w.tree.node p ≠ none)
    (hq : env.Place w.tree target q)
    (hout : ¬ p <+: q) (hcopied : ∀ rel, v.tree.node (q ++ rel) = w.tree.node (p ++ rel))
    (hx : ¬ q <+: x)
    (htaken : Taken env v.tree w'.tree source p x) (rel : List String) :
    w'.tree.node (q ++ rel) = w.tree.node (p ++ rel) := by
  rw [← hcopied]
  by_contra hchanged
  rcases htaken.kept _ (hq.not_below hp hout rel) hchanged with habove | hbelow
  · exact hx ((List.prefix_append q rel).trans habove)
  · rcases List.prefix_or_prefix_of_prefix hbelow (List.prefix_append q rel) with hxq | hqx
    · have hcopy := hcopied []
      rw [List.append_nil, List.append_nil] at hcopy
      exact hp (hcopy.symm.trans (FileTree.node_eq_none_beneath htaken.free hxq))
    · exact hx hqx

theorem still_of_onto (h : dest = source ∨ target = source → u.node = t.node) (dest' : Path)
    (hcall : Call.move source dest = .move source dest')
    (honto : dest' = source ∨ some target = some source) :
    u.node = t.node := by
  obtain ⟨-, rfl⟩ := Call.move.inj hcall
  exact h (honto.imp_right Option.some.inj)

/-- The source was copied to the target, and is as it was. -/
structure CopiedAway (env : Env) (fuel : ℕ) (source target : Path) (w v : World)
    (p q : List String) : Prop where
  there : env.exists w.tree source = true
  own : env.own w.tree source = some p
  free : env.exists w.tree target = false
  place : env.Place w.tree target q
  apart : ¬ p <+: q
  grown : GrownAt w.tree v.tree q
  intact : ∀ rel, v.tree.node (p ++ rel) = w.tree.node (p ++ rel)
  calls : env.isDir w.tree source = true → v.calls .remove = w.calls .remove
  copied : ∃ m, m.tree.node = w.tree.node ∧ copyAny env fuel source target m = (some true, v)

theorem Moves.copiedAway (hmoves : Moves env fuel source dest target w)
    (haway : copyAway env fuel source target w = (.next, v)) :
    ∃ p q, CopiedAway env fuel source target w v p q := by
  rcases copyAway_outcome hmoves.vacated haway with
    ⟨hended, -⟩ | ⟨hfail, ⟨-, hnot, -⟩ | ⟨m, success, hnode, hcalls, hcopy, hstep⟩⟩
  · cases hended
  · exact absurd rfl hnot
  obtain ⟨rfl, -⟩ := hstep.resolve_right fun hended => by cases hended.2
  have hnoMerge := hmoves.noMerge hfail
  have hexists : env.exists w.tree source = true := by
    rw [← exists_of_node hnode]
    exact exists_of_copyAny (congrArg Prod.fst hcopy)
  have hfree : env.exists m.tree target = false := by
    refine Bool.eq_false_iff.mpr fun hthere => ?_
    apply (copyAny_of_exists fuel hthere _).1 (congrArg Prod.fst hcopy)
    rwa [isDir_of_node hnode, isDir_of_node hnode]
  obtain ⟨p, hp⟩ := exists_own hexists
  obtain ⟨q, hq, -⟩ := plain_of_copyAny hfree hcopy
  have hplace := place_of_node hnode hq
  have hapart := hmoves.apart hfail p q hp hplace
  refine ⟨p, q, hexists, hp, by rwa [← exists_of_node hnode], hplace, hapart, ⟨?_, ?_⟩, ?_, ?_,
    m, hnode, hcopy⟩
  · have hgrows := grows_copyAny env fuel source target m (le_refl m.tree)
    rw [hcopy] at hgrows
    exact le_trans (le_of_node hnode) hgrows
  · intro r hr
    rw [← hnode] at hr
    have hchanged : (copyAny env fuel source target m).2.tree.node r ≠ m.tree.node r := by
      rwa [hcopy]
    exact changed_copyAny hfree hq hchanged
  · intro rel
    exact intact_copyAway (node_of_exists hexists hp)
      (fun q' hq' _ => by rwa [hq'.unique hplace]) hnoMerge hmoves.vacated haway (by simp) rel
  · intro hdir
    have hkept := removals_copyAny env fuel source target _ m rfl
    rw [hcopy] at hkept
    exact hkept.trans (hcalls hdir)

theorem copyAwayToTrash_eq (haway : copyAway env fuel source target w = (.next, v)) :
    copyAwayToTrash env fuel source target w = (copyToTrash env fuel source v).1 := by
  rw [copyAwayToTrash, haway]

/-- What was copied goes to the Trash as it should. -/
theorem Moves.discards (hmoves : Moves env fuel source dest target w)
    (haway : copyAway env fuel source target w = (.next, v)) : Discards env fuel source v := by
  obtain ⟨p, q, haway'⟩ := hmoves.copiedAway haway
  have hnext := congrArg Prod.fst haway
  have hexists := exists_mono haway'.grown.le haway'.there
  have hstep := copyAwayToTrash_eq haway
  refine ⟨fun hmissing => ?_, fun _ => ?_, fun _ hrenamed _ => ?_, fun hcopied => ?_⟩
  · cases hexists.symm.trans hmissing
  · exact hmoves.room hnext q v.tree haway'.place haway'.grown
  · -- it is plain, so it is no link
    have hreaches : copyAwayToTrash env fuel source target w ≠ .ended (some false) := by
      rw [hstep, hrenamed]
      simp
    obtain ⟨hplain, -⟩ := hmoves.reaches hnext hreaches p q haway'.own haway'.place
    refine .inl fun p' link hp' => ?_
    obtain rfl := Option.some.inj ((own_mono haway'.grown.le haway'.own).symm.trans hp')
    have hsame := haway'.intact []
    have hlinkFree := hplain.linkFree [] link
    rw [List.append_nil] at hsame hlinkFree
    rwa [hsame]
  · have hdeletable := hmoves.removable (hstep.trans hcopied)
    apply hdeletable.of_ge haway'.grown.le (haway'.calls hdeletable.1)
    intro p' hp'
    obtain rfl := Option.some.inj (hp'.symm.trans haway'.own)
    exact haway'.intact

/-- **What was copied** and goes to the Trash then is moved without loss. -/
theorem lossless_of_next (hmoves : Moves env fuel source dest target w)
    (htarget : target = resolveDestination env w.tree source dest)
    (haway : copyAway env fuel source target w = (.next, v))
    (h : performDelete env fuel source false v = (some success, w')) :
    Lossless env w.tree w'.tree (.move source dest) source (some target) success := by
  obtain ⟨p, q, haway'⟩ := hmoves.copiedAway haway
  have hnext := congrArg Prod.fst haway
  have hthere := node_of_exists haway'.there haway'.own
  have honto : ¬ (dest = source ∨ target = source) := by
    intro honto
    cases (hmoves.onto htarget haway'.there honto).2.symm.trans haway'.free
  have hexists := exists_mono haway'.grown.le haway'.there
  rcases performDelete_outcome hexists (own_mono haway'.grown.le haway'.own)
    (hmoves.discards haway) h with ⟨rfl, hsame⟩ | ⟨rfl, x, hx, htaken⟩
  · refine lossless_of_intact (fun p' hp' rel => ?_) (still_of_onto fun hsame => absurd hsame honto)
    obtain rfl := Option.some.inj (hp'.symm.trans haway'.own)
    rw [hsame, haway'.intact]
  · -- the source went to the Trash, so it was plain and was copied as it was
    have hreaches : copyAwayToTrash env fuel source target w ≠ .ended (some false) := by
      rw [copyAwayToTrash_eq haway]
      intro hfailed
      cases htrash : copyToTrash env fuel source v with
      | mk step m =>
          rw [htrash] at hfailed
          obtain rfl : step = .ended (some false) := hfailed
          rw [performDelete, if_pos hexists, if_neg Bool.false_ne_true, moveToTrash, htrash] at h
          cases h
    obtain ⟨hplain, hleads, hgio⟩ := hmoves.reaches hnext hreaches p q haway'.own haway'.place
    obtain ⟨m, hnode, hcopy⟩ := haway'.copied
    have hfree : env.exists m.tree target = false := by
      rw [exists_of_node hnode]
      exact haway'.free
    obtain ⟨q', hq', -, hownq, -, -⟩ := plain_of_copyAny hfree hcopy
    obtain rfl := (place_of_node hnode hq').unique haway'.place
    have hp : env.own m.tree source = some p := (own_of_node hnode source).trans haway'.own
    have hplain' : Plain m.tree p := hplain.of_copied fun rel => (congrFun hnode _).symm
    obtain ⟨p', q'', hp', hq'', hcopied⟩ :=
      (faithful_of_plain hfree hp hq' hplain' haway'.apart hcopy).copied
    obtain rfl := Option.some.inj (hp'.symm.trans hp)
    obtain rfl := Option.some.inj (hq''.symm.trans hownq)
    rw [hnode] at hcopied
    have hcopy : v.tree.node q'' = w.tree.node p' := by
      have htop := hcopied []
      rwa [List.append_nil, List.append_nil] at htop
    have hx' : ¬ q'' <+: x := by
      rcases hx with ⟨d, name, hd, rfl⟩ | hgio'
      · intro hpre
        rcases List.prefix_concat_iff.mp hpre with rfl | hqd
        · exact hthere (hcopy.symm.trans htaken.free)
        · exact hleads v.tree d haway'.grown hd hqd
      · exact hgio x hgio'
    have harrival : env.Arrival w.tree (some target) q'' := Or.inr haway'.place
    apply lossless_of_arrived haway'.own htaken.missing htaken.gone harrival
    · exact arrived_of_taken hthere haway'.place haway'.apart hcopied hx' htaken
    · exact still_of_onto fun hsame => absurd hsame honto

/-- **What could not be copied** is as it was. -/
theorem lossless_of_uncopied {step : Progress} (hmoves : Moves env fuel source dest target w)
    (htarget : target = resolveDestination env w.tree source dest)
    (hfail : (QFile.rename env source target w).1 = some false)
    (haway : copyAway env fuel source target w = (step, v)) (hstep : step ≠ .ended (some true)) :
    Lossless env w.tree v.tree (.move source dest) source (some target) false := by
  have hnoMerge := hmoves.noMerge hfail
  cases hexists : env.exists w.tree source with
  | false =>
      -- nothing is there, so nothing is done
      rcases copyAway_cases haway with ⟨hended, -⟩ | ⟨m, success, hrename, hcopy, -⟩
      · exact absurd hended hstep
      · obtain ⟨-, rfl⟩ := Prod.mk.inj ((rename_of_missing hexists).symm.trans hrename)
        have hsame := (copyAny_of_missing fuel target hexists).2
        rw [hcopy] at hsame
        rw [hsame]
        exact lossless_of_intact (fun _ _ _ => rfl) (still_of_onto fun _ => rfl)
  | true =>
      apply lossless_of_intact
      · intro p hp rel
        exact intact_copyAway (node_of_exists hexists hp)
          (fun q hq _ => hmoves.apart hfail p q hp hq) hnoMerge hmoves.vacated haway hstep rel
      · apply still_of_onto
        intro honto
        have hthere := (hmoves.onto htarget hexists honto).2
        rcases copyAway_cases haway with ⟨hended, -⟩ | ⟨m, success, hrename, hcopy, -⟩
        · exact absurd hended hstep
        · obtain ⟨-, rfl⟩ := Prod.mk.inj ((rename_of_taken hthere).symm.trans hrename)
          have hsame := (copyAny_of_exists fuel hthere hnoMerge).2
          rw [hcopy] at hsame
          rw [hsame]

theorem lossless_performMove (hmoves : Moves env fuel source dest target w)
    (htarget : target = resolveDestination env w.tree source dest)
    (h : performMove env fuel source target w = (some success, w')) :
    Lossless env w.tree w'.tree (.move source dest) source (some target) success := by
  cases haway : copyAway env fuel source target w with
  | mk step v =>
      rw [performMove, haway] at h
      cases step with
      | next => exact lossless_of_next hmoves htarget haway h
      | ended result =>
          obtain ⟨rfl, rfl⟩ := Prod.mk.inj h
          rcases copyAway_cases haway with ⟨hended, hrename⟩ | ⟨m, result, hrename, -, hstep⟩
          · -- it is renamed
            obtain rfl := Option.some.inj (Progress.ended.inj hended)
            obtain ⟨hexists, p, q, hp, hq, hmoved⟩ :=
              relocated_of_rename hmoves.vacated (hmoves.itself (congrArg Prod.fst hrename)) hrename
            have hown := own_of_entry (le_refl w.tree) hexists hp
            have htaken := taken_of_relocated hp (node_of_exists hexists hown) hmoved
            have harrival : env.Arrival w.tree (some target) q :=
              Or.inr (place_of_entry hq htaken.free)
            apply lossless_of_arrived hown htaken.missing htaken.gone harrival htaken.arrived
            refine still_of_onto fun honto => ?_
            exact absurd (congrArg Prod.fst hrename) (hmoves.onto htarget hexists honto).1
          · obtain ⟨hnot, hended⟩ := hstep.resolve_left fun hnext => by cases hnext.2
            obtain rfl := Progress.ended.inj hended
            obtain rfl : success = false :=
              Bool.eq_false_iff.mpr fun heq => hnot (congrArg some heq)
            exact lossless_of_uncopied hmoves htarget (congrArg Prod.fst hrename) haway (by simp)

end Losing

/-- **A move or a delete into the Trash** with which nothing goes wrong loses nothing and tells the
truth. -/
theorem lossless_of_careful {env : Env} {fuel : ℕ} {call : Call} {source : Path}
    {target : Option Path} {w w' : World}
    {success : Bool} {error : String} (hcall : Carries env w.tree call source target)
    (hcareful : Careful env fuel w call)
    (hrun : perform env fuel call w = (some ⟨success, error⟩, w')) :
    Lossless env w.tree w'.tree call source target success := by
  cases hcall with
  | move source dest => exact lossless_performMove hcareful rfl (of_finished hrun)
  | trash path => exact lossless_performDelete hcareful (of_finished hrun)

/-! ## Examples of moves and deletes -/

/-- These calls of primitives fail, and no others. -/
def failingAt (calls : List (Primitive × ℕ)) : Env :=
  { calmEnv with fails := fun primitive call => (primitive, call) ∈ calls }

/-- Where there is no Trash, it would be made where its path says. -/
theorem place_trash {calls : List (Primitive × ℕ)} {t : Tree} (h : t.node ["Trash"] = none) :
    (failingAt calls).Place t ["Trash", "files"] ["Trash", "files"] := by
  refine ⟨[], "Trash", ["files"], [], rfl, FileTree.locate_nil, ?_, rfl⟩
  rw [Bool.eq_false_iff]
  intro hexists
  obtain ⟨d, hd⟩ := Option.isSome_iff_exists.mp hexists
  obtain ⟨e, he, hthere⟩ := FileTree.entry_of_locate (by simp) hd
  obtain ⟨d', hd', -, rfl⟩ :=
    FileTree.entry_concat.mp (show t.entry _ ([] ++ ["Trash"]) = _ from he)
  obtain rfl := Option.some.inj (hd'.symm.trans FileTree.locate_nil)
  exact hthere h

/-- A folder that cannot be renamed is copied, and goes to the Trash. -/
theorem lossless_moving :
    ∃ w, perform (failingAt [(.rename, 0)]) 3 (.move ["home"] ["backup"]) ⟨home, 0⟩ =
        (some ⟨true, ""⟩, w) ∧
      Lossless (failingAt [(.rename, 0)]) home w.tree (.move ["home"] ["backup"]) ["home"]
        (some ["backup"]) true ∧
      w.tree.node ["backup", "New File"] = some (.file "draft") ∧
      w.tree.node ["Trash", "files", "home", "New File"] = some (.file "draft") := by
  generalize henv : failingAt [(.rename, 0)] = env
  have hrun : (perform env 3 (.move ["home"] ["backup"]) ⟨home, 0⟩).1 = some ⟨true, ""⟩ := by
    subst henv
    decide +kernel
  have htarget : resolveDestination env home ["home"] ["backup"] = ["backup"] := by
    subst henv
    decide +kernel
  have hcall : Carries env home (.move ["home"] ["backup"]) ["home"] (some ["backup"]) := by
    have h : Carries env home _ _ _ := .move ["home"] ["backup"]
    rwa [htarget] at h
  have hown : env.own home ["home"] = some ["home"] := by
    subst henv
    decide +kernel
  have hdir : env.isDir home ["home"] = true := by
    subst henv
    decide +kernel
  have hplace : env.Place home ["backup"] ["backup"] := by
    subst henv
    exact ⟨[], "backup", [], [], rfl, by decide +kernel, by decide +kernel, rfl⟩
  -- whatever the copy makes of the tree, it does not make the Trash
  have htrash : ∀ u, GrownAt home u ["backup"] →
      env.Place u env.trashDir ["Trash", "files"] := by
    intro u hgrown
    subst henv
    apply place_trash
    by_contra hmade
    have hnone : home.node ["Trash"] = none := by decide +kernel
    rw [← ne_eq, ← hnone] at hmade
    exact absurd (hgrown.near ["Trash"] hmade) (by decide)
  have hleads : ∀ u d, GrownAt home u ["backup"] → env.Leads u env.trashDir d →
      d = ["Trash", "files"] := by
    intro u d hgrown hd
    refine (hd.resolve_left fun hlocate => ?_).unique (htrash u hgrown)
    cases (exists_of_locate hlocate).symm.trans (htrash u hgrown).not_exists
  have hmoves : Moves env 3 ["home"] ["backup"] ["backup"] ⟨home, 0⟩ := by
    refine ⟨fun _ p q hp hq => ?_, fun _ hdirs => ?_, fun honto => ?_, fun hnodir => ?_,
      fun _ hnodir => ?_, fun _ q u hq hgrown _ => ⟨fun p d hp hd => ?_, fun hdirs => ?_,
      fun hnodir => ?_⟩, fun _ _ p q hp hq => ⟨?_, fun u d hgrown hd => ?_, fun place hgio => ?_⟩,
      fun hnext => ?_⟩
    · obtain rfl := Option.some.inj (hp.symm.trans hown)
      obtain rfl := hq.unique hplace
      decide
    · cases (exists_of_isDir hdirs.2).symm.trans hplace.not_exists
    · simp at honto
    · cases hnodir.symm.trans hdir
    · cases hnodir.symm.trans hdir
    · obtain rfl := hq.unique hplace
      obtain rfl := Option.some.inj (hp.symm.trans (own_mono hgrown.le hown))
      obtain rfl := hleads u d hgrown hd
      decide
    · obtain rfl := hq.unique hplace
      obtain ⟨name, hname⟩ := exists_trashTarget env u ["home"]
      have htarget' := exists_of_isDir hdirs.2
      rw [hname] at htarget'
      cases htarget'.symm.trans (htrash u hgrown).below.not_exists
    · cases hnodir.symm.trans (isDir_mono hgrown.le hdir)
    · obtain rfl := Option.some.inj (hp.symm.trans hown)
      decide +kernel
    · obtain rfl := hq.unique hplace
      obtain rfl := hleads u d hgrown hd
      decide
    · subst henv
      cases hgio
    · have hrenamed : copyAwayToTrash env 3 ["home"] ["backup"] ⟨home, 0⟩ = .ended (some true) := by
        subst henv
        decide +kernel
      cases hrenamed.symm.trans hnext
  have hcareful : Careful env 3 ⟨home, 0⟩ (.move ["home"] ["backup"]) := by
    have h : Moves env 3 ["home"] ["backup"] (resolveDestination env home ["home"] ["backup"])
        ⟨home, 0⟩ := by
      rwa [htarget]
    exact h
  refine ⟨_, Prod.ext hrun rfl, lossless_of_careful hcall hcareful (Prod.ext hrun rfl), ?_, ?_⟩
  · subst henv
    decide +kernel
  · subst henv
    decide +kernel

/-- A file that can neither be renamed nor removed is copied to the Trash, and stays. -/
theorem not_lossless_file :
    ¬ ∀ env fuel call source target w w' success error, Carries env w.tree call source target →
      perform env fuel call w = (some ⟨success, error⟩, w') →
        Lossless env w.tree w'.tree call source target success := by
  intro h
  have hrun : (perform (failingAt [(.rename, 0), (.remove, 0)]) 3
      (.delete ["home", "New File"] false) ⟨home, 0⟩).1 = some ⟨true, ""⟩ := by
    decide +kernel
  have hlossless := h (failingAt [(.rename, 0), (.remove, 0)]) 3 _ ["home", "New File"] none
    ⟨home, 0⟩ _ true "" (.trash _) (Prod.ext hrun rfl)
  have hstays : (failingAt [(.rename, 0), (.remove, 0)]).exists
      (perform (failingAt [(.rename, 0), (.remove, 0)]) 3
        (.delete ["home", "New File"] false) ⟨home, 0⟩).2.tree ["home", "New File"] = true := by
    decide +kernel
  cases hstays.symm.trans (hlossless.gone rfl).1

end NiraOS.Files
