import Mathlib.Data.List.Basic
import Mathlib.Data.List.Dedup
import Mathlib.Data.List.Induction
import Mathlib.Order.Defs.PartialOrder
import Mathlib.Tactic.Common

/-!
# File trees with symbolic links

A file tree gives every location, a list of names from the root, the file,
directory or symbolic link that is there, if any.  It is finite, its root is a
directory, and whatever it holds lies in a directory.

A path is resolved from the root.  Every symbolic link on the way uses up one of a
number of links that may be followed, so resolution ends in any tree.  What resolves
in a tree resolves to the same location in every larger one (`locate_mono`).
-/

/-- A step of the text of a symbolic link. -/
inductive Step (Name : Type*)
  | stay
  | up
  | down (name : Name)
  deriving DecidableEq

structure LinkTarget (Name : Type*) where
  absolute : Bool
  steps : List (Step Name)
  deriving DecidableEq

inductive Node (Name Content : Type*)
  | file (content : Content)
  | dir
  | link (target : LinkTarget Name)
  deriving DecidableEq

structure FileTree (Name Content : Type*) where
  node : List Name → Option (Node Name Content)
  support : List (List Name)
  mem_support : ∀ q, node q ≠ none → q ∈ support
  root : node [] = some .dir
  parent : ∀ p name, node (p ++ [name]) ≠ none → node p = some .dir

namespace FileTree

variable {Name Content : Type*} (t : FileTree Name Content)

/-! ## Ancestors -/

section Ancestors

variable {t} {p q : List Name} {name : Name}

/-- What lies strictly below a location lies in a directory there. -/
theorem dir_of_below {rel : List Name} (hrel : rel ≠ []) (h : t.node (p ++ rel) ≠ none) :
    t.node p = some .dir := by
  induction rel using List.reverseRecOn with
  | nil => exact absurd rfl hrel
  | append_singleton rel name ih =>
      have hdir := t.parent (p ++ rel) name (by rwa [List.append_assoc])
      by_cases hrel : rel = []
      · rwa [hrel, List.append_nil] at hdir
      · exact ih hrel (by rw [hdir]; nofun)

/-- Nothing lies below a location that is not a directory. -/
theorem node_below_eq_none (h : t.node p ≠ some .dir) {rel : List Name} (hrel : rel ≠ []) :
    t.node (p ++ rel) = none := by
  by_contra hne
  exact h (dir_of_below hrel hne)

/-- Nothing lies at or below a free location. -/
theorem node_append_eq_none (h : t.node p = none) (rel : List Name) : t.node (p ++ rel) = none := by
  by_cases hrel : rel = []
  · rw [hrel, List.append_nil, h]
  · exact node_below_eq_none (by rw [h]; nofun) hrel

theorem node_eq_none_beneath (h : t.node p = none) (hpq : p <+: q) : t.node q = none := by
  obtain ⟨rel, rfl⟩ := hpq
  exact node_append_eq_none h rel

/-- A location and one that is free: the free one is not above. -/
theorem not_prefix_of_occupied (hp : t.node p = none) (hq : t.node q ≠ none) : ¬ p <+: q :=
  fun hpq => hq (node_eq_none_beneath hp hpq)

end Ancestors

/-! ## Listing a directory -/

section Children

variable [DecidableEq Name]

/-- The names in a directory, each once. -/
def children (p : List Name) : List Name :=
  (t.support.filterMap fun q =>
    if (t.node q).isSome = true ∧ q.dropLast = p then q.getLast? else none).dedup

theorem nodup_children (p : List Name) : (t.children p).Nodup := List.nodup_dedup _

theorem mem_children {p : List Name} {name : Name} :
    name ∈ t.children p ↔ t.node (p ++ [name]) ≠ none := by
  rw [children, List.mem_dedup, List.mem_filterMap]
  constructor
  · rintro ⟨q, -, h⟩
    split_ifs at h with hq
    obtain ⟨hsome, rfl⟩ := hq
    rw [List.dropLast_append_getLast? name h]
    exact Option.isSome_iff_ne_none.mp hsome
  · intro h
    exact ⟨p ++ [name], t.mem_support _ h, by simp [Option.isSome_iff_ne_none.mpr h]⟩

end Children

/-! ## Resolving paths -/

section Resolve

/-- Follow steps from a location, given how a link met on the way is followed. -/
def walk (follow : List Name → List (Step Name) → Option (List Name × ℕ)) (budget : ℕ) :
    List Name → List (Step Name) → Option (List Name × ℕ)
  | cur, [] => some (cur, budget)
  | cur, step :: rest =>
      match t.node cur with
      | some .dir =>
          match step with
          | .stay => walk follow budget cur rest
          | .up => walk follow budget cur.dropLast rest
          | .down name =>
              match t.node (cur ++ [name]) with
              | none => none
              | some (.link target) =>
                  follow (if target.absolute then [] else cur) (target.steps ++ rest)
              | some _ => walk follow budget (cur ++ [name]) rest
      | _ => none

/-- Follow steps and at most `budget` links; with how many are left. -/
def resolve : ℕ → List Name → List (Step Name) → Option (List Name × ℕ)
  | 0 => t.walk (fun _ _ => none) 0
  | budget + 1 => t.walk (resolve budget) (budget + 1)

/-- Where the object named by a path is, with at most `limit` links on the way. -/
def locate (limit : ℕ) (path : List Name) : Option (List Name) :=
  (t.resolve limit [] (path.map .down)).map Prod.fst

/-- Where the entry named by a path is or would be: links on the way to it are
followed, but not the entry itself. -/
def entry (limit : ℕ) (path : List Name) : Option (List Name) :=
  match path.getLast? with
  | none => none
  | some name =>
      match t.locate limit path.dropLast with
      | none => none
      | some d =>
          match t.node d with
          | some .dir => some (d ++ [name])
          | _ => none

/-- Like `walk`, to a last name that is free. -/
def walkFree (follow : List Name → List (Step Name) → Option (List Name)) :
    List Name → List (Step Name) → Option (List Name)
  | _, [] => none
  | cur, step :: rest =>
      match t.node cur with
      | some .dir =>
          match step with
          | .stay => walkFree follow cur rest
          | .up => walkFree follow cur.dropLast rest
          | .down name =>
              match t.node (cur ++ [name]) with
              | none => if rest.isEmpty then some (cur ++ [name]) else none
              | some (.link target) =>
                  follow (if target.absolute then [] else cur) (target.steps ++ rest)
              | some _ => walkFree follow (cur ++ [name]) rest
      | _ => none

/-- Where a file would be created that steps lead to, a link at their end followed. -/
def landing : ℕ → List Name → List (Step Name) → Option (List Name)
  | 0 => t.walkFree fun _ _ => none
  | budget + 1 => t.walkFree (landing budget)

end Resolve

/-! ## Resolution in parts, and in larger trees -/

section ResolveLemmas

variable {t} {t' : FileTree Name Content}

theorem walk_append {follow : List Name → List (Step Name) → Option (List Name × ℕ)} {budget : ℕ}
    {ys : List (Step Name)} {last : List Name × ℕ → Option (List Name × ℕ)}
    (hfollow : ∀ cur xs, follow cur (xs ++ ys) = (follow cur xs).bind last)
    (hlast : ∀ cur, t.walk follow budget cur ys = last (cur, budget)) (cur : List Name)
    (xs : List (Step Name)) :
    t.walk follow budget cur (xs ++ ys) = (t.walk follow budget cur xs).bind last := by
  induction xs generalizing cur with
  | nil => exact hlast cur
  | cons step xs ih =>
      simp only [List.cons_append, walk]
      split
      · cases step with
        | stay => exact ih cur
        | up => exact ih cur.dropLast
        | down name =>
            dsimp only
            split
            · rfl
            · rw [← List.append_assoc]
              exact hfollow ..
            · exact ih (cur ++ [name])
      · rfl

/-- Steps in a row are followed one part after the other. -/
theorem resolve_append (budget : ℕ) (cur : List Name) (xs ys : List (Step Name)) :
    t.resolve budget cur (xs ++ ys) =
      (t.resolve budget cur xs).bind fun r => t.resolve r.2 r.1 ys := by
  induction budget generalizing cur xs with
  | zero => exact walk_append (fun _ _ => rfl) (fun _ => rfl) cur xs
  | succ budget ih => exact walk_append (fun _ _ => ih ..) (fun _ => rfl) cur xs

/-- `t'` holds what `t` holds. -/
instance : Preorder (FileTree Name Content) where
  le t t' := ∀ q n, t.node q = some n → t'.node q = some n
  le_refl _ _ _ h := h
  le_trans _ _ _ h h' q n hn := h' q n (h q n hn)

theorem eq_none_of_le (h : t ≤ t') {q : List Name} (hq : t'.node q = none) : t.node q = none := by
  cases hn : t.node q with
  | none => rfl
  | some n => nomatch hq.symm.trans (h q n hn)

theorem walk_mono (h : t ≤ t')
    {follow follow' : List Name → List (Step Name) → Option (List Name × ℕ)}
    {budget : ℕ} {r : List Name × ℕ}
    (hfollow : ∀ cur steps, follow cur steps = some r → follow' cur steps = some r)
    {cur : List Name}
    {steps : List (Step Name)} (hr : t.walk follow budget cur steps = some r) :
    t'.walk follow' budget cur steps = some r := by
  induction steps generalizing cur with
  | nil => exact hr
  | cons step steps ih =>
      unfold walk at hr ⊢
      cases hcur : t.node cur with
      | none =>
          rw [hcur] at hr
          nomatch hr
      | some n =>
          rw [hcur] at hr
          rw [h cur n hcur]
          cases n with
          | file => nomatch hr
          | link => nomatch hr
          | dir =>
              cases step with
              | stay => exact ih hr
              | up => exact ih hr
              | down name =>
                  cases hname : t.node (cur ++ [name]) with
                  | none =>
                      dsimp only at hr
                      rw [hname] at hr
                      nomatch hr
                  | some n =>
                      dsimp only at hr ⊢
                      rw [hname] at hr
                      rw [h _ n hname]
                      cases n with
                      | link target => exact hfollow _ _ hr
                      | file => exact ih hr
                      | dir => exact ih hr

/-- What is resolved stays so when more is there. -/
theorem resolve_mono (h : t ≤ t') {budget : ℕ} {cur : List Name} {steps : List (Step Name)}
    {r : List Name × ℕ} (hr : t.resolve budget cur steps = some r) :
    t'.resolve budget cur steps = some r := by
  induction budget generalizing cur steps with
  | zero =>
      change t.walk (fun _ _ => none) 0 cur steps = some r at hr
      refine walk_mono h ?_ hr
      exact fun _ _ hnone => nomatch hnone
  | succ budget ih => exact walk_mono h (fun _ _ => ih) hr

/-- An object: what a link may lead to in the end. -/
def IsObject (t : FileTree Name Content) (p : List Name) : Prop :=
  ∃ n, t.node p = some n ∧ ∀ target, n ≠ .link target

theorem isObject_root : t.IsObject [] := ⟨_, t.root, fun _ => nofun⟩

theorem isObject_dropLast {p : List Name} (h : t.IsObject p) : t.IsObject p.dropLast := by
  induction p using List.reverseRecOn with
  | nil => exact h
  | append_singleton p name _ =>
      obtain ⟨n, hn, -⟩ := h
      rw [List.dropLast_concat]
      exact ⟨_, t.parent p name (by rw [hn]; nofun), fun _ => nofun⟩

theorem isObject_of_walk {follow : List Name → List (Step Name) → Option (List Name × ℕ)}
    {budget : ℕ}
    {r : List Name × ℕ}
    (hfollow : ∀ cur steps, t.IsObject cur → follow cur steps = some r → t.IsObject r.1)
    {cur : List Name}
    {steps : List (Step Name)} (hcur : t.IsObject cur)
    (hr : t.walk follow budget cur steps = some r) :
    t.IsObject r.1 := by
  induction steps generalizing cur with
  | nil =>
      obtain rfl := Option.some.inj hr
      exact hcur
  | cons step steps ih =>
      unfold walk at hr
      split at hr
      · cases step with
        | stay => exact ih hcur hr
        | up => exact ih (isObject_dropLast hcur) hr
        | down name =>
            dsimp only at hr
            split at hr
            · nomatch hr
            · next target _ =>
                refine hfollow _ _ ?_ hr
                split
                · exact isObject_root
                · exact hcur
            · next n hnolink hn => exact ih ⟨n, hn, fun target heq => hnolink target heq⟩ hr
      · nomatch hr

theorem isObject_of_resolve {budget : ℕ} {cur : List Name} {steps : List (Step Name)}
    {r : List Name × ℕ}
    (hcur : t.IsObject cur) (hr : t.resolve budget cur steps = some r) : t.IsObject r.1 := by
  induction budget generalizing cur steps with
  | zero =>
      change t.walk (fun _ _ => none) 0 cur steps = some r at hr
      refine isObject_of_walk ?_ hcur hr
      exact fun _ _ _ hnone => nomatch hnone
  | succ budget ih => exact isObject_of_walk (fun _ _ hcur => ih hcur) hcur hr

end ResolveLemmas

/-! ## Locations and entries -/

section Locate

variable {t} {t' : FileTree Name Content} {limit : ℕ} {path : List Name} {d e : List Name}
    {name : Name}

theorem locate_nil : t.locate limit [] = some [] := by
  cases limit <;> rfl

theorem locate_mono (h : t ≤ t') (hd : t.locate limit path = some d) :
    t'.locate limit path = some d := by
  obtain ⟨r, hr, rfl⟩ := Option.map_eq_some_iff.mp hd
  exact Option.map_eq_some_iff.mpr ⟨r, resolve_mono h hr, rfl⟩

theorem isObject_of_locate (hd : t.locate limit path = some d) : t.IsObject d := by
  obtain ⟨r, hr, rfl⟩ := Option.map_eq_some_iff.mp hd
  exact isObject_of_resolve isObject_root hr

theorem resolve_down {n : Node Name Content} (budget : ℕ) (hn : t.node (d ++ [name]) = some n)
    (hnolink : ∀ target, n ≠ .link target) :
    t.resolve budget d [.down name] = some (d ++ [name], budget) := by
  have hdir := t.parent d name (by rw [hn]; nofun)
  cases n with
  | link target => exact absurd rfl (hnolink target)
  | file content => cases budget <;> simp only [resolve, walk, hdir, hn]
  | dir => cases budget <;> simp only [resolve, walk, hdir, hn]

theorem node_of_resolve_down {budget : ℕ} {r : List Name × ℕ}
    (hr : t.resolve budget d [.down name] = some r) : t.node (d ++ [name]) ≠ none := by
  intro hnone
  cases budget <;> simp only [resolve, walk, hnone] at hr <;> split at hr <;> nomatch hr

/-- A path is located through the path of its directory. -/
theorem locate_concat (he : t.locate limit (path ++ [name]) = some e) :
    ∃ d, t.locate limit path = some d ∧ t.node d = some .dir ∧ t.node (d ++ [name]) ≠ none := by
  obtain ⟨r, hr, rfl⟩ := Option.map_eq_some_iff.mp he
  rw [List.map_append, resolve_append] at hr
  obtain ⟨⟨d, budget⟩, hd, hr⟩ := Option.bind_eq_some_iff.mp hr
  have hnode := node_of_resolve_down hr
  exact ⟨d, Option.map_eq_some_iff.mpr ⟨_, hd, rfl⟩, t.parent d name hnode, hnode⟩

/-- The front of a path that leads somewhere leads somewhere, to a directory if there is more. -/
theorem exists_locate_of_append {rel : List Name} (he : t.locate limit (path ++ rel) = some e) :
    ∃ d, t.locate limit path = some d ∧ (rel ≠ [] → t.node d = some .dir) := by
  induction rel using List.reverseRecOn generalizing e with
  | nil => exact ⟨e, by rwa [List.append_nil] at he, fun hne => absurd rfl hne⟩
  | append_singleton rel name ih =>
      rw [← List.append_assoc] at he
      obtain ⟨p, hp, hdir, -⟩ := locate_concat he
      obtain ⟨d, hd, hd'⟩ := ih hp
      refine ⟨d, hd, fun _ => ?_⟩
      by_cases hrel : rel = []
      · rw [hrel, List.append_nil, hd] at hp
        rwa [Option.some.inj hp]
      · exact hd' hrel

/-- An entry that is not a link is where its path leads. -/
theorem locate_concat_of_node {n : Node Name Content} (hd : t.locate limit path = some d)
    (hn : t.node (d ++ [name]) = some n) (hnolink : ∀ target, n ≠ .link target) :
    t.locate limit (path ++ [name]) = some (d ++ [name]) := by
  obtain ⟨⟨d, budget⟩, hr, rfl⟩ := Option.map_eq_some_iff.mp hd
  refine Option.map_eq_some_iff.mpr ⟨(d ++ [name], budget), ?_, rfl⟩
  rw [List.map_append, resolve_append, hr]
  exact resolve_down budget hn hnolink

/-- Names from a directory to one below it lead there. -/
theorem locate_append_of_dir {rel : List Name} (hd : t.locate limit path = some d)
    (hdir : t.node (d ++ rel) = some .dir) : t.locate limit (path ++ rel) = some (d ++ rel) := by
  induction rel using List.reverseRecOn with
  | nil => rwa [List.append_nil, List.append_nil]
  | append_singleton rel name ih =>
      rw [← List.append_assoc] at hdir ⊢
      rw [← List.append_assoc]
      have habove := ih (t.parent (d ++ rel) name (by rw [hdir]; nofun))
      exact locate_concat_of_node habove hdir fun _ => nofun

/-- A path that goes on through a part without links stays where its names say. -/
theorem locate_append_of_linkFree {rel : List Name} (hd : t.locate limit path = some d)
    (hnolink : ∀ rel target, t.node (d ++ rel) ≠ some (.link target))
    (he : t.locate limit (path ++ rel) = some e) : e = d ++ rel := by
  induction rel using List.reverseRecOn generalizing e with
  | nil =>
      rw [List.append_nil, hd] at he
      rw [List.append_nil, Option.some.inj he]
  | append_singleton rel name ih =>
      rw [← List.append_assoc] at he ⊢
      obtain ⟨p, hp, -, hnode⟩ := locate_concat he
      obtain rfl := ih hp
      obtain ⟨n, hn⟩ := Option.ne_none_iff_exists'.mp hnode
      have hlocate := locate_concat_of_node hp hn fun target heq =>
        hnolink (rel ++ [name]) target (by rw [← List.append_assoc, hn, heq])
      exact Option.some.inj (he.symm.trans hlocate)

theorem entry_concat :
    t.entry limit (path ++ [name]) = some e ↔
      ∃ d, t.locate limit path = some d ∧ t.node d = some .dir ∧ e = d ++ [name] := by
  unfold entry
  rw [List.getLast?_concat, List.dropLast_concat]
  dsimp only
  cases t.locate limit path with
  | none => exact ⟨nofun, fun ⟨_, h, _⟩ => nomatch h⟩
  | some d =>
      dsimp only
      constructor
      · intro h
        split at h
        · next hdir => exact ⟨d, rfl, hdir, (Option.some.inj h).symm⟩
        · nomatch h
      · rintro ⟨p, hp, hdir, rfl⟩
        obtain rfl := Option.some.inj hp
        rw [hdir]

theorem exists_of_entry (he : t.entry limit path = some e) : ∃ pre name, path = pre ++ [name] := by
  cases path using List.reverseRecOn with
  | nil => nomatch he
  | append_singleton pre name => exact ⟨pre, name, rfl⟩

theorem entry_mono (h : t ≤ t') (he : t.entry limit path = some e) :
    t'.entry limit path = some e := by
  obtain ⟨pre, name, rfl⟩ := exists_of_entry he
  obtain ⟨d, hd, hdir, rfl⟩ := entry_concat.mp he
  exact entry_concat.mpr ⟨d, locate_mono h hd, h _ _ hdir, rfl⟩

theorem entry_ne_nil (he : t.entry limit path = some e) : e ≠ [] := by
  obtain ⟨pre, name, rfl⟩ := exists_of_entry he
  obtain ⟨d, -, -, rfl⟩ := entry_concat.mp he
  exact List.concat_ne_nil name d

/-- What a path leads to has an entry. -/
theorem entry_of_locate (hne : path ≠ []) (hd : t.locate limit path = some d) :
    ∃ e, t.entry limit path = some e ∧ t.node e ≠ none := by
  cases path using List.reverseRecOn with
  | nil => exact absurd rfl hne
  | append_singleton pre name =>
      obtain ⟨p, hp, hdir, hnode⟩ := locate_concat hd
      exact ⟨p ++ [name], entry_concat.mpr ⟨p, hp, hdir, rfl⟩, hnode⟩

theorem locate_of_entry {n : Node Name Content} (he : t.entry limit path = some e)
    (hn : t.node e = some n)
    (hnolink : ∀ target, n ≠ .link target) : t.locate limit path = some e := by
  obtain ⟨pre, name, rfl⟩ := exists_of_entry he
  obtain ⟨d, hd, -, rfl⟩ := entry_concat.mp he
  exact locate_concat_of_node hd hn hnolink

end Locate

/-! ## What the steps of a text lead to -/

section Seek

/-- The object that steps from the root lead to. -/
def seek (limit : ℕ) (steps : List (Step Name)) : Option (List Name) :=
  (t.resolve limit [] steps).map Prod.fst

/-- The entry that steps from the root lead to: a name at their end is not followed. -/
def seekEntry (limit : ℕ) (steps : List (Step Name)) : Option (List Name) :=
  match steps.getLast? with
  | some (.down name) =>
      match t.seek limit steps.dropLast with
      | none => none
      | some d => if (t.node (d ++ [name])).isSome then some (d ++ [name]) else none
  | _ => t.seek limit steps

variable {t} {limit : ℕ} {steps : List (Step Name)} {e : List Name}

/-- An entry that is not a link is the object there. -/
theorem seek_of_seekEntry (he : t.seekEntry limit steps = some e)
    (hnolink : ∀ target, t.node e ≠ some (.link target)) : t.seek limit steps = some e := by
  unfold seekEntry at he
  split at he
  · next name hlast =>
      split at he
      · nomatch he
      · next d hd =>
          split at he
          · next hsome =>
              obtain rfl := Option.some.inj he
              obtain ⟨n, hn⟩ := Option.isSome_iff_exists.mp hsome
              obtain ⟨⟨d, budget⟩, hr, rfl⟩ := Option.map_eq_some_iff.mp hd
              refine Option.map_eq_some_iff.mpr ⟨(d ++ [name], budget), ?_, rfl⟩
              rw [← List.dropLast_append_getLast? _ hlast, resolve_append, hr]
              exact resolve_down budget hn fun target heq => hnolink target (heq ▸ hn)
          · nomatch he
  · exact he

end Seek

end FileTree
