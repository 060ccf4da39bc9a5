import NiraOS.Lib.FileTree.Edits

/-!
# Places

Where the entry that steps name is or would be, whether or not anything is there, and what
another file in a tree changes about what steps lead to: nothing, unless they lead to that file.
-/

namespace FileTree

variable {Name Content : Type*} {t t' : FileTree Name Content} {limit : ℕ}

theorem seek_mono (h : t ≤ t') {steps : List (Step Name)} {d : List Name}
    (hd : t.seek limit steps = some d) : t'.seek limit steps = some d := by
  obtain ⟨r, hr, rfl⟩ := Option.map_eq_some_iff.mp hd
  exact Option.map_eq_some_iff.mpr ⟨r, resolve_mono h hr, rfl⟩

/-- What steps lead to is there. -/
theorem isObject_of_seek {steps : List (Step Name)} {p : List Name}
    (h : t.seek limit steps = some p) : t.IsObject p := by
  obtain ⟨r, hr, rfl⟩ := Option.map_eq_some_iff.mp h
  exact isObject_of_resolve isObject_root hr

/-- A path without links leads to itself. -/
theorem locate_self {p : List Name} (h : t.IsObject p) : t.locate limit p = some p := by
  cases p using List.reverseRecOn with
  | nil => exact locate_nil
  | append_singleton p name =>
      obtain ⟨n, hn, hnolink⟩ := h
      have hdir : t.node ([] ++ p) = some .dir := t.parent p name (by rw [hn]; nofun)
      have hp : t.locate limit p = some p := locate_append_of_dir locate_nil hdir
      exact locate_concat_of_node hp hn hnolink

/-- What is above a place that steps lead to is a directory. -/
theorem exists_seek_of_append {path rest : List (Step Name)} {step : Step Name} {p : List Name}
    (h : t.seek limit (path ++ step :: rest) = some p) :
    ∃ d, t.seek limit path = some d ∧ t.node d = some .dir := by
  obtain ⟨r, hr, rfl⟩ := Option.map_eq_some_iff.mp h
  rw [resolve_append] at hr
  obtain ⟨⟨d, budget⟩, hd, hr⟩ := Option.bind_eq_some_iff.mp hr
  refine ⟨d, Option.map_eq_some_iff.mpr ⟨_, hd, rfl⟩, ?_⟩
  cases budget with
  | zero =>
      simp only [resolve, walk] at hr
      split at hr
      · next hdir => exact hdir
      · cases hr
  | succ budget =>
      simp only [resolve, walk] at hr
      split at hr
      · next hdir => exact hdir
      · cases hr

section Place

variable [DecidableEq Name] [DecidableEq Content]

/-- Where the entry is or would be that steps from the root name: links on the way are followed,
but not the entry itself. -/
def place (t : FileTree Name Content) (limit : ℕ) (steps : List (Step Name)) : Option (List Name) :=
  match steps.getLast? with
  | some (.down name) =>
      (t.seek limit steps.dropLast).bind fun d =>
        if t.node d = some .dir then some (d ++ [name]) else none
  | _ => none

variable {steps pre : List (Step Name)} {name : Name} {d e p : List Name}

theorem place_concat : t.place limit (pre ++ [.down name]) = some e ↔
    ∃ d, t.seek limit pre = some d ∧ t.node d = some .dir ∧ e = d ++ [name] := by
  unfold place
  rw [List.getLast?_concat, List.dropLast_concat]
  dsimp only
  rw [Option.bind_eq_some_iff]
  constructor
  · rintro ⟨d, hd, h⟩
    split_ifs at h with hdir
    exact ⟨d, hd, hdir, (Option.some.inj h).symm⟩
  · rintro ⟨d, hd, hdir, rfl⟩
    exact ⟨d, hd, if_pos hdir⟩

/-- The place of a path of names is its entry. -/
theorem place_map_down (path : List Name) :
    t.place limit (path.map .down) = t.entry limit path := by
  cases path using List.reverseRecOn with
  | nil => rfl
  | append_singleton pre name =>
      apply Option.ext
      intro e
      rw [List.map_append, List.map_singleton, place_concat, entry_concat]
      rfl

theorem exists_of_place (h : t.place limit steps = some e) :
    ∃ pre name, steps = pre ++ [.down name] := by
  unfold place at h
  split at h
  · next name hlast => exact ⟨_, name, (List.dropLast_append_getLast? _ hlast).symm⟩
  · nomatch h

theorem place_mono (h : t ≤ t') (he : t.place limit steps = some e) :
    t'.place limit steps = some e := by
  obtain ⟨pre, name, rfl⟩ := exists_of_place he
  obtain ⟨d, hd, hdir, rfl⟩ := place_concat.mp he
  exact place_concat.mpr ⟨d, seek_mono h hd, h _ _ hdir, rfl⟩

/-- What steps lead to has an entry where they name it. -/
theorem node_of_seek (h : t.seek limit steps = some p) (he : t.place limit steps = some e) :
    t.node e ≠ none := by
  obtain ⟨pre, name, rfl⟩ := exists_of_place he
  obtain ⟨d, hd, -, rfl⟩ := place_concat.mp he
  obtain ⟨r, hr, rfl⟩ := Option.map_eq_some_iff.mp h
  rw [resolve_append] at hr
  obtain ⟨q, hq, hr⟩ := Option.bind_eq_some_iff.mp hr
  obtain ⟨q', hq', rfl⟩ := Option.map_eq_some_iff.mp hd
  obtain rfl := Option.some.inj (hq.symm.trans hq')
  exact node_of_resolve_down hr

theorem exists_place_of_seek (h : t.seek limit (pre ++ [.down name]) = some p) :
    ∃ e, t.place limit (pre ++ [.down name]) = some e := by
  obtain ⟨r, hr, rfl⟩ := Option.map_eq_some_iff.mp h
  rw [resolve_append] at hr
  obtain ⟨⟨d, left⟩, hd, hr⟩ := Option.bind_eq_some_iff.mp hr
  exact ⟨_, place_concat.mpr ⟨d, Option.map_eq_some_iff.mpr ⟨_, hd, rfl⟩,
    t.parent d name (node_of_resolve_down hr), rfl⟩⟩

/-- An entry that is not a link is where the steps lead. -/
theorem seek_of_place {n : Node Name Content} (he : t.place limit steps = some e)
    (hn : t.node e = some n)
    (hnolink : ∀ target, n ≠ .link target) : t.seek limit steps = some e := by
  obtain ⟨pre, name, rfl⟩ := exists_of_place he
  obtain ⟨d, hd, -, rfl⟩ := place_concat.mp he
  obtain ⟨⟨d, budget⟩, hr, rfl⟩ := Option.map_eq_some_iff.mp hd
  refine Option.map_eq_some_iff.mpr ⟨(d ++ [name], budget), ?_, rfl⟩
  rw [resolve_append, hr]
  exact resolve_down budget hn hnolink

end Place

/-! ## Landing on a free place -/

section Landing

variable {steps : List (Step Name)} {name : Name} {cur d e : List Name} {budget left : ℕ}

theorem walkFree_concat {follow : List Name → List (Step Name) → Option (List Name × ℕ)}
    {followFree : List Name → List (Step Name) → Option (List Name)} (hdir : t.node d = some .dir)
    (hfree : t.node (d ++ [name]) = none)
    (hfollow : ∀ cur steps, follow cur steps = some (d, left) →
      followFree cur (steps ++ [.down name]) = some (d ++ [name]))
    (h : t.walk follow budget cur steps = some (d, left)) :
    t.walkFree followFree cur (steps ++ [.down name]) = some (d ++ [name]) := by
  induction steps generalizing cur with
  | nil =>
      cases h
      simp only [List.nil_append, walkFree, hdir, hfree, List.isEmpty_nil, if_true]
  | cons step steps ih =>
      simp only [walk] at h
      rw [List.cons_append]
      unfold walkFree
      split at h
      · cases step with
        | stay => exact ih h
        | up => exact ih h
        | down other =>
            dsimp only at h ⊢
            cases hother : t.node (cur ++ [other]) with
            | none =>
                rw [hother] at h
                cases h
            | some n =>
                rw [hother] at h
                cases n with
                | link target =>
                    have hlanding := hfollow _ _ h
                    rwa [List.append_assoc] at hlanding
                | file content => exact ih h
                | dir => exact ih h
      · cases h

/-- A free place is where a file would be created. -/
theorem landing_concat (hdir : t.node d = some .dir) (hfree : t.node (d ++ [name]) = none)
    (h : t.resolve budget cur steps = some (d, left)) :
    t.landing budget cur (steps ++ [.down name]) = some (d ++ [name]) := by
  induction budget generalizing cur steps with
  | zero =>
      change t.walk (fun _ _ => none) 0 cur steps = some (d, left) at h
      refine walkFree_concat hdir hfree ?_ h
      exact fun _ _ hnone => nomatch hnone
  | succ budget ih => exact walkFree_concat hdir hfree (fun _ _ => ih) h

theorem walk_of_walkFree {follow : List Name → List (Step Name) → Option (List Name × ℕ)}
    {followFree : List Name → List (Step Name) → Option (List Name)}
    (hfollow : ∀ cur steps, followFree cur (steps ++ [.down name]) = some e →
      ∃ d left, follow cur steps = some (d, left) ∧ t.node d = some .dir)
    (h : t.walkFree followFree cur (steps ++ [.down name]) = some e) :
    ∃ d left, t.walk follow budget cur steps = some (d, left) ∧ t.node d = some .dir := by
  induction steps generalizing cur with
  | nil =>
      simp only [List.nil_append, walkFree] at h
      split at h
      · next hcur => exact ⟨cur, budget, rfl, hcur⟩
      · nomatch h
  | cons step steps ih =>
      rw [List.cons_append] at h
      unfold walkFree at h
      unfold walk
      split at h
      · cases step with
        | stay => exact ih h
        | up => exact ih h
        | down other =>
            dsimp only at h ⊢
            cases hother : t.node (cur ++ [other]) with
            | none =>
                rw [hother] at h
                simp only [List.isEmpty_iff, List.append_eq_nil_iff, List.cons_ne_nil, and_false,
                  if_false] at h
                nomatch h
            | some n =>
                rw [hother] at h
                cases n with
                | link target =>
                    refine hfollow _ _ ?_
                    rwa [List.append_assoc]
                | file content => exact ih h
                | dir => exact ih h
      · nomatch h

/-- Where a file would be created, its directory is. -/
theorem resolve_of_landing (h : t.landing budget cur (steps ++ [.down name]) = some e) :
    ∃ d left, t.resolve budget cur steps = some (d, left) ∧ t.node d = some .dir := by
  induction budget generalizing cur steps with
  | zero =>
      change t.walkFree (fun _ _ => none) cur (steps ++ [.down name]) = some e at h
      change ∃ d left, t.walk (fun _ _ => none) 0 cur steps = some (d, left) ∧ _
      refine walk_of_walkFree ?_ h
      exact fun _ _ hnone => nomatch hnone
  | succ budget ih => exact walk_of_walkFree (fun _ _ => ih) h

theorem exists_place_of_landing [DecidableEq Name] [DecidableEq Content]
    (h : t.landing limit [] (steps ++ [.down name]) = some e) :
    ∃ p, t.place limit (steps ++ [.down name]) = some p := by
  obtain ⟨d, left, hr, hdir⟩ := resolve_of_landing h
  exact ⟨_, place_concat.mpr ⟨d, Option.map_eq_some_iff.mpr ⟨_, hr, rfl⟩, hdir, rfl⟩⟩

theorem landing_of_place [DecidableEq Name] [DecidableEq Content]
    (he : t.place limit steps = some e)
    (hfree : t.node e = none) : t.landing limit [] steps = some e := by
  obtain ⟨pre, name, rfl⟩ := exists_of_place he
  obtain ⟨d, hd, hdir, rfl⟩ := place_concat.mp he
  obtain ⟨⟨d, left⟩, hr, rfl⟩ := Option.map_eq_some_iff.mp hd
  exact landing_concat hdir hfree hr

end Landing

/-! ## One more file -/

section OneMore

variable [DecidableEq Name] {q cur : List Name} {content : Content} {steps : List (Step Name)}
    {budget : ℕ}
  {r : List Name × ℕ}

theorem walk_of_file {follow follow' : List Name → List (Step Name) → Option (List Name × ℕ)}
    {followFree : List Name → List (Step Name) → Option (List Name)}
    (hnode : t'.node = Function.update t.node q (some (.file content))) (hfree : t.node q = none)
    (hfollow : ∀ cur steps, t.IsObject cur → follow' cur steps = some r →
      follow cur steps = some r ∨ r.1 = q ∧ followFree cur steps = some q)
    (hcur : t.IsObject cur) (h : t'.walk follow' budget cur steps = some r) :
    t.walk follow budget cur steps = some r ∨
    r.1 = q ∧ t.walkFree followFree cur steps = some q := by
  -- elsewhere the two trees agree
  have hsame {p : List Name} (hp : p ≠ q) : t'.node p = t.node p := by
    rw [hnode, Function.update_of_ne hp]
  induction steps generalizing cur with
  | nil => exact .inl h
  | cons step steps ih =>
      have hne : cur ≠ q := by
        rintro rfl
        obtain ⟨n, hn, -⟩ := hcur
        cases hfree.symm.trans hn
      simp only [walk, walkFree, hsame hne] at h ⊢
      split at h
      · cases step with
        | stay => exact ih hcur h
        | up => exact ih (isObject_dropLast hcur) h
        | down name =>
            dsimp only at h ⊢
            by_cases hq : cur ++ [name] = q
            · -- the new file ends the walk
              rw [hq, hnode, Function.update_self] at h
              rw [hq, hfree]
              cases steps with
              | nil =>
                  cases h
                  exact .inr ⟨rfl, rfl⟩
              | cons step steps =>
                  simp only [walk, hnode, Function.update_self] at h
                  cases h
            · rw [hsame hq] at h
              cases hname : t.node (cur ++ [name]) with
              | none =>
                  rw [hname] at h
                  cases h
              | some n =>
                  rw [hname] at h
                  cases n with
                  | link target =>
                      refine hfollow _ _ ?_ h
                      split
                      · exact isObject_root
                      · exact hcur
                  | file content => exact ih ⟨_, hname, by simp⟩ h
                  | dir => exact ih ⟨_, hname, by simp⟩ h
      · cases h

/-- With one more file, steps lead where they led before, or they lead to that file and it would
have been created there. -/
theorem resolve_of_file (hnode : t'.node = Function.update t.node q (some (.file content)))
    (hfree : t.node q = none)
    (hcur : t.IsObject cur) (h : t'.resolve budget cur steps = some r) :
    t.resolve budget cur steps = some r ∨ r.1 = q ∧ t.landing budget cur steps = some q := by
  induction budget generalizing cur steps with
  | zero =>
      change t'.walk (fun _ _ => none) 0 cur steps = some r at h
      refine walk_of_file hnode hfree ?_ hcur h
      exact fun _ _ _ hnone => nomatch hnone
  | succ budget ih => exact walk_of_file hnode hfree (fun _ _ => ih) hcur h

theorem le_of_file (hnode : t'.node = Function.update t.node q (some (.file content)))
    (hfree : t.node q = none) :
    t ≤ t' := by
  intro p n hp
  rw [hnode, Function.update_of_ne, hp]
  rintro rfl
  nomatch hfree.symm.trans hp

/-- Steps that do not land on the new file lead where they led before. -/
theorem seek_of_file (hnode : t'.node = Function.update t.node q (some (.file content)))
    (hfree : t.node q = none)
    (hland : t.landing limit [] steps ≠ some q) : t'.seek limit steps = t.seek limit steps := by
  refine Option.ext fun p => ⟨fun h => ?_, fun h => seek_mono (le_of_file hnode hfree) h⟩
  obtain ⟨r, hr, rfl⟩ := Option.map_eq_some_iff.mp h
  rcases resolve_of_file hnode hfree isObject_root hr with hold | ⟨-, hlanding⟩
  · exact Option.map_eq_some_iff.mpr ⟨r, hold, rfl⟩
  · exact absurd hlanding hland

/-- So do steps that lead to a directory. -/
theorem seek_dir_of_file {d : List Name}
    (hnode : t'.node = Function.update t.node q (some (.file content)))
    (hfree : t.node q = none) (h : t'.seek limit steps = some d) (hdir : t'.node d = some .dir) :
    t.seek limit steps = some d := by
  obtain ⟨r, hr, rfl⟩ := Option.map_eq_some_iff.mp h
  rcases resolve_of_file hnode hfree isObject_root hr with hold | ⟨hq, -⟩
  · exact Option.map_eq_some_iff.mpr ⟨r, hold, rfl⟩
  · rw [hq, hnode, Function.update_self] at hdir
    cases hdir

end OneMore

end FileTree
