import NiraOS.Lib.FileTree.Edits

/-!
# What is found after something was taken away

`Leaves t u`: entries of `t` may be gone from `u` and others may have come, but none was changed.
A path that leads somewhere in both leads to the same place (`locate_eq_of_leaves`), so a path whose
own entry is gone leads nowhere (`locate_eq_none_of_gone`).  Relocating an entry is such a change.
-/

namespace FileTree

variable {Name Content : Type*} {t u v : FileTree Name Content} {limit : ℕ} {path p q : List Name}

def Leaves (t u : FileTree Name Content) : Prop :=
  ∀ r n, u.node r = some n → t.node r ≠ none → t.node r = some n

theorem Leaves.of_le (h : u ≤ t) : Leaves t u := fun r n hn _ => h r n hn

theorem Leaves.of_ge (h : t ≤ u) : Leaves t u := by
  intro r n hn hthere
  obtain ⟨m, hm⟩ := Option.ne_none_iff_exists'.mp hthere
  rw [hm, ← hn, h r m hm]

/-- An entry is taken away as well. -/
theorem Leaves.erase [DecidableEq Name] (h : Leaves t u)
    (hv : v.node = Function.update u.node q none) :
    Leaves t v := by
  intro r n hn hthere
  by_cases hrq : r = q
  · rw [hrq, hv, Function.update_self] at hn
    cases hn
  · rw [hv, Function.update_of_ne hrq] at hn
    exact h r n hn hthere

/-! ## Paths -/

theorem walk_eq_of_leaves (h : Leaves t u)
    {follow follow' : List Name → List (Step Name) → Option (List Name × ℕ)}
    {budget : ℕ} {x y : List Name × ℕ}
    (hfollow : ∀ cur steps, follow cur steps = some x → follow' cur steps = some y → y = x)
    {cur : List Name}
    {steps : List (Step Name)} (hx : t.walk follow budget cur steps = some x)
    (hy : u.walk follow' budget cur steps = some y) : y = x := by
  induction steps generalizing cur with
  | nil => exact Option.some.inj (hy.symm.trans hx)
  | cons step steps ih =>
      unfold walk at hx hy
      split at hx
      · split at hy
        · cases step with
          | stay => exact ih hx hy
          | up => exact ih hx hy
          | down name =>
              dsimp only at hx hy
              -- the entry on the way is in both trees, so it is the same
              cases hu : u.node (cur ++ [name]) with
              | none =>
                  rw [hu] at hy
                  nomatch hy
              | some n =>
                  cases ht : t.node (cur ++ [name]) with
                  | none =>
                      rw [ht] at hx
                      nomatch hx
                  | some m =>
                      have hsame := h _ n hu (by rw [ht]; nofun)
                      obtain rfl := Option.some.inj (ht.symm.trans hsame)
                      rw [hu] at hy
                      rw [ht] at hx
                      cases m with
                      | link target => exact hfollow _ _ hx hy
                      | file content => exact ih hx hy
                      | dir => exact ih hx hy
        · nomatch hy
      · nomatch hx

theorem resolve_eq_of_leaves (h : Leaves t u) {budget : ℕ} {cur : List Name}
    {steps : List (Step Name)}
    {x y : List Name × ℕ} (hx : t.resolve budget cur steps = some x)
    (hy : u.resolve budget cur steps = some y) :
    y = x := by
  induction budget generalizing cur steps with
  | zero =>
      change t.walk (fun _ _ => none) 0 cur steps = some x at hx
      change u.walk (fun _ _ => none) 0 cur steps = some y at hy
      refine walk_eq_of_leaves h ?_ hx hy
      exact fun _ _ hnone => nomatch hnone
  | succ budget ih => exact walk_eq_of_leaves h (fun _ _ => ih) hx hy

/-- What is still found is found where it was. -/
theorem locate_eq_of_leaves (h : Leaves t u) {d e : List Name} (hd : t.locate limit path = some d)
    (he : u.locate limit path = some e) : e = d := by
  obtain ⟨x, hx, rfl⟩ := Option.map_eq_some_iff.mp hd
  obtain ⟨y, hy, rfl⟩ := Option.map_eq_some_iff.mp he
  rw [resolve_eq_of_leaves h hx hy]

/-- A path whose own entry is gone leads nowhere. -/
theorem locate_eq_none_of_gone (h : Leaves t u) (he : t.entry limit path = some p)
    (hgone : u.node p = none) :
    u.locate limit path = none := by
  obtain ⟨pre, name, rfl⟩ := exists_of_entry he
  obtain ⟨d, hd, -, rfl⟩ := entry_concat.mp he
  by_contra hsome
  obtain ⟨e, he'⟩ := Option.ne_none_iff_exists'.mp hsome
  obtain ⟨d', hd', -, hnode⟩ := locate_concat he'
  rw [locate_eq_of_leaves h hd hd'] at hnode
  exact hnode hgone

/-! ## Relocating -/

variable [DecidableEq Name]

theorem Relocated.leaves (h : Relocated t u p q) : Leaves t u := by
  intro r n hn hthere
  rw [h.node, if_neg (not_prefix_of_occupied h.free hthere)] at hn
  split_ifs at hn
  exact hn

end FileTree
