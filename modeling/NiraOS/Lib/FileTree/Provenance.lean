import NiraOS.Lib.FileTree.Files

/-!
# Where nodes come from

The edits of a file tree relocate and erase what is there and put in what they are given.  So
whatever a tree has become by edits, a node of it was in the first tree, or is of a kind that was
put in new.
-/

namespace FileTree

variable {Name Content : Type*}

/-- Every node of `u` is made new or was somewhere in `t`. -/
def ComesFrom (made : Node Name Content → Prop) (t u : FileTree Name Content) : Prop :=
  ∀ q n, u.node q = some n → made n ∨ ∃ p, t.node p = some n

section ComesFrom

variable {made : Node Name Content → Prop} {t u u' : FileTree Name Content} {p q : List Name}

theorem ComesFrom.refl : ComesFrom made t t := fun q _ hn => .inr ⟨q, hn⟩

theorem ComesFrom.trans (h : ComesFrom made t u) (h' : ComesFrom made u u') :
    ComesFrom made t u' := by
  intro q n hn
  rcases h' q n hn with hmade | ⟨p, hp⟩
  · exact .inl hmade
  · exact h p n hp

/-- Taking away brings nothing in. -/
theorem ComesFrom.of_le (h : u ≤ t) : ComesFrom made t u := fun q n hn => .inr ⟨q, h q n hn⟩

variable [DecidableEq Name]

/-- One node is put in. -/
theorem ComesFrom.of_update {n : Node Name Content} (hn : made n ∨ ∃ p, u.node p = some n)
    (h : u'.node = Function.update u.node q (some n)) : ComesFrom made u u' := by
  intro r m hm
  rw [h] at hm
  by_cases hrq : r = q
  · rw [hrq, Function.update_self] at hm
    rwa [← Option.some.inj hm]
  · rw [Function.update_of_ne hrq] at hm
    exact .inr ⟨r, hm⟩

/-- One node is taken out. -/
theorem ComesFrom.of_removal (h : u'.node = Function.update u.node q none) :
    ComesFrom made u u' := by
  apply ComesFrom.of_le
  intro r n hr
  rw [h] at hr
  by_cases hrq : r = q
  · rw [hrq, Function.update_self] at hr
    cases hr
  · rwa [Function.update_of_ne hrq] at hr

theorem ComesFrom.tryWrite {content : Content} (hmade : made (.file content))
    (h : u.tryWrite q content = some u') : ComesFrom made u u' :=
  .of_update (.inl hmade) (tryWrite_eq_some h).2

theorem Relocated.comesFrom (h : Relocated u u' p q) : ComesFrom made u u' := by
  intro r m hm
  rw [h.node] at hm
  split_ifs at hm
  · exact .inr ⟨p ++ r.drop q.length, hm⟩
  · exact .inr ⟨r, hm⟩

variable [DecidableEq Content]

theorem ComesFrom.tryInsert {n : Node Name Content} (hn : made n ∨ ∃ p, u.node p = some n)
    (h : u.tryInsert q n = some u') : ComesFrom made u u' :=
  .of_update hn (tryInsert_eq_some h).2.2

/-- A rename brings in nothing but an empty file. -/
theorem Renames.comesFrom [Inhabited Content] (hmade : made (.file default)) {limit : ℕ}
    {source dest : List (Step Name)} {success : Bool} (h : Renames limit source dest t success u) :
    ComesFrom made t u := by
  have hcontent : ∀ content, content = default ∨ fileAt limit t source = some content →
      made (.file content) ∨ ∃ p, t.node p = some (.file content) := by
    rintro content (rfl | hfile)
    · exact .inl hmade
    · obtain ⟨s, -, hs⟩ := fileAt_eq_some.mp hfile
      exact .inr ⟨s, hs⟩
  cases h with
  | unchanged => exact .refl
  | moved hexists hp hq hmoved => exact hmoved.comesFrom
  | copied hp hn hnodir hfile hfree hland hv hu =>
      exact (ComesFrom.of_update (hcontent _ (.inr hfile)) hv.node).trans (.of_removal hu)
  | left hold hfree hland hu => exact .of_update (hcontent _ hold) hu.node
  | undone hold hfree hq hlink hland hv hu =>
      exact (ComesFrom.of_update (hcontent _ hold) hv.node).trans (.of_removal hu)

end ComesFrom

end FileTree
