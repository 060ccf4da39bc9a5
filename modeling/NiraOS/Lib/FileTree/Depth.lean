import NiraOS.Lib.FileTree
import Mathlib.Algebra.Order.BigOperators.Group.List
import Mathlib.Algebra.Order.Group.Nat

/-!
# How far paths lead

A link to a directory above it makes paths that are longer than any location.  Where such a path
leaves the names of the location that it has come to, it uses up a link; so in a finite tree the
paths that lead somewhere, with a limited number of links, have a bounded length
(`length_le_of_locate`).

What leads to a directory passes directories and links only, so it leads there in every tree that
has these (`resolve_of_dirsIn`).
-/

namespace FileTree

variable {Name Content : Type*} {t t' : FileTree Name Content}

/-! ## Directories and links -/

section DirsIn

/-- The directories and the links of `t` are in `t'`. -/
def DirsIn (t t' : FileTree Name Content) : Prop :=
  ∀ q n, t.node q = some n → (∀ content, n ≠ .file content) → t'.node q = some n

theorem walk_of_dirsIn (h : DirsIn t t')
    {follow follow' : List Name → List (Step Name) → Option (List Name × ℕ)}
    {budget : ℕ} {r : List Name × ℕ} (hdir : t.node r.1 = some .dir)
    (hfollow : ∀ cur steps, follow cur steps = some r → follow' cur steps = some r)
    {cur : List Name}
    {steps : List (Step Name)} (hr : t.walk follow budget cur steps = some r) :
    t'.walk follow' budget cur steps = some r := by
  induction steps generalizing cur with
  | nil => exact hr
  | cons step steps ih =>
      unfold walk at hr ⊢
      split at hr
      · next hcur =>
          rw [h cur .dir hcur (by simp)]
          cases step with
          | stay => exact ih hr
          | up => exact ih hr
          | down name =>
              dsimp only at hr ⊢
              split at hr
              · cases hr
              · next target hname =>
                  rw [h _ _ hname (by simp)]
                  exact hfollow _ _ hr
              · next n hnolink hname =>
                  cases n with
                  | link target => exact absurd rfl (hnolink target)
                  | dir =>
                      rw [h _ _ hname (by simp)]
                      exact ih hr
                  | file content =>
                      -- a file is the end of the way, and no directory
                      cases steps with
                      | nil =>
                          obtain rfl := Option.some.inj hr
                          cases hname.symm.trans hdir
                      | cons step steps =>
                          simp only [walk, hname] at hr
                          cases hr
      · cases hr

/-- What leads to a directory leads there in every tree that has the directories and the links. -/
theorem resolve_of_dirsIn (h : DirsIn t t') {budget : ℕ} {cur : List Name}
    {steps : List (Step Name)}
    {r : List Name × ℕ} (hdir : t.node r.1 = some .dir) (hr : t.resolve budget cur steps = some r) :
    t'.resolve budget cur steps = some r := by
  induction budget generalizing cur steps with
  | zero =>
      change t.walk (fun _ _ => none) 0 cur steps = some r at hr
      refine walk_of_dirsIn h hdir ?_ hr
      exact fun _ _ hnone => nomatch hnone
  | succ budget ih => exact walk_of_dirsIn h hdir (fun _ _ => ih) hr

theorem locate_of_dirsIn (h : DirsIn t t') {limit : ℕ} {path d : List Name}
    (hd : t.locate limit path = some d)
    (hdir : t.node d = some .dir) : t'.locate limit path = some d := by
  obtain ⟨r, hr, rfl⟩ := Option.map_eq_some_iff.mp hd
  exact Option.map_eq_some_iff.mpr ⟨r, resolve_of_dirsIn h hdir hr, rfl⟩

end DirsIn

/-! ## The length of paths -/

section Length

/-- No location is deeper than `depth`. -/
def Within (t : FileTree Name Content) (depth : ℕ) : Prop := ∀ q, t.node q ≠ none → q.length ≤ depth

theorem exists_within (t : FileTree Name Content) : ∃ depth, t.Within depth :=
  ⟨(t.support.map List.length).sum, fun q hq =>
    List.single_le_sum (fun _ _ => Nat.zero_le _) _ (List.mem_map_of_mem (t.mem_support q hq))⟩

/-- The links that are left never get more. -/
theorem budget_le_of_walk {follow : List Name → List (Step Name) → Option (List Name × ℕ)}
    {budget : ℕ}
    {r : List Name × ℕ} (hfollow : ∀ cur steps, follow cur steps = some r → r.2 ≤ budget)
    {cur : List Name}
    {steps : List (Step Name)} (hr : t.walk follow budget cur steps = some r) : r.2 ≤ budget := by
  induction steps generalizing cur with
  | nil =>
      obtain rfl := Option.some.inj hr
      exact le_refl budget
  | cons step steps ih =>
      unfold walk at hr
      split at hr
      · cases step with
        | stay => exact ih hr
        | up => exact ih hr
        | down name =>
            dsimp only at hr
            split at hr
            · cases hr
            · exact hfollow _ _ hr
            · exact ih hr
      · cases hr

theorem budget_le_of_resolve {budget : ℕ} {cur : List Name} {steps : List (Step Name)}
    {r : List Name × ℕ}
    (hr : t.resolve budget cur steps = some r) : r.2 ≤ budget := by
  induction budget generalizing cur steps with
  | zero =>
      change t.walk (fun _ _ => none) 0 cur steps = some r at hr
      refine budget_le_of_walk ?_ hr
      exact fun _ _ hnone => nomatch hnone
  | succ budget ih => exact budget_le_of_walk (fun _ _ hr => Nat.le_succ_of_le (ih hr)) hr

/-- One name leads one location down, or through a link. -/
theorem resolve_down_cases {budget : ℕ} {d : List Name} {name : Name} {r : List Name × ℕ}
    (hr : t.resolve budget d [.down name] = some r) :
    r = (d ++ [name], budget) ∧ t.node (d ++ [name]) ≠ none ∨ r.2 < budget := by
  obtain ⟨n, hn⟩ := Option.ne_none_iff_exists'.mp (node_of_resolve_down hr)
  have hdir := t.parent d name (by simp [hn])
  by_cases hlink : ∃ target, n = .link target
  · obtain ⟨target, rfl⟩ := hlink
    right
    cases budget with
    | zero =>
        simp only [resolve, walk, hdir, hn] at hr
        cases hr
    | succ budget =>
        simp only [resolve, walk, hdir, hn] at hr
        exact Nat.lt_succ_of_le (budget_le_of_resolve hr)
  · rw [resolve_down budget hn fun target heq => hlink ⟨target, heq⟩] at hr
    exact Or.inl ⟨(Option.some.inj hr).symm, by simp [hn]⟩

/-- The names that may still follow: down to the deepest location, once for every link. -/
def rank (depth : ℕ) (r : List Name × ℕ) : ℕ := r.2 * (depth + 1) + (depth - r.1.length)

theorem rank_lt_of_down {depth : ℕ} (hdepth : t.Within depth) {r r' : List Name × ℕ} {name : Name}
    (hr : t.resolve r.2 r.1 [.down name] = some r') : rank depth r' < rank depth r := by
  unfold rank
  obtain ⟨rfl, hnode⟩ | hless := resolve_down_cases hr
  · have hlength := hdepth _ hnode
    rw [List.length_append, List.length_singleton] at hlength ⊢
    dsimp only
    omega
  · have hmul : (r'.2 + 1) * (depth + 1) ≤ r.2 * (depth + 1) := Nat.mul_le_mul_right _ hless
    rw [Nat.add_mul] at hmul
    omega

theorem length_add_rank_le {depth : ℕ} (hdepth : t.Within depth) {r r' : List Name × ℕ}
    {names : List Name}
    (hr : t.resolve r.2 r.1 (names.map .down) = some r') :
    names.length + rank depth r' ≤ rank depth r := by
  induction names generalizing r with
  | nil =>
      have hsame : t.resolve r.2 r.1 [] = some r := by
        obtain ⟨cur, budget⟩ := r
        cases budget <;> rfl
      obtain rfl := Option.some.inj (hsame.symm.trans hr)
      exact (Nat.zero_add _).le
  | cons name names ih =>
      have hsplit : (name :: names).map Step.down = [.down name] ++ names.map .down := rfl
      rw [hsplit, resolve_append] at hr
      obtain ⟨m, hm, hr⟩ := Option.bind_eq_some_iff.mp hr
      have hlt := rank_lt_of_down hdepth hm
      have hle := ih hr
      rw [List.length_cons]
      omega

/-- **A path that leads somewhere** is not longer than the deepest location, once for every link and
once more. -/
theorem length_le_of_locate {depth limit : ℕ} (hdepth : t.Within depth) {path d : List Name}
    (hd : t.locate limit path = some d) : path.length ≤ limit * (depth + 1) + depth := by
  obtain ⟨r, hr, rfl⟩ := Option.map_eq_some_iff.mp hd
  have hle : path.length + rank depth r ≤ rank depth ([], limit) := length_add_rank_le hdepth hr
  calc path.length ≤ path.length + rank depth r := Nat.le_add_right _ _
    _ ≤ rank depth ([], limit) := hle
    _ = limit * (depth + 1) + depth := rfl

end Length

end FileTree
