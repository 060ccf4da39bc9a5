import Mathlib.Tactic.Common

/-!
# Commands that succeed, fail or run out of fuel

A command changes a state and tells whether it succeeded; `none` says that its fuel was used up
before it ended.  Commands are put together as C++ code does with `if (!c()) return false;`, and
the rules below follow that shape: `Keeps` for what holds in every state that a command leaves,
however it ends, `Achieves` for what holds when it succeeds, and `Avoids` for a command that also
does not fail, or does not run out of fuel.
-/

abbrev Command (σ : Type*) := σ → Option Bool × σ

namespace Command

variable {σ α : Type*}

/-- Change nothing. -/
def result (success : Bool) : Command σ := fun s => (some success, s)

def outOfFuel : Command σ := fun s => (none, s)

/-- `if (!c()) return false; return d();` -/
def andThen (c d : Command σ) : Command σ := fun s =>
  match c s with
  | (some true, s') => d s'
  | (some false, s') => (some false, s')
  | (none, s') => (none, s')

/-- `if (c()) return true; return d();` -/
def orElse (c d : Command σ) : Command σ := fun s =>
  match c s with
  | (some true, s') => (some true, s')
  | (some false, s') => d s'
  | (none, s') => (none, s')

/-- `c(); return d();` -/
def followedBy (c d : Command σ) : Command σ := fun s =>
  match c s with
  | (some _, s') => d s'
  | (none, s') => (none, s')

/-- `for (a : list) { if (!f(a)) return false; } return true;` -/
def forEach (f : α → Command σ) : List α → Command σ
  | [] => result true
  | a :: list => (f a).andThen (forEach f list)

theorem andThen_eq_true {c d : Command σ} {s s' : σ} :
    c.andThen d s = (some true, s') ↔ ∃ m, c s = (some true, m) ∧ d m = (some true, s') := by
  unfold andThen
  constructor
  · intro h
    split at h
    · next m heq => exact ⟨m, heq, h⟩
    · nomatch h
    · nomatch h
  · rintro ⟨m, hc, hd⟩
    rw [hc]
    exact hd

theorem andThen_of_true {c d : Command σ} {s m : σ} (h : c s = (some true, m)) :
    c.andThen d s = d m := by
  rw [andThen, h]

/-- What does not succeed is the end. -/
theorem andThen_of_ne_true {c d : Command σ} {s : σ} (h : (c s).1 ≠ some true) :
    c.andThen d s = c s := by
  unfold andThen
  split
  · next heq =>
      rw [heq] at h
      exact absurd rfl h
  · next heq => exact heq.symm
  · next heq => exact heq.symm

theorem andThen_result (c : Command σ) : c.andThen (result true) = c := by
  funext s
  unfold andThen
  split
  · next heq => exact heq.symm
  · next heq => exact heq.symm
  · next heq => exact heq.symm

theorem andThen_assoc (c d e : Command σ) : (c.andThen d).andThen e = c.andThen (d.andThen e) := by
  funext s
  simp only [andThen]
  rcases c s with ⟨_ | _ | _, m⟩
  · rfl
  · rfl
  · rfl

/-- The last round of a loop. -/
theorem forEach_concat (f : α → Command σ) (list : List α) (a : α) :
    forEach f (list ++ [a]) = (forEach f list).andThen (f a) := by
  induction list with
  | nil => exact andThen_result (f a)
  | cons b list ih =>
      change (f b).andThen (forEach f (list ++ [a])) = _
      rw [ih]
      exact (andThen_assoc ..).symm

/-! ## What every state keeps -/

def Keeps (I : σ → Prop) (c : Command σ) : Prop := ∀ s, I s → I (c s).2

section Keeps

variable {I : σ → Prop} {c d : Command σ}

theorem keeps_result (success : Bool) : Keeps I (result success : Command σ) := fun _ h => h

theorem keeps_outOfFuel : Keeps I (outOfFuel : Command σ) := fun _ h => h

/-- What holds after the first command holds in the end, if the second keeps it. -/
theorem andThen_of_keeps {s : σ} (hc : I (c s).2) (hd : Keeps I d) : I (c.andThen d s).2 := by
  unfold Command.andThen
  split
  · next heq =>
      rw [heq] at hc
      exact hd _ hc
  · next heq =>
      rw [heq] at hc
      exact hc
  · next heq =>
      rw [heq] at hc
      exact hc

theorem Keeps.andThen (hc : Keeps I c) (hd : Keeps I d) : Keeps I (c.andThen d) :=
  fun s hs => andThen_of_keeps (hc s hs) hd

theorem Keeps.forEach {f : α → Command σ} {list : List α} (h : ∀ a ∈ list, Keeps I (f a)) :
    Keeps I (forEach f list) := by
  induction list with
  | nil => exact keeps_result true
  | cons a list ih =>
      exact (h a List.mem_cons_self).andThen (ih fun b hb => h b (List.mem_cons_of_mem _ hb))

/-- The command that runs may depend on the state. -/
theorem keeps_of_state {f : σ → Command σ} (h : ∀ s, I s → Keeps I (f s)) :
    Keeps I fun s => f s s :=
  fun s hs => h s hs s hs

end Keeps

/-- A loop does not succeed if one of its rounds never does. -/
theorem forEach_ne_true {I : σ → Prop} {f : α → Command σ} {list : List α}
    (hkeeps : ∀ a ∈ list, Keeps I (f a))
    {a : α} (ha : a ∈ list) (hnot : ∀ s, I s → (f a s).1 ≠ some true) {s : σ} (hs : I s) :
    (forEach f list s).1 ≠ some true := by
  induction list generalizing s with
  | nil => nomatch ha
  | cons b list ih =>
      intro hsuccess
      obtain ⟨m, hfirst, hrest⟩ := andThen_eq_true.mp (Prod.ext hsuccess rfl)
      cases ha with
      | head => exact hnot s hs (congrArg Prod.fst hfirst)
      | tail _ ha =>
          have hm := hkeeps b List.mem_cons_self s hs
          rw [hfirst] at hm
          exact ih (fun c hc => hkeeps c (List.mem_cons_of_mem _ hc)) ha hm
            (congrArg Prod.fst hrest)

/-! ## What success achieves -/

def Achieves (P : σ → Prop) (c : Command σ) (Q : σ → Prop) : Prop :=
  ∀ s, P s → (c s).1 = some true → Q (c s).2

section Achieves

variable {P Q R : σ → Prop} {c d : Command σ}

theorem achieves_result : Achieves P (result true : Command σ) P := fun _ h _ => h

theorem Achieves.andThen (hc : Achieves P c Q) (hd : Achieves Q d R) :
    Achieves P (c.andThen d) R := by
  intro s hs hsuccess
  have hmid := hc s hs
  unfold Command.andThen at hsuccess ⊢
  split at hsuccess
  · next heq =>
      rw [heq] at hmid
      exact hd _ (hmid rfl) hsuccess
  · nomatch hsuccess
  · nomatch hsuccess

/-- `I done` holds once the elements of `done` are through. -/
theorem Achieves.forEach {f : α → Command σ} {I : List α → σ → Prop} {list : List α}
    (h : ∀ done a rest, list = done ++ a :: rest → Achieves (I done) (f a) (I (done ++ [a]))) :
    Achieves (I []) (Command.forEach f list) (I list) := by
  suffices hrest : ∀ rest done, list = done ++ rest →
      Achieves (I done) (Command.forEach f rest) (I list) from hrest list [] rfl
  intro rest
  induction rest with
  | nil =>
      intro done hlist
      rw [hlist, List.append_nil]
      exact achieves_result
  | cons a rest ih =>
      intro done hlist
      exact (h done a rest hlist).andThen (ih (done ++ [a]) (by rw [hlist, List.append_assoc]; rfl))

end Achieves

/-! ## What does not happen -/

/-- The command does not come to the outcome, and achieves `Q` when it succeeds. -/
def Avoids (outcome : Option Bool) (P : σ → Prop) (c : Command σ) (Q : σ → Prop) : Prop :=
  ∀ s, P s → (c s).1 ≠ outcome ∧ ((c s).1 = some true → Q (c s).2)

section Avoids

variable {outcome : Option Bool} {P Q R : σ → Prop} {c d : Command σ}

theorem Avoids.andThen (hc : Avoids outcome P c Q) (hd : Avoids outcome Q d R) :
    Avoids outcome P (c.andThen d) R := by
  intro s hs
  obtain ⟨hnot, hmid⟩ := hc s hs
  unfold Command.andThen
  split
  · next m heq =>
      rw [heq] at hmid
      exact hd m (hmid rfl)
  · next heq =>
      rw [heq] at hnot
      exact ⟨hnot, nofun⟩
  · next heq =>
      rw [heq] at hnot
      exact ⟨hnot, nofun⟩

/-- `I done` holds once the elements of `done` are through. -/
theorem Avoids.forEach {f : α → Command σ} {I : List α → σ → Prop} {list : List α}
    (houtcome : outcome ≠ some true)
    (h : ∀ done a rest, list = done ++ a :: rest →
      Avoids outcome (I done) (f a) (I (done ++ [a]))) :
    Avoids outcome (I []) (Command.forEach f list) (I list) := by
  suffices hrest : ∀ rest done, list = done ++ rest →
      Avoids outcome (I done) (Command.forEach f rest) (I list) from hrest list [] rfl
  intro rest
  induction rest with
  | nil =>
      intro done hlist s hs
      rw [hlist, List.append_nil]
      exact ⟨houtcome.symm, fun _ => hs⟩
  | cons a rest ih =>
      intro done hlist
      exact (h done a rest hlist).andThen (ih (done ++ [a]) (by rw [hlist, List.append_assoc]; rfl))

/-- The command that runs may depend on the state. -/
theorem avoids_of_state {f : σ → Command σ} (h : ∀ s, P s → Avoids outcome P (f s) Q) :
    Avoids outcome P (fun s => f s s) Q :=
  fun s hs => h s hs s hs

end Avoids

/-- The command does not fail, and achieves `Q` when it ends. -/
def NeverFails (P : σ → Prop) (c : Command σ) (Q : σ → Prop) : Prop :=
  ∀ s, P s → (c s).1 ≠ some false ∧ ((c s).1 = some true → Q (c s).2)

section NeverFails

variable {P Q R : σ → Prop} {c d : Command σ}

theorem NeverFails.andThen (hc : NeverFails P c Q) (hd : NeverFails Q d R) :
    NeverFails P (c.andThen d) R :=
  Avoids.andThen hc hd

/-- `I done` holds once the elements of `done` are through. -/
theorem NeverFails.forEach {f : α → Command σ} {I : List α → σ → Prop} {list : List α}
    (h : ∀ done a rest, list = done ++ a :: rest → NeverFails (I done) (f a) (I (done ++ [a]))) :
    NeverFails (I []) (Command.forEach f list) (I list) :=
  Avoids.forEach nofun h

end NeverFails

/-- The command ends, and achieves `Q` when it succeeds. -/
abbrev Returns (P : σ → Prop) (c : Command σ) (Q : σ → Prop) : Prop := Avoids none P c Q

end Command
