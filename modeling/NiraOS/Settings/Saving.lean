import NiraOS.Settings.Service

/-!
# Saving acknowledged settings

When every call has returned with success, does the file hold the map?  A call writes and
renames its snapshot without the lock, so an older snapshot may land on a newer one.
`saved_of_orderly` says that nothing is lost as long as each call that renames still has
the map as it is, or some other call has yet to save it.

Two calls that read the same clock share a temporary file.  `Doomed` follows such a pair:
one of the two renames will find no file, so its call will not return with success.
-/

namespace NiraOS.Settings

/-! ## Maps -/

section Store

variable {store store' store'' : Store}

theorem Store.Same.refl (store : Store) : store.Same store := fun _ => rfl

theorem Store.insert_ne_nil (key value : String) : store.insert key value ≠ [] :=
  List.cons_ne_nil _ _

/-- TOML round-trips maps of strings. -/
theorem fromStr_toStringPretty (store : Store) : fromStr (toStringPretty store) = some store := by
  induction store with
  | nil => rfl
  | cons entry store ih =>
      simp only [toStringPretty, fromStr] at ih
      simp [toStringPretty, fromStr, ih]

end Store

/-! ## What should hold when all calls have returned -/

/-- Where a call is, if there is one of that number. -/
def State.pc (s : State) (t : ℕ) : Option Pc := (s.calls t).map Call.pc

def success : Reply := .response true ""

/-- There were calls, and each has returned with success. -/
def State.AllAcknowledged (s : State) : Prop :=
  (∃ t, s.pc t ≠ none) ∧ ∀ t pc, s.pc t = some pc → pc = .returned success

/-- The file decodes to the map. -/
def State.Saved (s : State) : Prop :=
  ∃ content entries, s.config = some content ∧ fromStr content = some entries ∧
    entries.Same s.store

/-- The map holds, for each key, what was inserted last. -/
def State.LastInserted (s : State) : Prop :=
  s.store.Same (s.inserts ++ s.loaded)

/-- The call has yet to save the map as it is: it will take its snapshot, or has the map
in its snapshot. -/
def Pc.Owes (store : Store) : Pc → Prop
  | .waiting | .locked | .inserted | .unlocked => True
  | .serialised snapshot | .dirCreated snapshot | .written snapshot _ => snapshot.Same store
  | .returned _ => False

/-- A call that renames saves the map as it is, or another call has yet to do so. -/
def Orderly (s : State) : Event → Prop
  | .rename t none => ∀ snapshot suffix, s.pc t = some (.written snapshot suffix) →
      snapshot.Same s.store ∨ ∃ u pc, u ≠ t ∧ s.pc u = some pc ∧ pc.Owes s.store
  | _ => True

/-! ## What one step does -/

@[simp] theorem State.goto_pc (s : State) (t : ℕ) (call : Call) (pc : Pc) :
    (s.goto t call pc).pc = Function.update s.pc t (some pc) := by
  funext u
  by_cases h : u = t
  · subst h
    simp [State.pc, State.goto]
  · simp [State.pc, State.goto, h]

@[simp] theorem State.goto_config (s : State) (t : ℕ) (call : Call) (pc : Pc) :
    (s.goto t call pc).config = s.config := rfl

@[simp] theorem State.goto_temp (s : State) (t : ℕ) (call : Call) (pc : Pc) :
    (s.goto t call pc).temp = s.temp := rfl

@[simp] theorem State.goto_store (s : State) (t : ℕ) (call : Call) (pc : Pc) :
    (s.goto t call pc).store = s.store := rfl

@[simp] theorem State.goto_next (s : State) (t : ℕ) (call : Call) (pc : Pc) :
    (s.goto t call pc).next = s.next := rfl

/-- **What a call does in one step.** -/
inductive Move (s : State) (t : ℕ) (call : Call) (e : Event) : State → Prop
  | lock (hpc : call.pc = .waiting) :
      Move s t call e ({ s with writer := some t }.goto t call .locked)
  | insert (hpc : call.pc = .locked) :
      Move s t call e ({ s with
        store := s.store.insert call.key call.value
        inserts := (call.key, call.value) :: s.inserts }.goto t call .inserted)
  | unlock (hpc : call.pc = .inserted) :
      Move s t call e ({ s with writer := none }.goto t call .unlocked)
  | skip (hpc : call.pc = .unlocked) (hempty : s.store = []) :
      Move s t call e (s.goto t call (.returned success))
  | serialise (hpc : call.pc = .unlocked) : Move s t call e (s.goto t call (.serialised s.store))
  | createDir {snapshot : Store} (hpc : call.pc = .serialised snapshot) :
      Move s t call e (s.goto t call (.dirCreated snapshot))
  | write {snapshot : Store} (suffix : ℕ) (hpc : call.pc = .dirCreated snapshot) :
      Move s t call e ({ s with
        temp := Function.update s.temp suffix (some (toStringPretty snapshot)) }.goto t call
        (.written snapshot suffix))
  | rename {snapshot : Store} {suffix : ℕ} {content : FileContent}
      (he : e = .rename t none) (hpc : call.pc = .written snapshot suffix)
      (htemp : s.temp suffix = some content) :
      Move s t call e ({ s with
        config := some content
        temp := Function.update s.temp suffix none }.goto t call (.returned success))
  | fail (temp : ℕ → Option FileContent) (error : String) :
      Move s t call e ({ s with temp := temp }.goto t call (.returned (failedToPersist error)))

theorem advance_cases {s s' : State} {t : ℕ} {call : Call} {e : Event}
    (he : e.call? = some t) (h : advance s t call e = some s') : Move s t call e s' := by
  obtain ⟨key, value, pc⟩ := call
  cases e with
  | setSetting key value => cases h
  | lock u =>
      cases pc <;> cases hwriter : s.writer <;> simp only [advance, hwriter] at h <;> cases h
      exact .lock rfl
  | insert u =>
      cases pc <;> simp only [advance] at h <;> cases h
      exact .insert rfl
  | unlock u =>
      cases pc <;> simp only [advance] at h <;> cases h
      exact .unlock rfl
  | serialise u error =>
      cases pc <;> cases hwriter : s.writer <;> simp only [advance, hwriter] at h <;>
        try cases h
      split_ifs at h with hempty
      · cases h
        exact .skip rfl hempty
      · cases error <;> cases h
        · exact .serialise rfl
        · exact .fail s.temp _
  | createDir u error =>
      cases pc <;> cases error <;> simp only [advance] at h <;> cases h
      · exact .createDir rfl
      · exact .fail s.temp _
  | write u suffix error =>
      cases pc <;> rcases error with _ | ⟨error, left⟩ <;> simp only [advance] at h <;> cases h
      · exact .write suffix rfl
      · exact .fail _ _
  | rename u error =>
      cases pc <;> simp only [advance] at h <;> try cases h
      next snapshot suffix =>
        cases error with
        | some error =>
            cases h
            exact .fail s.temp _
        | none =>
            cases htemp : s.temp suffix with
            | none =>
                rw [htemp] at h
                cases h
                exact .fail s.temp _
            | some content =>
                rw [htemp] at h
                cases h
                cases he
                exact .rename rfl rfl htemp

theorem advance_of_step {s s' : State} {t : ℕ} {e : Event} (he : e.call? = some t)
    (h : step s e = some s') :
    ∃ call, s.calls t = some call ∧ advance s t call e = some s' := by
  have hadvance : step s e = (s.calls t).bind fun call => advance s t call e := by
    cases e <;> cases he <;> simp only [step, Event.call?] <;> cases s.calls t <;> rfl
  rw [hadvance] at h
  exact Option.bind_eq_some_iff.mp h

/-- **A step** starts a call or takes one further. -/
theorem step_cases {s s' : State} {e : Event} (h : step s e = some s') :
    (∃ key value, s' = s.setSetting key value) ∨
      ∃ t call, s.calls t = some call ∧ Move s t call e s' := by
  cases hcall : e.call? with
  | none =>
      cases e <;> cases hcall
      exact .inl ⟨_, _, (Option.some.inj h).symm⟩
  | some t =>
      obtain ⟨call, hs, hadvance⟩ := advance_of_step hcall h
      exact .inr ⟨t, call, hs, advance_cases hcall hadvance⟩

/-- Calls are numbered from zero. -/
def Numbered (s : State) : Prop :=
  ∀ t, s.next ≤ t → s.pc t = none

theorem State.pc_of_calls {s : State} {t : ℕ} {call : Call} (h : s.calls t = some call) :
    s.pc t = some call.pc := by
  rw [State.pc, h]
  rfl

theorem Numbered.step {s s' : State} {e : Event} (h : Numbered s) (hstep : step s e = some s') :
    Numbered s' := by
  rcases step_cases hstep with ⟨key, value, rfl⟩ | ⟨t, call, hcall, hmove⟩
  · intro u hle
    simp only [State.setSetting, State.goto_next] at hle
    rw [State.setSetting, State.goto_pc, Function.update_of_ne (by omega)]
    exact h u (by omega)
  · have hupdate : ∃ pc', s'.pc = Function.update s.pc t (some pc') ∧ s'.next = s.next := by
      cases hmove <;> exact ⟨_, State.goto_pc .., rfl⟩
    obtain ⟨pc', hpc, hnext⟩ := hupdate
    intro u hle
    rw [hpc, Function.update_of_ne, h u (hnext ▸ hle)]
    rintro rfl
    have hnone := h u (hnext ▸ hle)
    rw [State.pc_of_calls hcall] at hnone
    cases hnone

theorem reachableWhere_numbered {ok : State → Event → Prop} {s : State}
    (h : system.ReachableWhere ok s) : Numbered s :=
  h.invariant (I := Numbered) (by rintro _ ⟨config, temp, rfl⟩ _ _; rfl)
    fun _ _ _ _ hs _ hstep => hs.step hstep

/-! ## Runs that cannot end well -/

/-- Some call was not acknowledged. -/
def State.Failed (s : State) : Prop :=
  ∃ t reply, s.pc t = some (.returned reply) ∧ reply ≠ success

/-- Some call is about to rename a file that is not there, or that another call is about
to rename too. -/
def State.Doomed (s : State) : Prop :=
  ∃ t snapshot suffix, s.pc t = some (.written snapshot suffix) ∧
    (s.temp suffix = none ∨
      ∃ t' snapshot', t' ≠ t ∧ s.pc t' = some (.written snapshot' suffix))

section Move

variable {s s' : State} {t : ℕ} {call : Call} {e : Event}

theorem State.failed_goto (s : State) (t : ℕ) (call : Call) {reply : Reply} (h : reply ≠ success) :
    (s.goto t call (.returned reply)).Failed :=
  ⟨t, reply, by rw [State.goto_pc, Function.update_self], h⟩

/-- Other calls stay where they are. -/
theorem update_pc_of_ne {u : ℕ} {pc pc' : Pc} {before : Option Pc} (ht : s.pc t = before)
    (hu : s.pc u = some pc) (hne : before ≠ some pc) :
    Function.update s.pc t (some pc') u = some pc := by
  rw [Function.update_of_ne (by rintro rfl; exact hne (ht ▸ hu)), hu]

theorem State.Failed.update (h : s.Failed) {pc' : Pc}
    (hpc : s'.pc = Function.update s.pc t (some pc'))
    (ht : ∀ reply, s.pc t ≠ some (.returned reply)) : s'.Failed := by
  obtain ⟨u, reply, hu, hreply⟩ := h
  refine ⟨u, reply, ?_, hreply⟩
  rw [hpc, Function.update_of_ne (by rintro rfl; exact ht reply hu), hu]

theorem State.Doomed.update (h : s.Doomed) {pc' : Pc}
    (hpc : s'.pc = Function.update s.pc t (some pc')) (htemp : s'.temp = s.temp)
    (ht : ∀ snapshot suffix, s.pc t ≠ some (.written snapshot suffix)) : s'.Doomed := by
  have hkeep : ∀ u snapshot suffix, s.pc u = some (.written snapshot suffix) →
      s'.pc u = some (.written snapshot suffix) := by
    intro u snapshot suffix hu
    rw [hpc, Function.update_of_ne (by rintro rfl; exact ht snapshot suffix hu), hu]
  obtain ⟨u, snapshot, suffix, hu, hshort⟩ := h
  refine ⟨u, snapshot, suffix, hkeep u _ _ hu, ?_⟩
  rw [htemp]
  exact hshort.imp_right fun ⟨u', snapshot', hne, hu'⟩ => ⟨u', snapshot', hne, hkeep u' _ _ hu'⟩

/-- Writing a file that is about to be renamed dooms one of the two calls. -/
theorem State.Doomed.write {snapshot : Store} {suffix : ℕ} {u : ℕ} {snapshot' : Store}
    (hu : s.pc u = some (.written snapshot' suffix)) (hut : u ≠ t)
    (hpc : s'.pc = Function.update s.pc t (some (.written snapshot suffix))) : s'.Doomed :=
  ⟨t, snapshot, suffix, by rw [hpc, Function.update_self], .inr ⟨u, snapshot', hut, by
    rw [hpc, Function.update_of_ne hut, hu]⟩⟩

theorem State.Doomed.step (h : s.Doomed) (hcall : s.calls t = some call)
    (hmove : Move s t call e s') : s'.Failed ∨ s'.Doomed := by
  have ht := State.pc_of_calls hcall
  cases hmove with
  | lock hpc => exact .inr (h.update (State.goto_pc ..) rfl (by rw [ht, hpc]; nofun))
  | insert hpc => exact .inr (h.update (State.goto_pc ..) rfl (by rw [ht, hpc]; nofun))
  | unlock hpc => exact .inr (h.update (State.goto_pc ..) rfl (by rw [ht, hpc]; nofun))
  | skip hpc => exact .inr (h.update (State.goto_pc ..) rfl (by rw [ht, hpc]; nofun))
  | serialise hpc => exact .inr (h.update (State.goto_pc ..) rfl (by rw [ht, hpc]; nofun))
  | createDir hpc => exact .inr (h.update (State.goto_pc ..) rfl (by rw [ht, hpc]; nofun))
  | fail temp error => exact .inl (State.failed_goto _ t call nofun)
  | write suffix hpc =>
      rename_i snapshot
      obtain ⟨u, snapshot', suffix', hu, hshort⟩ := h
      have hut : u ≠ t := by
        rintro rfl
        rw [ht, hpc] at hu
        cases hu
      by_cases hsuffix : suffix' = suffix
      · subst hsuffix
        exact .inr (.write hu hut (State.goto_pc ..))
      · refine .inr ⟨u, snapshot', suffix', ?_, ?_⟩
        · rw [State.goto_pc, Function.update_of_ne hut]
          exact hu
        · dsimp only [State.goto_temp]
          rw [Function.update_of_ne hsuffix, State.goto_pc]
          refine hshort.imp_right fun ⟨u', snapshot'', hne, hu'⟩ => ⟨u', snapshot'', hne, ?_⟩
          exact update_pc_of_ne (s := s) ht hu' (by rw [hpc]; nofun)
  | rename he hpc htemp =>
      rename_i snapshot suffix content
      rw [hpc] at ht
      obtain ⟨u, snapshot', suffix', hu, hshort⟩ := h
      right
      by_cases hut : u = t
      · -- the other call that is about to rename this file will not find it
        subst hut
        obtain ⟨rfl, rfl⟩ : snapshot' = snapshot ∧ suffix' = suffix := by
          simpa [ht, eq_comm] using hu
        obtain ⟨u', snapshot'', hne, hu'⟩ := hshort.resolve_left (by rw [htemp]; nofun)
        refine ⟨u', snapshot'', suffix', ?_, .inl (by simp)⟩
        rw [State.goto_pc, Function.update_of_ne hne]
        exact hu'
      · refine ⟨u, snapshot', suffix', ?_, ?_⟩
        · rw [State.goto_pc, Function.update_of_ne hut]
          exact hu
        · by_cases hsuffix : suffix' = suffix
          · subst hsuffix
            exact .inl (by simp)
          · dsimp only [State.goto_temp]
            rw [Function.update_of_ne hsuffix, State.goto_pc]
            refine hshort.imp_right fun ⟨u', snapshot'', hne, hu'⟩ => ⟨u', snapshot'', hne, ?_⟩
            refine update_pc_of_ne (s := s) ht hu' fun heq => hsuffix ?_
            simp only [Option.some.injEq, Pc.written.injEq] at heq
            exact heq.2.symm

theorem State.Failed.step (h : s.Failed) (hcall : s.calls t = some call)
    (hmove : Move s t call e s') : s'.Failed := by
  have ht := State.pc_of_calls hcall
  cases hmove with
  | lock hpc => exact h.update (State.goto_pc ..) (by rw [ht, hpc]; nofun)
  | insert hpc => exact h.update (State.goto_pc ..) (by rw [ht, hpc]; nofun)
  | unlock hpc => exact h.update (State.goto_pc ..) (by rw [ht, hpc]; nofun)
  | skip hpc => exact h.update (State.goto_pc ..) (by rw [ht, hpc]; nofun)
  | serialise hpc => exact h.update (State.goto_pc ..) (by rw [ht, hpc]; nofun)
  | createDir hpc => exact h.update (State.goto_pc ..) (by rw [ht, hpc]; nofun)
  | write suffix hpc => exact h.update (State.goto_pc ..) (by rw [ht, hpc]; nofun)
  | rename he hpc => exact h.update (State.goto_pc ..) (by rw [ht, hpc]; nofun)
  | fail temp error => exact State.failed_goto _ t call nofun

end Move

/-! ## Runs that end well -/

/-- Every file about to be renamed is there and is its call's own, and once there are
calls the map is saved or some call will save it. -/
structure State.Secured (s : State) : Prop where
  temp : ∀ t snapshot suffix, s.pc t = some (.written snapshot suffix) →
    s.temp suffix = some (toStringPretty snapshot)
  alone : ∀ t t' snapshot snapshot' suffix, s.pc t = some (.written snapshot suffix) →
    s.pc t' = some (.written snapshot' suffix) → t' = t
  saved : (∃ t, s.pc t ≠ none) → s.Saved ∨ ∃ t pc, s.pc t = some pc ∧ pc.Owes s.store

section Secured

variable {s s' : State} {t : ℕ}

/-- A call goes on that will save the map if it would have before. -/
theorem State.Secured.goesOn (h : s.Secured) {pc pc' : Pc} (ht : s.pc t = some pc)
    (hpc : s'.pc = Function.update s.pc t (some pc')) (hconfig : s'.config = s.config)
    (hstore : s'.store = s.store) (howes : pc.Owes s.store → pc'.Owes s.store) :
    s'.Saved ∨ ∃ u pc, s'.pc u = some pc ∧ pc.Owes s'.store := by
  rw [State.Saved, hconfig, hstore]
  refine (h.saved ⟨t, by rw [ht]; nofun⟩).imp_right fun ⟨u, other, hu, hother⟩ => ?_
  by_cases hut : u = t
  · subst hut
    obtain rfl : pc = other := Option.some.inj (ht.symm.trans hu)
    exact ⟨u, pc', by rw [hpc, Function.update_self], howes hother⟩
  · exact ⟨u, other, by rw [hpc, Function.update_of_ne hut, hu], hother⟩

/-- A call with nothing to rename goes on. -/
theorem State.Secured.work (h : s.Secured) {pc' : Pc}
    (hpc : s'.pc = Function.update s.pc t (some pc')) (htemp : s'.temp = s.temp)
    (hsaved : s'.Saved ∨ ∃ u pc, s'.pc u = some pc ∧ pc.Owes s'.store)
    (hnot : ∀ snapshot suffix, pc' ≠ .written snapshot suffix) : s'.Secured := by
  have hback : ∀ u snapshot suffix, s'.pc u = some (.written snapshot suffix) →
      s.pc u = some (.written snapshot suffix) := by
    intro u snapshot suffix hu
    by_cases hut : u = t
    · rw [hpc, hut, Function.update_self] at hu
      exact absurd (Option.some.inj hu) (hnot snapshot suffix)
    · rwa [hpc, Function.update_of_ne hut] at hu
  refine ⟨fun u snapshot suffix hu => ?_, fun u u' snapshot snapshot' suffix hu hu' => ?_,
    fun _ => hsaved⟩
  · rw [htemp]
    exact h.temp u _ _ (hback u _ _ hu)
  · exact h.alone u u' _ _ _ (hback u _ _ hu) (hback u' _ _ hu')

/-- A call writes a file that no call is about to rename. -/
theorem State.Secured.write (h : s.Secured) {snapshot : Store} {suffix : ℕ}
    (ht : s.pc t = some (.dirCreated snapshot))
    (hfree : ∀ u snapshot', s.pc u ≠ some (.written snapshot' suffix))
    (hpc : s'.pc = Function.update s.pc t (some (.written snapshot suffix)))
    (htemp : s'.temp = Function.update s.temp suffix (some (toStringPretty snapshot)))
    (hconfig : s'.config = s.config) (hstore : s'.store = s.store) : s'.Secured := by
  -- every other written file has another name
  have hcases : ∀ u snapshot' suffix', s'.pc u = some (.written snapshot' suffix') →
      (u = t ∧ snapshot' = snapshot ∧ suffix' = suffix) ∨
        (suffix' ≠ suffix ∧ s.pc u = some (.written snapshot' suffix')) := by
    intro u snapshot' suffix' hu
    by_cases hut : u = t
    · rw [hpc, hut, Function.update_self] at hu
      simp only [Option.some.injEq, Pc.written.injEq] at hu
      exact .inl ⟨hut, hu.1.symm, hu.2.symm⟩
    · rw [hpc, Function.update_of_ne hut] at hu
      exact .inr ⟨by rintro rfl; exact hfree u snapshot' hu, hu⟩
  refine ⟨fun u snapshot' suffix' hu => ?_, fun u u' snapshot' snapshot'' suffix' hu hu' => ?_,
    fun _ => h.goesOn ht hpc hconfig hstore id⟩
  · rcases hcases u _ _ hu with ⟨rfl, rfl, rfl⟩ | ⟨hne, hu⟩
    · rw [htemp, Function.update_self]
    · rw [htemp, Function.update_of_ne hne]
      exact h.temp u _ _ hu
  · rcases hcases u _ _ hu with ⟨rfl, rfl, rfl⟩ | ⟨hne, hu⟩ <;>
      rcases hcases u' _ _ hu' with ⟨rfl, rfl, heq⟩ | ⟨hne', hu'⟩
    · rfl
    · exact absurd rfl hne'
    · exact absurd heq hne
    · exact h.alone u u' _ _ _ hu hu'

/-- A call renames its own snapshot over the file. -/
theorem State.Secured.rename (h : s.Secured) {snapshot : Store} {suffix : ℕ}
    (ht : s.pc t = some (.written snapshot suffix))
    (horder : snapshot.Same s.store ∨ ∃ u pc, u ≠ t ∧ s.pc u = some pc ∧ pc.Owes s.store)
    (hpc : s'.pc = Function.update s.pc t (some (.returned success)))
    (htemp : s'.temp = Function.update s.temp suffix none)
    (hconfig : s'.config = s.temp suffix) (hstore : s'.store = s.store) : s'.Secured := by
  have hback : ∀ u snapshot' suffix', s'.pc u = some (.written snapshot' suffix') →
      suffix' ≠ suffix ∧ s.pc u = some (.written snapshot' suffix') := by
    intro u snapshot' suffix' hu
    by_cases hut : u = t
    · rw [hpc, hut, Function.update_self] at hu
      cases hu
    · rw [hpc, Function.update_of_ne hut] at hu
      exact ⟨by rintro rfl; exact hut (h.alone t u _ _ _ ht hu), hu⟩
  refine ⟨fun u snapshot' suffix' hu => ?_, fun u u' snapshot' snapshot'' suffix' hu hu' => ?_,
    fun _ => ?_⟩
  · obtain ⟨hne, hu⟩ := hback u _ _ hu
    rw [htemp, Function.update_of_ne hne]
    exact h.temp u _ _ hu
  · exact h.alone u u' _ _ _ (hback u _ _ hu).2 (hback u' _ _ hu').2
  · rcases horder with hsame | ⟨u, pc, hut, hu, howes⟩
    · exact .inl ⟨_, snapshot, by rw [hconfig, h.temp t _ _ ht], fromStr_toStringPretty snapshot,
        by rwa [hstore]⟩
    · exact .inr ⟨u, pc, by rw [hpc, Function.update_of_ne hut, hu], by rwa [hstore]⟩

end Secured

/-! ## No acknowledged update is lost -/

structure Invariant (s : State) : Prop where
  nonempty : ∀ t, s.pc t = some .inserted ∨ s.pc t = some .unlocked → s.store ≠ []
  lastInserted : s.LastInserted
  fate : s.Failed ∨ s.Doomed ∨ s.Secured

theorem Invariant.new (config : Option FileContent) (temp : ℕ → Option FileContent) :
    Invariant (.new config temp) where
  nonempty _ h := by rcases h with h | h <;> cases h
  lastInserted := .refl _
  fate := .inr (.inr ⟨nofun, nofun, fun ⟨_, h⟩ => absurd rfl h⟩)

theorem Invariant.setSetting {s : State} (h : Invariant s) (hnew : s.pc s.next = none)
    (key value : String) : Invariant (s.setSetting key value) := by
  refine ⟨fun t hin => ?_, h.lastInserted, ?_⟩
  · simp only [State.setSetting, State.goto_pc] at hin
    by_cases ht : t = s.next
    · subst ht
      rw [Function.update_self] at hin
      split_ifs at hin <;> rcases hin with hin | hin <;> cases hin
    · rw [Function.update_of_ne ht] at hin
      exact h.nonempty t hin
  · rw [State.setSetting]
    split_ifs with hblank
    · exact .inl (State.failed_goto _ s.next _ nofun)
    · rcases h.fate with hfailed | hdoomed | hsecured
      · exact .inl (hfailed.update (State.goto_pc ..) (by rw [hnew]; nofun))
      · exact .inr (.inl (hdoomed.update (State.goto_pc ..) rfl (by rw [hnew]; nofun)))
      · exact .inr (.inr (hsecured.work (State.goto_pc ..) rfl
          (.inr ⟨s.next, .waiting, by simp, trivial⟩) nofun))

/-- A call goes on without inserting anything. -/
theorem Invariant.goesOn {s s' : State} {t : ℕ} {pc pc' : Pc} (h : Invariant s)
    (ht : s.pc t = some pc) (hpc : s'.pc = Function.update s.pc t (some pc'))
    (hstore : s'.store = s.store) (hlast : s'.LastInserted)
    (hinserted : pc' ≠ .inserted) (hunlocked : pc' = .unlocked → pc = .inserted)
    (hfate : s'.Failed ∨ s'.Doomed ∨ s'.Secured) : Invariant s' := by
  refine ⟨fun u hin => ?_, hlast, hfate⟩
  rw [hstore]
  by_cases hut : u = t
  · subst hut
    rw [hpc, Function.update_self] at hin
    rcases hin with hin | hin
    · exact absurd (Option.some.inj hin) hinserted
    · exact h.nonempty u (.inl (by rw [ht, hunlocked (Option.some.inj hin)]))
  · rw [hpc, Function.update_of_ne hut] at hin
    exact h.nonempty u hin

theorem Invariant.insert {s : State} {t : ℕ} {call : Call} (h : Invariant s) {s' : State}
    (hs' : s' = { s with
      store := s.store.insert call.key call.value
      inserts := (call.key, call.value) :: s.inserts }.goto t call .inserted)
    (hfate : s'.Failed ∨ s'.Doomed ∨ s'.Secured) : Invariant s' := by
  subst hs'
  refine ⟨fun _ _ => Store.insert_ne_nil _ _, fun key => ?_, hfate⟩
  simp only [State.goto, Store.insert, Assoc.lookup_insert, List.cons_append, Assoc.lookup_cons]
  split_ifs
  · rfl
  · exact h.lastInserted key

/-- **What a step of a call preserves.** -/
theorem Invariant.move {s s' : State} {t : ℕ} {call : Call} {e : Event} (h : Invariant s)
    (hcall : s.calls t = some call) (hok : Orderly s e) (hmove : Move s t call e s') :
    Invariant s' := by
  have ht := State.pc_of_calls hcall
  have hfate : (s.Secured → s'.Doomed ∨ s'.Secured) →
      s'.Failed ∨ s'.Doomed ∨ s'.Secured := by
    intro hsecured
    rcases h.fate with hfailed | hdoomed | hs
    · exact .inl (hfailed.step hcall hmove)
    · exact (hdoomed.step hcall hmove).imp_right .inl
    · exact .inr (hsecured hs)
  cases hmove with
  | lock hpc =>
      exact h.goesOn ht (State.goto_pc ..) rfl h.lastInserted nofun nofun (hfate fun hs =>
        .inr (hs.work (State.goto_pc ..) rfl (.inr ⟨t, .locked, by simp, trivial⟩) nofun))
  | insert hpc =>
      exact h.insert rfl (hfate fun hs =>
        .inr (hs.work (State.goto_pc ..) rfl (.inr ⟨t, .inserted, by simp, trivial⟩) nofun))
  | unlock hpc =>
      exact h.goesOn ht (State.goto_pc ..) rfl h.lastInserted nofun (fun _ => hpc) (hfate fun hs =>
        .inr (hs.work (State.goto_pc ..) rfl (.inr ⟨t, .unlocked, by simp, trivial⟩) nofun))
  | skip hpc hempty => exact absurd hempty (h.nonempty t (.inr (by rw [ht, hpc])))
  | serialise hpc =>
      exact h.goesOn ht (State.goto_pc ..) rfl h.lastInserted nofun nofun (hfate fun hs =>
        .inr (hs.work (State.goto_pc ..) rfl
          (.inr ⟨t, .serialised s.store, by simp, Store.Same.refl _⟩) nofun))
  | createDir hpc =>
      rw [hpc] at ht
      exact h.goesOn ht (State.goto_pc ..) rfl h.lastInserted nofun nofun (hfate fun hs =>
        .inr (hs.work (State.goto_pc ..) rfl (hs.goesOn ht (State.goto_pc ..) rfl rfl id) nofun))
  | write suffix hpc =>
      rename_i snapshot
      rw [hpc] at ht
      refine h.goesOn ht (State.goto_pc ..) rfl h.lastInserted nofun nofun (hfate fun hs => ?_)
      by_cases hfree : ∀ u snapshot', s.pc u ≠ some (.written snapshot' suffix)
      · exact .inr (hs.write ht hfree (State.goto_pc ..) rfl rfl rfl)
      · push Not at hfree
        obtain ⟨u, snapshot', hu⟩ := hfree
        refine .inl (.write hu ?_ (State.goto_pc ..))
        rintro rfl
        rw [ht] at hu
        cases hu
  | rename he hpc htemp =>
      rw [hpc] at ht
      subst he
      exact h.goesOn ht (State.goto_pc ..) rfl h.lastInserted nofun nofun (hfate fun hs =>
        .inr (hs.rename ht (hok _ _ ht) (State.goto_pc ..) rfl htemp.symm rfl))
  | fail temp error =>
      exact h.goesOn ht (State.goto_pc ..) rfl h.lastInserted nofun nofun
        (.inl (State.failed_goto _ t call nofun))

theorem Invariant.step {s s' : State} {e : Event} (h : Invariant s) (hnew : s.pc s.next = none)
    (hok : Orderly s e) (hstep : step s e = some s') : Invariant s' := by
  rcases step_cases hstep with ⟨key, value, rfl⟩ | ⟨t, call, hcall, hmove⟩
  · exact h.setSetting hnew key value
  · exact h.move hcall hok hmove

theorem Invariant.saved {s : State} (h : Invariant s) (hall : s.AllAcknowledged) : s.Saved := by
  obtain ⟨hsome, hreturned⟩ := hall
  rcases h.fate with ⟨t, reply, ht, hreply⟩ | ⟨t, snapshot, suffix, ht, -⟩ | hsecured
  · exact absurd (Pc.returned.inj (hreturned t _ ht)) hreply
  · exact absurd (hreturned t _ ht) nofun
  · refine (hsecured.saved hsome).resolve_right ?_
    rintro ⟨t, pc, ht, howes⟩
    rw [hreturned t pc ht] at howes
    exact howes

/-- **No acknowledged update is lost** in runs in which every call that renames has the
map as it is in its snapshot, or leaves another call that has yet to save it: once all
calls have returned with success, the file decodes to the map, and the map holds for each
key what was inserted last. -/
theorem saved_of_orderly {s : State} (h : system.ReachableWhere Orderly s)
    (hall : s.AllAcknowledged) : s.Saved ∧ s.LastInserted := by
  have hinv :=
    h.invariant (I := Invariant) (by rintro _ ⟨config, temp, rfl⟩; exact .new config temp)
    fun _ _ _ hreach hs hok hstep =>
      hs.step (reachableWhere_numbered hreach _ (Nat.le_refl _)) hok hstep
  exact ⟨hinv.saved hall, hinv.lastInserted⟩

/-- One call, up to its rename. -/
def writing : List Event :=
  [.setSetting "ai.mode" "always", .lock 0, .insert 0, .unlock 0, .serialise 0 none,
    .createDir 0 none, .write 0 7 none]

theorem saved_of_orderly_oneCall :
    ∃ s, system.ReachableWhere Orderly s ∧ s.AllAcknowledged ∧ s.Saved ∧ s.LastInserted := by
  have hrun : (system.run (.new none fun _ => none) writing).map (fun s =>
      (s.pc 0, s.store, (step s (.rename 0 none)).map fun s => (s.next, s.pc 0))) =
      some (some (.written (seedDefaults.insert "ai.mode" "always") 7),
        seedDefaults.insert "ai.mode" "always", some (1, some (.returned success))) := rfl
  obtain ⟨s, hs, heq⟩ := Option.map_eq_some_iff.mp hrun
  simp only [Prod.mk.injEq] at heq
  obtain ⟨hpc, hstore, hlast⟩ := heq
  obtain ⟨s', hstep, hs'⟩ := Option.map_eq_some_iff.mp hlast
  simp only [Prod.mk.injEq] at hs'
  have hwritten : system.ReachableWhere Orderly s :=
    .run (.init ⟨none, fun _ => none, rfl⟩) (by simp [writing, Orderly]) hs
  have hrenamed : system.ReachableWhere Orderly s' := by
    refine hwritten.step (e := Event.rename 0 none) (fun snapshot suffix h => .inl ?_) hstep
    rw [hpc] at h
    cases h
    rw [hstore]
    exact .refl _
  have hall : s'.AllAcknowledged := by
    refine ⟨⟨0, by rw [hs'.2]; nofun⟩, fun t pc ht => ?_⟩
    rcases Nat.lt_or_ge t s'.next with hlt | hge
    · obtain rfl : t = 0 := by omega
      rw [hs'.2] at ht
      exact (Option.some.inj ht).symm
    · rw [reachableWhere_numbered hrenamed t hge] at ht
      cases ht
  exact ⟨s', hrenamed, hall, saved_of_orderly hrenamed hall⟩

/-- A service whose settings file does not decode. -/
def undecoded : State := .new (some (.malformed "ai.mode = ondemand")) fun _ => none

/-- Two calls: the first one takes its snapshot before the second one inserts, and renames
it after the second one has renamed. -/
def overtaken : List Event :=
  [.setSetting "a" "1", .lock 0, .insert 0, .unlock 0, .serialise 0 none, .createDir 0 none,
    .write 0 7 none, .setSetting "b" "2", .lock 1, .insert 1, .unlock 1, .serialise 1 none,
    .createDir 1 none, .write 1 8 none, .rename 1 none, .rename 0 none]

/-- Without the condition an acknowledged update may be missing from the file. -/
theorem not_saved_overtaken :
    ¬ ∀ s, system.Reachable s → s.AllAcknowledged → s.Saved ∧ s.LastInserted := by
  intro halways
  have hrun : (system.run undecoded overtaken).map (fun s =>
      (s.next, s.pc 0, s.pc 1, s.store.lookup "b",
        (s.config.bind fromStr).map fun entries => entries.lookup "b")) =
      some (2, some (.returned success), some (.returned success), some "2", some none) := rfl
  obtain ⟨s, hs, heq⟩ := Option.map_eq_some_iff.mp hrun
  simp only [Prod.mk.injEq] at heq
  obtain ⟨hnext, hfirst, hsecond, hstore, hfile⟩ := heq
  have hreach : system.Reachable s := .run (.init ⟨_, _, rfl⟩) hs
  have hall : s.AllAcknowledged := by
    refine ⟨⟨0, by rw [hfirst]; nofun⟩, fun t pc ht => ?_⟩
    rcases Nat.lt_or_ge t s.next with hlt | hge
    · obtain rfl | rfl : t = 0 ∨ t = 1 := by omega
      · rw [hfirst] at ht
        exact (Option.some.inj ht).symm
      · rw [hsecond] at ht
        exact (Option.some.inj ht).symm
    · rw [reachableWhere_numbered hreach t hge] at ht
      cases ht
  obtain ⟨⟨content, entries, hconfig, hentries, hsame⟩, -⟩ := halways s hreach hall
  have hb := hsame "b"
  rw [hconfig, Option.bind_some, hentries, Option.map_some, Option.some.injEq] at hfile
  rw [hfile, hstore] at hb
  cases hb

end NiraOS.Settings
