import NiraOS.Settings.Saving

/-!
# Refused settings

A `set_setting` that answers with failure should leave the settings in memory and the file as they
were.  The insertion comes first and is not taken back, whichever step of the save fails:

```text
the call is at                       the map              the file
waiting, locked                      as before            as before
inserted, unlocked                   with the new entry   as before
serialised, dirCreated, written      with the new entry   as before
returned with failure                with the new entry   as before
```

So the map is as before only if it held that entry already (`untraced_iff`).
-/

namespace NiraOS.Settings

/-! ## What a refused call should leave -/

/-- The settings in memory and the file are as they were. -/
structure Untraced (s s' : State) : Prop where
  store : s'.store.Same s.store
  config : s'.config = s.config

/-! ## A call that is alone -/

/-- What a call has done to the map and to the file when it is at some point. -/
def Pc.Trace (s : State) (key value : String) (s' : State) : Pc → Prop
  | .waiting | .locked => s'.store = s.store ∧ s'.config = s.config
  | .returned (.response true _) | .returned (.invalidArgument _) => True
  | _ => s'.store = s.store.insert key value ∧ s'.config = s.config

/-- How far the call has come. -/
def State.Course (s : State) (key value : String) (s' : State) : Prop :=
  ∃ pc, s'.calls s.next = some ⟨key, value, pc⟩ ∧ pc.Trace s key value s'

section Course

variable {s u u' : State} {key value : String} {e : Event}

theorem course_setSetting (s : State) (key value : String) :
    s.Course key value (s.setSetting key value) := by
  refine ⟨_, Function.update_self .., ?_⟩
  split_ifs
  · trivial
  · exact ⟨rfl, rfl⟩

/-- The call goes to another point, where its trace is as it should be. -/
theorem course_goto {call : Call} {pc : Pc} (hkey : call.key = key) (hvalue : call.value = value)
    (htrace : pc.Trace s key value (u.goto s.next call pc)) :
    s.Course key value (u.goto s.next call pc) := by
  obtain ⟨_, _, _⟩ := call
  obtain rfl : _ = key := hkey
  obtain rfl : _ = value := hvalue
  exact ⟨pc, Function.update_self .., htrace⟩

/-- **One step** of the call. -/
theorem State.Course.step (h : s.Course key value u) (he : e.call? = some s.next)
    (hstep : step u e = some u') :
    s.Course key value u' := by
  obtain ⟨call, hcall, hadvance⟩ := advance_of_step he hstep
  obtain ⟨pc, hpc, htrace⟩ := h
  obtain rfl : call = ⟨key, value, pc⟩ := Option.some.inj (hcall.symm.trans hpc)
  cases e with
  | setSetting key value => nomatch he
  | lock t =>
      obtain rfl := Option.some.inj he
      cases pc <;> cases hwriter : u.writer <;> simp only [advance, hwriter] at hadvance <;>
        cases hadvance
      exact course_goto rfl rfl htrace
  | insert t =>
      obtain rfl := Option.some.inj he
      cases pc <;> simp only [advance] at hadvance <;> cases hadvance
      -- the insertion
      obtain ⟨hstore, hconfig⟩ := htrace
      refine course_goto rfl rfl ⟨?_, hconfig⟩
      change u.store.insert key value = s.store.insert key value
      rw [hstore]
  | unlock t =>
      obtain rfl := Option.some.inj he
      cases pc <;> simp only [advance] at hadvance <;> cases hadvance
      exact course_goto rfl rfl htrace
  | serialise t error =>
      obtain rfl := Option.some.inj he
      cases pc <;> cases hwriter : u.writer <;> simp only [advance, hwriter] at hadvance <;>
        try cases hadvance
      split_ifs at hadvance with hempty
      · cases hadvance
        exact course_goto rfl rfl trivial
      · cases error <;> cases hadvance <;> exact course_goto rfl rfl htrace
  | createDir t error =>
      obtain rfl := Option.some.inj he
      cases pc <;> cases error <;> simp only [advance] at hadvance <;> cases hadvance <;>
        exact course_goto rfl rfl htrace
  | write t suffix error =>
      obtain rfl := Option.some.inj he
      cases pc <;> rcases error with _ | ⟨error, left⟩ <;> simp only [advance] at hadvance <;>
        cases hadvance <;>
        exact course_goto rfl rfl htrace
  | rename t error =>
      obtain rfl := Option.some.inj he
      cases pc <;> simp only [advance] at hadvance <;> try cases hadvance
      next snapshot suffix =>
        cases error with
        | some error =>
            cases hadvance
            exact course_goto rfl rfl htrace
        | none =>
            cases htemp : u.temp suffix with
            | none =>
                rw [htemp] at hadvance
                cases hadvance
                exact course_goto rfl rfl htrace
            | some content =>
                rw [htemp] at hadvance
                cases hadvance
                exact course_goto rfl rfl trivial

/-- **The whole call**, as long as no other goes on. -/
theorem State.Course.run {events : List Event} (h : s.Course key value u)
    (halone : ∀ e ∈ events, e.call? = some s.next) (hrun : system.run u events = some u') :
    s.Course key value u' := by
  induction events generalizing u with
  | nil =>
      obtain rfl := Option.some.inj hrun
      exact h
  | cons e events ih =>
      obtain ⟨v, hstep, hrest⟩ := Option.bind_eq_some_iff.mp hrun
      have hv := h.step (halone e List.mem_cons_self) hstep
      exact ih hv (fun e' he' => halone e' (List.mem_cons_of_mem _ he')) hrest

end Course

/-! ## Which refusals leave no trace -/

theorem insert_same_iff (store : Store) (key value : String) :
    (store.insert key value).Same store ↔ store.lookup key = some value := by
  unfold Store.Same Store.insert
  constructor
  · intro hsame
    have hkey := hsame key
    rw [Assoc.lookup_insert, if_pos rfl] at hkey
    exact hkey.symm
  · intro hheld other
    rw [Assoc.lookup_insert]
    split_ifs with hother
    · rw [hother, hheld]
    · rfl

/-- **A refused setting** leaves no trace if and only if the key had the value already. -/
theorem untraced_iff {s s' : State} {key value error : String} {events : List Event}
    (halone : ∀ e ∈ events, e.call? = some s.next)
    (hrun : system.run s (.setSetting key value :: events) = some s')
    (hrefused : s'.pc s.next = some (.returned (.response false error))) :
    Untraced s s' ↔ s.store.lookup key = some value := by
  obtain ⟨pc, hcall, htrace⟩ := (course_setSetting s key value).run halone hrun
  obtain rfl : pc = .returned (.response false error) := by
    rw [State.pc_of_calls hcall] at hrefused
    exact Option.some.inj hrefused
  obtain ⟨hstore, hconfig⟩ := htrace
  rw [← insert_same_iff, ← hstore]
  exact ⟨fun h => h.store, fun h => ⟨h, hconfig⟩⟩

/-- What comes of a call until its rename, which fails. -/
def refusedAtRename : List Event :=
  [.lock 0, .insert 0, .unlock 0, .serialise 0 none, .createDir 0 none, .write 0 7 none,
    .rename 0 (some "Read-only file system (os error 30)")]

theorem refusedAtRename_alone : ∀ e ∈ refusedAtRename, e.call? = some 0 := by
  simp [refusedAtRename, Event.call?]

/-- The mode is set to what it is. -/
theorem untraced_sameMode :
    ∃ s', system.run (.new none fun _ => none)
      (.setSetting "ai.mode" "ondemand" :: refusedAtRename) = some s' ∧
      Untraced (.new none fun _ => none) s' := by
  have hrun : (system.run (.new none fun _ => none)
      (.setSetting "ai.mode" "ondemand" :: refusedAtRename)).map (fun s => s.pc 0) =
      some (some (.returned (failedToPersist "Read-only file system (os error 30)"))) := rfl
  obtain ⟨s', hs', hrefused⟩ := Option.map_eq_some_iff.mp hrun
  exact ⟨s', hs', (untraced_iff refusedAtRename_alone hs' hrefused).mpr rfl⟩

/-- The mode is set where there was none: the memory has it, and the file has not. -/
theorem not_untraced_otherMode :
    ¬ ∀ s s' key value error events, (∀ e ∈ events, e.call? = some s.next) →
      system.run s (.setSetting key value :: events) = some s' →
        s'.pc s.next = some (.returned (.response false error)) → Untraced s s' := by
  intro halways
  have hrun : (system.run undecoded
      (.setSetting "ai.mode" "always" :: refusedAtRename)).map (fun s =>
        (s.pc 0, s.store.lookup "ai.mode")) =
      some (some (.returned (failedToPersist "Read-only file system (os error 30)")),
        some "always") := rfl
  obtain ⟨s', hs', heq⟩ := Option.map_eq_some_iff.mp hrun
  obtain ⟨hrefused, hmode⟩ := Prod.mk.inj heq
  have hsame := (halways _ s' _ _ _ _ refusedAtRename_alone hs' hrefused).store "ai.mode"
  have hold : undecoded.store.lookup "ai.mode" = none := rfl
  rw [hmode, hold] at hsame
  cases hsame

end NiraOS.Settings
