import NiraOS.Settings.Restarts

/-!
# The settings file is whole

`save_to_disk_atomic` writes a temporary file and renames it.  Whatever calls run at once, and
wherever the service is stopped, the file that a start finds should be a map that the service has
had, and never a part of one or a mixture of two.

The temporary files are named by the clock.  As long as a call is given a name that no other call is
about to rename (`OwnFile`), each file that is renamed is the text of its call's snapshot:

```text
the map         a map the service has had
a snapshot      such a map
a file written  the text of its call's snapshot
the file        what was found first, or the text of such a map
```

Two calls that read the same clock may rename what a failed write has left (`not_whole_sameClock`).
-/

namespace NiraOS.Settings

/-! ## Calls at once, and crashes -/

structure Past where
  service : State
  /-- The file that the first start found. -/
  found : Option FileContent
  /-- The maps that the service has had, the present one first. -/
  maps : List Store

inductive Incident
  | service (e : Event)
  /-- The service stops and is started anew; the files it was about to write hold anything. -/
  | crash (temp : ℕ → Option FileContent)

def hosting : Transition.System Past Incident where
  init p := ∃ config temp, p = ⟨.new config temp, config, [loadFromDisk config]⟩
  step p
    | .service e => (step p.service e).map fun s => ⟨s, p.found, s.store :: p.maps⟩
    | .crash temp =>
        some ⟨.new p.service.config temp, p.found, loadFromDisk p.service.config :: p.maps⟩

/-- No call is about to rename a file of the name that the clock gives. -/
def OwnFile (p : Past) : Incident → Prop
  | .service (.write _ suffix _) => ∀ t snapshot, p.service.pc t ≠ some (.written snapshot suffix)
  | _ => True

/-- The file is as it was found first, or the text of a map that the service has had, which the next
start will read. -/
def Whole (p : Past) : Prop :=
  p.service.config = p.found ∨
    ∃ store ∈ p.maps, p.service.config = some (toStringPretty store) ∧
      loadFromDisk p.service.config = store

/-! ## What every incident keeps -/

structure Sound (p : Past) : Prop where
  store : p.service.store ∈ p.maps
  snapshot : ∀ t pc snapshot, p.service.pc t = some pc → pc.snapshot? = some snapshot →
    snapshot ∈ p.maps
  temp : ∀ t snapshot suffix, p.service.pc t = some (.written snapshot suffix) →
    p.service.temp suffix = some (toStringPretty snapshot)
  alone : ∀ t t' snapshot snapshot' suffix, p.service.pc t = some (.written snapshot suffix) →
    p.service.pc t' = some (.written snapshot' suffix) → t' = t
  config : p.service.config = p.found ∨
    ∃ store ∈ p.maps, p.service.config = some (toStringPretty store)

theorem Sound.new {p : Past} (h : Sound p) (temp : ℕ → Option FileContent) :
    Sound ⟨.new p.service.config temp, p.found, loadFromDisk p.service.config :: p.maps⟩ where
  store := List.mem_cons_self
  snapshot t pc snapshot hpc := by cases hpc
  temp t snapshot suffix hpc := by cases hpc
  alone t t' snapshot snapshot' suffix hpc := by cases hpc
  config := by
    rcases h.config with hfound | ⟨store, hstore, hconfig⟩
    · exact Or.inl hfound
    · exact Or.inr ⟨store, List.mem_cons_of_mem _ hstore, hconfig⟩

/-- A call touches the file it writes, and the file it has written. -/
theorem advance_temp {s s' : State} {t : ℕ} {call : Call} {e : Event}
    (h : advance s t call e = some s') {suffix : ℕ}
    (hwrite : ∀ u error, e ≠ .write u suffix error)
    (hown : ∀ snapshot, call.pc ≠ .written snapshot suffix) :
    s'.temp suffix = s.temp suffix := by
  obtain ⟨key, value, pc⟩ := call
  cases e with
  | setSetting key value => cases h
  | lock u =>
      cases pc <;> cases hwriter : s.writer <;> simp only [advance, hwriter] at h <;> cases h
      rfl
  | insert u =>
      cases pc <;> simp only [advance] at h <;> cases h
      rfl
  | unlock u =>
      cases pc <;> simp only [advance] at h <;> cases h
      rfl
  | serialise u error =>
      cases pc <;> cases hwriter : s.writer <;> simp only [advance, hwriter] at h <;> try cases h
      split_ifs at h
      · cases h
        rfl
      · cases error <;> cases h <;> rfl
  | createDir u error =>
      cases pc <;> cases error <;> simp only [advance] at h <;> cases h <;> rfl
  | write u name error =>
      have hne : suffix ≠ name := by
        rintro rfl
        exact hwrite u error rfl
      cases pc <;> cases error <;> simp only [advance] at h <;> cases h <;>
        exact Function.update_of_ne hne ..
  | rename u error =>
      cases pc <;> simp only [advance] at h <;> try cases h
      next snapshot name =>
        have hne : suffix ≠ name := by
          rintro rfl
          exact hown snapshot rfl
        cases error <;> cases htemp : s.temp name <;> rw [htemp] at h <;> cases h <;> try rfl
        exact Function.update_of_ne hne ..

/-- A call comes to have a file by writing it. -/
theorem write_of_dirCreated {s s' : State} {t : ℕ} {call : Call} {e : Event}
    (h : advance s t call e = some s')
    {snapshot snapshot' : Store} {suffix : ℕ} (hpc : call.pc = .dirCreated snapshot)
    (hwritten : s'.pc t = some (.written snapshot' suffix)) :
    ∃ u error, e = .write u suffix error := by
  obtain ⟨key, value, pc⟩ := call
  obtain rfl : pc = .dirCreated snapshot := hpc
  cases e with
  | write u name error =>
      cases error <;> simp only [advance] at h <;> cases h <;>
        rw [State.goto_pc, Function.update_self] at hwritten <;> cases hwritten
      exact ⟨u, none, rfl⟩
  | _ => cases h

section Step

variable {p : Past} {s s' : State} {t : ℕ} {call : Call} {pc' : Pc} {e : Event}

/-- A call goes on: it has a map in hand that the service has had, its file is its own and is as it
wrote it, and the other files stay. -/
theorem Sound.goesOn (h : Sound p) (hpc : s'.pc = Function.update p.service.pc t (some pc'))
    (hsnapshot : ∀ snapshot, pc'.snapshot? = some snapshot → snapshot ∈ s'.store :: p.maps)
    (hown : ∀ snapshot suffix, pc' = .written snapshot suffix →
      s'.temp suffix = some (toStringPretty snapshot) ∧
      ∀ u snapshot', p.service.pc u ≠ some (.written snapshot' suffix))
    (htemp : ∀ u snapshot suffix, u ≠ t → p.service.pc u = some (.written snapshot suffix) →
      s'.temp suffix = p.service.temp suffix)
    (hconfig : s'.config = p.service.config ∨
      ∃ store ∈ p.maps, s'.config = some (toStringPretty store)) :
    Sound ⟨s', p.found, s'.store :: p.maps⟩ := by
  have hother : ∀ u, u ≠ t → s'.pc u = p.service.pc u := by
    intro u hut
    rw [hpc, Function.update_of_ne hut]
  have hself : ∀ pc, s'.pc t = some pc → pc' = pc := by
    intro pc ht
    rw [hpc, Function.update_self] at ht
    exact Option.some.inj ht
  constructor
  · exact List.mem_cons_self
  · intro u pc snapshot hu hin
    by_cases hut : u = t
    · obtain rfl := hself pc (hut ▸ hu)
      exact hsnapshot snapshot hin
    · exact List.mem_cons_of_mem _ (h.snapshot u pc snapshot (hother u hut ▸ hu) hin)
  · intro u snapshot suffix hu
    by_cases hut : u = t
    · exact (hown snapshot suffix (hself _ (hut ▸ hu))).1
    · have hu : p.service.pc u = some (.written snapshot suffix) := hother u hut ▸ hu
      exact (htemp u snapshot suffix hut hu).trans (h.temp u snapshot suffix hu)
  · intro u u' snapshot snapshot' suffix hu hu'
    by_cases hut : u = t <;> by_cases hut' : u' = t
    · rw [hut, hut']
    · have hfree := (hown snapshot suffix (hself _ (hut ▸ hu))).2 u' snapshot'
      exact absurd (hother u' hut' ▸ hu') hfree
    · have hfree := (hown snapshot' suffix (hself _ (hut' ▸ hu'))).2 u snapshot
      exact absurd (hother u hut ▸ hu) hfree
    · exact h.alone u u' snapshot snapshot' suffix (hother u hut ▸ hu) (hother u' hut' ▸ hu')
  · rcases hconfig with hconfig | ⟨store, hstore, hconfig⟩
    · rcases h.config with hfound | ⟨store, hstore, hfile⟩
      · exact Or.inl (hconfig.trans hfound)
      · exact Or.inr ⟨store, List.mem_cons_of_mem _ hstore, hconfig.trans hfile⟩
    · exact Or.inr ⟨store, List.mem_cons_of_mem _ hstore, hconfig⟩

/-- **A step of a call.** -/
theorem Sound.move (h : Sound p) (hcall : p.service.calls t = some call) (he : e.call? = some t)
    (hadvance : advance p.service t call e = some s') (hok : OwnFile p (.service e)) :
    Sound ⟨s', p.found, s'.store :: p.maps⟩ := by
  have ht := State.pc_of_calls hcall
  have htemp : ∀ u snapshot suffix, u ≠ t → p.service.pc u = some (.written snapshot suffix) →
      s'.temp suffix = p.service.temp suffix := by
    intro u snapshot suffix hut hu
    apply advance_temp hadvance
    · rintro v error rfl
      exact hok u snapshot hu
    · intro snapshot' hpc
      exact hut (h.alone t u snapshot' snapshot suffix (ht.trans (congrArg some hpc)) hu)
  cases advance_cases he hadvance with
  | lock hpc =>
      exact h.goesOn (State.goto_pc ..) (by simp [Pc.snapshot?]) (by simp) htemp (Or.inl rfl)
  | insert hpc =>
      exact h.goesOn (State.goto_pc ..) (by simp [Pc.snapshot?]) (by simp) htemp (Or.inl rfl)
  | unlock hpc =>
      exact h.goesOn (State.goto_pc ..) (by simp [Pc.snapshot?]) (by simp) htemp (Or.inl rfl)
  | skip hpc hempty =>
      exact h.goesOn (State.goto_pc ..) (by simp [Pc.snapshot?]) (by simp) htemp (Or.inl rfl)
  | serialise hpc =>
      refine h.goesOn (State.goto_pc ..) ?_ (by simp) htemp (Or.inl rfl)
      intro snapshot heq
      obtain rfl := Option.some.inj heq
      exact List.mem_cons_self
  | createDir hpc =>
      refine h.goesOn (State.goto_pc ..) ?_ (by simp) htemp (Or.inl rfl)
      intro snapshot heq
      exact List.mem_cons_of_mem _ (h.snapshot t _ snapshot ht (by rw [hpc]; exact heq))
  | write suffix hpc =>
      refine h.goesOn (State.goto_pc ..) ?_ ?_ htemp (Or.inl rfl)
      · intro snapshot heq
        exact List.mem_cons_of_mem _ (h.snapshot t _ snapshot ht (by rw [hpc]; exact heq))
      · intro snapshot suffix' heq
        obtain ⟨rfl, rfl⟩ := Pc.written.inj heq
        refine ⟨Function.update_self .., ?_⟩
        obtain ⟨u, error, rfl⟩ :=
          write_of_dirCreated hadvance hpc (by rw [State.goto_pc, Function.update_self])
        exact hok
  | rename _ hpc hcontent =>
      refine h.goesOn (State.goto_pc ..) (by simp [Pc.snapshot?]) (by simp) htemp (Or.inr ?_)
      have hwritten := ht.trans (congrArg some hpc)
      refine ⟨_, h.snapshot t _ _ hwritten rfl, ?_⟩
      rw [← h.temp t _ _ hwritten]
      exact hcontent.symm
  | fail temp error =>
      exact h.goesOn (State.goto_pc ..) (by simp [Pc.snapshot?]) (by simp) htemp (Or.inl rfl)

/-- **A new call** has no map in hand. -/
theorem Sound.setSetting (h : Sound p) (key value : String) :
    Sound ⟨p.service.setSetting key value, p.found, p.service.store :: p.maps⟩ := by
  have htemp : ∀ u snapshot suffix, u ≠ p.service.next →
    p.service.pc u = some (.written snapshot suffix) →
      (p.service.setSetting key value).temp suffix = p.service.temp suffix := by
    intro u snapshot suffix _ _
    rfl
  unfold State.setSetting at htemp ⊢
  split_ifs at htemp ⊢
  · exact h.goesOn (State.goto_pc ..) (by simp [Pc.snapshot?]) (by simp) htemp (Or.inl rfl)
  · exact h.goesOn (State.goto_pc ..) (by simp [Pc.snapshot?]) (by simp) htemp (Or.inl rfl)

/-- **One incident.** -/
theorem Sound.step {p' : Past} {i : Incident} (h : Sound p) (hok : OwnFile p i)
    (hstep : hosting.step p i = some p') : Sound p' := by
  cases i with
  | crash temp =>
      obtain rfl := Option.some.inj hstep
      exact h.new temp
  | service e =>
      obtain ⟨s', hservice, rfl⟩ := Option.map_eq_some_iff.mp hstep
      cases hcall : e.call? with
      | none =>
          cases e <;> cases hcall
          obtain rfl := Option.some.inj hservice
          exact h.setSetting _ _
      | some t =>
          obtain ⟨call, hs, hadvance⟩ := advance_of_step hcall hservice
          exact h.move hs hcall hadvance hok

end Step

theorem numbered_of_reachable {ok : Past → Incident → Prop} {p : Past}
    (h : hosting.ReachableWhere ok p) :
    Numbered p.service := by
  refine h.invariant (I := fun p => Numbered p.service) ?_ ?_
  · rintro _ ⟨config, temp, rfl⟩ t _
    rfl
  · intro p i p' _ hnumbered _ hstep
    cases i with
    | crash temp =>
        obtain rfl := Option.some.inj hstep
        intro t _
        rfl
    | service e =>
        obtain ⟨s', hservice, rfl⟩ := Option.map_eq_some_iff.mp hstep
        exact hnumbered.step hservice

theorem sound_of_ownFile {p : Past} (h : hosting.ReachableWhere OwnFile p) : Sound p := by
  refine h.invariant ?_ ?_
  · rintro _ ⟨config, temp, rfl⟩
    constructor
    · exact List.mem_singleton_self _
    · intro t pc snapshot hpc
      cases hpc
    · intro t snapshot suffix hpc
      cases hpc
    · intro t t' snapshot snapshot' suffix hpc
      cases hpc
    · exact Or.inl rfl
  · intro p i p' _ hsound hok hstep
    exact hsound.step hok hstep

/-- Two calls read the same clock, and one of them renames what the other has left of it. -/
theorem not_whole_sameClock : ∃ p, hosting.Reachable p ∧ ¬ Whole p := by
  have hinit : hosting.init ⟨.new none fun _ => none, none, [seedDefaults]⟩ :=
    ⟨none, fun _ => none, rfl⟩
  have hrun : (hosting.run ⟨.new none fun _ => none, none, [seedDefaults]⟩
      ([.setSetting "a" "1", .lock 0, .insert 0, .unlock 0, .serialise 0 none, .createDir 0 none,
        .write 0 7 none,
        .setSetting "b" "2", .lock 1, .insert 1, .unlock 1, .serialise 1 none, .createDir 1 none,
        .write 1 7 (some ("No space left on device (os error 28)", some (.malformed "a = "))),
        .rename 0 none].map .service)).any
      (fun p => p.found.isNone && p.service.config.any fun content => (fromStr content).isNone) =
        true := rfl
  obtain ⟨p, hreach, htest⟩ := Transition.System.exists_reachable_of_run hinit hrun
  rw [Bool.and_eq_true] at htest
  obtain ⟨hfound, htorn⟩ := htest
  refine ⟨p, hreach, ?_⟩
  rintro (hfirst | ⟨store, -, hconfig, -⟩)
  · rw [hfirst, Option.isNone_iff_eq_none.mp hfound] at htorn
    cases htorn
  · rw [hconfig, Option.any_some, fromStr_toStringPretty] at htorn
    cases htorn

end NiraOS.Settings
