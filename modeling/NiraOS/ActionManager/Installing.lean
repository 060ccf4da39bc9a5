import NiraOS.ActionManager.Wallpaper

/-!
# One wallpaper or the other

Whatever runs at once and whatever fails, the store should hold one complete wallpaper, a call
should answer for what it has done, and no temporary file should stay.

All of it rests on the temporary names.  While no two running calls have read the same clock
(`Apart`), the file behind a name is the one that its call has created:

```text
opening, creating            nothing has the name
copying                      the file holds what was copied so far
syncing, …, installing         the file holds the source
cleaning                     the file goes, if there is one
```

Two calls with one nonce are not enough to spoil the store; three are
(`not_atomic_of_sameNonce`).
-/

namespace NiraOS.ActionManager.Wallpaper

/-! ## What should hold at every moment -/

structure Atomic (s : State) : Prop where
  /-- The store changes only when a call renames to it. -/
  store : s.content = (s.installs.getLast?.map Prod.snd).or s.before
  /-- What a call renames is the whole of its own source. -/
  complete : ∀ t content, (t, content) ∈ s.installs →
    ∃ call, s.calls t = some call ∧ content = call.source
  failed : ∀ t call error, s.calls t = some call → call.pc = .returned (.error error) →
    ∀ content, (t, content) ∉ s.installs
  succeeded : ∀ t call, s.calls t = some call → call.pc = .returned (.ok ()) →
    (t, call.source) ∈ s.installs
  clean : (∀ t call, s.calls t = some call → call.pc.nonce? = none) → ∀ nonce, s.temp nonce = none

/-- A call reads a clock that no running call has read. -/
def Apart (s : State) : Event → Prop
  | .validate t checks => ∀ call nonce, s.calls t = some call →
      validate call.path checks = .ok nonce →
      ∀ u call', s.calls u = some call' → call'.pc.nonce? ≠ some nonce
  | _ => True

/-! ## The invariant -/

/-- What is known of the files of a call, by where it is. -/
def State.Holds (s : State) (source : Content) : Pc → Prop
  | .opening nonce | .creating nonce => s.temp nonce = none
  | .copying nonce file written => s.temp nonce = some file ∧ s.inodes file = source.take written
  | .syncing nonce | .inspecting nonce | .permitting nonce | .installing nonce =>
      ∃ file, s.temp nonce = some file ∧ s.inodes file = source
  | .validating | .cleaning .. | .returned _ => True

/-- Only a call that has returned with success has renamed. -/
def Pc.Succeeded : Pc → Prop
  | .returned (.ok ()) => True
  | _ => False

structure Invariant (s : State) : Prop where
  holds : ∀ t call, s.calls t = some call → s.Holds call.source call.pc
  distinct : ∀ t u call call' nonce, s.calls t = some call → s.calls u = some call' →
    call.pc.nonce? = some nonce → call'.pc.nonce? = some nonce → t = u
  owned : ∀ nonce file, s.temp nonce = some file →
    ∃ t call, s.calls t = some call ∧ call.pc.nonce? = some nonce
  single : ∀ nonce nonce' file, s.temp nonce = some file → s.temp nonce' = some file →
    nonce = nonce'
  unstored : ∀ nonce file, s.temp nonce = some file → s.store ≠ some file
  born : ∀ nonce file, s.temp nonce = some file → file < s.nextInode
  bornStore : ∀ file, s.store = some file → file < s.nextInode
  content : s.content = (s.installs.getLast?.map Prod.snd).or s.before
  installs : ∀ t content, (t, content) ∈ s.installs →
    ∃ call, s.calls t = some call ∧ content = call.source ∧ call.pc.Succeeded
  succeeded : ∀ t call, s.calls t = some call → call.pc.Succeeded → (t, call.source) ∈ s.installs
  numbered : ∀ t, s.next ≤ t → s.calls t = none

/-! ## One step of one call -/

section Steps

variable {s s' : State} {t n : ℕ} {call : Call} {pc : Pc}

/-- A step of a running call touches nothing but its own files. -/
structure Touches (s : State) (t : ℕ) (call : Call) (n : ℕ) (pc : Pc) (s' : State) : Prop where
  calls : s'.calls = Function.update s.calls t (some { call with pc := pc })
  next : s'.next = s.next
  /-- A call that returns has no temporary file left. -/
  running : pc.nonce? = some n ∨ pc.nonce? = none ∧ s'.temp n = none
  temp : ∀ m, m ≠ n → s'.temp m = s.temp m
  inodes : ∀ m file, m ≠ n → s.temp m = some file → s'.inodes file = s.inodes file
  own : s'.Holds call.source pc
  file : ∀ file, s'.temp n = some file →
    file < s'.nextInode ∧ s'.store ≠ some file ∧ ∀ m, m ≠ n → s.temp m ≠ some file
  store : ∀ file, s'.store = some file → file < s'.nextInode ∧ ∀ m, m ≠ n → s.temp m ≠ some file
  grows : s.nextInode ≤ s'.nextInode
  content : s'.content = (s'.installs.getLast?.map Prod.snd).or s'.before
  installs : s'.installs = s.installs ∧ ¬ pc.Succeeded ∨
    s'.installs = s.installs ++ [(t, call.source)] ∧ pc.Succeeded

theorem Pc.not_succeeded_of_running (h : pc.nonce? = some n) : ¬ pc.Succeeded := by
  intro hsucceeded
  unfold Pc.Succeeded at hsucceeded
  split at hsucceeded
  · nomatch h
  · exact hsucceeded

/-- What a call holds depends only on the file behind its name. -/
theorem holds_congr (h : s.Holds call.source pc)
    (htemp : ∀ m, pc.nonce? = some m → s'.temp m = s.temp m)
    (hinodes : ∀ m file, pc.nonce? = some m → s.temp m = some file →
      s'.inodes file = s.inodes file) :
    s'.Holds call.source pc := by
  cases pc with
  | validating => trivial
  | cleaning m error => trivial
  | returned result => trivial
  | opening m => exact (htemp m rfl).trans h
  | creating m => exact (htemp m rfl).trans h
  | copying m file written =>
      exact ⟨(htemp m rfl).trans h.1, (hinodes m file rfl h.1).trans h.2⟩
  | syncing m | inspecting m | permitting m | installing m =>
      obtain ⟨file, hfile, hsource⟩ := h
      exact ⟨file, (htemp m rfl).trans hfile, (hinodes m file rfl hfile).trans hsource⟩

/-- No other call runs under the nonce. -/
def State.Owns (s : State) (t n : ℕ) : Prop :=
  ∀ u call m, u ≠ t → s.calls u = some call → call.pc.nonce? = some m → m ≠ n

/-! ### What a step leaves of each part of the invariant -/

theorem Touches.self (h : Touches s t call n pc s') :
    s'.calls t = some { call with pc := pc } := by
  rw [h.calls, Function.update_self]

theorem Touches.other (h : Touches s t call n pc s') {u : ℕ} (hu : u ≠ t) :
    s'.calls u = s.calls u := by
  rw [h.calls, Function.update_of_ne hu]

/-- A call with a nonce is the one that stepped, under its own, or another, as it was. -/
theorem Touches.nonce (htouches : Touches s t call n pc s') {u m : ℕ} {call' : Call}
    (hu : s'.calls u = some call') (hm : call'.pc.nonce? = some m) :
    u = t ∧ m = n ∨ u ≠ t ∧ s.calls u = some call' := by
  by_cases hut : u = t
  · obtain rfl := Option.some.inj (htouches.self.symm.trans (hut ▸ hu))
    rcases htouches.running with hrunning | ⟨hnone, -⟩
    · exact .inl ⟨hut, Option.some.inj (hm.symm.trans hrunning)⟩
    · cases hnone.symm.trans hm
  · exact .inr ⟨hut, (htouches.other hut).symm.trans hu⟩

theorem Touches.holds (htouches : Touches s t call n pc s') (h : Invariant s) (howns : s.Owns t n)
    (u : ℕ) (call' : Call) (hu : s'.calls u = some call') : s'.Holds call'.source call'.pc := by
  by_cases hut : u = t
  · obtain rfl := Option.some.inj (htouches.self.symm.trans (hut ▸ hu))
    exact htouches.own
  · rw [htouches.other hut] at hu
    refine holds_congr (h.holds u call' hu) (fun m hm => ?_) fun m file hm hfile => ?_
    · exact htouches.temp m (howns u call' m hut hu hm)
    · exact htouches.inodes m file (howns u call' m hut hu hm) hfile

theorem Touches.distinct (htouches : Touches s t call n pc s') (h : Invariant s)
    (howns : s.Owns t n) (u v : ℕ) (call' call'' : Call) (m : ℕ) (hu : s'.calls u = some call')
    (hv : s'.calls v = some call'') (hm : call'.pc.nonce? = some m)
    (hm' : call''.pc.nonce? = some m) : u = v := by
  rcases htouches.nonce hu hm with ⟨rfl, rfl⟩ | ⟨hut, hu⟩
  · rcases htouches.nonce hv hm' with ⟨rfl, -⟩ | ⟨hvt, hv⟩
    · rfl
    · exact absurd rfl (howns v call'' m hvt hv hm')
  · rcases htouches.nonce hv hm' with ⟨rfl, rfl⟩ | ⟨-, hv⟩
    · exact absurd rfl (howns u call' m hut hu hm)
    · exact h.distinct u v call' call'' m hu hv hm hm'

theorem Touches.owned (htouches : Touches s t call n pc s') (h : Invariant s)
    (hcall : s.calls t = some call) (hmine : ∀ m, call.pc.nonce? = some m → m = n) (m : ℕ)
    (file : Inode) (hfile : s'.temp m = some file) :
    ∃ u call', s'.calls u = some call' ∧ call'.pc.nonce? = some m := by
  by_cases hmn : m = n
  · subst hmn
    rcases htouches.running with hrunning | ⟨-, hnone⟩
    · exact ⟨t, _, htouches.self, hrunning⟩
    · cases hnone.symm.trans hfile
  · rw [htouches.temp m hmn] at hfile
    obtain ⟨u, call', hu, hm⟩ := h.owned m file hfile
    have hut : u ≠ t := by
      rintro rfl
      obtain rfl := Option.some.inj (hcall.symm.trans hu)
      exact hmn (hmine m hm)
    exact ⟨u, call', (htouches.other hut).trans hu, hm⟩

theorem Touches.single (htouches : Touches s t call n pc s') (h : Invariant s) (m m' : ℕ)
    (file : Inode) (hm : s'.temp m = some file) (hm' : s'.temp m' = some file) : m = m' := by
  by_cases hmn : m = n
  · by_cases hmn' : m' = n
    · rw [hmn, hmn']
    · rw [htouches.temp m' hmn'] at hm'
      exact absurd hm' ((htouches.file file (hmn ▸ hm)).2.2 m' hmn')
  · rw [htouches.temp m hmn] at hm
    by_cases hmn' : m' = n
    · exact absurd hm ((htouches.file file (hmn' ▸ hm')).2.2 m hmn)
    · rw [htouches.temp m' hmn'] at hm'
      exact h.single m m' file hm hm'

theorem Touches.unstored (htouches : Touches s t call n pc s') (m : ℕ) (file : Inode)
    (hm : s'.temp m = some file) : s'.store ≠ some file := by
  intro hstore
  by_cases hmn : m = n
  · exact (htouches.file file (hmn ▸ hm)).2.1 hstore
  · rw [htouches.temp m hmn] at hm
    exact (htouches.store file hstore).2 m hmn hm

theorem Touches.born (htouches : Touches s t call n pc s') (h : Invariant s) (m : ℕ) (file : Inode)
    (hm : s'.temp m = some file) : file < s'.nextInode := by
  by_cases hmn : m = n
  · exact (htouches.file file (hmn ▸ hm)).1
  · rw [htouches.temp m hmn] at hm
    exact Nat.lt_of_lt_of_le (h.born m file hm) htouches.grows

/-- The renamings there have been are those of calls that returned before, or this one's. -/
theorem Touches.renamed (htouches : Touches s t call n pc s') (h : Invariant s)
    (hcall : s.calls t = some call) (hnot : ¬ call.pc.Succeeded) (u : ℕ) (content : Content)
    (hmem : (u, content) ∈ s'.installs) :
    ∃ call', s'.calls u = some call' ∧ content = call'.source ∧ call'.pc.Succeeded := by
  have hold : (u, content) ∈ s.installs →
      ∃ call', s'.calls u = some call' ∧ content = call'.source ∧ call'.pc.Succeeded := by
    intro hmem
    obtain ⟨call', hu, hcontent, hsucceeded⟩ := h.installs u content hmem
    have hut : u ≠ t := by
      rintro rfl
      obtain rfl := Option.some.inj (hcall.symm.trans hu)
      exact hnot hsucceeded
    exact ⟨call', (htouches.other hut).trans hu, hcontent, hsucceeded⟩
  rcases htouches.installs with ⟨heq, -⟩ | ⟨heq, hsucceeded⟩
  · exact hold (heq ▸ hmem)
  · rcases List.mem_append.mp (heq ▸ hmem) with hmem | hmem
    · exact hold hmem
    · obtain ⟨rfl, rfl⟩ := Prod.mk.inj (List.mem_singleton.mp hmem)
      exact ⟨_, htouches.self, rfl, hsucceeded⟩

theorem Touches.succeeded (htouches : Touches s t call n pc s') (h : Invariant s) (u : ℕ)
    (call' : Call) (hu : s'.calls u = some call') (hsucceeded : call'.pc.Succeeded) :
    (u, call'.source) ∈ s'.installs := by
  by_cases hut : u = t
  · obtain rfl := Option.some.inj (htouches.self.symm.trans (hut ▸ hu))
    rcases htouches.installs with ⟨-, hnot⟩ | ⟨heq, -⟩
    · exact absurd hsucceeded hnot
    · rw [heq, hut]
      exact List.mem_append_right _ (List.mem_singleton_self _)
  · rw [htouches.other hut] at hu
    have hmem := h.succeeded u call' hu hsucceeded
    rcases htouches.installs with ⟨heq, -⟩ | ⟨heq, -⟩
    · exact heq ▸ hmem
    · exact heq ▸ List.mem_append_left _ hmem

theorem Touches.numbered (htouches : Touches s t call n pc s') (h : Invariant s)
    (hcall : s.calls t = some call) (u : ℕ) (hu : s'.next ≤ u) : s'.calls u = none := by
  rw [htouches.next] at hu
  have hut : u ≠ t := by
    rintro rfl
    cases (h.numbered u hu).symm.trans hcall
  exact (htouches.other hut).trans (h.numbered u hu)

/-- **One step** keeps the invariant, when no other running call has the nonce. -/
theorem Invariant.touches (h : Invariant s) (hcall : s.calls t = some call)
    (hmine : ∀ m, call.pc.nonce? = some m → m = n) (hnot : ¬ call.pc.Succeeded)
    (howns : s.Owns t n) (htouches : Touches s t call n pc s') : Invariant s' where
  holds := htouches.holds h howns
  distinct := htouches.distinct h howns
  owned := htouches.owned h hcall hmine
  single := htouches.single h
  unstored := htouches.unstored
  born := htouches.born h
  bornStore file hstore := (htouches.store file hstore).1
  content := htouches.content
  installs := htouches.renamed h hcall hnot
  succeeded := htouches.succeeded h
  numbered := htouches.numbered h hcall

/-- Another running call has another nonce. -/
theorem Invariant.running (h : Invariant s) (hcall : s.calls t = some call)
    (hn : call.pc.nonce? = some n) (htouches : Touches s t call n pc s') : Invariant s' := by
  refine h.touches hcall (fun m hm => ?_) (Pc.not_succeeded_of_running hn) ?_ htouches
  · exact Option.some.inj (hm.symm.trans hn)
  · intro u call' m hu hcall' hm hmn
    exact hu (h.distinct u t call' call n hcall' hcall (hmn ▸ hm) hn)

theorem holds_of_fileless (hpc : pc.nonce? = none) : s.Holds call.source pc := by
  cases pc with
  | validating | returned => trivial
  | opening | creating | copying | syncing | inspecting | permitting | installing | cleaning =>
      nomatch hpc

/-- A call that has no files: it is new, or its source was refused. -/
theorem Invariant.fileless (h : Invariant s) (hpc : pc.nonce? = none) (hnot : ¬ pc.Succeeded)
    (hold : ∀ call', s.calls t = some call' → call'.pc.nonce? = none ∧ ¬ call'.pc.Succeeded)
    {next : ℕ} (hnext : s.next ≤ next) (ht : t < next) :
    Invariant ({ s with next := next }.goto t call pc) := by
  have hself : ({ s with next := next }.goto t call pc).calls t = some { call with pc := pc } := by
    change Function.update s.calls t _ t = _
    exact Function.update_self ..
  have hother : ∀ u, u ≠ t → ({ s with next := next }.goto t call pc).calls u = s.calls u := by
    intro u hu
    change Function.update s.calls t _ u = _
    exact Function.update_of_ne hu ..
  have hrunning : ∀ u call' m, ({ s with next := next }.goto t call pc).calls u = some call' →
      call'.pc.nonce? = some m → s.calls u = some call' := by
    intro u call' m hu hm
    by_cases hut : u = t
    · obtain rfl := Option.some.inj (hself.symm.trans (hut ▸ hu))
      nomatch hpc.symm.trans hm
    · exact (hother u hut).symm.trans hu
  have hkept : ∀ u call', s.calls u = some call' →
      (call'.pc.nonce? ≠ none ∨ call'.pc.Succeeded) → u ≠ t := by
    rintro u call' hu hrun rfl
    obtain ⟨hnone, hfail⟩ := hold call' hu
    exact hrun.elim (fun hne => hne hnone) hfail
  refine ⟨fun u call' hu => ?_, fun u v call' call'' m hu hv hm hm' => ?_, fun m file hfile => ?_,
    h.single, h.unstored, h.born, h.bornStore, h.content, fun u content hmem => ?_,
    fun u call' hu hsucceeded => ?_, fun u hu => ?_⟩
  · by_cases hut : u = t
    · obtain rfl := Option.some.inj (hself.symm.trans (hut ▸ hu))
      exact holds_of_fileless hpc
    · exact h.holds u call' ((hother u hut).symm.trans hu)
  · exact h.distinct u v call' call'' m (hrunning u call' m hu hm)
      (hrunning v call'' m hv hm') hm hm'
  · obtain ⟨u, call', hu, hm⟩ := h.owned m file hfile
    exact ⟨u, call', (hother u (hkept u call' hu (.inl (by rw [hm]; nofun)))).trans hu, hm⟩
  · obtain ⟨call', hu, hcontent, hsucceeded⟩ := h.installs u content hmem
    exact ⟨call', (hother u (hkept u call' hu (.inr hsucceeded))).trans hu, hcontent, hsucceeded⟩
  · by_cases hut : u = t
    · obtain rfl := Option.some.inj (hself.symm.trans (hut ▸ hu))
      exact absurd hsucceeded hnot
    · exact h.succeeded u call' ((hother u hut).symm.trans hu) hsucceeded
  · have hle : next ≤ u := hu
    exact (hother u (by omega)).trans (h.numbered u (by omega))

/-! ## The steps -/

/-- A step that leaves the files alone. -/
theorem Touches.goto (h : Invariant s) (hn : pc.nonce? = some n) (hown : s.Holds call.source pc) :
    Touches s t call n pc (s.goto t call pc) where
  calls := rfl
  next := rfl
  running := .inl hn
  temp _ _ := rfl
  inodes _ _ _ _ := rfl
  own := hown
  file file hfile :=
    ⟨h.born n file hfile, h.unstored n file hfile, fun m hm hm' => hm (h.single m n file hm' hfile)⟩
  store file hstore := ⟨h.bornStore file hstore, fun m _ hm => h.unstored m file hm hstore⟩
  grows := Nat.le_refl _
  content := h.content
  installs := .inl ⟨rfl, Pc.not_succeeded_of_running hn⟩

/-- Files that are not stored do not show. -/
theorem content_congr (hstore : s'.store = s.store)
    (hinodes : ∀ file, s.store = some file → s'.inodes file = s.inodes file) :
    s'.content = s.content := by
  unfold State.content
  rw [hstore]
  cases hfile : s.store with
  | none => rfl
  | some file => exact congrArg some (hinodes file hfile)

theorem Touches.create (h : Invariant s) :
    Touches s t call n (.copying n s.nextInode 0)
      ((s.create n).goto t call (.copying n s.nextInode 0)) where
  calls := rfl
  next := rfl
  running := .inl rfl
  temp _ hm := Function.update_of_ne hm ..
  inodes m file _ hfile := Function.update_of_ne (Nat.ne_of_lt (h.born m file hfile)) ..
  own := ⟨Function.update_self .., Function.update_self ..⟩
  file file hfile := by
    have hself : (s.create n).temp n = some s.nextInode := Function.update_self ..
    obtain rfl : s.nextInode = file := Option.some.inj (hself.symm.trans hfile)
    refine ⟨Nat.lt_succ_self _, fun hstore => ?_, fun m _ hm => ?_⟩
    · exact Nat.lt_irrefl _ (h.bornStore s.nextInode hstore)
    · exact Nat.lt_irrefl _ (h.born m s.nextInode hm)
  store file hstore :=
    ⟨Nat.lt_succ_of_lt (h.bornStore file hstore), fun m _ hm => h.unstored m file hm hstore⟩
  grows := Nat.le_succ _
  content := by
    have hsame : ((s.create n).goto t call (.copying n s.nextInode 0)).content = s.content :=
      content_congr rfl fun file hstore =>
        Function.update_of_ne (Nat.ne_of_lt (h.bornStore file hstore)) ..
    exact hsame.trans h.content
  installs := .inl ⟨rfl, id⟩

theorem Touches.write (h : Invariant s) {file : Inode} {written count : ℕ}
    (htemp : s.temp n = some file) (hfile : s.inodes file = call.source.take written) :
    Touches s t call n (.copying n file (written + count))
      ((s.write file ((call.source.drop written).take count)).goto t call
        (.copying n file (written + count))) where
  calls := rfl
  next := rfl
  running := .inl rfl
  temp _ _ := rfl
  inodes m file' hm hfile' := by
    have hne : file' ≠ file := fun heq => hm (h.single m n file (heq ▸ hfile') htemp)
    exact Function.update_of_ne hne ..
  own := by
    refine ⟨htemp, (Function.update_self ..).trans ?_⟩
    rw [hfile, List.take_add]
  file file' hfile' :=
    ⟨h.born n file' hfile', h.unstored n file' hfile', fun m hm hm' =>
      hm (h.single m n file' hm' hfile')⟩
  store file' hstore := ⟨h.bornStore file' hstore, fun m _ hm => h.unstored m file' hm hstore⟩
  grows := Nat.le_refl _
  content := by
    have hsame : ((s.write file ((call.source.drop written).take count)).goto t call
        (.copying n file (written + count))).content = s.content :=
      content_congr rfl fun file' hstore =>
        have hne : file' ≠ file := fun heq => h.unstored n file htemp (heq ▸ hstore)
        Function.update_of_ne hne ..
    exact hsame.trans h.content
  installs := .inl ⟨rfl, id⟩

theorem Touches.clean (h : Invariant s) (error : String) :
    Touches s t call n (.returned (.error error))
      ((s.remove n).goto t call (.returned (.error error))) where
  calls := rfl
  next := rfl
  running := .inr ⟨rfl, Function.update_self ..⟩
  temp _ hm := Function.update_of_ne hm ..
  inodes _ _ _ _ := rfl
  own := trivial
  file file hfile := by
    have hself : (s.remove n).temp n = none := Function.update_self ..
    nomatch hself.symm.trans hfile
  store file hstore := ⟨h.bornStore file hstore, fun m _ hm => h.unstored m file hm hstore⟩
  grows := Nat.le_refl _
  content := h.content
  installs := .inl ⟨rfl, id⟩

theorem Touches.install (h : Invariant s) {file : Inode} (htemp : s.temp n = some file)
    (hfile : s.inodes file = call.source) :
    Touches s t call n (.returned (.ok ()))
      ((s.install t n file).goto t call (.returned (.ok ()))) where
  calls := rfl
  next := rfl
  running := .inr ⟨rfl, Function.update_self ..⟩
  temp _ hm := Function.update_of_ne hm ..
  inodes _ _ _ _ := rfl
  own := trivial
  file file' hfile' := by
    have hself : (s.remove n).temp n = none := Function.update_self ..
    nomatch hself.symm.trans hfile'
  store file' hstore := by
    obtain rfl := Option.some.inj hstore
    exact ⟨h.born n file htemp, fun m hm hm' => hm (h.single m n file hm' htemp)⟩
  grows := Nat.le_refl _
  content := by
    change some (s.inodes file) =
      ((s.installs ++ [(t, s.inodes file)]).getLast?.map Prod.snd).or s.before
    rw [List.getLast?_concat]
    rfl
  installs := .inr ⟨by rw [← hfile]; rfl, trivial⟩

end Steps

/-! ## Runs -/

/-- A call that fails will remove its temporary name. -/
theorem Invariant.fail {s : State} (h : Invariant s) {t n : ℕ} {call : Call}
    (hcall : s.calls t = some call) (hn : call.pc.nonce? = some n) (error : String) :
    Invariant (s.goto t call (.cleaning n error)) :=
  h.running hcall hn (.goto h rfl trivial)

theorem proceed_invariant {s s' : State} (h : Invariant s) {t count : ℕ} {call : Call}
    (hcall : s.calls t = some call) (hstep : proceed s t call count = some s') : Invariant s' := by
  have hholds := h.holds t call hcall
  unfold proceed at hstep
  split at hstep
  · nomatch hstep
  · nomatch hstep
  · next n hpc =>
      obtain rfl := Option.some.inj hstep
      rw [hpc] at hholds
      exact h.running hcall (by rw [hpc]; rfl) (.goto h rfl hholds)
  · next n hpc =>
      have hn : call.pc.nonce? = some n := by rw [hpc]; rfl
      split at hstep <;> obtain rfl := Option.some.inj hstep
      · exact h.fail hcall hn _
      · exact h.running hcall hn (.create h)
  · next n file written hpc =>
      have hn : call.pc.nonce? = some n := by rw [hpc]; rfl
      rw [hpc] at hholds
      split at hstep <;> obtain rfl := Option.some.inj hstep
      · exact h.running hcall hn (.write h hholds.1 hholds.2)
      · -- the whole source was read
        next hend =>
          refine h.running hcall hn (.goto h rfl ⟨file, hholds.1, hholds.2.trans ?_⟩)
          exact List.take_of_length_le (Nat.le_of_not_lt hend)
  · next n hpc =>
      obtain rfl := Option.some.inj hstep
      rw [hpc] at hholds
      exact h.running hcall (by rw [hpc]; rfl) (.goto h rfl hholds)
  · next n hpc =>
      have hn : call.pc.nonce? = some n := by rw [hpc]; rfl
      rw [hpc] at hholds
      split at hstep <;> obtain rfl := Option.some.inj hstep
      · exact h.fail hcall hn _
      · exact h.running hcall hn (.goto h rfl hholds)
  · next n hpc =>
      have hn : call.pc.nonce? = some n := by rw [hpc]; rfl
      rw [hpc] at hholds
      split at hstep <;> obtain rfl := Option.some.inj hstep
      · exact h.fail hcall hn _
      · exact h.running hcall hn (.goto h rfl hholds)
  · next n hpc =>
      have hn : call.pc.nonce? = some n := by rw [hpc]; rfl
      rw [hpc] at hholds
      obtain ⟨file, hfile, hsource⟩ := hholds
      rw [hfile] at hstep
      obtain rfl := Option.some.inj hstep
      exact h.running hcall hn (.install h hfile hsource)
  · next n error hpc =>
      obtain rfl := Option.some.inj hstep
      exact h.running hcall (by rw [hpc]; rfl) (.clean h _)

theorem advance_invariant {s s' : State} (h : Invariant s) {t count : ℕ} {call : Call}
    {error : Option String} (hcall : s.calls t = some call)
    (hstep : advance s t call count error = some s') : Invariant s' := by
  unfold advance at hstep
  split at hstep
  · exact proceed_invariant h hcall hstep
  · exact proceed_invariant h hcall hstep
  · obtain ⟨n, hn, rfl⟩ := Option.map_eq_some_iff.mp hstep
    exact h.fail hcall hn _

theorem validate_invariant {s : State} (h : Invariant s) {t n : ℕ} {call : Call}
    (hcall : s.calls t = some call) (hpc : call.pc = .validating)
    (hapart : ∀ u call', s.calls u = some call' → call'.pc.nonce? ≠ some n) :
    Invariant (s.goto t call (.opening n)) := by
  have hfree : s.temp n = none := by
    cases htemp : s.temp n with
    | none => rfl
    | some file =>
        obtain ⟨u, call', hu, hm⟩ := h.owned n file htemp
        exact absurd hm (hapart u call' hu)
  refine h.touches hcall (fun m hm => ?_) (by rw [hpc]; exact id) (fun u call' m _ hu hm hmn => ?_)
    (.goto h rfl hfree)
  · rw [hpc] at hm
    nomatch hm
  · exact hapart u call' hu (hmn ▸ hm)

theorem step_invariant {s s' : State} {e : Event} (h : Invariant s) (hapart : Apart s e)
    (hstep : step s e = some s') : Invariant s' := by
  cases e with
  | change path source =>
      obtain rfl := Option.some.inj hstep
      have hnew := h.numbered s.next (Nat.le_refl _)
      refine h.fileless rfl id (fun call' hcall' => ?_) (Nat.le_succ _) (Nat.lt_succ_self _)
      nomatch hnew.symm.trans hcall'
  | validate t checks =>
      simp only [step] at hstep
      split at hstep
      · next call hcall =>
          split at hstep
          · next n hpc hok =>
              obtain rfl := Option.some.inj hstep
              exact validate_invariant h hcall hpc fun u call' hu =>
                hapart call n hcall hok u call' hu
          · next error hpc _ =>
              obtain rfl := Option.some.inj hstep
              have hlt : t < s.next := by
                by_contra hle
                nomatch (h.numbered t (Nat.le_of_not_lt hle)).symm.trans hcall
              refine h.fileless rfl id (fun call' hcall' => ?_) (Nat.le_refl _) hlt
              obtain rfl := Option.some.inj (hcall.symm.trans hcall')
              rw [hpc]
              exact ⟨rfl, id⟩
          · nomatch hstep
      · nomatch hstep
  | advance t count error =>
      simp only [step] at hstep
      split at hstep
      · next call hcall => exact advance_invariant h hcall hstep
      · nomatch hstep

theorem Invariant.new (before : Option Content) : Invariant (.new before) where
  holds _ _ := nofun
  distinct _ _ _ _ _ := nofun
  owned _ _ := nofun
  single _ _ _ := nofun
  unstored _ _ := nofun
  born _ _ := nofun
  bornStore file hstore := by
    obtain ⟨_, -, rfl⟩ := Option.map_eq_some_iff.mp hstore
    exact Nat.zero_lt_one
  content := by cases before <;> rfl
  installs _ _ := nofun
  succeeded _ _ := nofun
  numbered _ _ := rfl

/-- The invariant says what should hold. -/
theorem Invariant.atomic {s : State} (h : Invariant s) : Atomic s where
  store := h.content
  complete t content hmem := by
    obtain ⟨call, hcall, hcontent, -⟩ := h.installs t content hmem
    exact ⟨call, hcall, hcontent⟩
  failed t call error hcall hpc content hmem := by
    obtain ⟨call', hcall', -, hsucceeded⟩ := h.installs t content hmem
    obtain rfl := Option.some.inj (hcall.symm.trans hcall')
    rw [hpc] at hsucceeded
    exact hsucceeded
  succeeded t call hcall hpc := h.succeeded t call hcall (by rw [hpc]; trivial)
  clean hnone nonce := by
    cases htemp : s.temp nonce with
    | none => rfl
    | some file =>
        obtain ⟨t, call, hcall, hn⟩ := h.owned nonce file htemp
        nomatch (hnone t call hcall).symm.trans hn

/-- **The wallpaper is changed atomically**, in every run in which no two running calls have read
the same clock. -/
theorem atomic_of_apart {s : State} (h : system.ReachableWhere Apart s) : Atomic s := by
  refine Invariant.atomic (h.invariant (I := Invariant) ?_ fun _ _ _ _ hs hapart hstep =>
    step_invariant hs hapart hstep)
  rintro _ ⟨before, rfl⟩
  exact Invariant.new before

/-! ## Examples of runs -/

def checksAt (clock : ℕ) : Checks :=
  ⟨true, true, .ok 2, some "png", true, .ok clock⟩

theorem validate_checksAt (path : String) (clock : ℕ) :
    validate path (checksAt clock) = .ok clock := by
  have hlower : "png".toLower = "png" := by decide +kernel
  simp [validate, checksAt, hlower, bind, Except.bind]

theorem step_validate {s : State} {t : ℕ} {call : Call} (hcall : s.calls t = some call)
    (hpc : call.pc = .validating) (clock : ℕ) :
    system.step s (.validate t (checksAt clock)) = some (s.goto t call (.opening clock)) := by
  change step s (.validate t (checksAt clock)) = _
  simp only [step, hcall, hpc, validate_checksAt]

/-- A call that does nothing else until it has returned. -/
def alone (t steps : ℕ) : List Event := List.replicate steps (.advance t 0 none)

/-- Two calls are made. -/
def twoCalls : List Event :=
  [.change "/home/nira/a.png" [1, 2], .change "/home/nira/b.png" [3, 4]]

/-- The state that events lead to. -/
def after (s : State) (events : List Event) : State := (system.run s events).getD s

/-- One wallpaper is installed while the source of another cannot be opened. -/
theorem atomic_of_apart_twoCalls :
    ∃ s, system.ReachableWhere Apart s ∧ Atomic s ∧ s.content = some [1, 2] := by
  have hmade : system.ReachableWhere Apart (after (.new none) twoCalls) := by
    have hok : ∀ e ∈ twoCalls, ∀ s, Apart s e := by
      intro e he s
      rcases List.mem_cons.mp he with rfl | he
      · trivial
      · obtain rfl := List.mem_singleton.mp he
        trivial
    exact Transition.System.ReachableWhere.run (.init ⟨none, rfl⟩) hok rfl
  have hapart : Apart (after (.new none) twoCalls) (.validate 0 (checksAt 7)) := by
    intro call n _ _ u call' hu hn
    match u with
    | 0 | 1 =>
        obtain rfl := Option.some.inj hu
        nomatch hn
    | u + 2 => nomatch hu
  have hfirst := hmade.step (e := Event.validate 0 (checksAt 7)) hapart (step_validate rfl rfl 7)
  generalize hs : (State.goto _ 0 _ _ : State) = s at hfirst
  have hapart : Apart s (.validate 1 (checksAt 8)) := by
    subst hs
    intro call n _ hok u call' hu hn
    match u with
    | 0 =>
        obtain rfl := Option.some.inj hu
        rw [validate_checksAt] at hok
        obtain rfl := Except.ok.inj hok
        nomatch hn
    | 1 =>
        obtain rfl := Option.some.inj hu
        nomatch hn
    | u + 2 => nomatch hu
  have hcall : s.calls 1 = some ⟨"/home/nira/b.png", [3, 4], .validating⟩ := by
    subst hs
    rfl
  have hsecond :=
    hfirst.step (e := Event.validate 1 (checksAt 8)) hapart (step_validate hcall rfl 8)
  -- The second call cannot open its source; nobody else moves until the first has installed.
  have hok : ∀ e ∈ .advance 1 0 (some "Permission denied") :: .advance 1 0 none :: alone 0 9,
      ∀ s, Apart s e := by
    intro e he s
    simp only [alone, List.mem_cons, List.mem_replicate] at he
    rcases he with rfl | rfl | ⟨-, rfl⟩ <;> trivial
  have hrun := hsecond.run hok (by subst hs; rfl)
  exact ⟨_, hrun, atomic_of_apart hrun, by subst hs; decide⟩

/-- With one nonce for three calls: the second cannot create the file and removes that of the
first, the third creates it again, and the first installs what the third has written so far. -/
theorem not_atomic_of_sameNonce : ¬ ∀ s, system.Reachable s → Atomic s := by
  intro h
  let events : List Event :=
    [.change "/home/nira/a.png" [1, 2], .change "/home/nira/b.png" [3, 4],
      .change "/home/nira/c.png" [5, 6], .validate 0 (checksAt 7), .validate 1 (checksAt 7),
      .validate 2 (checksAt 7)] ++ alone 0 2 ++ alone 1 3 ++ alone 2 3 ++ alone 0 7
  have hrun : (system.run (.new none) events).any (fun s => s.content = some [5] ∧
      (s.calls 0).map Call.source = some [1, 2] ∧ (0, [5]) ∈ s.installs) = true := by
    decide +kernel
  obtain ⟨s, hr, hs⟩ :=
    Transition.System.exists_reachable_of_run (S := system) (s := .new none) ⟨none, rfl⟩ hrun
  obtain ⟨-, hsource, hmem⟩ := of_decide_eq_true hs
  obtain ⟨call, hcall, hcontent⟩ := (h s hr).complete 0 [5] hmem
  rw [hcall] at hsource
  exact absurd (hcontent.trans (Option.some.inj hsource)) (by decide)

end NiraOS.ActionManager.Wallpaper
