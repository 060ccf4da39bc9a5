import NiraOS.Compositor.Numbering

/-!
# Bookkeeping of the compositor's windows

The keys of `__windowMap`, the windows registered with `WindowManagerDBus` and the ids of the
chromes that are no shell should be one set, and one chrome at most the shell.

`Books` is what the handlers have to keep together, and `Books.Step` what they do to it:

```text
                  __windowMap   registry   chromes
a new window      + id          + id       + id
promotion         - id          - id       - id, and the shell
a window goes                   - id       - id
```

The last line is not among the steps: `onSurfaceDestroyed` leaves the id of a window in
`__windowMap`, from where nothing removes it (`not_coherent_of_surfaceDestroyed`).
-/

namespace NiraOS.Compositor.Windows

/-! ## What should hold between two events -/

/-- A window that is on the screen. -/
def State.IsWindow (s : State) (c : ℕ) (id : String) : Prop :=
  ∃ ch, s.chromes c = some ch ∧ ch.isShell = false ∧ ch.destroyed = false ∧ ch.windowId = id

structure Coherent (s : State) : Prop where
  nodup_windowMap : (Assoc.keys s.windowMap).Nodup
  nodup_registry : s.registry.listWindowIds.Nodup
  once : ∀ c c' id, s.IsWindow c id → s.IsWindow c' id → c = c'
  mem_windowMap : ∀ id, id ∈ Assoc.keys s.windowMap ↔ ∃ c, s.IsWindow c id
  mem_registry : ∀ id, id ∈ s.registry.listWindowIds ↔ ∃ c, s.IsWindow c id
  one_shell : ∀ c c' ch ch', s.chromes c = some ch → s.chromes c' = some ch' → ch.isShell = true →
    ch'.isShell = true → c = c'
  shell_apart : ∀ c ch, s.chromes c = some ch → ch.isShell = true →
    ch.windowId ∉ Assoc.keys s.windowMap ∧ ∀ id, s.windowMap.lookup id ≠ some c

/-- The surfaces that go are the shell's, and there are ids for the windows that come. -/
def Keeps (s : State) : Event → Prop
  | .surfaceDestroyed c _ => ∀ ch ∈ s.chromes c, ch.isShell = true
  | .toplevelCreated _ | .wlShellSurfaceCreated => s.nextChrome < 2 ^ 32
  | _ => True

instance (s : State) (e : Event) : Decidable (Keeps s e) := by
  unfold Keeps
  cases e <;> infer_instance

/-! ## The books -/

@[ext] structure Books where
  slots : ℕ → Option Slot
  next : ℕ
  counter : ℤ
  windowMap : List (String × ℕ)
  registered : List String
  shell : Option ℕ

def State.books (s : State) : Books where
  slots c := (s.chromes c).map Chrome.slot
  next := s.nextChrome
  counter := s.windowIdCounter
  windowMap := s.windowMap
  registered := Assoc.keys s.registry
  shell := s.shellChrome

def Books.addWindow (b : Books) : Books where
  slots := Function.update b.slots b.next (some ⟨false, windowIdAfter b.counter, false⟩)
  next := b.next + 1
  counter := (b.counter + 1).bmod (2 ^ 32)
  windowMap := Assoc.insert b.windowMap (windowIdAfter b.counter) b.next
  registered := windowIdAfter b.counter :: b.registered.filter (· != windowIdAfter b.counter)
  shell := b.shell

def Books.addShell (b : Books) : Books :=
  { b with
    slots := Function.update b.slots b.next (some ⟨true, "", false⟩)
    next := b.next + 1
    shell := some b.next }

def Books.promote (b : Books) (c : ℕ) (slot : Slot) : Books :=
  { b with
    slots := Function.update b.slots c (some ⟨true, "", slot.destroyed⟩)
    windowMap := Assoc.erase b.windowMap slot.windowId
    registered := b.registered.filter (· != slot.windowId)
    shell := some c }

def Books.destroy (b : Books) (c : ℕ) (slot : Slot) : Books :=
  { b with slots := Function.update b.slots c (some { slot with destroyed := true }) }

def Books.delete (b : Books) (c : ℕ) : Books :=
  { b with
    slots := Function.update b.slots c none
    shell := if b.shell = some c then none else b.shell }

inductive Books.Step (b : Books) : Books → Prop
  | same : Step b b
  | addWindow : b.next < 2 ^ 32 → Step b b.addWindow
  | addShell : b.shell = none → Step b b.addShell
  | promote {c : ℕ} {slot : Slot} : b.slots c = some slot → slot.isShell = false → b.shell = none →
      Step b (b.promote c slot)
  | destroy {c : ℕ} {slot : Slot} :
      b.slots c = some slot → slot.isShell = true → Step b (b.destroy c slot)
  | delete {c : ℕ} {slot : Slot} :
      b.slots c = some slot → slot.destroyed = true → Step b (b.delete c)

/-! ## The invariant -/

structure Books.Invariant (b : Books) : Prop where
  numbered : ∃ n, Numbered b.slots b.next b.counter n
  nodup_windowMap : (Assoc.keys b.windowMap).Nodup
  lookup_windowMap : ∀ id c, b.windowMap.lookup id = some c ↔
    ∃ slot, b.slots c = some slot ∧ slot.isShell = false ∧ slot.windowId = id
  nodup_registered : b.registered.Nodup
  mem_registered : ∀ id, id ∈ b.registered ↔ id ∈ Assoc.keys b.windowMap
  shell : ∀ c slot, b.slots c = some slot → slot.isShell = true →
    slot.windowId = "" ∧ b.shell = some c
  destroyed : ∀ c slot, b.slots c = some slot → slot.destroyed = true → slot.isShell = true

section Steps

variable {b : Books}

theorem Books.Invariant.unborn (h : b.Invariant) {c : ℕ} (hc : b.next ≤ c) : b.slots c = none := by
  obtain ⟨n, hn⟩ := h.numbered
  exact hn.unborn c hc

theorem Books.Invariant.once (h : b.Invariant) {c c' : ℕ} {slot slot' : Slot}
    (hslot : b.slots c = some slot) (hslot' : b.slots c' = some slot')
    (hwindow : slot.isShell = false) (hwindow' : slot'.isShell = false)
    (hid : slot.windowId = slot'.windowId) : c = c' := by
  obtain ⟨n, hn⟩ := h.numbered
  exact hn.once c c' slot slot' hslot hslot' hwindow hwindow' hid

theorem Books.Invariant.mem_keys (h : b.Invariant) (id : String) :
    id ∈ Assoc.keys b.windowMap ↔
      ∃ c slot, b.slots c = some slot ∧ slot.isShell = false ∧ slot.windowId = id := by
  rw [← Assoc.lookup_ne_none, Option.ne_none_iff_exists']
  exact exists_congr fun c => h.lookup_windowMap id c

theorem Books.Invariant.addWindow (h : b.Invariant) (hnext : b.next < 2 ^ 32) :
    b.addWindow.Invariant := by
  obtain ⟨n, hn⟩ := h.numbered
  have hfresh : windowIdAfter b.counter ∉ Assoc.keys b.windowMap := by
    intro hmem
    obtain ⟨c, slot, hslot, hshell, hid⟩ := (h.mem_keys _).mp hmem
    exact hn.fresh hnext hslot hshell hid
  have hself : b.addWindow.slots b.next = some ⟨false, windowIdAfter b.counter, false⟩ :=
    Function.update_self ..
  have hother : ∀ c, c ≠ b.next → b.addWindow.slots c = b.slots c := fun c hc =>
    Function.update_of_ne hc ..
  constructor
  · exact ⟨n + 1, hn.addWindow hnext⟩
  · exact Assoc.nodup_insert h.nodup_windowMap ..
  · intro id c
    show (Assoc.insert b.windowMap (windowIdAfter b.counter) b.next).lookup id = some c ↔ _
    rw [Assoc.lookup_insert]
    by_cases hc : c = b.next
    · rw [hc, hself]
      constructor
      · intro hlookup
        split_ifs at hlookup with hid
        · exact ⟨_, rfl, rfl, hid.symm⟩
        · obtain ⟨slot, hslot, -⟩ := (h.lookup_windowMap id b.next).mp hlookup
          rw [h.unborn (Nat.le_refl _)] at hslot
          cases hslot
      · rintro ⟨slot, hslot, -, hid⟩
        obtain rfl := Option.some.inj hslot
        rw [if_pos hid.symm]
    · rw [hother c hc, ← h.lookup_windowMap id c]
      split_ifs with hid
      · constructor
        · intro hnew
          exact absurd (Option.some.inj hnew).symm hc
        · intro hlookup
          obtain ⟨slot, hslot, hshell, hid'⟩ := (h.lookup_windowMap id c).mp hlookup
          exact absurd (hid'.trans hid) (hn.fresh hnext hslot hshell)
      · rfl
  · exact List.nodup_cons.mpr ⟨by simp, h.nodup_registered.filter _⟩
  · intro id
    show id ∈ windowIdAfter b.counter :: b.registered.filter (· != windowIdAfter b.counter) ↔
      id ∈ windowIdAfter b.counter ::
        Assoc.keys (Assoc.erase b.windowMap (windowIdAfter b.counter))
    rw [Assoc.keys_erase, List.mem_cons, List.mem_cons, List.mem_filter, List.mem_filter,
      h.mem_registered id]
  · intro c slot hslot hshell
    by_cases hc : c = b.next
    · rw [hc, hself] at hslot
      obtain rfl := Option.some.inj hslot
      cases hshell
    · rw [hother c hc] at hslot
      exact h.shell c slot hslot hshell
  · intro c slot hslot hdestroyed
    by_cases hc : c = b.next
    · rw [hc, hself] at hslot
      obtain rfl := Option.some.inj hslot
      cases hdestroyed
    · rw [hother c hc] at hslot
      exact h.destroyed c slot hslot hdestroyed

/-- What concerns the windows alone, when no window comes or goes. -/
theorem Books.Invariant.of_windows (h : b.Invariant) {b' : Books}
    (hnumbered : ∃ n, Numbered b'.slots b'.next b'.counter n) (hmap : b'.windowMap = b.windowMap)
    (hregistered : b'.registered = b.registered)
    (hwindows : ∀ c slot, slot.isShell = false → (b'.slots c = some slot ↔ b.slots c = some slot))
    (hshell : ∀ c slot, b'.slots c = some slot → slot.isShell = true →
      slot.windowId = "" ∧ b'.shell = some c) : b'.Invariant := by
  constructor
  · exact hnumbered
  · exact hmap ▸ h.nodup_windowMap
  · intro id c
    rw [hmap, h.lookup_windowMap id c]
    constructor
    · rintro ⟨slot, hslot, hwindow, hid⟩
      exact ⟨slot, (hwindows c slot hwindow).mpr hslot, hwindow, hid⟩
    · rintro ⟨slot, hslot, hwindow, hid⟩
      exact ⟨slot, (hwindows c slot hwindow).mp hslot, hwindow, hid⟩
  · exact hregistered ▸ h.nodup_registered
  · intro id
    rw [hregistered, hmap, h.mem_registered id]
  · exact hshell
  · intro c slot hslot hdestroyed
    by_contra hnot
    have hwindow := Bool.eq_false_iff.mpr hnot
    exact hnot (h.destroyed c slot ((hwindows c slot hwindow).mp hslot) hdestroyed)

theorem Books.Invariant.addShell (h : b.Invariant) (hnone : b.shell = none) :
    b.addShell.Invariant := by
  obtain ⟨n, hn⟩ := h.numbered
  have hself : b.addShell.slots b.next = some ⟨true, "", false⟩ := Function.update_self ..
  have hother : ∀ c, c ≠ b.next → b.addShell.slots c = b.slots c := fun c hc =>
    Function.update_of_ne hc ..
  refine h.of_windows ⟨n, hn.addShell rfl⟩ rfl rfl ?_ ?_
  · intro c slot hwindow
    by_cases hc : c = b.next
    · rw [hc, hself, h.unborn (Nat.le_refl _)]
      constructor
      · intro hslot
        obtain rfl := Option.some.inj hslot
        cases hwindow
      · intro hslot
        cases hslot
    · rw [hother c hc]
  · intro c slot hslot hshell
    by_cases hc : c = b.next
    · rw [hc, hself] at hslot
      obtain rfl := Option.some.inj hslot
      exact ⟨rfl, congrArg some hc.symm⟩
    · rw [hother c hc] at hslot
      have hof := (h.shell c slot hslot hshell).2
      rw [hnone] at hof
      cases hof

theorem Books.Invariant.destroy (h : b.Invariant) {c : ℕ} {slot : Slot}
    (hslot : b.slots c = some slot) (hshell : slot.isShell = true) :
    (b.destroy c slot).Invariant := by
  obtain ⟨n, hn⟩ := h.numbered
  have hself : (b.destroy c slot).slots c = some { slot with destroyed := true } :=
    Function.update_self ..
  have hother : ∀ d, d ≠ c → (b.destroy c slot).slots d = b.slots d := fun d hd =>
    Function.update_of_ne hd ..
  have hnumbered : Numbered (b.destroy c slot).slots b.next b.counter n := by
    apply hn.update hslot
    intro slot' hslot' hwindow
    obtain rfl := Option.some.inj hslot'
    exact ⟨hwindow, rfl⟩
  refine h.of_windows ⟨n, hnumbered⟩ rfl rfl ?_ ?_
  · intro d slot' hwindow
    by_cases hd : d = c
    · rw [hd, hself, hslot]
      constructor
      · intro heq
        obtain rfl := Option.some.inj heq
        exact absurd hshell (Bool.eq_false_iff.mp hwindow)
      · intro heq
        obtain rfl := Option.some.inj heq
        exact absurd hshell (Bool.eq_false_iff.mp hwindow)
    · rw [hother d hd]
  · intro d slot' hslot' hshell'
    by_cases hd : d = c
    · rw [hd, hself] at hslot'
      obtain rfl := Option.some.inj hslot'
      exact hd ▸ h.shell c slot hslot hshell
    · rw [hother d hd] at hslot'
      exact h.shell d slot' hslot' hshell'

theorem Books.Invariant.delete (h : b.Invariant) {c : ℕ} {slot : Slot}
    (hslot : b.slots c = some slot) (hdestroyed : slot.destroyed = true) :
    (b.delete c).Invariant := by
  obtain ⟨n, hn⟩ := h.numbered
  have hself : (b.delete c).slots c = none := Function.update_self ..
  have hother : ∀ d, d ≠ c → (b.delete c).slots d = b.slots d := fun d hd =>
    Function.update_of_ne hd ..
  have hshell := h.destroyed c slot hslot hdestroyed
  have hnumbered : Numbered (b.delete c).slots b.next b.counter n := by
    apply hn.update hslot
    intro slot' hslot'
    cases hslot'
  refine h.of_windows ⟨n, hnumbered⟩ rfl rfl ?_ ?_
  · intro d slot' hwindow
    by_cases hd : d = c
    · rw [hd, hself, hslot]
      constructor
      · intro heq
        cases heq
      · intro heq
        obtain rfl := Option.some.inj heq
        exact absurd hshell (Bool.eq_false_iff.mp hwindow)
    · rw [hother d hd]
  · intro d slot' hslot' hshell'
    have hd : d ≠ c := by
      rintro rfl
      rw [hself] at hslot'
      cases hslot'
    rw [hother d hd] at hslot'
    obtain ⟨hid, hof⟩ := h.shell d slot' hslot' hshell'
    refine ⟨hid, ?_⟩
    show (if b.shell = some c then none else b.shell) = some d
    rw [if_neg, hof]
    rw [hof]
    exact fun heq => hd (Option.some.inj heq)

theorem Books.Invariant.promote (h : b.Invariant) {c : ℕ} {slot : Slot}
    (hslot : b.slots c = some slot) (hwindow : slot.isShell = false) (hnone : b.shell = none) :
    (b.promote c slot).Invariant := by
  obtain ⟨n, hn⟩ := h.numbered
  have hself : (b.promote c slot).slots c = some ⟨true, "", slot.destroyed⟩ :=
    Function.update_self ..
  have hother : ∀ d, d ≠ c → (b.promote c slot).slots d = b.slots d := fun d hd =>
    Function.update_of_ne hd ..
  -- the windows that are left
  have hleft : ∀ d slot', slot'.isShell = false → (b.promote c slot).slots d = some slot' →
      d ≠ c ∧ b.slots d = some slot' := by
    intro d slot' hwindow' hslot'
    by_cases hd : d = c
    · rw [hd, hself] at hslot'
      obtain rfl := Option.some.inj hslot'
      cases hwindow'
    · exact ⟨hd, (hother d hd) ▸ hslot'⟩
  constructor
  · refine ⟨n, hn.update hslot ?_⟩
    intro slot' hslot' hwindow'
    obtain rfl := Option.some.inj hslot'
    cases hwindow'
  · exact Assoc.nodup_erase h.nodup_windowMap _
  · intro id d
    show (Assoc.erase b.windowMap slot.windowId).lookup id = some d ↔ _
    rw [Assoc.lookup_erase]
    constructor
    · intro hlookup
      split_ifs at hlookup with hid
      obtain ⟨slot', hslot', hwindow', hid'⟩ := (h.lookup_windowMap id d).mp hlookup
      have hd : d ≠ c := by
        rintro rfl
        obtain rfl := Option.some.inj (hslot'.symm.trans hslot)
        exact hid hid'.symm
      exact ⟨slot', (hother d hd).trans hslot', hwindow', hid'⟩
    · rintro ⟨slot', hslot', hwindow', hid'⟩
      obtain ⟨hd, hold⟩ := hleft d slot' hwindow' hslot'
      rw [if_neg, (h.lookup_windowMap id d).mpr ⟨slot', hold, hwindow', hid'⟩]
      intro hid
      exact hd (h.once hold hslot hwindow' hwindow (hid'.trans hid))
  · exact h.nodup_registered.filter _
  · intro id
    show id ∈ b.registered.filter (· != slot.windowId) ↔
      id ∈ Assoc.keys (Assoc.erase b.windowMap slot.windowId)
    rw [Assoc.keys_erase, List.mem_filter, List.mem_filter, h.mem_registered id]
  · intro d slot' hslot' hshell'
    by_cases hd : d = c
    · rw [hd, hself] at hslot'
      obtain rfl := Option.some.inj hslot'
      exact ⟨rfl, congrArg some hd.symm⟩
    · rw [hother d hd] at hslot'
      have hof := (h.shell d slot' hslot' hshell').2
      rw [hnone] at hof
      cases hof
  · intro d slot' hslot' hdestroyed
    by_cases hd : d = c
    · rw [hd, hself] at hslot'
      obtain rfl := Option.some.inj hslot'
      rfl
    · rw [hother d hd] at hslot'
      exact h.destroyed d slot' hslot' hdestroyed

/-- **Each step** of the books keeps the invariant. -/
theorem Books.Invariant.step (h : b.Invariant) {b' : Books} (hstep : b.Step b') : b'.Invariant := by
  cases hstep with
  | same => exact h
  | addWindow hnext => exact h.addWindow hnext
  | addShell hnone => exact h.addShell hnone
  | promote hslot hwindow hnone => exact h.promote hslot hwindow hnone
  | destroy hslot hshell => exact h.destroy hslot hshell
  | delete hslot hdestroyed => exact h.delete hslot hdestroyed

end Steps

/-! ## What the handlers do to the books -/

section Handlers

variable {s : State} {c : ℕ} {ch ch' : Chrome}

theorem keys_updateWindowState (r : Registry) (id : String) (minimized focused : Bool) :
    Assoc.keys (r.updateWindowState id minimized focused).1 = Assoc.keys r := by
  unfold Registry.updateWindowState
  split
  · split_ifs
    · rfl
    · exact Assoc.keys_modify ..
  · rfl

theorem slots_update (s s' : State) (c : ℕ) (ch : Option Chrome)
    (h : s'.chromes = Function.update s.chromes c ch) :
    s'.books.slots = Function.update s.books.slots c (ch.map Chrome.slot) := by
  funext d
  change (s'.chromes d).map Chrome.slot = _
  rw [h]
  by_cases hd : d = c
  · rw [hd, Function.update_self, Function.update_self]
  · rw [Function.update_of_ne hd, Function.update_of_ne hd]
    rfl

theorem slots_setChrome (s : State) (c : ℕ) (ch : Chrome) :
    (s.setChrome c ch).books.slots = Function.update s.books.slots c (some ch.slot) :=
  slots_update s _ c (some ch) rfl

theorem slots_of_chrome (h : s.chromes c = some ch) : s.books.slots c = some ch.slot :=
  congrArg (Option.map Chrome.slot) h

/-- A chrome may change in everything but its slot. -/
theorem books_setChrome (h : s.chromes c = some ch) (hslot : ch'.slot = ch.slot) :
    (s.setChrome c ch').books = s.books := by
  have hslots : (s.setChrome c ch').books.slots = s.books.slots := by
    rw [slots_setChrome, hslot, ← slots_of_chrome h, Function.update_eq_self]
  exact congrArg (fun slots => { s.books with slots := slots }) hslots

theorem books_of_keys {r : Registry} (h : Assoc.keys r = Assoc.keys s.registry) :
    ({ s with registry := r } : State).books = s.books :=
  congrArg (fun registered => { s.books with registered := registered }) h

theorem windowId_ne_empty (hinv : s.books.Invariant) (h : s.chromes c = some ch)
    (hwindow : ch.isShell = false) : ch.windowId ≠ "" := by
  obtain ⟨n, hn⟩ := hinv.numbered
  exact hn.windowId_ne_empty (slots_of_chrome h) hwindow

theorem books_setMinimized (h : s.chromes c = some ch) (minimized : Bool) :
    (s.setMinimized c ch minimized).books = s.books := by
  unfold State.setMinimized
  dsimp only
  split_ifs
  · rfl
  · exact books_setChrome h rfl
  · exact books_setChrome h rfl
  · exact (books_of_keys (keys_updateWindowState ..)).trans (books_setChrome h rfl)

theorem books_promoteToShell (hid : ch.windowId ≠ "") :
    (s.promoteToShell c ch).books = s.books.promote c ch.slot := by
  unfold State.promoteToShell
  rw [if_neg hid]
  refine Books.ext ?_ rfl rfl rfl ?_ rfl
  · exact slots_setChrome ..
  · exact Assoc.keys_erase ..

theorem books_createWindow (toplevel : Option Toplevel) :
    (s.createObject toplevel false).books = s.books.addWindow := by
  refine Books.ext ?_ rfl rfl rfl ?_ rfl
  · exact slots_setChrome ..
  · exact congrArg (List.cons _) (Assoc.keys_erase ..)

theorem step_adoptToplevel (toplevel : Toplevel) (hnext : s.nextChrome < 2 ^ 32) :
    s.books.Step (s.adoptToplevel toplevel).books := by
  unfold State.adoptToplevel
  split_ifs
  · cases hshell : s.shellChrome with
    | some c => exact .same
    | none =>
        have hbooks : ({ s.createObject (some toplevel) true with
            shellChrome := some s.nextChrome } : State).books =
            s.books.addShell :=
          Books.ext (slots_setChrome ..) rfl rfl rfl rfl rfl
        exact hbooks ▸ .addShell hshell
  · exact (books_createWindow (s := s) (some toplevel)) ▸ .addWindow hnext

theorem step_promoteToShell (hinv : s.books.Invariant) (h : s.chromes c = some ch)
    (hwindow : ch.isShell = false) (hnone : s.shellChrome = none) :
    s.books.Step (s.promoteToShell c ch).books := by
  rw [books_promoteToShell (windowId_ne_empty hinv h hwindow)]
  exact .promote (slots_of_chrome h) hwindow hnone

theorem step_handleToplevelMetadataChanged (hinv : s.books.Invariant) (h : s.chromes c = some ch) :
    s.books.Step (s.handleToplevelMetadataChanged c ch).books := by
  unfold State.handleToplevelMetadataChanged
  split
  · exact .same
  · split_ifs with hshell hpromote hlive hid
    · exact .same
    · exact step_promoteToShell hinv h (Bool.eq_false_iff.mpr hshell) hpromote.1
    · exact .same
    · exact .same
    · next toplevel _ =>
        have hkeys : Assoc.keys
          (s.registry.updateWindowMetadata ch.windowId toplevel.title toplevel.appId).1 =
            Assoc.keys s.registry :=
          Assoc.keys_modify ..
        rw [books_of_keys hkeys]
        exact .same

theorem step_onHasContentChanged (hinv : s.books.Invariant) (h : s.chromes c = some ch) :
    s.books.Step (s.onHasContentChanged c ch).books := by
  unfold State.onHasContentChanged
  split_ifs with hpromote
  · exact step_promoteToShell hinv h hpromote.2.2.1 hpromote.2.2.2.1
  · exact .same

theorem chromes_of_chromeOf {id : String} (h : s.chromeOf id = some (c, ch)) :
    s.chromes c = some ch := by
  obtain ⟨d, -, hd⟩ := Option.bind_eq_some_iff.mp h
  obtain ⟨ch', hch, heq⟩ := Option.map_eq_some_iff.mp hd
  obtain ⟨rfl, rfl⟩ := Prod.mk.inj heq
  exact hch

theorem books_onActivateRequested (id : String) : (s.onActivateRequested id).books = s.books := by
  unfold State.onActivateRequested
  split
  · rfl
  · next c ch hof =>
      have hbooks := books_setMinimized (chromes_of_chromeOf hof) false
      dsimp only
      split
      · exact hbooks
      · next ch' hch' =>
          refine Eq.trans (books_setChrome hch' ?_) hbooks
          rfl

theorem books_onMinimizeRequested (id : String) : (s.onMinimizeRequested id).books = s.books := by
  unfold State.onMinimizeRequested
  split
  · rfl
  · next c ch hof => exact books_setMinimized (chromes_of_chromeOf hof) true

theorem books_updateFocus (id : String) (focused : Bool) :
    (s.updateFocus id focused).books = s.books := by
  unfold State.updateFocus
  split
  · rfl
  · exact books_of_keys (keys_updateWindowState ..)

theorem books_refocus (surface : Option ℕ) : (s.refocus surface).books = s.books := by
  refine Books.ext ?_ rfl rfl rfl rfl rfl
  funext c
  exact Option.map_map ..

theorem books_onActiveFocusSurfaceChanged (surface : Option ℕ) :
    (s.onActiveFocusSurfaceChanged surface).books = s.books := by
  unfold State.onActiveFocusSurfaceChanged
  dsimp only
  split
  · exact books_refocus _
  · split_ifs
    · exact books_refocus _
    · exact (books_updateFocus ..).trans ((books_updateFocus ..).trans (books_refocus _))

theorem step_onSurfaceDestroyed (h : s.chromes c = some ch) (hshell : ch.isShell = true)
    (cleared : Bool) :
    s.books.Step (s.onSurfaceDestroyed c ch cleared).books := by
  have hnot : ¬ (ch.isShell = false ∧ ch.windowId ≠ "") := by simp [hshell]
  have hbooks : (s.onSurfaceDestroyed c ch cleared).books = s.books.destroy c ch.slot := by
    unfold State.onSurfaceDestroyed
    rw [if_neg hnot]
    exact Books.ext (slots_setChrome ..) rfl rfl rfl rfl rfl
  exact hbooks ▸ .destroy (slots_of_chrome h) hshell

/-- **A step of the compositor** is a step of its books. -/
theorem books_step {s' : State} {e : Event} (hinv : s.books.Invariant) (hkeeps : Keeps s e)
    (h : compositor.step s e = some s') : s.books.Step s'.books := by
  cases e with
  | toplevelCreated toplevel =>
      obtain rfl := Option.some.inj h
      exact step_adoptToplevel toplevel hkeeps
  | wlShellSurfaceCreated =>
      obtain rfl := Option.some.inj h
      exact (books_createWindow (s := s) none) ▸ .addWindow hkeeps
  | metadataChanged c toplevel =>
      obtain ⟨ch, hch, h⟩ := Option.bind_eq_some_iff.mp h
      split_ifs at h
      obtain rfl := Option.some.inj h
      have hset : (s.setChrome c { ch with toplevel := some toplevel }).books = s.books := by
        refine books_setChrome hch ?_
        rfl
      rw [← hset] at hinv ⊢
      exact step_handleToplevelMetadataChanged hinv (Function.update_self ..)
  | reconcile c =>
      obtain ⟨ch, hch, h⟩ := Option.bind_eq_some_iff.mp h
      obtain rfl := Option.some.inj h
      exact step_handleToplevelMetadataChanged hinv hch
  | hasContentChanged c hasContent =>
      obtain ⟨ch, hch, h⟩ := Option.bind_eq_some_iff.mp h
      split_ifs at h
      obtain rfl := Option.some.inj h
      have hset : (s.setChrome c { ch with hasContent := hasContent }).books = s.books := by
        refine books_setChrome hch ?_
        rfl
      rw [← hset] at hinv ⊢
      exact step_onHasContentChanged hinv (Function.update_self ..)
  | activateRequested id =>
      obtain rfl := Option.some.inj h
      exact books_onActivateRequested (s := s) id ▸ .same
  | minimizeRequested id =>
      obtain rfl := Option.some.inj h
      exact books_onMinimizeRequested (s := s) id ▸ .same
  | minimizeClicked c =>
      obtain ⟨ch, hch, h⟩ := Option.bind_eq_some_iff.mp h
      split_ifs at h
      obtain rfl := Option.some.inj h
      exact books_setMinimized hch true ▸ .same
  | keyboardFocusChanged surface =>
      obtain rfl := Option.some.inj h
      exact books_onActiveFocusSurfaceChanged (s := s) surface ▸ .same
  | surfaceDestroyed c cleared =>
      obtain ⟨ch, hch, h⟩ := Option.bind_eq_some_iff.mp h
      split_ifs at h
      obtain rfl := Option.some.inj h
      exact step_onSurfaceDestroyed hch (hkeeps ch hch) cleared
  | deleted c =>
      obtain ⟨ch, hch, h⟩ := Option.bind_eq_some_iff.mp h
      split_ifs at h with hdestroyed
      obtain rfl := Option.some.inj h
      have hbooks : (s.delete c).books = s.books.delete c :=
        Books.ext (slots_update s _ c none rfl) rfl rfl rfl rfl rfl
      exact hbooks ▸ .delete (slots_of_chrome hch) hdestroyed

end Handlers

/-! ## Runs -/

theorem invariant_empty : State.empty.books.Invariant where
  numbered := ⟨0, numbered_zero⟩
  nodup_windowMap := List.nodup_nil
  lookup_windowMap _ _ := ⟨nofun, nofun⟩
  nodup_registered := List.nodup_nil
  mem_registered _ := Iff.rfl
  shell _ _ := nofun
  destroyed _ _ := nofun

theorem isWindow_iff {s : State} (h : s.books.Invariant) {c : ℕ} {id : String} :
    s.IsWindow c id ↔ ∃ slot, s.books.slots c = some slot ∧ slot.isShell = false ∧
    slot.windowId = id := by
  constructor
  · rintro ⟨ch, hch, hwindow, -, hid⟩
    exact ⟨ch.slot, slots_of_chrome hch, hwindow, hid⟩
  · rintro ⟨slot, hslot, hwindow, hid⟩
    obtain ⟨ch, hch, rfl⟩ := Option.map_eq_some_iff.mp hslot
    refine ⟨ch, hch, hwindow, Bool.eq_false_iff.mpr fun hdestroyed => ?_, hid⟩
    nomatch hwindow.symm.trans (h.destroyed c ch.slot hslot hdestroyed)

theorem coherent_of_invariant {s : State} (h : s.books.Invariant) : Coherent s := by
  have hmem : ∀ id, id ∈ Assoc.keys s.windowMap ↔ ∃ c, s.IsWindow c id := fun id =>
    (h.mem_keys id).trans (exists_congr fun c => (isWindow_iff h).symm)
  constructor
  · exact h.nodup_windowMap
  · exact h.nodup_registered
  · intro c c' id hc hc'
    obtain ⟨slot, hslot, hwindow, hid⟩ := (isWindow_iff h).mp hc
    obtain ⟨slot', hslot', hwindow', hid'⟩ := (isWindow_iff h).mp hc'
    exact h.once hslot hslot' hwindow hwindow' (hid.trans hid'.symm)
  · exact hmem
  · exact fun id => (h.mem_registered id).trans (hmem id)
  · intro c c' ch ch' hch hch' hshell hshell'
    have hof := (h.shell c ch.slot (slots_of_chrome hch) hshell).2
    exact Option.some.inj (hof.symm.trans (h.shell c' ch'.slot (slots_of_chrome hch') hshell').2)
  · intro c ch hch hshell
    have hid : ch.windowId = "" := (h.shell c ch.slot (slots_of_chrome hch) hshell).1
    constructor
    · intro hmem'
      obtain ⟨d, ch', hch', hwindow, -, hid'⟩ := (hmem _).mp hmem'
      exact windowId_ne_empty h hch' hwindow (hid'.trans hid)
    · intro id hlookup
      obtain ⟨slot, hslot, hwindow, -⟩ := (h.lookup_windowMap id c).mp hlookup
      obtain rfl := Option.some.inj ((slots_of_chrome hch).symm.trans hslot)
      nomatch hshell.symm.trans hwindow

/-- **The books are coherent** in every run in which the surfaces that go are the shell's. -/
theorem coherent_of_keeping {s : State} (h : compositor.ReachableWhere Keeps s) : Coherent s := by
  refine coherent_of_invariant (h.invariant (I := fun s => s.books.Invariant) ?_ ?_)
  · rintro _ rfl
    exact invariant_empty
  · intro s e s' _ hinv hkeeps hstep
    exact hinv.step (books_step hinv hkeeps hstep)

/-- The shell is promoted, a window comes and is minimised, and the shell goes. -/
def shellRun : List Event :=
  [.toplevelCreated ⟨"", ""⟩, .metadataChanged 0 ⟨"nira-shell ", ""⟩, .hasContentChanged 0 true,
    .wlShellSurfaceCreated, .minimizeRequested "win-2", .surfaceDestroyed 0 true, .deleted 0]

theorem coherent_shellRun :
    ∃ s, Coherent s ∧ s.registry.listWindowIds = ["win-2"] ∧ s.shellChrome = none := by
  have hrun : (compositor.runWhere Keeps .empty shellRun).any
      (fun s => s.registry.listWindowIds = ["win-2"] ∧ s.shellChrome = none) = true := by
    decide +kernel
  obtain ⟨s, hs, htest⟩ := Transition.System.exists_reachableWhere_of_run rfl hrun
  exact ⟨s, coherent_of_keeping hs, of_decide_eq_true htest⟩

/-! ## A window that goes -/

/-- Whatever came before, the books are not coherent once a window has gone. -/
theorem not_coherent_of_surfaceDestroyed {s s' : State} {c : ℕ} {ch : Chrome} {cleared : Bool}
    (h : Coherent s) (hch : s.chromes c = some ch) (hwindow : ch.isShell = false)
    (hstep : compositor.step s (.surfaceDestroyed c cleared) = some s') : ¬ Coherent s' := by
  obtain ⟨ch', hch', hstep⟩ := Option.bind_eq_some_iff.mp hstep
  obtain rfl := Option.some.inj (hch.symm.trans hch')
  split_ifs at hstep with hdestroyed
  obtain rfl := Option.some.inj hstep
  have hlive : s.IsWindow c ch.windowId := ⟨ch, hch, hwindow, Bool.eq_false_iff.mpr hdestroyed, rfl⟩
  have hmap : (s.onSurfaceDestroyed c ch cleared).windowMap = s.windowMap := by
    unfold State.onSurfaceDestroyed
    split_ifs <;> rfl
  have hchromes : (s.onSurfaceDestroyed c ch cleared).chromes =
      Function.update s.chromes c (some { ch with destroyed := true, hasContent := false }) := by
    unfold State.onSurfaceDestroyed
    split_ifs <;> rfl
  intro h'
  have hmem := (h.mem_windowMap ch.windowId).mpr ⟨c, hlive⟩
  rw [← hmap] at hmem
  obtain ⟨d, chd, hd, hwindow', hlive', hid⟩ := (h'.mem_windowMap ch.windowId).mp hmem
  rw [hchromes] at hd
  by_cases hdc : d = c
  · rw [hdc, Function.update_self] at hd
    obtain rfl := Option.some.inj hd
    nomatch hlive'
  · rw [Function.update_of_ne hdc] at hd
    exact hdc (h.once d c ch.windowId ⟨chd, hd, hwindow', hlive', hid⟩ hlive)

/-- The first window that is closed stays in `__windowMap`. -/
theorem not_coherent_closing : ∃ s, compositor.Reachable s ∧ ¬ Coherent s := by
  have hrun : (compositor.run .empty [.wlShellSurfaceCreated, .surfaceDestroyed 0 false]).any
      (fun s => Assoc.keys s.windowMap = ["win-1"] ∧ s.registry.listWindowIds = []) = true := by
    decide +kernel
  obtain ⟨s, hs, htest⟩ := Transition.System.exists_reachable_of_run rfl hrun
  obtain ⟨hmap, hregistry⟩ := of_decide_eq_true htest
  refine ⟨s, hs, fun h => ?_⟩
  obtain ⟨c, hc⟩ := (h.mem_windowMap "win-1").mp (by rw [hmap]; exact List.mem_singleton_self _)
  have hmem := (h.mem_registry "win-1").mpr ⟨c, hc⟩
  rw [hregistry] at hmem
  nomatch hmem

end NiraOS.Compositor.Windows
