import NiraOS.Compositor.Bookkeeping

/-!
# What follows the keyboard focus

`Tracking` is the part of the compositor's state on which the two routes to `updateWindowState`
depend: the ids in its two maps, the id that was focused last, and of each chrome its id and what it
has noted of the focus.  `Tracking.Invariant` is kept by every step, and the focus may go from a
window to any surface (`Tracking.Invariant.focus_some`) but not to none.
-/

namespace NiraOS.Compositor.Windows

structure Face extends Slot where
  isLocalFocus : Bool

def Chrome.face (ch : Chrome) : Face := ⟨ch.slot, ch.isLocalFocus⟩

@[ext] structure Tracking where
  faces : ℕ → Option Face
  next : ℕ
  counter : ℤ
  /-- The ids in `__windowMap`. -/
  inMap : String → Bool
  /-- `__surfaceMap`. -/
  idOf : ℕ → Option String
  /-- What the registry says, of the windows that are registered. -/
  focused : String → Option Bool
  active : Option ℕ
  last : String

def State.tracking (s : State) : Tracking where
  faces c := (s.chromes c).map Chrome.face
  next := s.nextChrome
  counter := s.windowIdCounter
  inMap id := (s.windowMap.lookup id).isSome
  idOf c := s.surfaceMap.lookup c
  focused id := (s.registry.lookup id).map WindowRecord.focused
  active := s.activeFocusSurface
  last := s.lastFocusedWinId

namespace Tracking

/-! ### The steps -/

section Steps

variable (t : Tracking)

def addWindow : Tracking :=
  let id := windowIdAfter t.counter
  { t with
    faces := Function.update t.faces t.next (some ⟨⟨false, id, false⟩, false⟩)
    next := t.next + 1
    counter := (t.counter + 1).bmod (2 ^ 32)
    inMap := Function.update t.inMap id true
    idOf := Function.update t.idOf t.next (some id)
    focused := Function.update t.focused id (some false) }

def addShell : Tracking :=
  { t with
    faces := Function.update t.faces t.next (some ⟨⟨true, "", false⟩, false⟩)
    next := t.next + 1 }

def promote (c : ℕ) (f : Face) : Tracking :=
  { t with
    faces := Function.update t.faces c (some { f with isShell := true, windowId := "" })
    inMap := Function.update t.inMap f.windowId false
    idOf := Function.update t.idOf c none
    focused := Function.update t.focused f.windowId none }

/-- The surface goes; a shell is neither in `__surfaceMap` nor in the registry. -/
def close (c : ℕ) (f : Face) (cleared : Bool) : Tracking :=
  { t with
    faces := Function.update t.faces c (some { f with destroyed := true })
    idOf := if f.isShell = true ∨ cleared = true then t.idOf else Function.update t.idOf c none
    focused := if f.isShell then t.focused else Function.update t.focused f.windowId none }

def delete (c : ℕ) : Tracking := { t with faces := Function.update t.faces c none }

def refocus (surface : Option ℕ) : Tracking :=
  { t with
    active := surface
    faces := fun c => (t.faces c).map fun f =>
      { f with isLocalFocus := surface = if f.destroyed then none else some c } }

/-- `updateWindowState`, for an id in `__windowMap`. -/
def mark (id : String) (b : Bool) : Tracking :=
  { t with
    focused := fun other =>
      if t.inMap id = true ∧ other = id then (t.focused other).map fun _ => b else t.focused other }

def focus (surface : Option ℕ) : Tracking :=
  match surface with
  | none => t.refocus none
  | some c =>
      let newId := (t.idOf c).getD ""
      if t.last = newId then t.refocus (some c)
      else { ((t.refocus (some c)).mark t.last false).mark newId true with last := newId }

/-- What the chromes are. -/
def slots (c : ℕ) : Option Slot := (t.faces c).map Face.toSlot

end Steps

/-! ### The invariant -/

/-- What is kept of one chrome. -/
structure Sound (t : Tracking) (c : ℕ) (f : Face) : Prop where
  unnamed : f.isShell = true → f.windowId = ""
  inMap : f.isShell = false → t.inMap f.windowId = true
  idOf : f.destroyed = false → t.idOf c = if f.isShell then none else some f.windowId
  localFocus : f.destroyed = false → f.isLocalFocus = decide (t.active = some c)
  focused : f.isShell = false → f.destroyed = false →
    t.focused f.windowId = some (decide (t.active = some c))
  last : f.isShell = false → f.destroyed = false → (t.last = f.windowId ↔ t.active = some c)

structure Invariant (t : Tracking) : Prop where
  unborn : ∀ c, t.next ≤ c → t.idOf c = none ∧ t.active ≠ some c
  /-- So many windows were registered; the last to be focused was of these. -/
  numbered : ∃ n, Numbered t.slots t.next t.counter n ∧ (t.last = "" ∨ ∃ m < n, t.last = nthId m)
  sound : ∀ c f, t.faces c = some f → t.Sound c f
  registered : ∀ id, t.focused id ≠ none →
    ∃ c f, t.faces c = some f ∧ f.isShell = false ∧ f.destroyed = false ∧ f.windowId = id

section Invariant

variable {t : Tracking} {c : ℕ} {f : Face}

theorem slots_of_face (hf : t.faces c = some f) : t.slots c = some f.toSlot :=
  congrArg (Option.map Face.toSlot) hf

/-- Where one face changes, one slot changes. -/
theorem slots_of_update {t' : Tracking} {new : Option Face}
    (h : t'.faces = Function.update t.faces c new) :
    t'.slots = Function.update t.slots c (new.map Face.toSlot) := by
  funext d
  unfold slots
  rw [h]
  by_cases hd : d = c
  · rw [hd, Function.update_self, Function.update_self]
  · rw [Function.update_of_ne hd, Function.update_of_ne hd]

theorem Invariant.lt_next (h : t.Invariant) (hf : t.faces c = some f) : c < t.next := by
  obtain ⟨n, hn, -⟩ := h.numbered
  exact hn.lt_next (slots_of_face hf)

theorem Invariant.once (h : t.Invariant) {c' : ℕ} {f' : Face} (hf : t.faces c = some f)
    (hf' : t.faces c' = some f') (hwindow : f.isShell = false) (hwindow' : f'.isShell = false)
    (hid : f.windowId = f'.windowId) : c = c' := by
  obtain ⟨n, hn, -⟩ := h.numbered
  exact hn.once c c' _ _ (slots_of_face hf) (slots_of_face hf') hwindow hwindow' hid

theorem Invariant.windowId_ne_empty (h : t.Invariant) (hf : t.faces c = some f)
    (hwindow : f.isShell = false) : f.windowId ≠ "" := by
  obtain ⟨n, hn, -⟩ := h.numbered
  exact hn.windowId_ne_empty (slots_of_face hf) hwindow

/-- The next id is of no window, and was not the last to be focused. -/
theorem Invariant.fresh (h : t.Invariant) (hnext : t.next < 2 ^ 32) :
    (∀ c f, t.faces c = some f → f.isShell = false → f.windowId ≠ windowIdAfter t.counter) ∧
      t.last ≠ windowIdAfter t.counter := by
  obtain ⟨n, hn, hlast⟩ := h.numbered
  constructor
  · intro c f hf hwindow
    exact hn.fresh hnext (slots_of_face hf) hwindow
  · rcases hlast with hlast | ⟨m, hm, hlast⟩
    · have hnew : windowIdAfter t.counter = nthId n := by rw [hn.counter, nthId]
      rw [hlast, hnew]
      exact (nthId_ne_empty n).symm
    · rw [hlast]
      exact hn.nthId_ne hnext hm

/-- A window that is no longer registered is not on the screen. -/
theorem Invariant.focused_of_window (h : t.Invariant) (hf : t.faces c = some f)
    (hwindow : f.isShell = false) {b : Bool} (hb : t.focused f.windowId = some b) :
    f.destroyed = false ∧ b = f.isLocalFocus := by
  obtain ⟨d, g, hg, hgwindow, hlive, hid⟩ := h.registered f.windowId (by rw [hb]; simp)
  obtain rfl := h.once hg hf hgwindow hwindow hid
  obtain rfl := Option.some.inj (hg.symm.trans hf)
  have hsound := h.sound d g hg
  refine ⟨hlive, ?_⟩
  rw [hsound.localFocus hlive]
  exact Option.some.inj (hb.symm.trans (hsound.focused hwindow hlive))

/-! ### Windows that come -/

theorem Invariant.addWindow (h : t.Invariant) (hnext : t.next < 2 ^ 32) :
    t.addWindow.Invariant := by
  obtain ⟨hfresh, hlast⟩ := h.fresh hnext
  have hself : t.addWindow.faces t.next = some ⟨⟨false, windowIdAfter t.counter, false⟩, false⟩ :=
    Function.update_self ..
  -- the chromes that were there
  have hold : ∀ d g, d ≠ t.next → t.addWindow.faces d = some g → t.faces d = some g := by
    intro d g hd hg
    exact (Function.update_of_ne hd ..).symm.trans hg
  constructor
  · intro d hd
    have hd' : t.next + 1 ≤ d := hd
    obtain ⟨hid, hactive⟩ := h.unborn d (by omega)
    exact ⟨(Function.update_of_ne (by omega) ..).trans hid, hactive⟩
  · obtain ⟨n, hn, hnamed⟩ := h.numbered
    refine ⟨n + 1, ?_, ?_⟩
    · have hfaces : t.addWindow.faces = Function.update t.faces t.next
          (some ⟨⟨false, windowIdAfter t.counter, false⟩, false⟩) := rfl
      rw [slots_of_update hfaces]
      exact hn.addWindow hnext
    · rcases hnamed with hempty | ⟨m, hm, hid⟩
      · exact Or.inl hempty
      · exact Or.inr ⟨m, Nat.lt_succ_of_lt hm, hid⟩
  · intro d g hg
    by_cases hd : d = t.next
    · rw [hd, hself] at hg
      obtain rfl := Option.some.inj hg
      subst hd
      have hactive : t.active ≠ some t.next := (h.unborn t.next (Nat.le_refl _)).2
      constructor
      · simp
      · exact fun _ => Function.update_self ..
      · exact fun _ => Function.update_self ..
      · exact fun _ => (decide_eq_false hactive).symm
      · intro _ _
        exact (Function.update_self ..).trans (congrArg some (decide_eq_false hactive).symm)
      · exact fun _ _ => ⟨fun heq => absurd heq hlast, fun heq => absurd heq hactive⟩
    · have hsound := h.sound d g (hold d g hd hg)
      have hne : g.isShell = false → g.windowId ≠ windowIdAfter t.counter :=
        hfresh d g (hold d g hd hg)
      constructor
      · exact hsound.unnamed
      · intro hwindow
        exact (Function.update_of_ne (hne hwindow) ..).trans (hsound.inMap hwindow)
      · exact fun hlive => (Function.update_of_ne hd ..).trans (hsound.idOf hlive)
      · exact hsound.localFocus
      · intro hwindow hlive
        exact (Function.update_of_ne (hne hwindow) ..).trans (hsound.focused hwindow hlive)
      · exact hsound.last
  · intro id hid
    by_cases hnew : id = windowIdAfter t.counter
    · exact ⟨t.next, _, hself, rfl, rfl, hnew.symm⟩
    · have hid' : t.focused id ≠ none := by
        rw [← Function.update_of_ne hnew (some false) t.focused]
        exact hid
      obtain ⟨d, g, hg, hwindow, hlive, hname⟩ := h.registered id hid'
      refine ⟨d, g, ?_, hwindow, hlive, hname⟩
      exact (Function.update_of_ne (Nat.ne_of_lt (h.lt_next hg)) ..).trans hg

theorem Invariant.addShell (h : t.Invariant) : t.addShell.Invariant := by
  have hself : t.addShell.faces t.next = some ⟨⟨true, "", false⟩, false⟩ :=
    Function.update_self ..
  have hold : ∀ d g, d ≠ t.next → t.addShell.faces d = some g → t.faces d = some g := by
    intro d g hd hg
    exact (Function.update_of_ne hd ..).symm.trans hg
  obtain ⟨hidOf, hactive⟩ := h.unborn t.next (Nat.le_refl _)
  constructor
  · intro d hd
    exact h.unborn d (Nat.le_of_succ_le hd)
  · obtain ⟨n, hn, hnamed⟩ := h.numbered
    have hfaces : t.addShell.faces = Function.update t.faces t.next
        (some ⟨⟨true, "", false⟩, false⟩) := rfl
    refine ⟨n, ?_, hnamed⟩
    rw [slots_of_update hfaces]
    exact hn.addShell rfl
  · intro d g hg
    by_cases hd : d = t.next
    · rw [hd, hself] at hg
      obtain rfl := Option.some.inj hg
      subst hd
      constructor
      · exact fun _ => rfl
      · simp
      · exact fun _ => hidOf
      · exact fun _ => (decide_eq_false hactive).symm
      · simp
      · simp
    · have hsound := h.sound d g (hold d g hd hg)
      exact ⟨hsound.unnamed, hsound.inMap, hsound.idOf, hsound.localFocus, hsound.focused,
        hsound.last⟩
  · intro id hid
    obtain ⟨d, g, hg, hwindow, hlive, hname⟩ := h.registered id hid
    refine ⟨d, g, ?_, hwindow, hlive, hname⟩
    exact (Function.update_of_ne (Nat.ne_of_lt (h.lt_next hg)) ..).trans hg

/-! ### Windows that go -/

/-- What concerns the other chromes, when one of them goes. -/
theorem Invariant.leave (h : t.Invariant) (hf : t.faces c = some f) {t' : Tracking}
    {new : Option Face} (hnext : t'.next = t.next) (hcounter : t'.counter = t.counter)
    (hlast : t'.last = t.last) (hactive : t'.active = t.active)
    (hfaces : t'.faces = Function.update t.faces c new)
    (hidOf : ∀ d, d ≠ c → t'.idOf d = t.idOf d)
    (hinMap : ∀ id, (f.isShell = false → id ≠ f.windowId) → t'.inMap id = t.inMap id)
    (hfocused : ∀ id, (f.isShell = false → id ≠ f.windowId) → t'.focused id = t.focused id)
    (hgone : f.isShell = false → t'.focused f.windowId = none)
    (hself : ∀ f', new = some f' →
      t'.Sound c f' ∧ (f'.isShell = false → f.isShell = false ∧ f'.windowId = f.windowId)) :
    t'.Invariant := by
  have hother : ∀ d, d ≠ c → t'.faces d = t.faces d := by
    intro d hd
    rw [hfaces, Function.update_of_ne hd]
  constructor
  · intro d hd
    rw [hnext] at hd
    have hne : d ≠ c := (Nat.lt_of_lt_of_le (h.lt_next hf) hd).ne'
    rw [hidOf d hne, hactive]
    exact h.unborn d hd
  · obtain ⟨n, hn, hnamed⟩ := h.numbered
    refine ⟨n, ?_, hlast ▸ hnamed⟩
    rw [slots_of_update hfaces, hnext, hcounter]
    apply hn.update (slots_of_face hf)
    intro slot' hslot' hwindow
    obtain ⟨f', hf', rfl⟩ := Option.map_eq_some_iff.mp hslot'
    exact (hself f' hf').2 hwindow
  · intro d g hg
    by_cases hd : d = c
    · subst hd
      rw [hfaces, Function.update_self] at hg
      exact (hself g hg).1
    · rw [hother d hd] at hg
      have hsound := h.sound d g hg
      have hapart : g.isShell = false → f.isShell = false → g.windowId ≠ f.windowId := by
        intro hwindow hwindow' hid
        exact hd (h.once hg hf hwindow hwindow' hid)
      constructor
      · exact hsound.unnamed
      · intro hwindow
        rw [hinMap _ (hapart hwindow)]
        exact hsound.inMap hwindow
      · intro hlive
        rw [hidOf d hd]
        exact hsound.idOf hlive
      · rw [hactive]
        exact hsound.localFocus
      · intro hwindow hlive
        rw [hfocused _ (hapart hwindow), hactive]
        exact hsound.focused hwindow hlive
      · rw [hlast, hactive]
        exact hsound.last
  · intro id hid
    have hapart : f.isShell = false → id ≠ f.windowId := by
      rintro hwindow rfl
      exact hid (hgone hwindow)
    rw [hfocused id hapart] at hid
    obtain ⟨d, g, hg, hwindow, hlive, hname⟩ := h.registered id hid
    have hd : d ≠ c := by
      rintro rfl
      obtain rfl := Option.some.inj (hg.symm.trans hf)
      exact hapart hwindow hname.symm
    exact ⟨d, g, (hother d hd).trans hg, hwindow, hlive, hname⟩

theorem Invariant.promote (h : t.Invariant) (hf : t.faces c = some f)
    (hwindow : f.isShell = false) : (t.promote c f).Invariant := by
  refine h.leave hf rfl rfl rfl rfl rfl (fun d hd => Function.update_of_ne hd ..)
    (fun id hid => Function.update_of_ne (hid hwindow) ..)
    (fun id hid => Function.update_of_ne (hid hwindow) ..) (fun _ => Function.update_self ..) ?_
  intro f' hf'
  obtain rfl := Option.some.inj hf'
  constructor
  · constructor
    · exact fun _ => rfl
    · simp
    · exact fun _ => Function.update_self ..
    · exact (h.sound c f hf).localFocus
    · simp
    · simp
  · simp

theorem Invariant.close (h : t.Invariant) (hf : t.faces c = some f) (cleared : Bool) :
    (t.close c f cleared).Invariant := by
  have hfocused : ∀ id, (f.isShell = false → id ≠ f.windowId) →
      (t.close c f cleared).focused id = t.focused id := by
    intro id hid
    unfold Tracking.close
    dsimp only
    split_ifs with hshell
    · rfl
    · exact Function.update_of_ne (hid (Bool.eq_false_iff.mpr hshell)) ..
  have hidOf : ∀ d, d ≠ c → (t.close c f cleared).idOf d = t.idOf d := by
    intro d hd
    unfold Tracking.close
    dsimp only
    split_ifs
    · rfl
    · exact Function.update_of_ne hd ..
  have hgone : f.isShell = false → (t.close c f cleared).focused f.windowId = none := by
    intro hwindow
    unfold Tracking.close
    dsimp only
    rw [if_neg (Bool.eq_false_iff.mp hwindow)]
    exact Function.update_self ..
  refine h.leave hf rfl rfl rfl rfl rfl hidOf (fun _ _ => rfl) hfocused hgone ?_
  intro f' hf'
  obtain rfl := Option.some.inj hf'
  constructor
  · constructor
    · exact (h.sound c f hf).unnamed
    · exact (h.sound c f hf).inMap
    · simp
    · simp
    · simp
    · simp
  · exact fun hwindow => ⟨hwindow, rfl⟩

theorem Invariant.delete (h : t.Invariant) (hf : t.faces c = some f)
    (hdestroyed : f.destroyed = true) : (t.delete c).Invariant := by
  have hgone : f.isShell = false → t.focused f.windowId = none := by
    intro hwindow
    cases hb : t.focused f.windowId with
    | none => rfl
    | some b =>
        have hlive := (h.focused_of_window hf hwindow hb).1
        rw [hdestroyed] at hlive
        cases hlive
  refine h.leave hf rfl rfl rfl rfl rfl (fun _ _ => rfl) (fun _ _ => rfl) (fun _ _ => rfl) hgone ?_
  intro f' hf'
  cases hf'

/-! ### The focus moves -/

/-- The id that is found for a surface is that of its window. -/
theorem Invariant.idOf_eq_iff (h : t.Invariant) (hf : t.faces c = some f)
    (hlive : f.destroyed = false) {d : ℕ}
    {g : Face} (hg : t.faces d = some g) (hwindow : g.isShell = false) :
    (t.idOf c).getD "" = g.windowId ↔ some c = some d := by
  rw [(h.sound c f hf).idOf hlive]
  split_ifs with hshell
  · constructor
    · intro hempty
      exact absurd hempty.symm (h.windowId_ne_empty hg hwindow)
    · intro heq
      obtain rfl := Option.some.inj heq
      obtain rfl := Option.some.inj (hf.symm.trans hg)
      nomatch hshell.symm.trans hwindow
  · constructor
    · intro hid
      exact congrArg some (h.once hf hg (Bool.eq_false_iff.mpr hshell) hwindow hid)
    · intro heq
      obtain rfl := Option.some.inj heq
      obtain rfl := Option.some.inj (hf.symm.trans hg)
      rfl

theorem mark_focused_eq_none (t : Tracking) (id : String) (b : Bool) (other : String) :
    (t.mark id b).focused other = none ↔ t.focused other = none := by
  unfold Tracking.mark
  dsimp only
  split_ifs
  · exact Option.map_eq_none_iff
  · rfl

/-- What the handler writes, by the id that was focused last and the id that is now. -/
theorem focus_some (t : Tracking) (c : ℕ) :
    ∃ focused, t.focus (some c) =
      { t.refocus (some c) with last := (t.idOf c).getD "", focused := focused } ∧
      (∀ id, focused id = none ↔ t.focused id = none) ∧
      ∀ id, t.inMap id = true → t.focused id = some (decide (t.last = id)) →
        focused id = some (decide ((t.idOf c).getD "" = id)) := by
  unfold Tracking.focus
  dsimp only
  split_ifs with hsame
  · refine ⟨t.focused, ?_, fun id => Iff.rfl, fun id _ hid => ?_⟩
    · rw [← hsame]
      rfl
    · rw [← hsame, hid]
  · refine ⟨_, rfl, fun id => ?_, fun id hmap hid => ?_⟩
    · exact (mark_focused_eq_none ..).trans (mark_focused_eq_none ..)
    · simp only [Tracking.mark, Tracking.refocus, hid]
      by_cases hnew : id = (t.idOf c).getD ""
      · subst hnew
        rw [if_pos ⟨hmap, rfl⟩, if_neg fun hlast => hsame hlast.2.symm, decide_eq_true rfl]
        rfl
      · rw [if_neg fun hnow => hnew hnow.2, decide_eq_false (Ne.symm hnew)]
        split_ifs with hlast
        · rfl
        · rw [decide_eq_false]
          rintro rfl
          exact hlast ⟨hmap, rfl⟩

theorem Invariant.refocus (h : t.Invariant) {surface : Option ℕ} (hborn : ∀ c ∈ surface, c < t.next)
    {last : String}
    {focused : String → Option Bool} (hfocused : ∀ id, focused id = none ↔ t.focused id = none)
    (hlast : last = t.last ∨ ∃ c f, t.faces c = some f ∧ f.destroyed = false ∧
      last = (t.idOf c).getD "")
    (hwindows : ∀ d g, t.faces d = some g → g.isShell = false → g.destroyed = false →
      focused g.windowId = some (decide (surface = some d)) ∧
        (last = g.windowId ↔ surface = some d)) :
    Invariant { t.refocus surface with last := last, focused := focused } := by
  have hold : ∀ d g, (t.refocus surface).faces d = some g →
    ∃ g', t.faces d = some g' ∧ g.isShell = g'.isShell ∧
      g.windowId = g'.windowId ∧ g.destroyed = g'.destroyed ∧
      g.isLocalFocus = decide (surface = if g'.destroyed then none else some d) := by
    intro d g hg
    obtain ⟨g', hg', rfl⟩ := Option.map_eq_some_iff.mp hg
    exact ⟨g', hg', rfl, rfl, rfl, rfl⟩
  constructor
  · intro d hd
    refine ⟨(h.unborn d hd).1, ?_⟩
    intro hsurface
    exact absurd (hborn d hsurface) (Nat.not_lt_of_le hd)
  · obtain ⟨n, hn, hnamed⟩ := h.numbered
    refine ⟨n, ?_, ?_⟩
    · have hslots : (t.refocus surface).slots = t.slots := by
        funext d
        unfold slots Tracking.refocus
        rw [Option.map_map]
        rfl
      show Numbered (t.refocus surface).slots t.next t.counter n
      rw [hslots]
      exact hn
    · show last = "" ∨ ∃ m < n, last = nthId m
      rcases hlast with hsame | ⟨c, f, hf, hlive, hnew⟩
      · rw [hsame]
        exact hnamed
      · rw [hnew, (h.sound c f hf).idOf hlive]
        split_ifs with hshell
        · exact Or.inl rfl
        · exact Or.inr (hn.named c _ (slots_of_face hf) (Bool.eq_false_iff.mpr hshell))
  · intro d g hg
    obtain ⟨g', hg', hshell, hid, hdestroyed, hlocal⟩ := hold d g hg
    have hsound := h.sound d g' hg'
    constructor
    · intro hshell'
      rw [hid]
      exact hsound.unnamed (hshell.symm.trans hshell')
    · intro hwindow
      rw [hid]
      exact hsound.inMap (hshell.symm.trans hwindow)
    · intro hlive
      rw [hshell, hid]
      exact hsound.idOf (hdestroyed.symm.trans hlive)
    · intro hlive
      rw [hlocal, if_neg]
      · rfl
      · rw [← hdestroyed, hlive]
        exact Bool.false_ne_true
    · intro hwindow hlive
      rw [hid]
      exact (hwindows d g' hg' (hshell.symm.trans hwindow) (hdestroyed.symm.trans hlive)).1
    · intro hwindow hlive
      rw [hid]
      exact (hwindows d g' hg' (hshell.symm.trans hwindow) (hdestroyed.symm.trans hlive)).2
  · intro id hid
    obtain ⟨d, g, hg, hwindow, hlive, hname⟩ :=
      h.registered id (fun hnone => hid ((hfocused id).mpr hnone))
    exact ⟨d, _, congrArg (Option.map _) hg, hwindow, hlive, hname⟩

theorem Invariant.focus_some (h : t.Invariant) (hf : t.faces c = some f)
    (hlive : f.destroyed = false) :
    (t.focus (some c)).Invariant := by
  obtain ⟨focused, hfocus, hnone, hmark⟩ := Tracking.focus_some t c
  rw [hfocus]
  refine h.refocus ?_ hnone (Or.inr ⟨c, f, hf, hlive, rfl⟩) ?_
  · intro d hd
    obtain rfl := Option.some.inj hd
    exact h.lt_next hf
  · intro d g hg hwindow hglive
    have hsound := h.sound d g hg
    have hiff := h.idOf_eq_iff hf hlive hg hwindow
    have hbefore : t.focused g.windowId = some (decide (t.last = g.windowId)) := by
      rw [hsound.focused hwindow hglive]
      exact congrArg some (decide_eq_decide.mpr (hsound.last hwindow hglive).symm)
    refine ⟨?_, hiff⟩
    rw [hmark g.windowId (hsound.inMap hwindow) hbefore]
    exact congrArg some (decide_eq_decide.mpr hiff)

/-- **The early return** does no harm while no window has the focus. -/
theorem Invariant.focus_none (h : t.Invariant) (hnone : ∀ c ∈ t.active, ∀ f ∈ t.faces c,
    f.isShell = true ∨ f.destroyed = true) : (t.focus none).Invariant := by
  have hborn : ∀ c ∈ (none : Option ℕ), c < t.next := nofun
  refine h.refocus hborn (fun _ => Iff.rfl) (Or.inl rfl) ?_
  intro d g hg hwindow hlive
  have hsound := h.sound d g hg
  have hactive : t.active ≠ some d := by
    intro hactive
    rcases hnone d hactive g hg with hshell | hdestroyed
    · nomatch hshell.symm.trans hwindow
    · nomatch hdestroyed.symm.trans hlive
  constructor
  · exact (hsound.focused hwindow hlive).trans (congrArg some (decide_eq_false hactive))
  · exact ⟨fun hlast => absurd ((hsound.last hwindow hlive).mp hlast) hactive, nofun⟩

end Invariant

end Tracking

end NiraOS.Compositor.Windows
