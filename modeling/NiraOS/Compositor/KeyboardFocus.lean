import NiraOS.Compositor.Desktop
import NiraOS.Compositor.FocusTracking

/-!
# The keyboard focus and the window registry

The registry should mark the one window that has the focus (`Mirrors`).  It does as long as the
focus of a window goes to another window or to the shell (`mirrors_of_focusing`), for
`onActiveFocusSurfaceChanged` returns early when no surface has the focus: the window that had it
stays on record as focused (`not_mirrors_of_unfocus`).
-/

namespace NiraOS.Compositor.Windows

/-! ## What the registry should say -/

def State.MarkedFocused (s : State) (id : String) : Prop :=
  ∃ record, s.registry.lookup id = some record ∧ record.focused = true

/-- **The registry mirrors the keyboard focus.** -/
structure Mirrors (s : State) : Prop where
  exactly : ∀ id, s.MarkedFocused id ↔
    id ∈ s.registry.listWindowIds ∧ ∃ c, s.IsWindow c id ∧ s.activeFocusSurface = some c
  at_most_one : ∀ id id', s.MarkedFocused id → s.MarkedFocused id' → id = id'
  nowhere : s.activeFocusSurface = none → ∀ id, ¬ s.MarkedFocused id
  shell : ∀ c ch, s.activeFocusSurface = some c → s.chromes c = some ch → ch.isShell = true →
    ∀ id, ¬ s.MarkedFocused id

/-- The focus does not go from a window to no surface, and there are ids for the windows that come.
-/
def Focusing (s : State) : Event → Prop
  | .keyboardFocusChanged none => ∀ c ∈ s.activeFocusSurface, ∀ ch ∈ s.chromes c,
      ch.isShell = true ∨ ch.destroyed = true
  | .toplevelCreated _ | .wlShellSurfaceCreated => s.nextChrome < 2 ^ 32
  | _ => True

instance (s : State) : (e : Event) → Decidable (Focusing s e)
  | .keyboardFocusChanged none =>
      inferInstanceAs (Decidable (∀ c ∈ s.activeFocusSurface, ∀ ch ∈ s.chromes c,
      ch.isShell = true ∨ ch.destroyed = true))
  | .toplevelCreated _ | .wlShellSurfaceCreated =>
      inferInstanceAs (Decidable (s.nextChrome < 2 ^ 32))
  | .keyboardFocusChanged (some _) | .metadataChanged .. | .reconcile _ | .hasContentChanged ..
  | .activateRequested _
  | .minimizeRequested _ | .minimizeClicked _ | .surfaceDestroyed .. | .deleted _ => isTrue trivial

/-! ## What the handlers do -/

section Views

variable {s : State} {c : ℕ} {ch ch' : Chrome}

theorem face_of_chrome (h : s.chromes c = some ch) : s.tracking.faces c = some ch.face :=
  congrArg (Option.map Chrome.face) h

theorem faces_update (s s' : State) (c : ℕ) (ch : Option Chrome)
    (h : s'.chromes = Function.update s.chromes c ch) :
    s'.tracking.faces = Function.update s.tracking.faces c (ch.map Chrome.face) := by
  funext d
  change (s'.chromes d).map Chrome.face = _
  rw [h]
  by_cases hd : d = c
  · rw [hd, Function.update_self, Function.update_self]
  · rw [Function.update_of_ne hd, Function.update_of_ne hd]
    rfl

theorem faces_setChrome (s : State) (c : ℕ) (ch : Chrome) :
    (s.setChrome c ch).tracking.faces = Function.update s.tracking.faces c (some ch.face) :=
  faces_update s _ c (some ch) rfl

/-- A chrome may change in everything but its face. -/
theorem tracking_setChrome (h : s.chromes c = some ch) (hface : ch'.face = ch.face) :
    (s.setChrome c ch').tracking = s.tracking := by
  have hfaces : (s.setChrome c ch').tracking.faces = s.tracking.faces := by
    rw [faces_setChrome, hface, ← face_of_chrome h, Function.update_eq_self]
  exact congrArg (fun faces => { s.tracking with faces := faces }) hfaces

theorem tracking_of_focused {r : Registry}
    (h : ∀ id, (r.lookup id).map WindowRecord.focused = s.tracking.focused id) :
    ({ s with registry := r } : State).tracking = s.tracking :=
  congrArg (fun focused => { s.tracking with focused := focused }) (funext h)

theorem focused_updateWindowState (r : Registry) (id : String) (minimized focused : Bool)
    (other : String) :
    ((r.updateWindowState id minimized focused).1.lookup other).map WindowRecord.focused =
      if other = id then ((r.lookup other).map WindowRecord.focused).map fun _ => focused
      else (r.lookup other).map WindowRecord.focused := by
  rw [Registry.lookup_updateWindowState_eq_map]
  split_ifs
  · rw [Option.map_map, Option.map_map]
    rfl
  · rfl

theorem focused_updateWindowMetadata (r : Registry) (id title appId other : String) :
    ((r.updateWindowMetadata id title appId).1.lookup other).map WindowRecord.focused =
      (r.lookup other).map WindowRecord.focused := by
  rw [Registry.updateWindowMetadata, Assoc.lookup_modify]
  split_ifs
  · exact Option.map_map ..
  · rfl

theorem tracking_createWindow (toplevel : Option Toplevel) :
    (s.createObject toplevel false).tracking = s.tracking.addWindow := by
  apply Tracking.ext
  · exact faces_setChrome ..
  · rfl
  · rfl
  · exact Assoc.read_insert Option.isSome ..
  · exact Assoc.read_insert id ..
  · exact Assoc.read_insert (Option.map WindowRecord.focused) ..
  · rfl
  · rfl

theorem tracking_createShell (toplevel : Option Toplevel) :
    ({ s.createObject toplevel true with shellChrome := some s.nextChrome } : State).tracking =
      s.tracking.addShell := by
  refine Tracking.ext ?_ rfl rfl rfl rfl rfl rfl rfl
  exact faces_setChrome ..

theorem tracking_promoteToShell (hid : ch.windowId ≠ "") :
    (s.promoteToShell c ch).tracking = s.tracking.promote c ch.face := by
  unfold State.promoteToShell
  rw [if_neg hid]
  apply Tracking.ext
  · exact faces_setChrome ..
  · rfl
  · rfl
  · exact Assoc.read_erase Option.isSome ..
  · exact Assoc.read_erase id ..
  · exact Assoc.read_erase (Option.map WindowRecord.focused) ..
  · rfl
  · rfl

theorem tracking_onSurfaceDestroyed (hid : ch.isShell = false → ch.windowId ≠ "") (cleared : Bool) :
    (s.onSurfaceDestroyed c ch cleared).tracking = s.tracking.close c ch.face cleared := by
  unfold State.onSurfaceDestroyed
  by_cases hshell : ch.isShell = true
  · have hnot : ¬ (ch.isShell = false ∧ ch.windowId ≠ "") := by simp [hshell]
    rw [if_neg hnot]
    refine Tracking.ext ?_ rfl rfl rfl ?_ ?_ rfl rfl
    · exact faces_setChrome ..
    · exact (if_pos (Or.inl hshell)).symm
    · exact (if_pos hshell).symm
  · have hwindow := Bool.eq_false_iff.mpr hshell
    rw [if_pos ⟨hwindow, hid hwindow⟩]
    refine Tracking.ext ?_ rfl rfl rfl ?_ ?_ rfl rfl
    · exact faces_setChrome ..
    · cases cleared with
      | true => exact (if_pos (Or.inr rfl)).symm
      | false =>
          have hkept : ¬ (ch.face.isShell = true ∨ false = true) := by
            simp [Chrome.face, Chrome.slot, hshell]
          exact (Assoc.read_erase id ..).trans (if_neg hkept).symm
    · exact (Assoc.read_erase (Option.map WindowRecord.focused) ..).trans (if_neg hshell).symm

theorem tracking_delete : (s.delete c).tracking = s.tracking.delete c :=
  Tracking.ext (faces_update s _ c none rfl) rfl rfl rfl rfl rfl rfl rfl

theorem tracking_updateFocus (id : String) (b : Bool) :
    (s.updateFocus id b).tracking = s.tracking.mark id b := by
  unfold State.updateFocus
  split
  · next hnone =>
      refine Tracking.ext rfl rfl rfl rfl rfl ?_ rfl rfl
      funext other
      refine (if_neg ?_).symm
      rintro ⟨hsome, -⟩
      change (s.windowMap.lookup id).isSome = true at hsome
      rw [hnone] at hsome
      nomatch hsome
  · next d hsome =>
      refine Tracking.ext rfl rfl rfl rfl rfl ?_ rfl rfl
      funext other
      have hmap : s.tracking.inMap id = true := by
        change (s.windowMap.lookup id).isSome = true
        rw [hsome]
        rfl
      refine (focused_updateWindowState ..).trans ?_
      change _ = if s.tracking.inMap id = true ∧ other = id then _ else _
      simp only [hmap, true_and]
      rfl

theorem tracking_refocus (surface : Option ℕ) :
    (s.refocus surface).tracking = s.tracking.refocus surface := by
  refine Tracking.ext ?_ rfl rfl rfl rfl rfl rfl rfl
  funext d
  change ((s.chromes d).map _).map Chrome.face = ((s.chromes d).map Chrome.face).map _
  rw [Option.map_map, Option.map_map]
  rfl

theorem tracking_onActiveFocusSurfaceChanged (surface : Option ℕ) :
    (s.onActiveFocusSurfaceChanged surface).tracking = s.tracking.focus surface := by
  unfold State.onActiveFocusSurfaceChanged Tracking.focus
  cases surface with
  | none => exact tracking_refocus none
  | some focused =>
      dsimp only
      rw [← tracking_refocus]
      change State.tracking (if s.lastFocusedWinId = (s.surfaceMap.lookup focused).getD ""
        then _ else _) =
        if s.lastFocusedWinId = (s.surfaceMap.lookup focused).getD "" then _ else _
      split_ifs
      · rfl
      · rw [← tracking_updateFocus, ← tracking_updateFocus]
        rfl

end Views

/-! ## The handlers keep the invariant -/

section Kept

variable {s : State} {c : ℕ} {ch : Chrome}

theorem kept_setKeyboardFocus (h : s.tracking.Invariant) (hch : s.chromes c = some ch)
    (hlive : ch.destroyed = false) : (s.setKeyboardFocus (some c)).tracking.Invariant := by
  unfold State.setKeyboardFocus
  split_ifs
  · exact h
  · rw [tracking_onActiveFocusSurfaceChanged]
    exact h.focus_some (face_of_chrome hch) hlive

theorem kept_unfocus (h : s.tracking.Invariant) (hnone : Focusing s (.keyboardFocusChanged none)) :
    (s.setKeyboardFocus none).tracking.Invariant := by
  unfold State.setKeyboardFocus
  split_ifs
  · exact h
  · rw [tracking_onActiveFocusSurfaceChanged]
    refine h.focus_none ?_
    intro c hc f hf
    obtain ⟨ch, hch, rfl⟩ := Option.map_eq_some_iff.mp hf
    exact hnone c hc ch hch

theorem kept_takeFocus (h : s.tracking.Invariant) (c : ℕ) : (s.takeFocus c).tracking.Invariant := by
  unfold State.takeFocus
  split
  · exact h
  · next ch hch =>
      split_ifs with hdestroyed
      · exact h
      · exact kept_setKeyboardFocus h hch (Bool.eq_false_iff.mpr hdestroyed)

theorem kept_focusShell (h : s.tracking.Invariant) : s.focusShell.tracking.Invariant := by
  unfold State.focusShell
  split
  · exact h
  · exact kept_takeFocus h _

theorem kept_configured (s : State) {s' : State} (h : s'.tracking.Invariant) :
    (s.configured s').tracking.Invariant := by
  unfold State.configured
  split_ifs
  · exact h
  · exact kept_focusShell h

/-- What a chrome reports of its focus is on record already. -/
theorem tracking_reportState (h : s.tracking.Invariant) (c : ℕ) :
    (s.reportState c).tracking = s.tracking := by
  unfold State.reportState
  split
  · rfl
  · next ch hch =>
      split_ifs with hid
      · rfl
      · have hface := face_of_chrome hch
        have hwindow : ch.isShell = false :=
          Bool.eq_false_iff.mpr fun hshell => hid ((h.sound c ch.face hface).unnamed hshell)
        refine tracking_of_focused fun other => ?_
        rw [focused_updateWindowState]
        split_ifs with hother
        · subst hother
          change (s.tracking.focused ch.face.windowId).map _ = _
          cases hb : s.tracking.focused ch.face.windowId with
          | none => exact hb.symm
          | some b =>
              exact (congrArg some (h.focused_of_window hface hwindow hb).2.symm).trans hb.symm
        · rfl

theorem kept_assignMinimized (h : s.tracking.Invariant) (hch : s.chromes c = some ch)
    (minimized : Bool) :
    (s.assignMinimized c ch minimized).tracking.Invariant := by
  have hset : ∀ ch' : Chrome, ch'.face = ch.face → (s.setChrome c ch').tracking.Invariant := by
    intro ch' hface
    rw [tracking_setChrome hch hface]
    exact h
  unfold State.assignMinimized
  dsimp only
  split_ifs
  · exact h
  · exact hset _ rfl
  · have hkept :=
      kept_focusShell (hset { ch with windowMinimized := minimized, visible := !minimized } rfl)
    rw [tracking_reportState hkept]
    exact hkept
  · have hkept := hset { ch with windowMinimized := minimized, visible := !minimized } rfl
    rw [tracking_reportState hkept]
    exact hkept

theorem kept_activate (h : s.tracking.Invariant) (id : String) :
    (s.activate id).tracking.Invariant := by
  unfold State.activate
  split
  · exact h
  · next c ch hof =>
      have hkept := kept_assignMinimized h (chromes_of_chromeOf hof) false
      dsimp only
      split
      · exact hkept
      · next ch' hch' =>
          have hset : (State.setChrome _ c { ch' with visible := true }).tracking = _ :=
            tracking_setChrome hch' rfl
          exact kept_takeFocus (hset ▸ hkept) c

theorem kept_minimize (h : s.tracking.Invariant) (id : String) :
    (s.minimize id).tracking.Invariant := by
  unfold State.minimize
  split
  · exact h
  · next c ch hof => exact kept_assignMinimized h (chromes_of_chromeOf hof) true

theorem kept_createWindow (h : s.tracking.Invariant) (hnext : s.nextChrome < 2 ^ 32)
    (toplevel : Option Toplevel) : (s.createObject toplevel false).tracking.Invariant := by
  rw [tracking_createWindow]
  exact h.addWindow hnext

theorem kept_adoptToplevel (h : s.tracking.Invariant) (hnext : s.nextChrome < 2 ^ 32)
    (toplevel : Toplevel) :
    (s.adoptToplevel toplevel).tracking.Invariant := by
  unfold State.adoptToplevel
  split_ifs
  · split
    · exact h
    · rw [tracking_createShell]
      exact h.addShell
  · exact kept_createWindow h hnext _

theorem kept_promoteToShell (h : s.tracking.Invariant) (hch : s.chromes c = some ch)
    (hwindow : ch.isShell = false) : (s.promoteToShell c ch).tracking.Invariant := by
  have hface := face_of_chrome hch
  rw [tracking_promoteToShell (h.windowId_ne_empty hface hwindow)]
  exact h.promote hface hwindow

theorem kept_handleToplevelMetadataChanged (h : s.tracking.Invariant)
    (hch : s.chromes c = some ch) :
    (s.handleToplevelMetadataChanged c ch).tracking.Invariant := by
  unfold State.handleToplevelMetadataChanged
  split
  · exact h
  · split_ifs with hshell
    · exact h
    · exact kept_promoteToShell h hch (Bool.eq_false_iff.mpr hshell)
    · exact h
    · exact h
    · rw [tracking_of_focused fun id => focused_updateWindowMetadata ..]
      exact h

theorem kept_onHasContentChanged (h : s.tracking.Invariant) (hch : s.chromes c = some ch) :
    (s.onHasContentChanged c ch).tracking.Invariant := by
  unfold State.onHasContentChanged
  split_ifs with hpromote
  · exact kept_promoteToShell h hch hpromote.2.2.1
  · exact h

theorem kept_contentShown {s' : State} (h : s.tracking.Invariant)
    (hshown : s.withChrome c (fun ch => some (s.configured (s.onHasContentChanged c ch))) =
      some s') :
    s'.tracking.Invariant := by
  obtain ⟨ch, hch, hshown⟩ := Option.bind_eq_some_iff.mp hshown
  obtain rfl := Option.some.inj hshown
  exact kept_configured s (kept_onHasContentChanged h hch)

/-- **Each step** in which no window loses the focus to nothing keeps the invariant. -/
theorem kept_step {s' : State} {e : Event} (h : s.tracking.Invariant) (hfocusing : Focusing s e)
    (hstep : desktop.step s e = some s') : s'.tracking.Invariant := by
  cases e with
  | toplevelCreated toplevel =>
      obtain rfl := Option.some.inj hstep
      exact kept_configured s (kept_adoptToplevel h hfocusing toplevel)
  | wlShellSurfaceCreated =>
      obtain rfl := Option.some.inj hstep
      exact kept_createWindow h hfocusing none
  | metadataChanged c toplevel =>
      obtain ⟨t, hinner, rfl⟩ := Option.map_eq_some_iff.mp hstep
      obtain ⟨ch, hch, hinner⟩ := Option.bind_eq_some_iff.mp hinner
      split_ifs at hinner
      obtain rfl := Option.some.inj hinner
      have hset : (s.setChrome c { ch with toplevel := some toplevel }).tracking = s.tracking :=
        tracking_setChrome hch rfl
      rw [← hset] at h
      exact kept_configured s (kept_handleToplevelMetadataChanged h (Function.update_self ..))
  | reconcile c =>
      obtain ⟨t, hinner, rfl⟩ := Option.map_eq_some_iff.mp hstep
      obtain ⟨ch, hch, hinner⟩ := Option.bind_eq_some_iff.mp hinner
      obtain rfl := Option.some.inj hinner
      exact kept_configured s (kept_handleToplevelMetadataChanged h hch)
  | hasContentChanged c hasContent =>
      obtain ⟨ch, hch, hstep⟩ := Option.bind_eq_some_iff.mp hstep
      have hset : (s.setChrome c { ch with hasContent := hasContent }).tracking = s.tracking :=
        tracking_setChrome hch rfl
      rw [← hset] at h
      split_ifs at hstep
      · exact kept_contentShown (kept_takeFocus h c) hstep
      · exact kept_contentShown h hstep
  | activateRequested id =>
      obtain rfl := Option.some.inj hstep
      exact kept_activate h id
  | minimizeRequested id =>
      obtain rfl := Option.some.inj hstep
      exact kept_minimize h id
  | minimizeClicked c =>
      obtain ⟨ch, hch, hstep⟩ := Option.bind_eq_some_iff.mp hstep
      split_ifs at hstep
      obtain rfl := Option.some.inj hstep
      exact kept_assignMinimized h hch true
  | keyboardFocusChanged surface =>
      cases surface with
      | none =>
          obtain rfl := Option.some.inj hstep
          exact kept_unfocus h hfocusing
      | some c =>
          obtain ⟨ch, hch, hstep⟩ := Option.bind_eq_some_iff.mp hstep
          split_ifs at hstep with hdestroyed
          obtain rfl := Option.some.inj hstep
          exact kept_setKeyboardFocus h hch (Bool.eq_false_iff.mpr hdestroyed)
  | surfaceDestroyed c cleared =>
      obtain ⟨ch, hch, hstep⟩ := Option.bind_eq_some_iff.mp hstep
      split_ifs at hstep
      obtain rfl := Option.some.inj hstep
      have hface := face_of_chrome hch
      rw [tracking_onSurfaceDestroyed fun hwindow => h.windowId_ne_empty hface hwindow]
      exact h.close hface cleared
  | deleted c =>
      obtain ⟨ch, hch, hstep⟩ := Option.bind_eq_some_iff.mp hstep
      split_ifs at hstep with hdestroyed
      obtain rfl := Option.some.inj hstep
      rw [tracking_delete]
      exact h.delete (face_of_chrome hch) hdestroyed

end Kept

/-! ## Runs -/

section Mirror

variable {s : State}

theorem markedFocused_iff (s : State) (id : String) :
    s.MarkedFocused id ↔ s.tracking.focused id = some true :=
  Option.map_eq_some_iff.symm

theorem isWindow_iff_face (s : State) (c : ℕ) (id : String) : s.IsWindow c id ↔
    ∃ f, s.tracking.faces c = some f ∧ f.isShell = false ∧ f.destroyed = false ∧
      f.windowId = id := by
  constructor
  · rintro ⟨ch, hch, hwindow, hlive, hid⟩
    exact ⟨ch.face, face_of_chrome hch, hwindow, hlive, hid⟩
  · rintro ⟨f, hf, hwindow, hlive, hid⟩
    obtain ⟨ch, hch, rfl⟩ := Option.map_eq_some_iff.mp hf
    exact ⟨ch, hch, hwindow, hlive, hid⟩

theorem mirrors_of_invariant (h : s.tracking.Invariant) : Mirrors s := by
  have hexactly : ∀ id, s.MarkedFocused id ↔
      id ∈ s.registry.listWindowIds ∧ ∃ c, s.IsWindow c id ∧ s.activeFocusSurface = some c := by
    intro id
    rw [markedFocused_iff]
    constructor
    · intro hmarked
      have hsome : s.tracking.focused id ≠ none := by rw [hmarked]; nofun
      obtain ⟨c, f, hf, hwindow, hlive, rfl⟩ := h.registered id hsome
      have hactive := (h.sound c f hf).focused hwindow hlive
      rw [hmarked] at hactive
      refine ⟨Assoc.lookup_ne_none.mp fun hnone => hsome (congrArg (Option.map _) hnone), c, ?_, ?_⟩
      · exact (isWindow_iff_face ..).mpr ⟨f, hf, hwindow, hlive, rfl⟩
      · exact of_decide_eq_true (Option.some.inj hactive).symm
    · rintro ⟨-, c, hc, hactive⟩
      obtain ⟨f, hf, hwindow, hlive, rfl⟩ := (isWindow_iff_face ..).mp hc
      rw [(h.sound c f hf).focused hwindow hlive]
      exact congrArg some (decide_eq_true hactive)
  constructor
  · exact hexactly
  · intro id id' hid hid'
    obtain ⟨-, c, ⟨ch, hch, -, -, rfl⟩, hactive⟩ := (hexactly id).mp hid
    obtain ⟨-, c', ⟨ch', hch', -, -, rfl⟩, hactive'⟩ := (hexactly id').mp hid'
    obtain rfl := Option.some.inj (hactive.symm.trans hactive')
    exact congrArg Chrome.windowId (Option.some.inj (hch.symm.trans hch'))
  · intro hnone id hid
    obtain ⟨-, c, -, hactive⟩ := (hexactly id).mp hid
    nomatch hnone.symm.trans hactive
  · intro c ch hactive hch hshell id hid
    obtain ⟨-, c', ⟨ch', hch', hwindow, -⟩, hactive'⟩ := (hexactly id).mp hid
    obtain rfl := Option.some.inj (hactive.symm.trans hactive')
    obtain rfl := Option.some.inj (hch.symm.trans hch')
    nomatch hshell.symm.trans hwindow

theorem tracking_empty : State.empty.tracking.Invariant where
  unborn _ _ := ⟨rfl, nofun⟩
  numbered := ⟨0, numbered_zero, Or.inl rfl⟩
  sound _ _ := nofun
  registered _ h := absurd rfl h

/-- **The registry mirrors the focus** in every run in which it goes from no window to nothing. -/
theorem mirrors_of_focusing (h : desktop.ReachableWhere Focusing s) : Mirrors s := by
  refine mirrors_of_invariant (h.invariant (I := fun s => s.tracking.Invariant) ?_ ?_)
  · rintro _ rfl
    exact tracking_empty
  · intro s e s' _ hkept hfocusing hstep
    exact kept_step hkept hfocusing hstep

/-- Two windows come, the shell is adopted, and the window that is activated is minimised. -/
def sessionRun : List Event :=
  [.wlShellSurfaceCreated, .wlShellSurfaceCreated, .toplevelCreated ⟨"nira-shell", ""⟩,
    .keyboardFocusChanged none, .hasContentChanged 0 true, .activateRequested "win-2",
    .minimizeRequested "win-2", .keyboardFocusChanged (some 0)]

theorem mirrors_sessionRun :
    ∃ s, Mirrors s ∧ s.activeFocusSurface = some 0 ∧
      s.registry.listWindowIds = ["win-2", "win-1"] := by
  have hrun : (desktop.runWhere Focusing .empty sessionRun).any (fun s =>
      s.activeFocusSurface = some 0 ∧ s.registry.listWindowIds = ["win-2", "win-1"]) = true := by
    decide +kernel
  obtain ⟨s, hs, htest⟩ := Transition.System.exists_reachableWhere_of_run rfl hrun
  exact ⟨s, mirrors_of_focusing hs, of_decide_eq_true htest⟩

/-! ## The focus of a window goes to nothing -/

/-- Whatever came before, the window stays on record as focused. -/
theorem not_mirrors_of_unfocus {s' : State} {c : ℕ} {id : String} (h : Mirrors s)
    (hwindow : s.IsWindow c id)
    (hregistered : id ∈ s.registry.listWindowIds) (hactive : s.activeFocusSurface = some c)
    (hstep : desktop.step s (.keyboardFocusChanged none) = some s') : ¬ Mirrors s' := by
  obtain rfl := Option.some.inj hstep
  have hne : s.activeFocusSurface ≠ none := by rw [hactive]; nofun
  have hunfocus : s.setKeyboardFocus none = s.refocus none := if_neg hne
  intro h'
  rw [hunfocus] at h'
  exact h'.nowhere rfl id ((h.exactly id).mpr ⟨hregistered, c, hwindow, hactive⟩)

theorem not_mirrors_unfocused : ∃ s, desktop.Reachable s ∧ ¬ Mirrors s := by
  have hrun : (desktop.run .empty
      [.wlShellSurfaceCreated, .keyboardFocusChanged (some 0), .keyboardFocusChanged none]).any
        (fun s =>
        s.activeFocusSurface = none ∧
          s.registry.lookup "win-1" = some ⟨"", "", false, true⟩) = true := by
    decide +kernel
  obtain ⟨s, hs, htest⟩ := Transition.System.exists_reachable_of_run rfl hrun
  obtain ⟨hactive, hrecord⟩ := of_decide_eq_true htest
  exact ⟨s, hs, fun h => h.nowhere hactive "win-1" ⟨_, hrecord, rfl⟩⟩

end Mirror

end NiraOS.Compositor.Windows
