import NiraOS.Compositor.OnRecord

/-!
# Windows that are minimised

A window is restored by `onActivateRequested` and by nothing else: in a step that is no activation
and brings no window, each window that is there was there before and is minimised if it was
(`Stays`).  So a request to minimise it holds for as long as nobody asks for the window.
-/

namespace NiraOS.Compositor.Windows

/-- The windows that are there were there, under the same ids, and none of them is restored. -/
def Stays (s s' : State) : Prop :=
  ∀ c ch', s'.chromes c = some ch' → ch'.Live → ∃ ch, s.chromes c = some ch ∧ ch.Live ∧
    ch'.windowId = ch.windowId ∧ (ch.windowMinimized = true → ch'.windowMinimized = true)

/-- No window comes, and none is asked for. -/
def Event.Undemanding : Event → Prop
  | .toplevelCreated _ | .wlShellSurfaceCreated | .activateRequested _ => False
  | _ => True

instance decidableUndemanding : (e : Event) → Decidable e.Undemanding
  | .toplevelCreated _ | .wlShellSurfaceCreated | .activateRequested _ => isFalse id
  | .metadataChanged .. | .reconcile _ | .hasContentChanged .. | .minimizeRequested _
  | .minimizeClicked _
  | .keyboardFocusChanged _ | .surfaceDestroyed .. | .deleted _ => isTrue trivial

section Stays

variable {s s' s'' : State} {c : ℕ} {ch ch' : Chrome}

theorem Stays.refl (s : State) : Stays s s := fun _ ch hch hlive => ⟨ch, hch, hlive, rfl, id⟩

theorem Stays.trans (h : Stays s s') (h' : Stays s' s'') : Stays s s'' := by
  intro c ch'' hch'' hlive''
  obtain ⟨ch', hch', hlive', hid', hminimized'⟩ := h' c ch'' hch'' hlive''
  obtain ⟨ch, hch, hlive, hid, hminimized⟩ := h c ch' hch' hlive'
  exact ⟨ch, hch, hlive, hid'.trans hid, fun h => hminimized' (hminimized h)⟩

/-- Only the chromes are seen here. -/
theorem Stays.congr (h : Stays s s') (hchromes : s''.chromes = s'.chromes) : Stays s s'' := by
  intro c ch hch
  rw [hchromes] at hch
  exact h c ch hch

theorem Refocused.stays (h : Refocused s s') : Stays s s' := by
  intro c ch' hch' hlive
  obtain ⟨ch, b, hch, rfl⟩ := h.exists_chrome hch'
  exact ⟨ch, hch, hlive, rfl, id⟩

theorem stays_setChrome (hch : s.chromes c = some ch) (h : ch'.Live →
    ch.Live ∧ ch'.windowId = ch.windowId ∧
      (ch.windowMinimized = true → ch'.windowMinimized = true)) :
    Stays s (s.setChrome c ch') := by
  intro d other hother hlive
  by_cases hd : d = c
  · subst hd
    rw [State.chromes_setChrome_same] at hother
    obtain rfl := Option.some.inj hother
    exact ⟨ch, hch, h hlive⟩
  · rw [State.chromes_setChrome_of_ne s ch' hd] at hother
    exact ⟨other, hother, hlive, rfl, id⟩

/-! ## The handlers -/

theorem stays_assignMinimized (hch : s.chromes c = some ch) :
    Stays s (s.assignMinimized c ch true) := by
  unfold State.assignMinimized
  by_cases hsame : ch.windowMinimized = true
  · rw [if_pos hsame]
    exact .refl s
  rw [if_neg hsame]
  by_cases hshell : ch.isShell = true
  · rw [if_pos hshell]
    exact stays_setChrome hch fun hlive => absurd hshell (by simpa using hlive.1)
  · rw [if_neg hshell]
    have hset : Stays s (s.setChrome c { ch with windowMinimized := true, visible := !true }) :=
      stays_setChrome hch fun hlive => ⟨hlive, rfl, fun _ => rfl⟩
    exact (hset.trans (refocused_focusShell _).stays).congr (chromes_reportState ..)

theorem stays_promoteToShell (hch : s.chromes c = some ch) (ch' : Chrome) :
    Stays s (s.promoteToShell c ch') := by
  have hset : Stays s (s.setChrome c
      { ch' with windowId := "", isShell := true, windowMaximized := true, windowMinimized := false,
                 visible := true }) :=
    stays_setChrome hch fun hlive => nomatch hlive.1
  apply hset.congr
  unfold State.promoteToShell
  split_ifs <;> rfl

theorem stays_handleToplevelMetadataChanged (hch : s.chromes c = some ch) :
    Stays s (s.handleToplevelMetadataChanged c ch) := by
  unfold State.handleToplevelMetadataChanged
  split
  · exact .refl s
  · split_ifs
    · exact .refl s
    · exact stays_promoteToShell hch ch
    · exact .refl s
    · exact .refl s
    · exact (Stays.refl s).congr rfl

theorem stays_onHasContentChanged (hch : s.chromes c = some ch) :
    Stays s (s.onHasContentChanged c ch) := by
  unfold State.onHasContentChanged
  split_ifs
  · exact stays_promoteToShell hch ch
  · exact .refl s

theorem stays_onSurfaceDestroyed (hch : s.chromes c = some ch) (cleared : Bool) :
    Stays s (s.onSurfaceDestroyed c ch cleared) := by
  have hset : Stays s (s.setChrome c { ch with destroyed := true, hasContent := false }) :=
    stays_setChrome hch fun hlive => nomatch hlive.2
  apply hset.congr
  unfold State.onSurfaceDestroyed
  by_cases hregistered : ch.isShell = false ∧ ch.windowId ≠ ""
  · rw [if_pos hregistered]
    rfl
  · rw [if_neg hregistered]

theorem stays_delete (s : State) (c : ℕ) : Stays s (s.delete c) := by
  intro d other hother hlive
  change Function.update s.chromes c none d = some other at hother
  by_cases hd : d = c
  · subst hd
    rw [Function.update_self] at hother
    cases hother
  · rw [Function.update_of_ne hd] at hother
    exact ⟨other, hother, hlive, rfl, id⟩

theorem stays_minimize (s : State) (id : String) : Stays s (s.minimize id) := by
  unfold State.minimize
  split
  · exact .refl s
  · next c ch hof => exact stays_assignMinimized (chromes_of_chromeOf hof)

/-- **No step restores a window** that nobody has asked for. -/
theorem stays_step {e : Event} (he : e.Undemanding) (hstep : desktop.step s e = some s') :
    Stays s s' := by
  cases e with
  | toplevelCreated | wlShellSurfaceCreated | activateRequested => exact he.elim
  | metadataChanged c toplevel =>
      obtain ⟨t, hinner, rfl⟩ := Option.map_eq_some_iff.mp hstep
      obtain ⟨ch, hch, hinner⟩ := Option.bind_eq_some_iff.mp hinner
      split_ifs at hinner
      obtain rfl := Option.some.inj hinner
      have hset : Stays s (s.setChrome c { ch with toplevel := some toplevel }) :=
        stays_setChrome hch fun hlive => ⟨hlive, rfl, id⟩
      have hhandled := stays_handleToplevelMetadataChanged
        (State.chromes_setChrome_same s c { ch with toplevel := some toplevel })
      exact (hset.trans hhandled).trans (refocused_configured s _).stays
  | reconcile c =>
      obtain ⟨t, hinner, rfl⟩ := Option.map_eq_some_iff.mp hstep
      obtain ⟨ch, hch, hinner⟩ := Option.bind_eq_some_iff.mp hinner
      obtain rfl := Option.some.inj hinner
      exact (stays_handleToplevelMetadataChanged hch).trans (refocused_configured s _).stays
  | hasContentChanged c hasContent =>
      obtain ⟨ch, hch, hstep⟩ := Option.bind_eq_some_iff.mp hstep
      have hset : Stays s (s.setChrome c { ch with hasContent := hasContent }) :=
        stays_setChrome hch fun hlive => ⟨hlive, rfl, id⟩
      have hshown : ∀ {u : State}, Stays s u →
          u.withChrome c (fun ch => some (u.configured (u.onHasContentChanged c ch))) = some s' →
          Stays s s' := by
        intro u hu hstep
        obtain ⟨chrome, hchrome, hstep⟩ := Option.bind_eq_some_iff.mp hstep
        obtain rfl := Option.some.inj hstep
        exact (hu.trans (stays_onHasContentChanged hchrome)).trans (refocused_configured u _).stays
      split_ifs at hstep
      · exact hshown (hset.trans (refocused_takeFocus _ c).stays) hstep
      · exact hshown hset hstep
  | minimizeRequested id =>
      obtain rfl := Option.some.inj hstep
      exact stays_minimize s id
  | minimizeClicked c =>
      obtain ⟨ch, hch, hstep⟩ := Option.bind_eq_some_iff.mp hstep
      split_ifs at hstep
      obtain rfl := Option.some.inj hstep
      exact stays_assignMinimized hch
  | keyboardFocusChanged surface =>
      cases surface with
      | none =>
          obtain rfl := Option.some.inj hstep
          exact (refocused_setKeyboardFocus s none).stays
      | some c =>
          obtain ⟨ch, hch, hstep⟩ := Option.bind_eq_some_iff.mp hstep
          split_ifs at hstep
          obtain rfl := Option.some.inj hstep
          exact (refocused_setKeyboardFocus s (some c)).stays
  | surfaceDestroyed c cleared =>
      obtain ⟨ch, hch, hstep⟩ := Option.bind_eq_some_iff.mp hstep
      split_ifs at hstep
      obtain rfl := Option.some.inj hstep
      exact stays_onSurfaceDestroyed hch cleared
  | deleted c =>
      obtain ⟨ch, hch, hstep⟩ := Option.bind_eq_some_iff.mp hstep
      split_ifs at hstep
      obtain rfl := Option.some.inj hstep
      exact stays_delete s c

/-- **A request to minimise a window** is granted at once. -/
theorem minimized_minimize (h : s.Records) (hch : s.chromes c = some ch)
    (hwindow : ch.isShell = false)
    (hch' : (s.minimize ch.windowId).chromes c = some ch') : ch'.windowMinimized = true := by
  have hof : s.chromeOf ch.windowId = some (c, ch) := by
    unfold State.chromeOf
    rw [(h.windows c ch hch hwindow).mapped, Option.bind_some, hch]
    rfl
  unfold State.minimize at hch'
  rw [hof] at hch'
  have hflag := minimized_assignMinimized hch true c
  rw [if_pos rfl] at hflag
  exact Option.some.inj ((congrArg (Option.map Chrome.windowMinimized) hch').symm.trans hflag)

end Stays

end NiraOS.Compositor.Windows
