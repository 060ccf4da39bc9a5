import NiraOS.Compositor.Windows

/-!
# The desktop

`desktop` is `compositor` with the focus that the handlers themselves give away: `takeFocus` of a
chrome that is activated, that has its first content or that becomes the shell, and of the shell
when a window is minimised.  The signal of the seat is handled inside the handler that causes it.
-/

namespace NiraOS.Compositor.Windows

/-! ## The handlers, with the focus that they give away -/

section Handlers

variable (s : State)

/-- The seat signals nothing if the surface has the focus already. -/
def State.setKeyboardFocus (surface : Option ℕ) : State :=
  if s.activeFocusSurface = surface then s else s.onActiveFocusSurfaceChanged surface

/-- A chrome whose surface is gone takes nothing. -/
def State.takeFocus (c : ℕ) : State :=
  match s.chromes c with
  | none => s
  | some ch => if ch.destroyed then s else s.setKeyboardFocus (some c)

/-- `shellChrome.takeFocus()`, if there is a shell. -/
def State.focusShell : State :=
  match s.shellChrome with
  | none => s
  | some shell => s.takeFocus shell

/-- `updateWindowState` with what the chrome itself says. -/
def State.reportState (c : ℕ) : State :=
  match s.chromes c with
  | none => s
  | some ch =>
      if ch.windowId = "" then s
      else
        { s with
          registry := (s.registry.updateWindowState ch.windowId ch.windowMinimized
            ch.isLocalFocus).1 }

/-- An assignment to `windowMinimized`, with `onWindowMinimizedChanged`. -/
def State.assignMinimized (c : ℕ) (ch : Chrome) (minimized : Bool) : State :=
  if ch.windowMinimized = minimized then s
  else if ch.isShell then s.setChrome c { ch with windowMinimized := minimized }
  else
    let s := s.setChrome c { ch with windowMinimized := minimized, visible := !minimized }
    -- the focus has moved before the chrome reports what it has of it
    let s := if minimized then s.focusShell else s
    s.reportState c

def State.activate (id : String) : State :=
  match s.chromeOf id with
  | none => s
  | some (c, ch) =>
      let s := s.assignMinimized c ch false
      match s.chromes c with
      | none => s
      | some ch => (s.setChrome c { ch with visible := true }).takeFocus c

def State.minimize (id : String) : State :=
  match s.chromeOf id with
  | none => s
  | some (c, ch) => s.assignMinimized c ch true

/-- `sendShellConfigure`, with which a handler ends that has found the shell. -/
def State.configured (s' : State) : State :=
  if s'.shellChrome = s.shellChrome then s' else s'.focusShell

end Handlers

def desktop : Transition.System State Event where
  init s := s = .empty
  step s
    | .toplevelCreated toplevel => some (s.configured (s.adoptToplevel toplevel))
    | .metadataChanged c toplevel =>
        (compositor.step s (.metadataChanged c toplevel)).map s.configured
    | .reconcile c => (compositor.step s (.reconcile c)).map s.configured
    | .hasContentChanged c hasContent => s.withChrome c fun ch =>
        if ch.destroyed then none
        else
          let s := s.setChrome c { ch with hasContent := hasContent }
          let s := if hasContent then s.takeFocus c else s
          s.withChrome c fun ch => some (s.configured (s.onHasContentChanged c ch))
    | .activateRequested id => some (s.activate id)
    | .minimizeRequested id => some (s.minimize id)
    | .minimizeClicked c => s.withChrome c fun ch =>
        if ch.isShell then none else some (s.assignMinimized c ch true)
    | .keyboardFocusChanged none => some (s.setKeyboardFocus none)
    | .keyboardFocusChanged (some c) => s.withChrome c fun ch =>
        if ch.destroyed then none else some (s.setKeyboardFocus (some c))
    | e => compositor.step s e

end NiraOS.Compositor.Windows
