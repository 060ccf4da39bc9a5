import NiraOS.Compositor.WindowManager
import NiraOS.Lib.Text
import NiraOS.Lib.Transition
import Mathlib.Algebra.Group.Nat.Defs
import Mathlib.Data.Int.Notation
import Mathlib.Logic.Function.Basic

/-!
# The compositor's windows

The chrome items of `desktop/compositor/qml/Main.qml` and the collections in which the compositor
keeps them: `__windowMap` and `__surfaceMap`, the registry of `WindowManagerDBus`, and
`shellChrome`.

A chrome is numbered by its creation, and so is its surface.  When the surface goes, the chrome is
destroyed, and it is deleted by a later pass of the event loop; until then `shellChrome` still
refers to it.  What follows the keyboard focus is an event of its own.
-/

namespace NiraOS.Compositor.Windows

structure Toplevel where
  appId : String
  title : String
  deriving DecidableEq

structure Chrome where
  /-- There is none behind a `wl_shell` surface. -/
  toplevel : Option Toplevel
  isShell : Bool
  windowId : String
  windowMaximized : Bool
  windowMinimized : Bool
  visible : Bool
  isLocalFocus : Bool
  /-- `chrome.surface.hasContent`. -/
  hasContent : Bool
  /-- The surface is gone and `destroy()` was called. -/
  destroyed : Bool

structure State where
  chromes : ℕ → Option Chrome
  nextChrome : ℕ
  /-- `__windowIdCounter`, of 32 bits. -/
  windowIdCounter : ℤ
  windowMap : List (String × ℕ)
  surfaceMap : List (ℕ × String)
  /-- `wmDBus`. -/
  registry : Registry
  shellChrome : Option ℕ
  activeFocusSurface : Option ℕ
  lastFocusedWinId : String

def State.empty : State where
  chromes _ := none
  nextChrome := 0
  windowIdCounter := 0
  windowMap := []
  surfaceMap := []
  registry := []
  shellChrome := none
  activeFocusSurface := none
  lastFocusedWinId := ""

inductive Event
  | toplevelCreated (toplevel : Toplevel)
  | wlShellSurfaceCreated
  /-- `appIdChanged` or `titleChanged`. -/
  | metadataChanged (c : ℕ) (toplevel : Toplevel)
  /-- The call that `adoptToplevel` has put off. -/
  | reconcile (c : ℕ)
  | hasContentChanged (c : ℕ) (hasContent : Bool)
  | activateRequested (id : String)
  | minimizeRequested (id : String)
  /-- The button of the title bar. -/
  | minimizeClicked (c : ℕ)
  | keyboardFocusChanged (surface : Option ℕ)
  /-- `cleared`: the view has let go of the surface before it says so. -/
  | surfaceDestroyed (c : ℕ) (cleared : Bool)
  | deleted (c : ℕ)

/-! ## Which surface is the shell -/

def isSpace (c : Char) : Bool := Text.isWhitespace c || c.toNat == 0xFEFF

/-- `trim` of a script. -/
def trim (s : String) : String :=
  String.ofList (((s.toList.dropWhile isSpace).reverse.dropWhile isSpace).reverse)

def isShellSurface : Option Toplevel → Bool
  | none => false
  | some toplevel => trim toplevel.appId = "nira-shell" || trim toplevel.title = "NiraOS Shell"

/-! ## Chromes -/

section Chromes

variable (s : State)

def State.setChrome (c : ℕ) (ch : Chrome) : State :=
  { s with chromes := Function.update s.chromes c (some ch) }

/-- `chrome.surface`. -/
def Chrome.surface (ch : Chrome) (c : ℕ) : Option ℕ := if ch.destroyed then none else some c

/-- A chrome as `createObject` makes it. -/
def Chrome.new (toplevel : Option Toplevel) (isShell : Bool) : Chrome where
  toplevel := toplevel
  isShell := isShell
  windowId := ""
  windowMaximized := false
  windowMinimized := false
  visible := true
  isLocalFocus := false
  hasContent := false
  destroyed := false

/-- The id that a counter gives to the next window. -/
def windowIdAfter (counter : ℤ) : String := "win-" ++ Int.repr (counter + 1)

/-- `createObject`, with `Component.onCompleted`. -/
def State.createObject (toplevel : Option Toplevel) (isShell : Bool) : State :=
  let c := s.nextChrome
  let ch := Chrome.new toplevel isShell
  if isShell then { s.setChrome c ch with nextChrome := c + 1 }
  else
    let windowId := windowIdAfter s.windowIdCounter
    let appId := (toplevel.map Toplevel.appId).getD ""
    let title := (toplevel.map Toplevel.title).getD ""
    { s.setChrome c { ch with windowId := windowId } with
      nextChrome := c + 1
      windowIdCounter := (s.windowIdCounter + 1).bmod (2 ^ 32)
      windowMap := Assoc.insert s.windowMap windowId c
      surfaceMap := Assoc.insert s.surfaceMap c windowId
      registry := (s.registry.registerWindow windowId title appId).1 }

def State.adoptToplevel (toplevel : Toplevel) : State :=
  if isShellSurface (some toplevel) then
    match s.shellChrome with
    | some _ => s
    | none => { s.createObject (some toplevel) true with shellChrome := some s.nextChrome }
  else s.createObject (some toplevel) false

/-- An assignment to `windowMinimized`, with `onWindowMinimizedChanged`. -/
def State.setMinimized (c : ℕ) (ch : Chrome) (minimized : Bool) : State :=
  if ch.windowMinimized = minimized then s
  else if ch.isShell then s.setChrome c { ch with windowMinimized := minimized }
  else
    let s := s.setChrome c { ch with windowMinimized := minimized, visible := !minimized }
    if ch.windowId = "" then s
    else
      { s with registry := (s.registry.updateWindowState ch.windowId minimized ch.isLocalFocus).1 }

def State.promoteToShell (c : ℕ) (ch : Chrome) : State :=
  let s :=
    if ch.windowId = "" then s
    else
      { s with
        registry := (s.registry.unregisterWindow ch.windowId).1
        windowMap := Assoc.erase s.windowMap ch.windowId
        surfaceMap := Assoc.erase s.surfaceMap c }
  { s.setChrome c
      { ch with windowId := "", isShell := true, windowMaximized := true, windowMinimized := false,
                visible := true } with
    shellChrome := some c }

def State.handleToplevelMetadataChanged (c : ℕ) (ch : Chrome) : State :=
  match ch.toplevel with
  | none => s
  | some toplevel =>
      if ch.isShell then s
      else if s.shellChrome = none ∧ isShellSurface (some toplevel) = true then
        if ch.surface c ≠ none ∧ ch.hasContent = true then s.promoteToShell c ch else s
      else if ch.windowId = "" then s
      else { s with registry :=
        (s.registry.updateWindowMetadata ch.windowId toplevel.title toplevel.appId).1 }

def State.onHasContentChanged (c : ℕ) (ch : Chrome) : State :=
  if ch.surface c ≠ none ∧ ch.hasContent = true ∧ ch.isShell = false ∧ s.shellChrome = none ∧
      isShellSurface ch.toplevel = true then
    s.promoteToShell c ch
  else s

def State.onSurfaceDestroyed (c : ℕ) (ch : Chrome) (cleared : Bool) : State :=
  let s :=
    if ch.isShell = false ∧ ch.windowId ≠ "" then
      { s with
        surfaceMap := if cleared then s.surfaceMap else Assoc.erase s.surfaceMap c
        registry := (s.registry.unregisterWindow ch.windowId).1 }
    else s
  s.setChrome c { ch with destroyed := true, hasContent := false }

/-- A property of an item type is cleared when the item is deleted. -/
def State.delete (c : ℕ) : State :=
  { s with
    chromes := Function.update s.chromes c none
    shellChrome := if s.shellChrome = some c then none else s.shellChrome }

end Chromes

/-! ## The compositor -/

section Compositor

variable (s : State)

/-- The chrome behind an id; a deleted one has no property left. -/
def State.chromeOf (id : String) : Option (ℕ × Chrome) :=
  (s.windowMap.lookup id).bind fun c => (s.chromes c).map (c, ·)

def State.onActivateRequested (id : String) : State :=
  match s.chromeOf id with
  | none => s
  | some (c, ch) =>
      let s := s.setMinimized c ch false
      match s.chromes c with
      | none => s
      | some ch => s.setChrome c { ch with visible := true }

def State.onMinimizeRequested (id : String) : State :=
  match s.chromeOf id with
  | none => s
  | some (c, ch) => s.setMinimized c ch true

/-- `updateWindowState` for a window that gains or loses the focus. -/
def State.updateFocus (id : String) (focused : Bool) : State :=
  match s.windowMap.lookup id with
  | none => s
  | some c =>
      let minimized := ((s.chromes c).map Chrome.windowMinimized).getD false
      { s with registry := (s.registry.updateWindowState id minimized focused).1 }

/-- The keyboard focus changes, and every chrome takes note of it. -/
def State.refocus (surface : Option ℕ) : State :=
  { s with
    activeFocusSurface := surface
    chromes := fun c => (s.chromes c).map fun ch =>
      { ch with isLocalFocus := surface = ch.surface c } }

def State.onActiveFocusSurfaceChanged (surface : Option ℕ) : State :=
  let s := s.refocus surface
  match surface with
  | none => s
  | some focused =>
      let newFocusedWinId := (s.surfaceMap.lookup focused).getD ""
      if s.lastFocusedWinId = newFocusedWinId then s
      else
        { (s.updateFocus s.lastFocusedWinId false).updateFocus newFocusedWinId true with
          lastFocusedWinId := newFocusedWinId }

end Compositor

/-- A chrome that is not deleted handles its signals. -/
def State.withChrome (s : State) (c : ℕ) (handle : Chrome → Option State) : Option State :=
  (s.chromes c).bind handle

def compositor : Transition.System State Event where
  init s := s = .empty
  step s
    | .toplevelCreated toplevel => some (s.adoptToplevel toplevel)
    | .wlShellSurfaceCreated => some (s.createObject none false)
    | .metadataChanged c toplevel => s.withChrome c fun ch =>
        if ch.toplevel = none then none
        else
          let ch := { ch with toplevel := some toplevel }
          some ((s.setChrome c ch).handleToplevelMetadataChanged c ch)
    | .reconcile c => s.withChrome c fun ch => some (s.handleToplevelMetadataChanged c ch)
    | .hasContentChanged c hasContent => s.withChrome c fun ch =>
        if ch.destroyed then none
        else
          let ch := { ch with hasContent := hasContent }
          some ((s.setChrome c ch).onHasContentChanged c ch)
    | .activateRequested id => some (s.onActivateRequested id)
    | .minimizeRequested id => some (s.onMinimizeRequested id)
    | .minimizeClicked c => s.withChrome c fun ch =>
        if ch.isShell then none else some (s.setMinimized c ch true)
    | .keyboardFocusChanged surface => some (s.onActiveFocusSurfaceChanged surface)
    | .surfaceDestroyed c cleared => s.withChrome c fun ch =>
        if ch.destroyed then none else some (s.onSurfaceDestroyed c ch cleared)
    | .deleted c => s.withChrome c fun ch => if ch.destroyed then some (s.delete c) else none

end NiraOS.Compositor.Windows
