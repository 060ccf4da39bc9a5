import NiraOS.Compositor.Resizing
import NiraOS.Lib.Transition
import Mathlib.Algebra.Order.Ring.Rat
import Mathlib.Data.Int.Notation

/-!
# Maximised windows

What `desktop/compositor/qml/Main.qml` does with the geometry of an application window: the
maximise button, the drag by the title bar, the resize handles, and the handlers of the
compositor's own window.  A maximised window should fill `output.availableGeometry`, and restoring
it should give back the geometry from before.

```text
what changes                  what happens to a maximised window
the compositor's window       the available geometry is applied again
the available geometry        nothing
a handle is moved             it is resized, as any window
the title bar is dragged      nothing
```

The saved geometry is kept in `int` properties, so fractions are cut off.  When the output changes
its size, the available geometry and the window follow it one after the other.
-/

namespace NiraOS.Compositor.Maximising

open Resizing

/-! ## The output and the window -/

structure Output where
  outputWidth : ℤ
  outputHeight : ℤ
  applicationWorkAreaEnabled : Bool

/-- The panel's content with its padding. -/
def reservedTopEdge : ℤ := 48 + 2 * 16

def Output.availableGeometry (output : Output) : Geometry :=
  let top := if output.applicationWorkAreaEnabled then reservedTopEdge else 0
  ⟨0, top, output.outputWidth, max 200 (output.outputHeight - top)⟩

structure State where
  chrome : Geometry
  windowMaximized : Bool
  saveX : ℤ
  saveY : ℤ
  saveW : ℤ
  saveH : ℤ
  /-- The handle that is pressed, with the origin of the drag. -/
  handle : Option (Edge × Point)
  output : Output
  /-- The size of `compositorWindow`. -/
  windowWidth : ℤ
  windowHeight : ℤ
  /-- The geometry when the window was maximised last. -/
  before : Geometry

inductive Event
  /-- The button that maximises and restores. -/
  | maximiseClicked
  | titleBarDragged (x y : ℚ)
  | handlePressed (edge : Edge) (g : Point)
  | handleMoved (g : Point)
  | handleReleased
  /-- The compositor's window alone gets another size. -/
  | compositorResized (width height : ℤ)
  /-- The screen gets another size; which of its followers comes first. -/
  | outputResized (width height : ℤ) (areaFirst : Bool)
  /-- The shell is maximised, so the panel takes its strip. -/
  | workAreaEnabled

/-! ## The handlers -/

/-- A number as it is stored in an `int` property. -/
def toInt32 (value : ℚ) : ℤ := (value.num.tdiv value.den).bmod (2 ^ 32)

section Handlers

variable (s : State)

def State.applyMaximizedGeometry : State := { s with chrome := s.output.availableGeometry }

def State.onMaximiseClicked : State :=
  if s.windowMaximized then
    { s with chrome := ⟨s.saveX, s.saveY, s.saveW, s.saveH⟩, windowMaximized := false }
  else
    { s with
      saveX := toInt32 s.chrome.x
      saveY := toInt32 s.chrome.y
      saveW := toInt32 s.chrome.width
      saveH := toInt32 s.chrome.height
      windowMaximized := true
      before := s.chrome }.applyMaximizedGeometry

/-- `onWidthChanged` and `onHeightChanged` of the compositor's window. -/
def State.resizeCompositor (width height : ℤ) : State :=
  let changed := s.windowWidth ≠ width ∨ s.windowHeight ≠ height
  let s := { s with windowWidth := width, windowHeight := height }
  if changed ∧ s.windowMaximized then s.applyMaximizedGeometry else s

def Output.resize (output : Output) (width height : ℤ) : Output :=
  { output with outputWidth := width, outputHeight := height }

def Output.enableWorkArea (output : Output) : Output :=
  { output with applicationWorkAreaEnabled := true }

def State.resizeOutput (width height : ℤ) (areaFirst : Bool) : State :=
  if areaFirst then { s with output := s.output.resize width height }.resizeCompositor width height
  else { s.resizeCompositor width height with output := s.output.resize width height }

end Handlers

variable (round : ℚ → ℚ) in
/-- With some rounding of sums and differences. -/
def window : Transition.System State Event where
  init s := s.windowMaximized = false ∧ s.handle = none
  step s
    | .maximiseClicked => some s.onMaximiseClicked
    | .titleBarDragged x y =>
        -- the drag handler is enabled unless the window is maximised
        if s.windowMaximized then none
          else some { s with chrome := { s.chrome with x := x, y := y } }
    | .handlePressed edge g =>
        some { s with handle := some (edge, (onPressed s.chrome g).dragGlobal) }
    | .handleMoved g =>
        match s.handle with
        | none => none
        | some (edge, dragGlobal) =>
            let drag := onPositionChanged round edge ⟨s.chrome, dragGlobal⟩ g
            some { s with chrome := drag.chrome, handle := some (edge, drag.dragGlobal) }
    | .handleReleased => some { s with handle := none }
    | .compositorResized width height => some (s.resizeCompositor width height)
    | .outputResized width height areaFirst => some (s.resizeOutput width height areaFirst)
    | .workAreaEnabled => some { s with output := s.output.enableWorkArea }

/-! ## What should hold -/

/-- A maximised window fills the available geometry, and comes back to where it was. -/
def Exact (s : State) : Prop :=
  s.windowMaximized = true →
    s.chrome = s.output.availableGeometry ∧ s.onMaximiseClicked.chrome = s.before

/-- The geometry fits into `int` properties. -/
def Whole (g : Geometry) : Prop :=
  (toInt32 g.x : ℚ) = g.x ∧ (toInt32 g.y : ℚ) = g.y ∧ (toInt32 g.width : ℚ) = g.width ∧
    (toInt32 g.height : ℚ) = g.height

instance (g : Geometry) : Decidable (Whole g) := inferInstanceAs (Decidable (_ ∧ _))

/-- A window that is maximised has a whole geometry; while it is, no handle is moved, and the
available geometry changes only before the compositor's window does. -/
def Steady (s : State) : Event → Prop
  | .maximiseClicked => s.windowMaximized = false → Whole s.chrome
  | .handleMoved _ => s.windowMaximized = false
  | .outputResized width height areaFirst =>
      s.windowMaximized = true →
        (s.output.resize width height).availableGeometry = s.output.availableGeometry ∨
          areaFirst = true ∧ (s.windowWidth ≠ width ∨ s.windowHeight ≠ height)
  | .workAreaEnabled =>
      s.windowMaximized = true →
        s.output.enableWorkArea.availableGeometry = s.output.availableGeometry
  | _ => True

/-! ## What the handlers keep -/

section Keep

variable {s : State}

theorem exact_of_not_maximized (h : s.windowMaximized = false) : Exact s := by
  intro hmax
  nomatch h.symm.trans hmax

/-- What the window comes back to does not depend on where it is. -/
theorem exact_iff :
    Exact s ↔ (s.windowMaximized = true → s.chrome = s.output.availableGeometry ∧
      (⟨s.saveX, s.saveY, s.saveW, s.saveH⟩ : Geometry) = s.before) := by
  unfold Exact
  refine forall_congr' fun hmax => ?_
  rw [State.onMaximiseClicked, if_pos hmax]

/-- Another available geometry, applied to the window. -/
theorem Exact.apply (h : Exact s) (output : Output) (width height : ℤ) :
    Exact { s with
      chrome := output.availableGeometry, output := output, windowWidth := width,
        windowHeight := height } := by
  rw [exact_iff] at h ⊢
  exact fun hmax => ⟨rfl, (h hmax).2⟩

/-- The available geometry stays, or the window is not maximised. -/
theorem Exact.keep (h : Exact s) (output : Output) (width height : ℤ)
    (hsame : s.windowMaximized = true → output.availableGeometry = s.output.availableGeometry) :
    Exact { s with output := output, windowWidth := width, windowHeight := height } := by
  rw [exact_iff] at h ⊢
  intro hmax
  obtain ⟨hchrome, hsaved⟩ := h hmax
  exact ⟨hchrome.trans (hsame hmax).symm, hsaved⟩

theorem exact_onMaximiseClicked (hwhole : s.windowMaximized = false → Whole s.chrome) :
    Exact s.onMaximiseClicked := by
  cases hmax : s.windowMaximized with
  | true =>
      refine exact_of_not_maximized ?_
      rw [State.onMaximiseClicked, if_pos hmax]
  | false =>
      obtain ⟨hx, hy, hwidth, hheight⟩ := hwhole hmax
      rw [State.onMaximiseClicked, if_neg (by rw [hmax]; exact Bool.false_ne_true), exact_iff]
      intro _
      refine ⟨rfl, ?_⟩
      change (⟨toInt32 s.chrome.x, toInt32 s.chrome.y, toInt32 s.chrome.width,
        toInt32 s.chrome.height⟩ : Geometry) =
        s.chrome
      rw [hx, hy, hwidth, hheight]

theorem Exact.resizeCompositor (h : Exact s) (width height : ℤ) :
    Exact (s.resizeCompositor width height) := by
  unfold State.resizeCompositor
  dsimp only
  split_ifs
  · exact h.apply s.output width height
  · exact h.keep s.output width height fun _ => rfl

/-- The screen gets another size: the available geometry stays, or is applied when it has changed.
-/
theorem Exact.resizeOutput (h : Exact s) {width height : ℤ} {areaFirst : Bool}
    (hsteady : Steady s (.outputResized width height areaFirst)) :
    Exact (s.resizeOutput width height areaFirst) := by
  have hsame : s.windowMaximized = true →
    ¬ (areaFirst = true ∧ (s.windowWidth ≠ width ∨ s.windowHeight ≠ height)) →
      (s.output.resize width height).availableGeometry = s.output.availableGeometry :=
    fun hmax hlate => (hsteady hmax).resolve_right hlate
  unfold State.resizeOutput State.resizeCompositor
  cases areaFirst with
  | true =>
      rw [if_pos rfl]
      dsimp only
      split_ifs with happlied
      · exact h.apply (s.output.resize width height) width height
      · refine h.keep (s.output.resize width height) width height fun hmax => hsame hmax ?_
        exact fun hlate => happlied ⟨hlate.2, hmax⟩
  | false =>
      rw [if_neg Bool.false_ne_true]
      have hnow := fun hmax => hsame hmax fun hlate => Bool.false_ne_true hlate.1
      dsimp only
      split_ifs with happlied
      · rw [State.applyMaximizedGeometry]
        dsimp only
        rw [← hnow happlied.2]
        exact h.apply (s.output.resize width height) width height
      · exact h.keep (s.output.resize width height) width height hnow

/-- **One step.** -/
theorem Exact.step {round : ℚ → ℚ} {s' : State} {e : Event} (h : Exact s) (hsteady : Steady s e)
    (hstep : (window round).step s e = some s') :
    Exact s' := by
  cases e with
  | maximiseClicked =>
      obtain rfl := Option.some.inj hstep
      exact exact_onMaximiseClicked hsteady
  | titleBarDragged x y =>
      simp only [window] at hstep
      split_ifs at hstep with hmax
      obtain rfl := Option.some.inj hstep
      exact exact_of_not_maximized (Bool.eq_false_iff.mpr hmax)
  | handlePressed edge g =>
      obtain rfl := Option.some.inj hstep
      rw [exact_iff] at h ⊢
      exact h
  | handleMoved g =>
      simp only [window] at hstep
      split at hstep
      · nomatch hstep
      · obtain rfl := Option.some.inj hstep
        exact exact_of_not_maximized hsteady
  | handleReleased =>
      obtain rfl := Option.some.inj hstep
      rw [exact_iff] at h ⊢
      exact h
  | compositorResized width height =>
      obtain rfl := Option.some.inj hstep
      exact h.resizeCompositor width height
  | outputResized width height areaFirst =>
      obtain rfl := Option.some.inj hstep
      exact h.resizeOutput hsteady
  | workAreaEnabled =>
      obtain rfl := Option.some.inj hstep
      exact h.keep _ s.windowWidth s.windowHeight hsteady

end Keep

/-! ## Any run -/

/-- **Maximise and restore are exact** in runs in which a window is whole when it is maximised, and
no handle is moved and the available geometry does not change unnoticed while it is. -/
theorem exact_of_steady {round : ℚ → ℚ} {s : State}
    (h : (window round).ReachableWhere Steady s) : Exact s := by
  refine h.invariant (I := Exact) ?_ fun s e s' _ hs hok hstep => hs.step hok hstep
  rintro s ⟨hmax, -⟩
  exact exact_of_not_maximized hmax

/-- A window on a screen of 1280 by 720. -/
def opened : State where
  chrome := ⟨190, 60, 900, 600⟩
  windowMaximized := false
  saveX := 0
  saveY := 0
  saveW := 800
  saveH := 600
  handle := none
  output := ⟨1280, 720, true⟩
  windowWidth := 1280
  windowHeight := 720
  before := ⟨0, 0, 0, 0⟩

/-- The window is moved by its title bar and maximised. -/
theorem exact_dragged : ∃ s, (window id).ReachableWhere Steady s ∧ s.chrome = ⟨0, 80, 1280, 640⟩ ∧
    Exact s := by
  have hopened : (window id).ReachableWhere Steady opened := .init ⟨rfl, rfl⟩
  have hdragged : (window id).ReachableWhere Steady { opened with chrome := ⟨20, 40, 900, 600⟩ } :=
    hopened.step (e := .titleBarDragged 20 40) trivial rfl
  have hmaximised : (window id).ReachableWhere Steady { opened with
      chrome := ⟨20, 40, 900, 600⟩ }.onMaximiseClicked :=
    hdragged.step (e := .maximiseClicked) (fun _ => by decide +kernel) rfl
  exact ⟨_, hmaximised, by decide +kernel, exact_of_steady hmaximised⟩

/-- The maximised window is resized by its right handle. -/
theorem not_exact_resized : ¬ ∀ s, (window id).Reachable s → Exact s := by
  intro halways
  have hrun : ((window id).run opened [.maximiseClicked, .handlePressed .right ⟨1276, 300⟩,
    .handleMoved ⟨900, 300⟩]).map
      (fun s => (s.windowMaximized, s.chrome, s.output.availableGeometry)) =
      some (true, ⟨0, 80, 904, 640⟩, ⟨0, 80, 1280, 640⟩) := by
    decide +kernel
  obtain ⟨s, hs, heq⟩ := Option.map_eq_some_iff.mp hrun
  simp only [Prod.mk.injEq] at heq
  obtain ⟨hmax, hchrome, hgeometry⟩ := heq
  have hopened : (window id).Reachable opened := .init ⟨rfl, rfl⟩
  have hsame := (halways s (.run hopened hs) hmax).1
  rw [hchrome, hgeometry] at hsame
  exact absurd hsame (by decide +kernel)

end NiraOS.Compositor.Maximising
