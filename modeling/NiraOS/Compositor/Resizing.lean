import NiraOS.Lib.ClampedWalk
import Mathlib.Algebra.Order.Ring.Rat
import Mathlib.Algebra.Order.Ring.Cast
import Mathlib.Tactic.Linarith
import Mathlib.Tactic.Ring

/-!
# Interactive resize

The `ResizeHandle` of `desktop/compositor/qml/Main.qml`: pressed at some position, it follows the
pointer.  Each move changes the geometry by how far the pointer has come since the last one, no
size falls below 200, and the origin of the drag moves along even when the size could not.

So a size is a walk that is clamped from below, along the sizes that the pointer asks for: the
size at the start and the way from the press, against the axis on the left and at the top.  The
other edge stays, and the drag ends where a single move to its end would exactly if on the way no
size was asked for that is below both 200 and the last one asked for (`endsOnly_iff`).

Coordinates are doubles, here rational numbers with a rounding after each sum and difference.  Of
the rounding all that is used is that whole numbers of at most `2 ^ 53` stay as they are, so this is
about windows and pointers at whole coordinates of at most `2 ^ 47`: then nothing is rounded on the
way, however long it is (`dragAlong_exact`).
-/

namespace NiraOS.Compositor.Resizing

open ClampedWalk

structure Geometry where
  x : ℚ
  y : ℚ
  width : ℚ
  height : ℚ
  deriving DecidableEq

structure Point where
  x : ℚ
  y : ℚ

/-! ## Rounding -/

/-- A rounding that keeps the whole numbers a double holds. -/
def KeepsWhole (round : ℚ → ℚ) : Prop := ∀ n : ℤ, |n| ≤ 2 ^ 53 → round n = n

def WholeUpTo (bound : ℤ) (q : ℚ) : Prop := ∃ n : ℤ, |n| ≤ bound ∧ q = n

namespace WholeUpTo

variable {a b : ℤ} {p q : ℚ}

theorem add (hp : WholeUpTo a p) (hq : WholeUpTo b q) : WholeUpTo (a + b) (p + q) := by
  obtain ⟨m, hm, hpm⟩ := hp
  obtain ⟨n, hn, hqn⟩ := hq
  refine ⟨m + n, le_trans (abs_add_le m n) (add_le_add hm hn), ?_⟩
  rw [hpm, hqn, Int.cast_add]

theorem sub (hp : WholeUpTo a p) (hq : WholeUpTo b q) : WholeUpTo (a + b) (p - q) := by
  obtain ⟨m, hm, hpm⟩ := hp
  obtain ⟨n, hn, hqn⟩ := hq
  refine ⟨m - n, le_trans (abs_sub m n) (add_le_add hm hn), ?_⟩
  rw [hpm, hqn, Int.cast_sub]

theorem mono (hp : WholeUpTo a p) (hle : a ≤ b) : WholeUpTo b p := by
  obtain ⟨m, hm, hpm⟩ := hp
  exact ⟨m, le_trans hm hle, hpm⟩

theorem abs_le (hp : WholeUpTo a p) : |p| ≤ a := by
  obtain ⟨m, hm, hpm⟩ := hp
  rw [hpm, ← Int.cast_abs]
  exact Int.cast_le.mpr hm

theorem round {round : ℚ → ℚ} (hp : WholeUpTo a p) (hround : KeepsWhole round) (hle : a ≤ 2 ^ 53) :
    round p = p := by
  obtain ⟨m, hm, hpm⟩ := hp
  rw [hpm]
  exact hround m (le_trans hm hle)

end WholeUpTo

/-- Each coordinate is a whole number. -/
structure Geometry.IsWhole (bound : ℤ) (chrome : Geometry) : Prop where
  x : WholeUpTo bound chrome.x
  y : WholeUpTo bound chrome.y
  width : WholeUpTo bound chrome.width
  height : WholeUpTo bound chrome.height

structure Point.IsWhole (bound : ℤ) (g : Point) : Prop where
  x : WholeUpTo bound g.x
  y : WholeUpTo bound g.y

/-! ## Edges -/

inductive Edge
  | left
  | right
  | top
  | bottom
  | topleft
  | topright
  | bottomleft
  | bottomright
  deriving DecidableEq

namespace Edge

def isLeft (edge : Edge) : Bool := edge = .left || edge = .topleft || edge = .bottomleft

def isRight (edge : Edge) : Bool := edge = .right || edge = .topright || edge = .bottomright

def isTop (edge : Edge) : Bool := edge = .top || edge = .topleft || edge = .topright

def isBottom (edge : Edge) : Bool := edge = .bottom || edge = .bottomleft || edge = .bottomright

end Edge

/-! ## The handle -/

/-- The chrome, and the origin of the drag. -/
structure Drag where
  chrome : Geometry
  dragGlobal : Point

section Handle

variable (round : ℚ → ℚ) (edge : Edge)

def onPressed (chrome : Geometry) (g : Point) : Drag := ⟨chrome, g⟩

/-- The branch of `isLeft`. -/
def resizeLeft (chrome : Geometry) (dx : ℚ) : Geometry :=
  let newW := round (chrome.width - dx)
  -- the delta is bounded before it is applied
  if newW < 200 then
    { chrome with x := round (chrome.x + round (chrome.width - 200)), width := 200 }
  else
    { chrome with x := round (chrome.x + dx), width := newW }

def resizeRight (chrome : Geometry) (dx : ℚ) : Geometry :=
  { chrome with width := max 200 (round (chrome.width + dx)) }

def resizeTop (chrome : Geometry) (dy : ℚ) : Geometry :=
  let newH := round (chrome.height - dy)
  if newH < 200 then
    { chrome with y := round (chrome.y + round (chrome.height - 200)), height := 200 }
  else
    { chrome with y := round (chrome.y + dy), height := newH }

def resizeBottom (chrome : Geometry) (dy : ℚ) : Geometry :=
  { chrome with height := max 200 (round (chrome.height + dy)) }

/-- A move of the pointer while the handle is pressed. -/
def onPositionChanged (drag : Drag) (g : Point) : Drag :=
  let dx := round (g.x - drag.dragGlobal.x)
  let dy := round (g.y - drag.dragGlobal.y)
  let chrome := if edge.isLeft then resizeLeft round drag.chrome dx else drag.chrome
  let chrome := if edge.isRight then resizeRight round chrome dx else chrome
  let chrome := if edge.isTop then resizeTop round chrome dy else chrome
  let chrome := if edge.isBottom then resizeBottom round chrome dy else chrome
  ⟨chrome, g⟩

/-- What a drag makes of a chrome. -/
def dragAlong (chrome : Geometry) (press : Point) (path : List Point) : Geometry :=
  (path.foldl (onPositionChanged round edge) (onPressed chrome press)).chrome

end Handle

/-! ## What a drag should come to -/

section Asked

variable (round : ℚ → ℚ) (edge : Edge) (start : Geometry) (press : Point)

/-- The width that the pointer asks for. -/
def askedWidth (g : Point) : ℚ :=
  if edge.isLeft then start.width - (g.x - press.x)
  else if edge.isRight then start.width + (g.x - press.x)
  else start.width

def askedHeight (g : Point) : ℚ :=
  if edge.isTop then start.height - (g.y - press.y)
  else if edge.isBottom then start.height + (g.y - press.y)
  else start.height

/-- The geometry with a size, one edge staying in each direction. -/
def place (width height : ℚ) : Geometry where
  x := if edge.isLeft then start.x + start.width - width else start.x
  y := if edge.isTop then start.y + start.height - height else start.y
  width := width
  height := height

/-- The edges opposite to those that are dragged. -/
structure OppositeStays (chrome : Geometry) : Prop where
  right : edge.isLeft = true → chrome.x + chrome.width = start.x + start.width
  left : edge.isLeft = false → chrome.x = start.x
  bottom : edge.isTop = true → chrome.y + chrome.height = start.y + start.height
  top : edge.isTop = false → chrome.y = start.y

/-- A drag to `last` on some way. -/
structure EndsOnly (path : List Point) (last : Point) : Prop where
  minimum : ∀ before, before <+: path ++ [last] →
    200 ≤ (dragAlong round edge start press before).width ∧
      200 ≤ (dragAlong round edge start press before).height
  opposite : ∀ before, before <+: path ++ [last] →
    OppositeStays edge start (dragAlong round edge start press before)
  direct : dragAlong round edge start press (path ++ [last]) =
    dragAlong round edge start press [last]

end Asked

/-! ## A drag as two walks -/

section Walks

variable {edge : Edge} {start : Geometry} {press : Point}

theorem resizeLeft_eq (chrome : Geometry) (dx : ℚ) :
    resizeLeft id chrome dx =
      { chrome with
        x := chrome.x + chrome.width - max 200 (chrome.width - dx)
        width := max 200 (chrome.width - dx) } := by
  simp only [resizeLeft, id_eq]
  split_ifs with hsmall
  · rw [max_eq_left hsmall.le, add_sub_assoc]
  · rw [max_eq_right (not_lt.mp hsmall), add_sub_assoc, sub_sub_cancel]

theorem resizeTop_eq (chrome : Geometry) (dy : ℚ) :
    resizeTop id chrome dy =
      { chrome with
        y := chrome.y + chrome.height - max 200 (chrome.height - dy)
        height := max 200 (chrome.height - dy) } := by
  simp only [resizeTop, id_eq]
  split_ifs with hsmall
  · rw [max_eq_left hsmall.le, add_sub_assoc]
  · rw [max_eq_right (not_lt.mp hsmall), add_sub_assoc, sub_sub_cancel]

variable (press) in
/-- **One move**, with no rounding, changes the sizes as asked for, down to 200. -/
theorem onPositionChanged_place {width height : ℚ} (hwidth : 200 ≤ width) (hheight : 200 ≤ height)
    (g g' : Point) :
    onPositionChanged id edge ⟨place edge start width height, g⟩ g' =
      ⟨place edge start
        (max 200 (width + (askedWidth edge start press g' - askedWidth edge start press g)))
        (max 200 (height + (askedHeight edge start press g' - askedHeight edge start press g))),
        g'⟩ := by
  -- more is asked for by a move along the axis, and on the left and at the top by one against it
  have hagainst : ∀ size before after : ℚ, size - (after - before) = size + (before - after) := by
    intro size before after
    ring
  cases edge <;>
    simp [onPositionChanged, resizeLeft_eq, resizeRight, resizeTop_eq, resizeBottom, place,
      askedWidth, askedHeight, Edge.isLeft, Edge.isRight, Edge.isTop, Edge.isBottom, hagainst,
      hwidth, hheight]

theorem place_self : place edge start start.width start.height = start := by
  simp [place]

theorem place_inj {width height width' height' : ℚ} :
    place edge start width height = place edge start width' height' ↔
      width = width' ∧ height = height' := by
  constructor
  · intro heq
    exact ⟨congrArg Geometry.width heq, congrArg Geometry.height heq⟩
  · intro heq
    rw [heq.1, heq.2]

/-- **A drag** with no rounding is a walk of the width and one of the height. -/
theorem dragAlong_eq (hwidth : 200 ≤ start.width) (hheight : 200 ≤ start.height)
    (path : List Point) :
    dragAlong id edge start press path =
      place edge start
        (clampedWalk 200 start.width start.width (path.map (askedWidth edge start press)))
        (clampedWalk 200 start.height start.height (path.map (askedHeight edge start press))) := by
  suffices h : ∀ width height g, 200 ≤ width → 200 ≤ height →
      (path.foldl (onPositionChanged id edge) ⟨place edge start width height, g⟩).chrome =
        place edge start
          (clampedWalk 200 width (askedWidth edge start press g)
            (path.map (askedWidth edge start press)))
          (clampedWalk 200 height (askedHeight edge start press g)
            (path.map (askedHeight edge start press))) by
    have hpress := h start.width start.height press hwidth hheight
    have hasked : askedWidth edge start press press = start.width ∧
        askedHeight edge start press press = start.height := by
      simp [askedWidth, askedHeight]
    rw [place_self, hasked.1, hasked.2] at hpress
    exact hpress
  induction path with
  | nil =>
      intro width height g _ _
      rfl
  | cons g' path ih =>
      intro width height g hwidth hheight
      rw [List.foldl_cons, onPositionChanged_place press hwidth hheight]
      exact ih _ _ g' (le_max_left _ _) (le_max_left _ _)

theorem oppositeStays_place (width height : ℚ) :
    OppositeStays edge start (place edge start width height) := by
  refine ⟨fun h => ?_, fun h => ?_, fun h => ?_, fun h => ?_⟩ <;> simp [place, h]

end Walks

/-! ## Whole coordinates -/

section Rounded

variable {round : ℚ → ℚ} {edge : Edge} {start : Geometry} {press : Point}

@[simp]
theorem resizeLeft_y (chrome : Geometry) (dx : ℚ) : (resizeLeft round chrome dx).y = chrome.y := by
  simp only [resizeLeft]
  split_ifs <;> rfl

@[simp]
theorem resizeLeft_height (chrome : Geometry) (dx : ℚ) :
    (resizeLeft round chrome dx).height = chrome.height := by
  simp only [resizeLeft]
  split_ifs <;> rfl

theorem resizeLeft_exact (hround : KeepsWhole round) {chrome : Geometry} {dx : ℚ}
    (hx : WholeUpTo (2 ^ 51) chrome.x) (hwidth : WholeUpTo (2 ^ 51) chrome.width)
    (hdx : WholeUpTo (2 ^ 48) dx) :
    resizeLeft round chrome dx = resizeLeft id chrome dx := by
  have hleast : WholeUpTo 200 200 := ⟨200, by decide, rfl⟩
  have hless := hwidth.sub hleast
  simp only [resizeLeft, id_eq, (hwidth.sub hdx).round hround (by decide),
    hless.round hround (by decide), (hx.add hless).round hround (by decide),
    (hx.add hdx).round hround (by decide)]

theorem resizeTop_exact (hround : KeepsWhole round) {chrome : Geometry} {dy : ℚ}
    (hy : WholeUpTo (2 ^ 51) chrome.y) (hheight : WholeUpTo (2 ^ 51) chrome.height)
    (hdy : WholeUpTo (2 ^ 48) dy) : resizeTop round chrome dy = resizeTop id chrome dy := by
  have hleast : WholeUpTo 200 200 := ⟨200, by decide, rfl⟩
  have hless := hheight.sub hleast
  simp only [resizeTop, id_eq, (hheight.sub hdy).round hround (by decide),
    hless.round hround (by decide), (hy.add hless).round hround (by decide),
    (hy.add hdy).round hround (by decide)]

theorem resizeRight_exact (hround : KeepsWhole round) {chrome : Geometry} {dx : ℚ}
    (hwidth : WholeUpTo (2 ^ 51) chrome.width) (hdx : WholeUpTo (2 ^ 48) dx) :
    resizeRight round chrome dx = resizeRight id chrome dx := by
  rw [resizeRight, resizeRight, (hwidth.add hdx).round hround (by decide), id_eq]

theorem resizeBottom_exact (hround : KeepsWhole round) {chrome : Geometry} {dy : ℚ}
    (hheight : WholeUpTo (2 ^ 51) chrome.height) (hdy : WholeUpTo (2 ^ 48) dy) :
    resizeBottom round chrome dy = resizeBottom id chrome dy := by
  rw [resizeBottom, resizeBottom, (hheight.add hdy).round hround (by decide), id_eq]

/-- No sum of one move is rounded. -/
theorem onPositionChanged_exact (hround : KeepsWhole round) {drag : Drag} {g : Point}
    (hchrome : drag.chrome.IsWhole (2 ^ 51)) (horigin : drag.dragGlobal.IsWhole (2 ^ 47))
    (hg : g.IsWhole (2 ^ 47)) :
    onPositionChanged round edge drag g = onPositionChanged id edge drag g := by
  have hdx : WholeUpTo (2 ^ 48) (g.x - drag.dragGlobal.x) := hg.x.sub horigin.x
  have hdy : WholeUpTo (2 ^ 48) (g.y - drag.dragGlobal.y) := hg.y.sub horigin.y
  have hleft := resizeLeft_exact hround hchrome.x hchrome.width hdx
  have hright := resizeRight_exact hround hchrome.width hdx
  -- a corner's second step finds `y` and the height as they were
  have htop : ∀ chrome : Geometry, chrome.y = drag.chrome.y → chrome.height = drag.chrome.height →
      resizeTop round chrome (g.y - drag.dragGlobal.y) =
        resizeTop id chrome (g.y - drag.dragGlobal.y) :=
    fun chrome hy hheight => resizeTop_exact hround (hy ▸ hchrome.y) (hheight ▸ hchrome.height) hdy
  have hbottom : ∀ chrome : Geometry, chrome.height = drag.chrome.height →
      resizeBottom round chrome (g.y - drag.dragGlobal.y) =
        resizeBottom id chrome (g.y - drag.dragGlobal.y) :=
    fun chrome hheight => resizeBottom_exact hround (hheight ▸ hchrome.height) hdy
  have hdx' : round (g.x - drag.dragGlobal.x) = g.x - drag.dragGlobal.x :=
    hdx.round hround (by decide)
  have hdy' : round (g.y - drag.dragGlobal.y) = g.y - drag.dragGlobal.y :=
    hdy.round hround (by decide)
  simp only [onPositionChanged, hdx', hdy', id_eq]
  cases edge <;>
    simp [Edge.isLeft, Edge.isRight, Edge.isTop, Edge.isBottom, hleft, hright, htop, hbottom]
  case topright => exact htop _ rfl rfl
  case bottomright => exact hbottom _ rfl

/-- A size that is ahead of the one asked for by no more than a clamp makes it. -/
def Ahead (asked value : ℚ) : Prop :=
  200 ≤ value ∧ value ≤ asked + 2 ^ 49 ∧ ∃ n : ℤ, value = n

theorem Ahead.step {asked next value : ℚ} (h : Ahead asked value)
    (hasked : WholeUpTo (3 * 2 ^ 47) asked)
    (hnext : WholeUpTo (3 * 2 ^ 47) next) : Ahead next (max 200 (value + (next - asked))) := by
  obtain ⟨hleast, hmost, n, hn⟩ := h
  obtain ⟨a, -, ha⟩ := hasked
  have hlow := (abs_le.mp hnext.abs_le).1
  obtain ⟨b, -, hb⟩ := hnext
  refine ⟨le_max_left _ _, max_le ?_ (by linarith), max 200 (n + (b - a)), ?_⟩
  · norm_num at hlow ⊢
    linarith
  · rw [hn, ha, hb]
    push_cast
    rfl

theorem Ahead.whole {asked value : ℚ} (h : Ahead asked value)
    (hasked : WholeUpTo (3 * 2 ^ 47) asked) :
    WholeUpTo (7 * 2 ^ 47) value := by
  obtain ⟨hleast, hmost, n, hn⟩ := h
  have hhigh := (abs_le.mp hasked.abs_le).2
  refine ⟨n, ?_, hn⟩
  have hle : |value| ≤ ((7 * 2 ^ 47 : ℤ) : ℚ) := by
    rw [abs_of_nonneg (by linarith)]
    norm_num at hhigh hmost ⊢
    linarith
  rw [hn, ← Int.cast_abs] at hle
  exact Int.cast_le.mp hle

theorem askedWidth_whole (hstart : start.IsWhole (2 ^ 47)) (hpress : press.IsWhole (2 ^ 47))
    {g : Point} (hg : g.IsWhole (2 ^ 47)) :
    WholeUpTo (3 * 2 ^ 47) (askedWidth edge start press g) := by
  unfold askedWidth
  split_ifs
  · exact (hstart.width.sub (hg.x.sub hpress.x)).mono (by decide)
  · exact (hstart.width.add (hg.x.sub hpress.x)).mono (by decide)
  · exact hstart.width.mono (by decide)

theorem askedHeight_whole (hstart : start.IsWhole (2 ^ 47)) (hpress : press.IsWhole (2 ^ 47))
    {g : Point} (hg : g.IsWhole (2 ^ 47)) :
    WholeUpTo (3 * 2 ^ 47) (askedHeight edge start press g) := by
  unfold askedHeight
  split_ifs
  · exact (hstart.height.sub (hg.y.sub hpress.y)).mono (by decide)
  · exact (hstart.height.add (hg.y.sub hpress.y)).mono (by decide)
  · exact hstart.height.mono (by decide)

theorem place_whole (hstart : start.IsWhole (2 ^ 47)) {width height : ℚ}
    (hwidth : WholeUpTo (7 * 2 ^ 47) width) (hheight : WholeUpTo (7 * 2 ^ 47) height) :
    (place edge start width height).IsWhole (2 ^ 51) := by
  refine ⟨?_, ?_, hwidth.mono (by decide), hheight.mono (by decide)⟩ <;> dsimp only [place] <;>
    split_ifs
  · exact ((hstart.x.add hstart.width).sub hwidth).mono (by decide)
  · exact hstart.x.mono (by decide)
  · exact ((hstart.y.add hstart.height).sub hheight).mono (by decide)
  · exact hstart.y.mono (by decide)

/-- **A drag** along whole coordinates comes out as with no rounding. -/
theorem dragAlong_exact (hround : KeepsWhole round) (hwidth : 200 ≤ start.width)
    (hheight : 200 ≤ start.height) (hstart : start.IsWhole (2 ^ 47))
    (hpress : press.IsWhole (2 ^ 47)) {path : List Point} (hpath : ∀ g ∈ path, g.IsWhole (2 ^ 47)) :
    dragAlong round edge start press path = dragAlong id edge start press path := by
  -- the size is ahead of the one asked for by less than one clamp would make it, for however long
  suffices h : ∀ width height g, g.IsWhole (2 ^ 47) → Ahead (askedWidth edge start press g) width →
      Ahead (askedHeight edge start press g) height →
      path.foldl (onPositionChanged round edge) ⟨place edge start width height, g⟩ =
        path.foldl (onPositionChanged id edge) ⟨place edge start width height, g⟩ by
    obtain ⟨w, -, hw⟩ := hstart.width
    obtain ⟨v, -, hv⟩ := hstart.height
    have hbegin := h start.width start.height press hpress
      ⟨hwidth, by simp [askedWidth], w, hw⟩ ⟨hheight, by simp [askedHeight], v, hv⟩
    rw [place_self] at hbegin
    exact congrArg Drag.chrome hbegin
  induction path with
  | nil =>
      intro width height g _ _ _
      rfl
  | cons g' path ih =>
      intro width height g hg haheadW haheadH
      have hg' := hpath g' List.mem_cons_self
      have hw : WholeUpTo (3 * 2 ^ 47) (askedWidth edge start press g) :=
        askedWidth_whole hstart hpress hg
      have hh : WholeUpTo (3 * 2 ^ 47) (askedHeight edge start press g) :=
        askedHeight_whole hstart hpress hg
      have hchrome : (place edge start width height).IsWhole (2 ^ 51) :=
        place_whole hstart (haheadW.whole hw) (haheadH.whole hh)
      rw [List.foldl_cons, List.foldl_cons, onPositionChanged_exact hround hchrome hg hg',
        onPositionChanged_place press haheadW.1 haheadH.1]
      exact ih (fun g hmem => hpath g (List.mem_cons_of_mem _ hmem)) _ _ g' hg'
        (haheadW.step hw (askedWidth_whole hstart hpress hg'))
        (haheadH.step hh (askedHeight_whole hstart hpress hg'))

end Rounded

/-! ## Which drags depend on their end only -/

/-- **A drag** along whole coordinates depends on where the pointer ends only if and only if on the
way no size is asked for that is below both 200 and what is asked for at the end. -/
theorem endsOnly_iff {round : ℚ → ℚ} (hround : KeepsWhole round) (edge : Edge) {start : Geometry}
    {press : Point} {path : List Point} {last : Point} (hstart : start.IsWhole (2 ^ 47))
    (hpress : press.IsWhole (2 ^ 47)) (hpath : ∀ g ∈ path ++ [last], g.IsWhole (2 ^ 47))
    (hwidth : 200 ≤ start.width) (hheight : 200 ≤ start.height) :
    EndsOnly round edge start press path last ↔ ∀ g ∈ path,
      min 200 (askedWidth edge start press last) ≤ askedWidth edge start press g ∧
        min 200 (askedHeight edge start press last) ≤ askedHeight edge start press g := by
  have hplace : ∀ before : List Point, (∀ g ∈ before, g ∈ path ++ [last]) →
      dragAlong round edge start press before = _ := fun before hsub =>
    (dragAlong_exact hround hwidth hheight hstart hpress fun g hg => hpath g (hsub g hg)).trans
      (dragAlong_eq hwidth hheight before)
  have hone : ∀ asked next : ℚ, clampedWalk 200 asked asked [next] = max 200 next := by
    intro asked next
    rw [clampedWalk, clampedWalk, add_sub_cancel]
  have hdirect : dragAlong round edge start press (path ++ [last]) =
        dragAlong round edge start press [last] ↔
      ∀ g ∈ path, min 200 (askedWidth edge start press last) ≤ askedWidth edge start press g ∧
        min 200 (askedHeight edge start press last) ≤ askedHeight edge start press g := by
    have hlist : ∀ asked : Point → ℚ,
        (path ++ [last]).map asked = path.map asked ++ [asked last] := by
      intro asked
      rw [List.map_append, List.map_singleton]
    rw [hplace _ fun _ hg => hg, hplace [last] fun _ hg => List.mem_append_right _ hg, place_inj,
      List.map_singleton, List.map_singleton, hone, hone, hlist, hlist, clampedWalk_concat_eq_iff,
      clampedWalk_concat_eq_iff, List.forall_mem_map, List.forall_mem_map]
    exact ⟨fun h g hg => ⟨h.1 g hg, h.2 g hg⟩,
      fun h => ⟨fun g hg => (h g hg).1, fun g hg => (h g hg).2⟩⟩
  rw [← hdirect]
  refine ⟨fun h => h.direct, fun h => ⟨fun before hbefore => ?_, fun before hbefore => ?_, h⟩⟩
  · rw [hplace before fun _ hg => hbefore.subset hg]
    exact ⟨low_le_clampedWalk hwidth, low_le_clampedWalk hheight⟩
  · rw [hplace before fun _ hg => hbefore.subset hg]
    exact oppositeStays_place _ _

/-- A window of 300 by 250. -/
def small : Geometry := ⟨100, 100, 300, 250⟩

theorem whole_ofNat {n : ℕ} (h : n ≤ 2 ^ 47) : WholeUpTo (2 ^ 47) n :=
  ⟨n, by rw [Nat.abs_cast]; exact_mod_cast h, rfl⟩

/-- The corner is dragged out and back a little. -/
theorem endsOnly_outAndBack :
    EndsOnly id .bottomright small ⟨400, 350⟩ [⟨460, 380⟩, ⟨420, 390⟩] ⟨430, 360⟩ := by
  have hwhole : ∀ n : ℕ, n ≤ 2 ^ 47 → WholeUpTo (2 ^ 47) n := fun _ => whole_ofNat
  have hpath : ∀ g ∈ [(⟨460, 380⟩ : Point), ⟨420, 390⟩] ++ [⟨430, 360⟩], g.IsWhole (2 ^ 47) := by
    simp only [List.cons_append, List.nil_append, List.forall_mem_cons]
    exact ⟨⟨hwhole 460 (by decide), hwhole 380 (by decide)⟩,
      ⟨hwhole 420 (by decide), hwhole 390 (by decide)⟩,
      ⟨hwhole 430 (by decide), hwhole 360 (by decide)⟩, fun _ h => absurd h List.not_mem_nil⟩
  rw [endsOnly_iff (fun n _ => rfl) .bottomright
    ⟨hwhole 100 (by decide), hwhole 100 (by decide), hwhole 300 (by decide), hwhole 250 (by decide)⟩
    ⟨hwhole 400 (by decide), hwhole 350 (by decide)⟩ hpath (by decide +kernel) (by decide +kernel)]
  decide +kernel

/-- The left edge is dragged far to the right and back to where it was: the window has grown. -/
theorem not_endsOnly_thereAndBack :
    ¬ ∀ round edge start press path last, KeepsWhole round → 200 ≤ start.width →
      200 ≤ start.height →
      EndsOnly round edge start press path last := by
  intro halways
  have hends := halways id .left small ⟨100, 200⟩ [⟨350, 200⟩] ⟨100, 200⟩ (fun n _ => rfl)
    (by decide +kernel) (by decide +kernel)
  have hback : dragAlong id .left small ⟨100, 200⟩ ([⟨350, 200⟩] ++ [⟨100, 200⟩]) =
      ⟨-50, 100, 450, 250⟩ := by
    decide +kernel
  have hstill : dragAlong id .left small ⟨100, 200⟩ [⟨100, 200⟩] = small := by decide +kernel
  have hsame := hends.direct
  rw [hback, hstill] at hsame
  exact absurd hsame (by decide +kernel)

end NiraOS.Compositor.Resizing
