import NiraOS.Lib.Transition
import Mathlib.Tactic.Common

/-!
# The compositor's context exporter

`ContextExporter` (`desktop/compositor/src/ContextExporter.cpp`) writes the app id
and the title of the active window to a file.  A setter updates memory and restarts a
single-shot timer; when the timer expires, or on `flush`, the strings are captured and
a background job writes them, unless a job is already in flight.

A job has two events of its own: it commits the file, and later its continuation runs
on the GUI thread and clears `pendingFlush_`.  Writes succeed here.

A timer that expires while a job is in flight is not started again, so what was set
meanwhile may stay out of the file for good.  `upToDate_of_exporting` gives the
condition under which that does not happen.
-/

namespace NiraOS.Compositor

/-! ## The exporter -/

/-- What `onFlushTimer` captures for `writeToDisk`. -/
structure Capture where
  appId : String
  title : String
  seat : String
  deriving DecidableEq

/-- The fields of the object `writeToDisk` writes. -/
def Capture.object (c : Capture) : List (String × String) :=
  [("app_id", c.appId), ("title", c.title), ("seat", c.seat)]

inductive FlushJob
  | writing (capture : Capture)
  /-- The file is committed, the continuation has not run. -/
  | written
  deriving DecidableEq

structure ContextExporter where
  activeAppId : String
  activeTitle : String
  seatName : String
  flushTimer : Bool
  pendingFlush : Bool
  job : Option FlushJob
  file : Option (List (String × String))
  /-- Some setter was called. -/
  called : Bool

/-- A new exporter; the file is what an earlier one left. -/
def ContextExporter.new (file : Option (List (String × String))) : ContextExporter :=
  ⟨"", "", "default", false, false, none, file, false⟩

def ContextExporter.capture (x : ContextExporter) : Capture :=
  ⟨x.activeAppId, x.activeTitle, x.seatName⟩

def ContextExporter.setActiveAppId (x : ContextExporter) (appId : String) : ContextExporter :=
  if x.activeAppId = appId then { x with called := true }
  else { x with activeAppId := appId, flushTimer := true, called := true }

def ContextExporter.setActiveTitle (x : ContextExporter) (title : String) : ContextExporter :=
  if x.activeTitle = title then { x with called := true }
  else { x with activeTitle := title, flushTimer := true, called := true }

def ContextExporter.onFlushTimer (x : ContextExporter) : ContextExporter :=
  if x.pendingFlush = true then x
  else { x with pendingFlush := true, job := some (.writing x.capture) }

/-- The timer is stopped before `onFlushTimer`: it is single-shot, and `flush` stops it. -/
def ContextExporter.flush (x : ContextExporter) : ContextExporter :=
  { x with flushTimer := false }.onFlushTimer

inductive Event
  | setActiveAppId (appId : String)
  | setActiveTitle (title : String)
  | timeout
  | flush
  | commit
  | continuation

def step (x : ContextExporter) : Event → Option ContextExporter
  | .setActiveAppId appId => some (x.setActiveAppId appId)
  | .setActiveTitle title => some (x.setActiveTitle title)
  | .timeout => if x.flushTimer = true then some x.flush else none
  | .flush => some x.flush
  | .commit =>
      match x.job with
      | some (.writing capture) => some { x with file := some capture.object, job := some .written }
      | _ => none
  | .continuation =>
      match x.job with
      | some .written => some { x with pendingFlush := false, job := none }
      | _ => none

def system : Transition.System ContextExporter Event where
  init x := ∃ file, x = .new file
  step := step

/-! ## What the file should hold -/

/-- The timer is stopped and no job is writing. -/
def ContextExporter.Quiet (x : ContextExporter) : Prop :=
  x.flushTimer = false ∧ ∀ capture, x.job ≠ some (.writing capture)

/-- A quiet exporter that was set has its app id and title in the file. -/
def ContextExporter.UpToDate (x : ContextExporter) : Prop :=
  x.Quiet → x.called = true → x.file = some x.capture.object

/-- Once the job that is writing, if any, has committed, the file holds what is in
memory now. -/
def ContextExporter.Exports (x : ContextExporter) : Prop :=
  match x.job with
  | some (.writing capture) => capture = x.capture
  | _ => x.file = some x.capture.object

/-- The steps that leave nothing behind.  A timer or `flush` that meets a job in flight
meets one that exports what is in memory.  The first setter call ever changes
something, unless the file has it anyway. -/
def Exporting (x : ContextExporter) : Event → Prop
  | .setActiveAppId appId =>
      appId = x.activeAppId → x.called = true ∨ x.flushTimer = true ∨ x.Exports
  | .setActiveTitle title =>
      title = x.activeTitle → x.called = true ∨ x.flushTimer = true ∨ x.Exports
  | .timeout | .flush => x.pendingFlush = true → x.Exports
  | .commit | .continuation => True

/-! ## No update is left behind -/

/-- The flag tells whether there is a job, and what was set is on its way.  Before the
first setter call a job writes what is in memory. -/
structure Covered (x : ContextExporter) : Prop where
  flag : x.pendingFlush = false → x.job = none
  onItsWay : x.called = true → x.flushTimer = true ∨ x.Exports
  first : x.called = false → x.pendingFlush = true → x.Exports

theorem Covered.new (file : Option (List (String × String))) : Covered (.new file) where
  flag _ := rfl
  onItsWay := nofun
  first := nofun

/-- A setter that changes something starts the timer. -/
theorem Covered.set {x : ContextExporter} (h : Covered x) (appId title : String) :
    Covered { x with
      activeAppId := appId, activeTitle := title, flushTimer := true, called := true } where
  flag := h.flag
  onItsWay _ := .inl rfl
  first := nofun

/-- A setter that changes nothing leaves the timer alone. -/
theorem Covered.keep {x : ContextExporter} (h : Covered x)
    (hfirst : x.called = true ∨ x.flushTimer = true ∨ x.Exports) :
    Covered { x with called := true } where
  flag := h.flag
  onItsWay _ := hfirst.elim h.onItsWay id
  first := nofun

theorem Covered.flush {x : ContextExporter} (h : Covered x)
    (hexports : x.pendingFlush = true → x.Exports) : Covered x.flush := by
  unfold ContextExporter.flush ContextExporter.onFlushTimer
  split_ifs with hpending
  · exact ⟨h.flag, fun _ => .inr (hexports hpending), fun _ => hexports⟩
  · exact ⟨nofun, fun _ => .inr rfl, fun _ _ => rfl⟩

theorem Covered.step {x x' : ContextExporter} {e : Event} (h : Covered x) (hok : Exporting x e)
    (hstep : step x e = some x') : Covered x' := by
  cases e with
  | setActiveAppId appId =>
      cases hstep
      unfold ContextExporter.setActiveAppId
      split_ifs with heq
      · exact h.keep (hok heq.symm)
      · exact h.set appId x.activeTitle
  | setActiveTitle title =>
      cases hstep
      unfold ContextExporter.setActiveTitle
      split_ifs with heq
      · exact h.keep (hok heq.symm)
      · exact h.set x.activeAppId title
  | timeout =>
      simp only [Compositor.step] at hstep
      split_ifs at hstep with htimer
      cases hstep
      exact h.flush hok
  | flush =>
      cases hstep
      exact h.flush hok
  | commit =>
      obtain ⟨flag, onItsWay, first⟩ := h
      rcases hjob : x.job with _ | ⟨capture⟩ | _ <;> simp only [Compositor.step, hjob] at hstep
      · cases hstep
      · cases hstep
        simp only [ContextExporter.Exports, hjob] at onItsWay first
        refine ⟨fun hflag => absurd (flag hflag) (by rw [hjob]; nofun), fun hcalled => ?_,
          fun hcalled hpending => ?_⟩
        · exact (onItsWay hcalled).imp_right fun heq => by rw [heq]; rfl
        · rw [first hcalled hpending]
          rfl
      · cases hstep
  | continuation =>
      obtain ⟨flag, onItsWay, first⟩ := h
      rcases hjob : x.job with _ | ⟨capture⟩ | _ <;> simp only [Compositor.step, hjob] at hstep
      · cases hstep
      · cases hstep
      · cases hstep
        simp only [ContextExporter.Exports, hjob] at onItsWay
        exact ⟨fun _ => rfl, onItsWay, nofun⟩

theorem Covered.upToDate {x : ContextExporter} (h : Covered x) : x.UpToDate := by
  rintro ⟨htimer, hjob⟩ hcalled
  have hexports := (h.onItsWay hcalled).resolve_left (by rw [htimer]; nofun)
  unfold ContextExporter.Exports at hexports
  split at hexports
  · next capture hwriting => exact absurd hwriting (hjob capture)
  · exact hexports

theorem covered_of_exporting {x : ContextExporter} (h : system.ReachableWhere Exporting x) :
    Covered x :=
  h.invariant (I := Covered) (by rintro _ ⟨file, rfl⟩; exact .new file)
    fun _ _ _ _ hcovered hok hstep => hcovered.step hok hstep

/-- **Nothing is left behind** in runs whose timer and `flush` never meet a job that
writes something older, and whose first setter call is not about the empty string. -/
theorem upToDate_of_exporting {x : ContextExporter} (h : system.ReachableWhere Exporting x) :
    x.UpToDate :=
  (covered_of_exporting h).upToDate

/-- One window: its app id is written and the continuation has run. -/
theorem upToDate_of_exporting_oneWindow :
    ∃ x, system.ReachableWhere Exporting x ∧ x.Quiet ∧ x.called = true ∧ x.UpToDate := by
  have hset : system.ReachableWhere Exporting _ :=
    .step (.init ⟨none, rfl⟩) (e := .setActiveAppId "terminal") nofun rfl
  have hfired := hset.step (e := Event.timeout) (by nofun) rfl
  have hcommitted := hfired.step (e := Event.commit) trivial rfl
  have hdone := hcommitted.step (e := Event.continuation) trivial rfl
  exact ⟨_, hdone, ⟨rfl, nofun⟩, rfl, upToDate_of_exporting hdone⟩

/-! ## The condition is needed -/

theorem Capture.object_injective {c c' : Capture} (h : c.object = c'.object) : c = c' := by
  obtain ⟨appId, title, seat⟩ := c
  simp only [Capture.object, List.cons.injEq, Prod.mk.injEq, true_and, and_true] at h
  obtain ⟨rfl, rfl, rfl⟩ := h
  rfl

/-- With the timer stopped and something older in the file, or on its way there, the
file is out of date at once or after the commit. -/
theorem exists_not_upToDate {x : ContextExporter} (htimer : x.flushTimer = false)
    (hcalled : x.called = true) (hexports : ¬ x.Exports) :
    ∃ es y, system.run x es = some y ∧ ¬ y.UpToDate := by
  unfold ContextExporter.Exports at hexports
  split at hexports
  · next capture hwriting =>
    have hcommit : system.step x .commit =
        some { x with file := some capture.object, job := some .written } := by
      simp only [system, step, hwriting]
    refine ⟨[.commit], _, by simp only [Transition.System.run, hcommit]; rfl, fun h => ?_⟩
    have hfile := h ⟨htimer, (by simp)⟩ hcalled
    exact hexports (Capture.object_injective (Option.some.inj hfile))
  · next hidle => exact ⟨[], x, rfl, fun h => hexports (h ⟨htimer, hidle⟩ hcalled)⟩

/-- **The condition is exact**: the first step of a run that does not meet it leads to a
state from which the file can be left out of date. -/
theorem exists_not_upToDate_of_not_exporting {x x' : ContextExporter} {e : Event}
    (h : system.ReachableWhere Exporting x) (hnot : ¬ Exporting x e) (hstep : step x e = some x') :
    ∃ es y, system.run x' es = some y ∧ ¬ y.UpToDate := by
  have hcovered := covered_of_exporting h
  -- a setter call that changes nothing and is the first one
  have hset : ¬ (x.called = true ∨ x.flushTimer = true ∨ x.Exports) →
      ∃ es y, system.run { x with called := true } es = some y ∧ ¬ y.UpToDate := by
    simp only [not_or, Bool.not_eq_true]
    rintro ⟨-, htimer, hexports⟩
    exact exists_not_upToDate htimer rfl hexports
  have hflush : ¬ (x.pendingFlush = true → x.Exports) →
      ∃ es y, system.run x.flush es = some y ∧ ¬ y.UpToDate := by
    intro hskipped
    obtain ⟨hpending, hexports⟩ := Classical.not_imp.mp hskipped
    have hcalled : x.called = true := by
      by_contra hcalled
      exact hexports (hcovered.first (by simpa using hcalled) hpending)
    rw [ContextExporter.flush, ContextExporter.onFlushTimer, if_pos hpending]
    exact exists_not_upToDate rfl hcalled hexports
  cases e with
  | setActiveAppId appId =>
      obtain ⟨heq, hfirst⟩ := Classical.not_imp.mp hnot
      simp only [step, ContextExporter.setActiveAppId, if_pos heq.symm] at hstep
      cases hstep
      exact hset hfirst
  | setActiveTitle title =>
      obtain ⟨heq, hfirst⟩ := Classical.not_imp.mp hnot
      simp only [step, ContextExporter.setActiveTitle, if_pos heq.symm] at hstep
      cases hstep
      exact hset hfirst
  | timeout =>
      simp only [step] at hstep
      split_ifs at hstep
      cases hstep
      exact hflush hnot
  | flush =>
      cases hstep
      exact hflush hnot
  | commit => exact absurd trivial hnot
  | continuation => exact absurd trivial hnot

/-- The second window becomes active while the first one is being written, and its
timer expires before that is done. -/
def overtaken : List Event :=
  [.setActiveAppId "terminal", .timeout, .setActiveAppId "files", .timeout, .commit, .continuation]

/-- Without the condition the file may be out of date for good. -/
theorem not_upToDate_overtaken : ¬ ∀ x, system.Reachable x → x.UpToDate := by
  intro halways
  have hreach := Transition.System.Reachable.run (S := system) (.init ⟨none, rfl⟩)
    (show system.run (.new none) overtaken = some _ from rfl)
  have hfile := halways _ hreach ⟨rfl, nofun⟩ rfl
  exact absurd (Capture.object_injective (Option.some.inj hfile)) (by decide)

end NiraOS.Compositor
