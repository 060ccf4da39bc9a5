import NiraOS.Compositor.Minimising
import NiraOS.Shell.TaskbarConvergence

/-!
# The windows, seen from the taskbar

The compositor and the taskbar, joined by the registry and by the calls that the taskbar makes:

  windows  — `OnRecord` →  registry  — signals, replies →  rows
     ↑                                                       |
     `ActivateWindow`, `MinimizeWindow`, `CloseWindow`  ←————

`Truthful` is about the first arrow and `Converged` about the second, so that the rows are the
windows (`shows_of_settling`).  `onActivated` of `Meta+D` in `desktop/shell/qml/Main.qml` relies on
that: it asks for every row to be minimised, and what is not in a row stays where it is.

Which operations of the registry a handler of the compositor calls comes with the event; whichever
they are, they lead from the registry before to the registry after it.
-/

namespace NiraOS.Shell.Taskbar

open Compositor

/-! ## What the taskbar asks for -/

/-- A call that the taskbar sends and does not wait for. -/
inductive Request
  | activateWindow (id : String)
  | minimizeWindow (id : String)
  | closeWindow (id : String)

namespace TaskbarModel

variable (m : TaskbarModel)

/-- The calls of a slot that begins with the check of its row. -/
def onRow (row : ℤ) (request : String × WindowRecord → Request) : List Request :=
  if row < 0 then []
  else (m.windows[row.toNat]?.map request).toList

def activate (row : ℤ) : List Request := m.onRow row fun window => .activateWindow window.1

def minimize (row : ℤ) : List Request := m.onRow row fun window => .minimizeWindow window.1

def toggle (row : ℤ) : List Request := m.onRow row fun window =>
  if window.2.minimized = false ∧ window.1 = m.lastFocusedWindowId then .minimizeWindow window.1
  else .activateWindow window.1

def close (row : ℤ) : List Request := m.onRow row fun window => .closeWindow window.1

/-- `Meta+D`, for the rows from the first to the last. -/
def showDesktop : List Request :=
  (List.range m.windows.length).flatMap fun (i : ℕ) => m.minimize (i : ℤ)

theorem mem_showDesktop {window : String × WindowRecord} (h : window ∈ m.windows) :
    .minimizeWindow window.1 ∈ m.showDesktop := by
  obtain ⟨i, hi, rfl⟩ := List.mem_iff_getElem.mp h
  refine List.mem_flatMap.mpr ⟨i, List.mem_range.mpr hi, ?_⟩
  have hrow : ¬ (i : ℤ) < 0 := by omega
  rw [minimize, onRow, if_neg hrow, Int.toNat_natCast, List.getElem?_eq_getElem hi]
  exact List.mem_singleton_self _

theorem showDesktop_minimizes {request : Request} (h : request ∈ m.showDesktop) :
    ∃ id, request = .minimizeWindow id := by
  obtain ⟨i, -, hi⟩ := List.mem_flatMap.mp h
  unfold minimize onRow at hi
  split_ifs at hi
  · cases hi
  · obtain ⟨window, -, rfl⟩ := Option.map_eq_some_iff.mp (Option.mem_toList.mp hi)
    exact ⟨window.1, rfl⟩

end TaskbarModel

/-- An operation of the registry. -/
def Event.IsOperation : Event → Bool
  | .registerWindow .. | .unregisterWindow _ | .updateWindowMetadata ..
  | .updateWindowState .. => true
  | .serveList | .serveDetail .. | .deliver => false

theorem registry_of_not_isOperation {s s' : State} {e : Event} (h : e.IsOperation = false)
    (hstep : system.step s e = some s') : s'.registry = s.registry ∧ Undisturbed s e := by
  cases e with
  | registerWindow | unregisterWindow | updateWindowMetadata | updateWindowState => cases h
  | serveList =>
      simp only [system, step] at hstep
      cases hlisted : s.listed with
      | none =>
          rw [hlisted] at hstep
          obtain rfl := Option.some.inj hstep
          exact ⟨rfl, trivial⟩
      | some ids =>
          rw [hlisted] at hstep
          cases hstep
  | serveDetail id field =>
      simp only [system, step] at hstep
      split_ifs at hstep
      obtain rfl := Option.some.inj hstep
      exact ⟨rfl, trivial⟩
  | deliver =>
      simp only [system, step] at hstep
      cases hinbox : s.inbox with
      | nil =>
          rw [hinbox] at hstep
          cases hstep
      | cons message rest =>
          rw [hinbox] at hstep
          obtain rfl := Option.some.inj hstep
          exact ⟨rfl, trivial⟩

/-- Once everything is delivered no window is being asked for, and each row is what is on record. -/
theorem lookup_of_allDelivered {s : State} (h : system.ReachableWhere Undisturbed s)
    (hdone : s.AllDelivered) :
    (Assoc.keys s.taskbar.windows).Nodup ∧
    ∀ id, s.taskbar.windows.lookup id = s.registry.lookup id := by
  have hsettled := settled_of_undisturbed h
  rw [State.settle_of_allDelivered hdone] at hsettled
  refine ⟨hsettled.distinct, fun id => (hsettled.tracks id).followed hdone.1 ?_⟩
  intro hseeding
  obtain ⟨record, data, hpending⟩ := (hsettled.tracks id).seeding hseeding
  have houtstanding := hpending.outstanding
  rw [hdone.2.1, List.countP_nil] at houtstanding
  have hfour := hpending.four
  have hmore := hseeding.2
  omega

end NiraOS.Shell.Taskbar

namespace NiraOS.Shell.WindowList

open Compositor Compositor.Windows
open Taskbar (Request)

/-! ## Both ends, and the calls between them -/

structure State where
  compositor : Windows.State
  bus : Taskbar.State
  /-- The calls that the compositor has not handled. -/
  requests : List Request

inductive Event
  /-- The compositor handles an event, and calls these operations of its registry. -/
  | compositor (e : Windows.Event) (operations : List Taskbar.Event)
  /-- The compositor handles the first of the calls. -/
  | serve (operations : List Taskbar.Event)
  /-- Something is served or delivered. -/
  | bus (e : Taskbar.Event)
  | activate (row : ℤ)
  | minimize (row : ℤ)
  | toggle (row : ℤ)
  | close (row : ℤ)
  | showDesktop

/-- What a call is for the compositor; a client is only asked to close. -/
def event : Request → Option Windows.Event
  | .activateWindow id => some (.activateRequested id)
  | .minimizeWindow id => some (.minimizeRequested id)
  | .closeWindow _ => none

def State.handle (s : State) (e : Windows.Event) (operations : List Taskbar.Event) : Option State :=
  if operations.all Taskbar.Event.IsOperation then
    (desktop.step s.compositor e).bind fun compositor =>
      (Taskbar.system.run s.bus operations).bind fun bus =>
        if bus.registry = compositor.registry
          then some { s with compositor := compositor, bus := bus } else none
  else none

def State.request (s : State) (requests : List Request) : State :=
  { s with requests := s.requests ++ requests }

def step (s : State) : Event → Option State
  | .compositor e operations => s.handle e operations
  | .serve operations =>
      match s.requests with
      | [] => none
      | request :: rest =>
          let s := { s with requests := rest }
          match event request with
          | some e => s.handle e operations
          | none => some s
  | .bus e =>
      if e.IsOperation then none else (Taskbar.system.step s.bus e).map fun bus =>
        { s with bus := bus }
  | .activate row => some (s.request (s.bus.taskbar.activate row))
  | .minimize row => some (s.request (s.bus.taskbar.minimize row))
  | .toggle row => some (s.request (s.bus.taskbar.toggle row))
  | .close row => some (s.request (s.bus.taskbar.close row))
  | .showDesktop => some (s.request s.bus.taskbar.showDesktop)

/-- The taskbar starts while the compositor runs. -/
def session : Transition.System State Event where
  init s :=
    desktop.ReachableWhere Focusing s.compositor ∧ s.bus = .initial s.compositor.registry ∧
      s.requests = []
  step := step

/-! ## What is asked of a run -/

/-- The operations do not disturb the windows whose details are on their way. -/
def Calm (bus : Taskbar.State) (operations : List Taskbar.Event) : Prop :=
  (Taskbar.system.runWhere Taskbar.Undisturbed bus operations).isSome

instance decidableCalm (bus : Taskbar.State) (operations : List Taskbar.Event) :
    Decidable (Calm bus operations) :=
  inferInstanceAs (Decidable (_ = true))

def Settling (s : State) : Event → Prop
  | .compositor e operations => Focusing s.compositor e ∧ Calm s.bus operations
  | .serve operations => Calm s.bus operations
  | _ => True

instance decidableSettling (s : State) : (e : Event) → Decidable (Settling s e)
  | .compositor e operations =>
      inferInstanceAs (Decidable (Focusing s.compositor e ∧ Calm s.bus operations))
  | .serve operations => inferInstanceAs (Decidable (Calm s.bus operations))
  | .bus _ | .activate _ | .minimize _ | .toggle _ | .close _ | .showDesktop => isTrue trivial

/-! ## Both ends agree on the registry -/

structure Joined (s : State) : Prop where
  compositor : desktop.ReachableWhere Focusing s.compositor
  bus : Taskbar.system.ReachableWhere Taskbar.Undisturbed s.bus
  registry : s.bus.registry = s.compositor.registry

section Joined

variable {s s' : State} {e : Event}

theorem handle_eq_some {e : Windows.Event} {operations : List Taskbar.Event}
    (h : s.handle e operations = some s') :
    desktop.step s.compositor e = some s'.compositor ∧
    Taskbar.system.run s.bus operations = some s'.bus ∧
      s'.bus.registry = s'.compositor.registry ∧ s'.requests = s.requests := by
  unfold State.handle at h
  split_ifs at h
  obtain ⟨compositor, hcompositor, h⟩ := Option.bind_eq_some_iff.mp h
  obtain ⟨bus, hbus, h⟩ := Option.bind_eq_some_iff.mp h
  split_ifs at h with hregistry
  obtain rfl := Option.some.inj h
  exact ⟨hcompositor, hbus, hregistry, rfl⟩

theorem Joined.handle {e : Windows.Event} {operations : List Taskbar.Event} (h : Joined s)
    (hfocusing : Focusing s.compositor e) (hcalm : Calm s.bus operations)
    (hstep : s.handle e operations = some s') :
    Joined s' := by
  obtain ⟨hcompositor, hbus, hregistry, -⟩ := handle_eq_some hstep
  obtain ⟨bus, hwhere⟩ := Option.isSome_iff_exists.mp hcalm
  have hsame := Transition.System.run_of_runWhere hwhere
  obtain rfl := Option.some.inj (hbus.symm.trans hsame)
  exact ⟨h.compositor.step hfocusing hcompositor, h.bus.runWhere hwhere, hregistry⟩

theorem focusing_event {request : Request} {e : Windows.Event} (h : event request = some e)
    (s : Windows.State) :
    Focusing s e := by
  cases request with
  | activateWindow | minimizeWindow => obtain rfl := Option.some.inj h; exact trivial
  | closeWindow => cases h

theorem Joined.step (h : Joined s) (hok : Settling s e) (hstep : session.step s e = some s') :
    Joined s' := by
  cases e with
  | compositor e operations => exact h.handle hok.1 hok.2 hstep
  | serve operations =>
      change (match s.requests with | [] => none | request :: rest => _) = some s' at hstep
      split at hstep
      · cases hstep
      · next request rest _ =>
          have hrest : Joined { s with requests := rest } := ⟨h.compositor, h.bus, h.registry⟩
          dsimp only at hstep
          split at hstep
          · next e he => exact hrest.handle (focusing_event he _) hok hstep
          · obtain rfl := Option.some.inj hstep
            exact hrest
  | bus e =>
      change (if e.IsOperation then none else _) = some s' at hstep
      split_ifs at hstep with he
      obtain ⟨bus, hbus, rfl⟩ := Option.map_eq_some_iff.mp hstep
      obtain ⟨hregistry, hundisturbed⟩ :=
        Taskbar.registry_of_not_isOperation (Bool.eq_false_iff.mpr he) hbus
      exact ⟨h.compositor, h.bus.step hundisturbed hbus, hregistry.trans h.registry⟩
  | activate | minimize | toggle | close | showDesktop =>
      obtain rfl := Option.some.inj hstep
      exact ⟨h.compositor, h.bus, h.registry⟩

theorem joined_of_settling (h : session.ReachableWhere Settling s) : Joined s := by
  refine h.invariant (I := Joined) ?_ fun s e s' _ hs hok hstep => hs.step hok hstep
  intro s hinit
  obtain ⟨hcompositor, hbus, -⟩ := hinit
  refine ⟨hcompositor, ?_, ?_⟩
  · rw [hbus]
    obtain ⟨ht, hrecords⟩ := recorded_of_focusing hcompositor
    exact .init ⟨_, (truthful_of_records ht hrecords).distinct, rfl⟩
  · rw [hbus]
    rfl

end Joined

/-! ## The rows are the windows -/

/-- **The taskbar shows** the windows that are there, each in one row, as they are. -/
structure Shows (s : State) : Prop where
  distinct : (Assoc.keys s.bus.taskbar.windows).Nodup
  sound : ∀ row ∈ s.bus.taskbar.windows, ∃ c ch, s.compositor.chromes c = some ch ∧ ch.Live ∧
    ch.windowId = row.1 ∧ s.compositor.OnRecord c ch row.2
  complete : ∀ c ch, s.compositor.chromes c = some ch → ch.Live →
    ∃ record, (ch.windowId, record) ∈ s.bus.taskbar.windows ∧ s.compositor.OnRecord c ch record

theorem Joined.shows {s : State} (h : Joined s) (hdone : s.bus.AllDelivered) : Shows s := by
  obtain ⟨ht, hrecords⟩ := recorded_of_focusing h.compositor
  have htruthful := truthful_of_records ht hrecords
  obtain ⟨hdistinct, hrows⟩ := Taskbar.lookup_of_allDelivered h.bus hdone
  have hrow : ∀ id record, (id, record) ∈ s.bus.taskbar.windows ↔
      s.compositor.registry.lookup id = some record := by
    intro id record
    rw [Assoc.mem_iff_lookup hdistinct, hrows, h.registry]
  refine ⟨hdistinct, ?_, ?_⟩
  · intro row hmem
    exact htruthful.sound row.1 row.2 ((hrow row.1 row.2).mp hmem)
  · intro c ch hch hlive
    obtain ⟨record, hrecord, honRecord⟩ := htruthful.complete c ch hch hlive
    exact ⟨record, (hrow _ _).mpr hrecord, honRecord⟩

/-- **What the taskbar shows** once everything is delivered, however the compositor and the taskbar
took turns. -/
theorem shows_of_settling {s : State} (h : session.ReachableWhere Settling s)
    (hdone : s.bus.AllDelivered) :
    Shows s :=
  (joined_of_settling h).shows hdone

/-- A window is there before the taskbar is, another one comes while the details of the first are
under way, and the first is given the focus. -/
def startingRun : List Event :=
  [.bus .serveList, .compositor (.toplevelCreated ⟨"notepad", "Untitled"⟩)
    [.registerWindow "win-2" "Untitled" "notepad"],
    .bus .deliver, .bus (.serveDetail "win-1" .title), .bus (.serveDetail "win-1" .focused),
      .bus .deliver,
    .bus (.serveDetail "win-1" .minimized), .bus (.serveDetail "win-1" .appId), .bus .deliver,
      .bus .deliver,
    .bus .deliver, .bus .deliver,
      .compositor (.keyboardFocusChanged (some 0)) [.updateWindowState "win-1" false true],
    .bus .deliver]

def startedCompositor : Windows.State := State.empty.createObject (some ⟨"files", "Home"⟩) false

theorem startedCompositor_focusing : desktop.ReachableWhere Focusing startedCompositor :=
  .step (.init rfl) (e := .toplevelCreated ⟨"files", "Home"⟩) (by decide) rfl

theorem exists_started : ∃ s, session.ReachableWhere Settling s ∧ s.bus.AllDelivered ∧
    s.requests = [] ∧
    session.runWhere Settling ⟨startedCompositor, .initial startedCompositor.registry,
      []⟩ startingRun = some s ∧
      s.bus.taskbar.windows =
        [("win-2", ⟨"Untitled", "notepad", false, false⟩),
        ("win-1", ⟨"Home", "files", false, true⟩)] := by
  have hrun : (session.runWhere Settling ⟨startedCompositor,
    .initial startedCompositor.registry, []⟩
      startingRun).map (fun s =>
        ((s.bus.listed, s.requests.isEmpty), s.bus.calls.isEmpty, s.bus.inbox.isEmpty,
        s.bus.taskbar.windows)) = some ((some ["win-1"], true), true, true,
          [("win-2", ⟨"Untitled", "notepad", false, false⟩),
            ("win-1", ⟨"Home", "files", false, true⟩)]) := by
    decide +kernel
  obtain ⟨s, hs, hsummary⟩ := Option.map_eq_some_iff.mp hrun
  simp only [Prod.mk.injEq, List.isEmpty_iff] at hsummary
  obtain ⟨⟨hlisted, hrequests⟩, hcalls, hinbox, hwindows⟩ := hsummary
  have hdone : s.bus.AllDelivered := ⟨by rw [hlisted]; nofun, hcalls, hinbox⟩
  exact ⟨s, .runWhere (.init ⟨startedCompositor_focusing, rfl, rfl⟩) hs, hdone, hrequests,
    hs, hwindows⟩

theorem shows_startingRun : ∃ s, Shows s ∧ s.bus.taskbar.windows =
    [("win-2", ⟨"Untitled", "notepad", false, false⟩),
      ("win-1", ⟨"Home", "files", false, true⟩)] := by
  obtain ⟨s, hs, hdone, -, -, hwindows⟩ := exists_started
  exact ⟨s, shows_of_settling hs hdone, hwindows⟩

/-! ## The desktop is shown -/

/-- No window comes, and none is asked for. -/
def Undemanding : Event → Prop
  | .compositor e _ => e.Undemanding
  | .activate _ | .toggle _ => False
  | _ => True

instance decidableUndemanding : (e : Event) → Decidable (Undemanding e)
  | .compositor e _ => inferInstanceAs (Decidable e.Undemanding)
  | .activate _ | .toggle _ => isFalse id
  | .serve _ | .bus _ | .minimize _ | .close _ | .showDesktop => isTrue trivial

/-- Each window is minimised, or will be. -/
structure Hiding (s : State) : Prop where
  joined : Joined s
  unasked : ∀ id, .activateWindow id ∉ s.requests
  asked : ∀ c ch, s.compositor.chromes c = some ch → ch.Live →
    ch.windowMinimized = true ∨ .minimizeWindow ch.windowId ∈ s.requests

section Hiding

variable {s s' : State} {e : Event}

/-- The windows stay, and the requests that are still there. -/
theorem Hiding.of_stays (h : Hiding s) (hjoined : Joined s') (hrequests : s'.requests = s.requests)
    (hstays : Stays s.compositor s'.compositor) : Hiding s' where
  joined := hjoined
  unasked id := by
    rw [hrequests]
    exact h.unasked id
  asked c ch' hch' hlive' := by
    obtain ⟨ch, hch, hlive, hid, hminimized⟩ := hstays c ch' hch' hlive'
    rw [hrequests, hid]
    exact (h.asked c ch hch hlive).imp_left hminimized

/-- More requests to minimise windows do no harm. -/
theorem Hiding.request (h : Hiding s) {requests : List Request}
    (hnone : ∀ id, .activateWindow id ∉ requests) :
    Hiding (s.request requests) where
  joined := ⟨h.joined.compositor, h.joined.bus, h.joined.registry⟩
  unasked id hmem := (List.mem_append.mp hmem).elim (h.unasked id) (hnone id)
  asked c ch hch hlive := (h.asked c ch hch hlive).imp_right (List.mem_append_left _)

theorem activateWindow_not_mem_onRow (m : Taskbar.TaskbarModel) (row : ℤ)
    {request : String × WindowRecord → Request}
    (h : ∀ window id, request window ≠ .activateWindow id) (id : String) :
    .activateWindow id ∉ m.onRow row request := by
  unfold Taskbar.TaskbarModel.onRow
  split_ifs
  · exact List.not_mem_nil
  · intro hmem
    obtain ⟨window, -, hwindow⟩ := Option.map_eq_some_iff.mp (Option.mem_toList.mp hmem)
    exact h window id hwindow

/-- **The first request** is granted, or it is not about a window that is there. -/
theorem Hiding.serve (h : Hiding s) {operations : List Taskbar.Event}
    (hcalm : Calm s.bus operations)
    (hstep : session.step s (.serve operations) = some s') : Hiding s' := by
  have hjoined : Joined s' := h.joined.step (e := .serve operations) hcalm hstep
  change (match s.requests with | [] => none | request :: rest => _) = some s' at hstep
  split at hstep
  · cases hstep
  · next request rest hrequests =>
      have hunasked : ∀ id, .activateWindow id ∉ rest := fun id hmem =>
        h.unasked id (hrequests ▸ List.mem_cons_of_mem _ hmem)
      cases request with
      | activateWindow id => exact absurd (hrequests ▸ List.mem_cons_self) (h.unasked id)
      | closeWindow id =>
          obtain rfl := Option.some.inj hstep
          refine ⟨hjoined, hunasked,
            fun c ch hch hlive => (h.asked c ch hch hlive).imp_right fun hmem => ?_⟩
          rw [hrequests] at hmem
          exact (List.mem_cons.mp hmem).resolve_left nofun
      | minimizeWindow id =>
          obtain ⟨hcompositor, -, -, hrest⟩ := handle_eq_some hstep
          have hminimize : s.compositor.minimize id = s'.compositor := Option.some.inj hcompositor
          obtain ⟨-, hrecords⟩ := recorded_of_focusing h.joined.compositor
          refine ⟨hjoined, fun id => by rw [hrest]; exact hunasked id, fun c ch' hch' hlive' => ?_⟩
          rw [← hminimize] at hch'
          obtain ⟨ch, hch, hlive, hid, hminimized⟩ :=
            stays_minimize s.compositor id c ch' hch' hlive'
          rw [hrest, hid]
          rcases h.asked c ch hch hlive with halready | hmem
          · exact Or.inl (hminimized halready)
          · rw [hrequests] at hmem
            rcases List.mem_cons.mp hmem with hfirst | hlater
            · obtain rfl : ch.windowId = id := by injection hfirst
              exact Or.inl (minimized_minimize hrecords hch hlive.1 hch')
            · exact Or.inr hlater

theorem Hiding.step (h : Hiding s) (hok : Settling s e) (he : Undemanding e)
    (hstep : session.step s e = some s') :
    Hiding s' := by
  cases e with
  | activate | toggle => exact he.elim
  | serve operations => exact h.serve hok hstep
  | compositor e operations =>
      obtain ⟨hcompositor, -, -, hrequests⟩ := handle_eq_some hstep
      exact h.of_stays (h.joined.step hok hstep) hrequests (stays_step he hcompositor)
  | bus e =>
      have hjoined := h.joined.step hok hstep
      change (if e.IsOperation then none else _) = some s' at hstep
      split_ifs at hstep
      obtain ⟨bus, -, rfl⟩ := Option.map_eq_some_iff.mp hstep
      exact h.of_stays hjoined rfl (.refl _)
  | minimize row =>
      obtain rfl := Option.some.inj hstep
      exact h.request (activateWindow_not_mem_onRow _ row nofun)
  | close row =>
      obtain rfl := Option.some.inj hstep
      exact h.request (activateWindow_not_mem_onRow _ row nofun)
  | showDesktop =>
      obtain rfl := Option.some.inj hstep
      apply h.request
      intro id hmem
      obtain ⟨other, hother⟩ := Taskbar.TaskbarModel.showDesktop_minimizes _ hmem
      cases hother

/-- When the rows are the windows, `Meta+D` asks for all of them. -/
theorem Hiding.of_shows (hjoined : Joined s) (hshows : Shows s)
    (hunasked : ∀ id, .activateWindow id ∉ s.requests) :
    Hiding (s.request s.bus.taskbar.showDesktop) where
  joined := ⟨hjoined.compositor, hjoined.bus, hjoined.registry⟩
  unasked id hmem := by
    rcases List.mem_append.mp hmem with hbefore | hnew
    · exact hunasked id hbefore
    · obtain ⟨other, hother⟩ := Taskbar.TaskbarModel.showDesktop_minimizes _ hnew
      cases hother
  asked c ch hch hlive := by
    obtain ⟨record, hrow, -⟩ := hshows.complete c ch hch hlive
    exact Or.inr (List.mem_append_right _ (Taskbar.TaskbarModel.mem_showDesktop _ hrow))

end Hiding

/-- **`Meta+D` hides every window**: once the calls are handled, and for as long as no window comes
and none is asked for, whatever else happens. -/
theorem hidden_of_showDesktop {s s₁ s₂ : State} (h : session.ReachableWhere Settling s)
    (hdone : s.bus.AllDelivered)
    (hunasked : ∀ id, .activateWindow id ∉ s.requests)
    (hpressed : session.step s .showDesktop = some s₁)
    (hrun : (session.startingAt s₁).ReachableWhere (fun s e => Settling s e ∧ Undemanding e) s₂)
    (hserved : s₂.requests = []) :
    (∀ c ch, s₂.compositor.chromes c = some ch → ch.Live →
      ch.windowMinimized = true ∧ ch.visible = false) ∧
      (s₂.bus.AllDelivered → ∀ row ∈ s₂.bus.taskbar.windows, row.2.minimized = true) := by
  have hjoined := joined_of_settling h
  have hhiding : Hiding s₂ := by
    refine hrun.invariant (I := Hiding) ?_ ?_
    · rintro _ rfl
      obtain rfl := Option.some.inj hpressed
      exact .of_shows hjoined (hjoined.shows hdone) hunasked
    · intro s e s' _ hs hok hstep
      exact hs.step hok.1 hok.2 hstep
  have hminimized : ∀ c ch, s₂.compositor.chromes c = some ch → ch.Live →
      ch.windowMinimized = true := by
    intro c ch hch hlive
    refine (hhiding.asked c ch hch hlive).resolve_right ?_
    rw [hserved]
    exact List.not_mem_nil
  constructor
  · intro c ch hch hlive
    obtain ⟨-, hrecords⟩ := recorded_of_focusing hhiding.joined.compositor
    have hvisible := (hrecords.windows c ch hch hlive.1).visible
    rw [hminimized c ch hch hlive] at hvisible
    exact ⟨hminimized c ch hch hlive, hvisible⟩
  · intro hdone row hrow
    obtain ⟨c, ch, hch, hlive, -, honRecord⟩ := (hhiding.joined.shows hdone).sound row hrow
    rw [honRecord.minimized]
    exact hminimized c ch hch hlive

/-- A window is renamed between the two requests. -/
def showingRun : List Event :=
  [.serve [.updateWindowState "win-2" true false],
    .compositor (.metadataChanged 0 ⟨"files", "Music"⟩)
      [.updateWindowMetadata "win-1" "Music" "files"],
    .serve [.updateWindowState "win-1" true true], .bus .deliver, .bus .deliver, .bus .deliver]

theorem hidden_showingRun : ∃ s : State, (∀ c ch, s.compositor.chromes c = some ch → ch.Live →
      ch.windowMinimized = true ∧ ch.visible = false) ∧ s.bus.taskbar.windows =
        [("win-2", ⟨"Untitled", "notepad", true, false⟩),
        ("win-1", ⟨"Music", "files", true, true⟩)] := by
  obtain ⟨s, hs, hdone, hrequests, hstarted, -⟩ := exists_started
  have hrun : ((session.runWhere Settling ⟨startedCompositor,
    .initial startedCompositor.registry, []⟩
      startingRun).bind fun s => (session.startingAt (s.request s.bus.taskbar.showDesktop)).runWhere
        (fun s e => Settling s e ∧
          Undemanding e) (s.request s.bus.taskbar.showDesktop) showingRun).map
          (fun s => (s.requests.isEmpty, s.bus.taskbar.windows)) = some (true,
            [("win-2", ⟨"Untitled", "notepad", true, false⟩),
              ("win-1", ⟨"Music", "files", true, true⟩)]) := by
    decide +kernel
  rw [hstarted, Option.bind_some] at hrun
  obtain ⟨s₂, hs₂, hsummary⟩ := Option.map_eq_some_iff.mp hrun
  simp only [Prod.mk.injEq, List.isEmpty_iff] at hsummary
  have hreach := (Transition.System.ReachableWhere.init rfl).runWhere hs₂
  refine ⟨s₂, (hidden_of_showDesktop hs hdone (fun id => ?_) rfl hreach hsummary.1).1, hsummary.2⟩
  rw [hrequests]
  exact List.not_mem_nil

end NiraOS.Shell.WindowList
