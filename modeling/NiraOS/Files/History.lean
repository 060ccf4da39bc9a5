import Mathlib.Data.List.Basic
import Mathlib.Data.List.Chain
import Mathlib.Data.List.Infix
import Mathlib.Logic.Function.Iterate
import Mathlib.Tactic.Common

/-!
# The history of the file manager

The window (`apps/files/qml/Main.qml`) keeps the paths it was in, and an index into them.  The list
should be a zipper (`IsZipper`): what is before the index is where Back leads to, what is behind it
is where Forward leads to.

A path is recorded when the model says that it has changed.  But Back and Forward, as the view, the
side bar and the bread crumbs, ask the model by `setCurrentPath`, which the model offers to C++
only: the call ends in a `TypeError`, and the path stays.  Only `navigateUp` and `navigateTo` lead
elsewhere.

```text
                  history                index    path
start             []                     -1       /home/user
Up                [/home]                0        /home
Up                [/home, /]             1        /
Back              [/home, /]             0        /
```

So the list has every path but the first (`visits_eq`), the path is always the last of it, and the
index goes to and fro.
-/

namespace NiraOS.Files.History

/-- An absolute path without dots; the root has no names. -/
abbrev Path := List String

structure State where
  history : List Path
  historyIndex : ℤ
  /-- The path of the model. -/
  currentPath : Path

/-- `main` sets the path, then loads the window. -/
def start (home : Path) : State := ⟨[], -1, home⟩

/-- `history[historyIndex]`. -/
def State.entry (s : State) : Option Path :=
  if 0 ≤ s.historyIndex then s.history[s.historyIndex.toNat]? else none

section Operations

variable (s : State)

def State.onCurrentPathChanged : State :=
  if s.history.length = 0 ∨ s.history.getLast? ≠ some s.currentPath then
    { s with
      history := s.history ++ [s.currentPath]
      historyIndex := (s.history ++ [s.currentPath]).length - 1 }
  else s

/-- `FileModel::setCurrentPath`. -/
def State.setCurrentPath (path : Path) : State :=
  if path = s.currentPath then s else { s with currentPath := path }.onCurrentPathChanged

/-- `FileModel::navigateTo`. -/
def State.navigateTo (path : Path) (isDir : Bool) : State :=
  if isDir then s.setCurrentPath path else s

/-- `FileModel::navigateUp`: from a path that is no directory (any more) it goes up from the one it
is in, if that is there. -/
def State.navigateUp (isDir parentIsDir : Bool) : State :=
  if isDir then s.setCurrentPath s.currentPath.dropLast
  else if parentIsDir then s.setCurrentPath s.currentPath.dropLast.dropLast
  else s

/-- The index is moved, and `fileModel.setCurrentPath` is no function in QML. -/
def State.historyBack : State :=
  if s.historyIndex > 0 then { s with historyIndex := s.historyIndex - 1 } else s

def State.historyForward : State :=
  if s.historyIndex < s.history.length - 1 then { s with historyIndex := s.historyIndex + 1 } else s

end Operations

inductive Event
  /-- From the view, the side bar, the bread crumbs or the menu: `setCurrentPath` again. -/
  | open (path : Path)
  /-- Offered to the window, which does not call it. -/
  | navigateTo (path : Path) (isDir : Bool)
  | navigateUp (isDir parentIsDir : Bool)
  | back
  | forward

def State.step (s : State) : Event → State
  | .open _ => s
  | .navigateTo path isDir => s.navigateTo path isDir
  | .navigateUp isDir parentIsDir => s.navigateUp isDir parentIsDir
  | .back => s.historyBack
  | .forward => s.historyForward

def run (home : Path) (events : List Event) : State := events.foldl State.step (start home)

/-! ## What a history is for -/

def Event.Navigates : Event → Prop
  | .open _ | .navigateTo _ _ | .navigateUp _ _ => True
  | .back | .forward => False

/-- One path more when it is another one. -/
def visit (visited : List Path) (path : Path) : List Path :=
  if visited.head? = some path then visited else path :: visited

/-- The paths the window was in during a run, the latest first. -/
def visits (home : Path) (events : List Event) : List Path :=
  (events.inits.map fun before => (run home before).currentPath).foldl visit []

section Definitions

variable (home : Path) (events : List Event) (s : State)

def Recorded : Prop := s.entry = some s.currentPath

/-- Back and Forward leave the list as it is. -/
def Kept : Prop := s.historyBack.history = s.history ∧ s.historyForward.history = s.history

/-- So many steps back lead to the path visited so many paths before. -/
def Previous : Prop :=
  ∀ k path, (visits home events)[k]? = some path →
    (State.historyBack^[k] (run home events)).currentPath = path

/-- Forward leads back to where Back came from. -/
def Returns : Prop := 0 < s.historyIndex → s.historyBack.historyForward.currentPath = s.currentPath

/-- A new path takes the place of what is ahead of the index. -/
def Drops : Prop :=
  ∀ path, path ≠ s.currentPath →
    (s.setCurrentPath path).history = s.history.take (s.historyIndex + 1).toNat ++ [path]

/-- In the state that the events lead to the history is what it should be. -/
structure IsZipper : Prop where
  recorded : Recorded (run home events)
  kept : Kept (run home events)
  previous : (∀ e ∈ events, e.Navigates) → Previous home events
  returns : Returns (run home events)
  drops : Drops (run home events)

end Definitions

/-! ## What every run keeps -/

/-- The last of the recorded paths is the current one, and the index stands at one of them. -/
structure Ends (s : State) : Prop where
  last : s.history.getLast? = some s.currentPath
  nonneg : 0 ≤ s.historyIndex
  lt : s.historyIndex < s.history.length

section Steps

variable {home path : Path} {s : State} {events : List Event} {e : Event}

theorem setCurrentPath_self (s : State) : s.setCurrentPath s.currentPath = s := if_pos rfl

/-- **A new path** is recorded behind all others, wherever the index stands. -/
theorem setCurrentPath_of_ne (hlast : s.history.getLast? = some s.currentPath ∨ s.history = [])
    (hne : path ≠ s.currentPath) :
    s.setCurrentPath path = ⟨s.history ++ [path], s.history.length, path⟩ := by
  have hother : s.history.getLast? ≠ some path := by
    rcases hlast with hlast | hlast
    · rw [hlast]
      simpa using hne.symm
    · simp [hlast]
  unfold State.setCurrentPath State.onCurrentPathChanged
  rw [if_neg hne]
  dsimp only
  rw [if_pos (Or.inr hother), List.length_append, List.length_singleton]
  simp

@[simp] theorem historyBack_currentPath (s : State) :
    s.historyBack.currentPath = s.currentPath := by
  unfold State.historyBack
  split_ifs <;> rfl

@[simp] theorem historyForward_currentPath (s : State) :
    s.historyForward.currentPath = s.currentPath := by
  unfold State.historyForward
  split_ifs <;> rfl

@[simp] theorem historyBack_history (s : State) : s.historyBack.history = s.history := by
  unfold State.historyBack
  split_ifs <;> rfl

@[simp] theorem historyForward_history (s : State) : s.historyForward.history = s.history := by
  unfold State.historyForward
  split_ifs <;> rfl

/-- Whatever happens, the window asks for a path or the index moves. -/
theorem step_cases (s : State) (e : Event) :
    (∃ path, s.step e = s.setCurrentPath path) ∨ s.step e = s.historyBack ∨
      s.step e = s.historyForward := by
  have hstay : ∃ path, s = s.setCurrentPath path := ⟨s.currentPath, (setCurrentPath_self s).symm⟩
  cases e with
  | «open» path => exact Or.inl hstay
  | navigateTo path isDir =>
      left
      cases isDir with
      | true => exact ⟨path, rfl⟩
      | false => exact hstay
  | navigateUp isDir parentIsDir =>
      left
      cases isDir with
      | true => exact ⟨_, rfl⟩
      | false =>
          cases parentIsDir with
          | true => exact ⟨_, rfl⟩
          | false => exact hstay
  | back => exact Or.inr (Or.inl rfl)
  | forward => exact Or.inr (Or.inr rfl)

theorem Ends.setCurrentPath (h : Ends s) (path : Path) : Ends (s.setCurrentPath path) := by
  by_cases hsame : path = s.currentPath
  · rw [hsame, setCurrentPath_self]
    exact h
  · rw [setCurrentPath_of_ne (Or.inl h.last) hsame]
    constructor
    · simp
    · simp
    · show (s.history.length : ℤ) < (s.history ++ [path]).length
      rw [List.length_append, List.length_singleton]
      omega

theorem Ends.historyBack (h : Ends s) : Ends s.historyBack := by
  have hlt := h.lt
  constructor
  · simpa using h.last
  · unfold State.historyBack
    split_ifs with hpos
    · dsimp only
      omega
    · exact h.nonneg
  · rw [historyBack_history]
    unfold State.historyBack
    split_ifs
    · dsimp only
      omega
    · exact hlt

theorem Ends.historyForward (h : Ends s) : Ends s.historyForward := by
  have hnonneg := h.nonneg
  constructor
  · simpa using h.last
  · unfold State.historyForward
    split_ifs
    · dsimp only
      omega
    · exact hnonneg
  · rw [historyForward_history]
    unfold State.historyForward
    split_ifs with hroom
    · dsimp only
      omega
    · exact h.lt

theorem Ends.step (h : Ends s) (e : Event) : Ends (s.step e) := by
  rcases step_cases s e with ⟨path, hstep⟩ | hstep | hstep
  · rw [hstep]
    exact h.setCurrentPath path
  · rw [hstep]
    exact h.historyBack
  · rw [hstep]
    exact h.historyForward

theorem run_concat (home : Path) (events : List Event) (e : Event) :
    run home (events ++ [e]) = (run home events).step e := by
  rw [run, List.foldl_append]
  rfl

theorem ends_of_start (home : Path) (e : Event) :
    (start home).step e = start home ∨ Ends ((start home).step e) := by
  rcases step_cases (start home) e with ⟨path, hstep⟩ | hstep | hstep
  · by_cases hsame : path = home
    · left
      rw [hstep, hsame]
      exact setCurrentPath_self (start home)
    · right
      rw [hstep, setCurrentPath_of_ne (s := start home) (Or.inr rfl) hsame]
      constructor
      · simp [start]
      · simp [start]
      · simp [start]
  · exact Or.inl hstep
  · exact Or.inl hstep

/-- **In every run** nothing is recorded yet, or the current path is the last one. -/
theorem ends_run (home : Path) (events : List Event) :
    run home events = start home ∨ Ends (run home events) := by
  induction events using List.reverseRecOn with
  | nil => exact Or.inl rfl
  | append_singleton events e ih =>
      rw [run_concat]
      rcases ih with hstart | hends
      · rw [hstart]
        exact ends_of_start home e
      · exact Or.inr (hends.step e)

theorem last_run (home : Path) (events : List Event) :
    (run home events).history.getLast? = some (run home events).currentPath ∨
      (run home events).history = [] := by
  rcases ends_run home events with hstart | hends
  · rw [hstart]
    exact Or.inr rfl
  · exact Or.inl hends.last

/-! ### The paths visited -/

theorem visits_concat (home : Path) (events : List Event) (e : Event) :
    visits home (events ++ [e]) =
      visit (visits home events) ((run home events).step e).currentPath := by
  have hinits : (events ++ [e]).inits = events.inits ++ [events ++ [e]] := by
    simp [List.inits_append]
  unfold visits
  rw [hinits, List.map_append, List.foldl_append, List.map_singleton, run_concat]
  rfl

theorem visit_self {visited : List Path} (h : visited.head? = some path) :
    visit visited path = visited :=
  if_pos h

/-- **All paths but the first** are recorded, and no two that follow each other are the same. -/
theorem visits_eq (home : Path) (events : List Event) :
    visits home events = (run home events).history.reverse ++ [home] ∧
      (visits home events).head? = some (run home events).currentPath ∧
      (visits home events).IsChain (· ≠ ·) := by
  induction events using List.reverseRecOn with
  | nil => exact ⟨rfl, rfl, List.isChain_singleton home⟩
  | append_singleton events e ih =>
      obtain ⟨hlist, hhead, hchain⟩ := ih
      rw [visits_concat, run_concat]
      rcases step_cases (run home events) e with ⟨path, hstep⟩ | hstep | hstep
      · by_cases hsame : path = (run home events).currentPath
        · rw [hstep, hsame, setCurrentPath_self, visit_self hhead]
          exact ⟨hlist, hhead, hchain⟩
        · rw [hstep, setCurrentPath_of_ne (last_run home events) hsame]
          have hne : (visits home events).head? ≠ some path := by
            rw [hhead]
            exact fun heq => hsame (Option.some.inj heq).symm
          unfold visit
          dsimp only
          rw [if_neg hne]
          refine ⟨?_, rfl, List.isChain_cons.mpr ⟨fun other hother => ?_, hchain⟩⟩
          · rw [hlist, List.reverse_append]
            rfl
          · rw [hhead] at hother
            rw [← Option.some.inj hother]
            exact hsame
      · rw [hstep, historyBack_currentPath, historyBack_history, visit_self hhead]
        exact ⟨hlist, hhead, hchain⟩
      · rw [hstep, historyForward_currentPath, historyForward_history, visit_self hhead]
        exact ⟨hlist, hhead, hchain⟩

end Steps

/-! ## Which parts hold -/

section Parts

variable {home : Path} {events : List Event} {s : State}

theorem iterate_historyBack_currentPath (s : State) (k : ℕ) :
    (State.historyBack^[k] s).currentPath = s.currentPath := by
  induction k generalizing s with
  | zero => rfl
  | succ k ih =>
      rw [Function.iterate_succ_apply, ih]
      exact historyBack_currentPath s

theorem kept (s : State) : Kept s := ⟨historyBack_history s, historyForward_history s⟩

theorem returns (s : State) : Returns s := by
  intro _
  rw [historyForward_currentPath, historyBack_currentPath]

/-- Where the index stands must be the path that was recorded last. -/
theorem recorded_iff (home : Path) (events : List Event) :
    Recorded (run home events) ↔
      (run home events).history ≠ [] ∧
      (run home events).entry = (run home events).history.getLast? := by
  rcases ends_run home events with hstart | hends
  · rw [hstart]
    simp [Recorded, State.entry, start]
  · rw [hends.last]
    refine ⟨fun h => ⟨?_, h⟩, fun h => h.2⟩
    intro hnone
    have hlast := hends.last
    rw [hnone] at hlast
    cases hlast

/-- Nothing is dropped, so nothing may be ahead. -/
theorem drops_iff (home : Path) (events : List Event) :
    Drops (run home events) ↔
      (run home events).historyIndex = (run home events).history.length - 1 := by
  have hset : ∀ path, path ≠ (run home events).currentPath →
      (run home events).setCurrentPath path =
        ⟨(run home events).history ++ [path], (run home events).history.length, path⟩ :=
    fun path => setCurrentPath_of_ne (last_run home events)
  constructor
  · intro hdrops
    have hne : "x" :: (run home events).currentPath ≠ (run home events).currentPath := by
      intro heq
      have hlength := congrArg List.length heq
      simp at hlength
    have hlist := (congrArg State.history (hset _ hne)).symm.trans (hdrops _ hne)
    have hlength := congrArg List.length (List.append_cancel_right hlist)
    rw [List.length_take] at hlength
    rcases ends_run home events with hstart | hends
    · rw [hstart]
      rfl
    · have hlt := hends.lt
      have hnonneg := hends.nonneg
      omega
  · intro hindex path hne
    rw [hset path hne]
    have hall : ((run home events).historyIndex + 1).toNat = (run home events).history.length := by
      rw [hindex, Int.sub_add_cancel, Int.toNat_natCast]
    rw [hall, List.take_length]

/-- Back leads nowhere, so nothing may have been visited before. -/
theorem previous_iff (home : Path) (events : List Event) :
    Previous home events ↔ (run home events).history = [] := by
  obtain ⟨hlist, hhead, hchain⟩ := visits_eq home events
  constructor
  · intro hprevious
    by_contra hne
    obtain ⟨older, last, hhistory⟩ := (List.eq_nil_or_concat' _).resolve_left hne
    have htwo : 1 < (visits home events).length := by
      rw [hlist, hhistory]
      simp
    have hsame := hprevious 1 _ (List.getElem?_eq_getElem htwo)
    rw [iterate_historyBack_currentPath] at hsame
    have hfirst : (visits home events)[0] = (run home events).currentPath := by
      rw [List.head?_eq_getElem?, List.getElem?_eq_getElem (by omega)] at hhead
      exact Option.some.inj hhead
    have hdistinct := List.isChain_iff_getElem.mp hchain 0 (by omega)
    exact hdistinct (hfirst.trans hsame)
  · intro hnone k path hpath
    rw [iterate_historyBack_currentPath]
    rw [hlist, hnone] at hhead hpath
    cases k with
    | zero => exact Option.some.inj (hhead.symm.trans hpath)
    | succ k => simp at hpath

end Parts

/-- **The history is a zipper in no run**: not at its start, where the first path is not recorded,
and not after navigations to other paths, since Back leads to none of them.  Of the five parts, two
hold always, and two exactly while the index stands at the last entry, or at one that is the same.
-/
theorem zipper_parts (home : Path) (events : List Event) :
    ¬ (∀ before, before <+: events → IsZipper home before) ∧
      ((∀ e ∈ events, e.Navigates) → ¬ IsZipper home events) ∧
      Kept (run home events) ∧ Returns (run home events) ∧
      (Previous home events ↔ (run home events).history = []) ∧
      (Recorded (run home events) ↔ (run home events).history ≠ [] ∧
        (run home events).entry = (run home events).history.getLast?) ∧
      (Drops (run home events) ↔
        (run home events).historyIndex = (run home events).history.length - 1) := by
  refine ⟨fun h => ?_, fun hnavigates h => ?_, kept _, returns _, previous_iff home events,
    recorded_iff home events, drops_iff home events⟩
  · have hrecorded := (h [] List.nil_prefix).recorded
    rw [recorded_iff] at hrecorded
    exact hrecorded.1 rfl
  · have hrecorded := h.recorded
    rw [recorded_iff] at hrecorded
    exact hrecorded.1 ((previous_iff home events).mp (h.previous hnavigates))

/-- Up twice and Back: the index stands at a path that is not the current one. -/
theorem not_zipper_back : ¬ ∀ home events, IsZipper home events := by
  intro h
  have hrecorded :=
    (h ["home", "user"] [.navigateUp true true, .navigateUp true true, .back]).recorded
  unfold Recorded at hrecorded
  exact absurd hrecorded (by decide)

end NiraOS.Files.History
