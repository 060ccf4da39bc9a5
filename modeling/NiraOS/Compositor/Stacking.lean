import NiraOS.Compositor.Bookkeeping
import NiraOS.Lib.Recency
import Mathlib.Data.List.Induction
import Mathlib.Data.List.Sort

/-!
# Which window is in front

Every window has a number `z`, and `__topZ` is the largest that was given out
(`desktop/compositor/qml/Main.qml`).  A window is raised, that is, gets the next number, in three
places: when its xdg toplevel is adopted, when it is activated over D-Bus, and when it is pressed.
The window of a `wl_shell` surface is not raised when it comes.

The numbers say what one expects of a desktop:

```text
in front      the windows that were raised, the last one first
behind them   the windows that never were, the newest first
```

`__topZ` is an `int` of 32 bits, so this holds as long as it does not wrap
(`paintingOrder_of_tracks`).
-/

namespace NiraOS.Compositor.Windows

open Recency

/-! ## The scene -/

structure Scene where
  state : State
  /-- `__topZ`. -/
  topZ : ℤ
  z : ℕ → ℤ

def Scene.start : Scene := ⟨.empty, 1, fun _ => 0⟩

/-- `chrome.z = ++niraCompositor.__topZ`: the property wraps, the value of the expression does not.
-/
def Scene.raise (s : Scene) (c : ℕ) : Scene :=
  { s with topZ := (s.topZ + 1).bmod (2 ^ 32), z := Function.update s.z c (s.topZ + 1) }

inductive Action
  | client (e : Event)
  /-- The mouse is pressed on a chrome; the focus follows with an event of its own. -/
  | pressed (c : ℕ)

/-- The chrome that is raised. -/
def raisedBy (s : State) : Action → Option ℕ
  | .client (.toplevelCreated toplevel) =>
      if isShellSurface (some toplevel) then none else some s.nextChrome
  | .client (.activateRequested id) => (s.chromeOf id).map Prod.fst
  | .client _ => none
  | .pressed c => ((s.chromes c).filter fun ch => !ch.isShell).map fun _ => c

def act (s : State) : Action → Option State
  | .client e => compositor.step s e
  | .pressed c => s.withChrome c fun _ => some s

def Scene.after (s : Scene) (a : Action) (t : State) : Scene :=
  (raisedBy s.state a).elim { s with state := t } fun c => { s with state := t }.raise c

def scene : Transition.System Scene Action where
  init s := s = .start
  step s a := (act s.state a).map (s.after a)

/-- A chrome in the window layer. -/
def Scene.isWindow (s : Scene) (c : ℕ) : Bool := (s.state.chromes c).any fun ch => !ch.isShell

/-- Items of one layer are painted in the order of their numbers, and of their age where these
agree. -/
def Scene.paintedBefore (s : Scene) (c d : ℕ) : Bool := s.z c < s.z d || (s.z c = s.z d && c ≤ d)

/-- The windows, the one in front last. -/
def Scene.paintingOrder (s : Scene) : List ℕ :=
  ((List.range s.state.nextChrome).filter s.isWindow).mergeSort s.paintedBefore

/-! ## What it is to be in front -/

/-- Who was raised, the last one first. -/
def lastRaised (log : List ℕ) : List ℕ := log.foldl (fun recent c => touch c recent) []

theorem lastRaised_concat (log : List ℕ) (c : ℕ) :
    lastRaised (log ++ [c]) = touch c (lastRaised log) := by
  rw [lastRaised, List.foldl_append, List.foldl_cons, List.foldl_nil, lastRaised]

theorem recent_lastRaised (log : List ℕ) : Recent log (lastRaised log) := by
  induction log using List.reverseRecOn with
  | nil => exact Recent.nil
  | append_singleton log c ih =>
      rw [lastRaised_concat]
      exact ih.touch c

/-- A scene and the chromes that were raised on the way to it. -/
inductive Tracks : Scene → List ℕ → Prop
  | start : Tracks .start []
  | step {s s' : Scene} {log : List ℕ} {a : Action} : Tracks s log → scene.step s a = some s' →
      Tracks s' (log ++ (raisedBy s.state a).toList)

/-! ## Chromes come one after the other -/

section Chromes

variable {s s' : State} {c : ℕ} {ch : Chrome}

/-- There is no chrome yet under the numbers to come. -/
def State.Unborn (s : State) : Prop := ∀ c, s.nextChrome ≤ c → s.chromes c = none

/-- No chrome comes, though one may go. -/
def State.NoneComes (s s' : State) : Prop :=
  s'.nextChrome = s.nextChrome ∧ ∀ c, s.chromes c = none → s'.chromes c = none

theorem State.Unborn.of_noneComes (h : s.Unborn) (hnone : s.NoneComes s') : s'.Unborn := by
  intro c hc
  apply hnone.2
  apply h
  rw [← hnone.1]
  exact hc

theorem State.NoneComes.trans {t : State} (h : s.NoneComes s') (h' : s'.NoneComes t) :
    s.NoneComes t :=
  ⟨h'.1.trans h.1, fun c hc => h'.2 c (h.2 c hc)⟩

theorem noneComes_of_books (h : s'.books = s.books) : s.NoneComes s' := by
  constructor
  · exact congrArg Books.next h
  · intro c hc
    have hslot : (s'.chromes c).map Chrome.slot = (s.chromes c).map Chrome.slot :=
      congrFun (congrArg Books.slots h) c
    rw [hc, Option.map_none] at hslot
    exact Option.map_eq_none_iff.mp hslot

theorem noneComes_setChrome (h : s.chromes c = some ch) (ch' : Chrome) :
    s.NoneComes (s.setChrome c ch') := by
  constructor
  · rfl
  · intro d hd
    have hne : d ≠ c := by
      intro heq
      rw [heq, h] at hd
      cases hd
    exact (Function.update_of_ne hne ..).trans hd

theorem noneComes_promoteToShell (h : s.chromes c = some ch) :
    s.NoneComes (s.promoteToShell c ch) := by
  have hset := noneComes_setChrome h { ch with
    windowId := "", isShell := true, windowMaximized := true, windowMinimized := false
    visible := true }
  unfold State.promoteToShell
  split_ifs
  · exact hset
  · exact hset

theorem noneComes_handleToplevelMetadataChanged (h : s.chromes c = some ch) :
    s.NoneComes (s.handleToplevelMetadataChanged c ch) := by
  unfold State.handleToplevelMetadataChanged
  split
  · exact noneComes_of_books rfl
  · split_ifs
    · exact noneComes_of_books rfl
    · exact noneComes_promoteToShell h
    · exact noneComes_of_books rfl
    · exact noneComes_of_books rfl
    · exact ⟨rfl, fun _ => id⟩

theorem noneComes_onHasContentChanged (h : s.chromes c = some ch) :
    s.NoneComes (s.onHasContentChanged c ch) := by
  unfold State.onHasContentChanged
  split_ifs
  · exact noneComes_promoteToShell h
  · exact noneComes_of_books rfl

theorem noneComes_onSurfaceDestroyed (h : s.chromes c = some ch) (cleared : Bool) :
    s.NoneComes (s.onSurfaceDestroyed c ch cleared) := by
  unfold State.onSurfaceDestroyed
  by_cases hwindow : ch.isShell = false ∧ ch.windowId ≠ ""
  · rw [if_pos hwindow]
    exact noneComes_setChrome h _
  · rw [if_neg hwindow]
    exact noneComes_setChrome h _

theorem noneComes_delete (s : State) (c : ℕ) : s.NoneComes (s.delete c) := by
  constructor
  · rfl
  · intro d hd
    show Function.update s.chromes c none d = none
    by_cases hdc : d = c
    · rw [hdc, Function.update_self]
    · rw [Function.update_of_ne hdc, hd]

theorem unborn_createObject (h : s.Unborn) (toplevel : Option Toplevel) (isShell : Bool) :
    (s.createObject toplevel isShell).Unborn ∧
      (s.createObject toplevel isShell).nextChrome = s.nextChrome + 1 := by
  have hnew : ∀ ch' : Chrome, ∀ c, s.nextChrome + 1 ≤ c →
      Function.update s.chromes s.nextChrome (some ch') c = none := by
    intro ch' c hc
    rw [Function.update_of_ne (by omega)]
    exact h c (by omega)
  cases isShell with
  | false => exact ⟨hnew _, rfl⟩
  | true => exact ⟨hnew _, rfl⟩

/-- **A step of the compositor** makes at most the next chrome. -/
theorem unborn_step {e : Event} (h : s.Unborn) (hstep : compositor.step s e = some s') :
    s'.Unborn ∧ s.nextChrome ≤ s'.nextChrome := by
  have hof : s.NoneComes s' → s'.Unborn ∧ s.nextChrome ≤ s'.nextChrome :=
    fun hnone => ⟨h.of_noneComes hnone, Nat.le_of_eq hnone.1.symm⟩
  cases e with
  | toplevelCreated toplevel =>
      obtain rfl := Option.some.inj hstep
      unfold State.adoptToplevel
      split_ifs
      · cases s.shellChrome with
        | some _ => exact ⟨h, Nat.le_refl _⟩
        | none =>
            obtain ⟨hunborn, hnext⟩ := unborn_createObject h (some toplevel) true
            exact ⟨hunborn, Nat.le_of_lt (Nat.lt_of_succ_le (Nat.le_of_eq hnext.symm))⟩
      · obtain ⟨hunborn, hnext⟩ := unborn_createObject h (some toplevel) false
        exact ⟨hunborn, Nat.le_of_lt (Nat.lt_of_succ_le (Nat.le_of_eq hnext.symm))⟩
  | wlShellSurfaceCreated =>
      obtain rfl := Option.some.inj hstep
      obtain ⟨hunborn, hnext⟩ := unborn_createObject h none false
      exact ⟨hunborn, Nat.le_of_lt (Nat.lt_of_succ_le (Nat.le_of_eq hnext.symm))⟩
  | metadataChanged c toplevel =>
      obtain ⟨ch, hch, hstep⟩ := Option.bind_eq_some_iff.mp hstep
      split_ifs at hstep
      obtain rfl := Option.some.inj hstep
      apply hof
      apply (noneComes_setChrome hch _).trans
      exact noneComes_handleToplevelMetadataChanged (Function.update_self ..)
  | reconcile c =>
      obtain ⟨ch, hch, hstep⟩ := Option.bind_eq_some_iff.mp hstep
      obtain rfl := Option.some.inj hstep
      exact hof (noneComes_handleToplevelMetadataChanged hch)
  | hasContentChanged c hasContent =>
      obtain ⟨ch, hch, hstep⟩ := Option.bind_eq_some_iff.mp hstep
      split_ifs at hstep
      obtain rfl := Option.some.inj hstep
      apply hof
      apply (noneComes_setChrome hch _).trans
      exact noneComes_onHasContentChanged (Function.update_self ..)
  | activateRequested id =>
      obtain rfl := Option.some.inj hstep
      exact hof (noneComes_of_books (books_onActivateRequested id))
  | minimizeRequested id =>
      obtain rfl := Option.some.inj hstep
      exact hof (noneComes_of_books (books_onMinimizeRequested id))
  | minimizeClicked c =>
      obtain ⟨ch, hch, hstep⟩ := Option.bind_eq_some_iff.mp hstep
      split_ifs at hstep
      obtain rfl := Option.some.inj hstep
      exact hof (noneComes_of_books (books_setMinimized hch true))
  | keyboardFocusChanged surface =>
      obtain rfl := Option.some.inj hstep
      exact hof (noneComes_of_books (books_onActiveFocusSurfaceChanged surface))
  | surfaceDestroyed c cleared =>
      obtain ⟨ch, hch, hstep⟩ := Option.bind_eq_some_iff.mp hstep
      split_ifs at hstep
      obtain rfl := Option.some.inj hstep
      exact hof (noneComes_onSurfaceDestroyed hch cleared)
  | deleted c =>
      obtain ⟨ch, hch, hstep⟩ := Option.bind_eq_some_iff.mp hstep
      split_ifs at hstep
      obtain rfl := Option.some.inj hstep
      exact hof (noneComes_delete s c)

theorem unborn_act {a : Action} (h : s.Unborn) (hstep : act s a = some s') :
    s'.Unborn ∧ s.nextChrome ≤ s'.nextChrome := by
  cases a with
  | client e => exact unborn_step h hstep
  | pressed c =>
      obtain ⟨ch, -, hstep⟩ := Option.bind_eq_some_iff.mp hstep
      obtain rfl := Option.some.inj hstep
      exact ⟨h, Nat.le_refl _⟩

/-- What is raised is there, or is just coming. -/
theorem raisedBy_lt {a : Action} (h : s.Unborn) (hstep : act s a = some s')
    (hraised : raisedBy s a = some c) :
    c < s'.nextChrome := by
  have hlt : ∀ d ch, s.chromes d = some ch → d < s.nextChrome := by
    intro d ch hd
    by_contra hge
    rw [h d (Nat.le_of_not_lt hge)] at hd
    cases hd
  have hnext := (unborn_act h hstep).2
  cases a with
  | client e =>
      cases e with
      | toplevelCreated toplevel =>
          simp only [raisedBy] at hraised
          split_ifs at hraised with hshell
          obtain rfl := Option.some.inj hraised
          obtain rfl := Option.some.inj hstep
          rw [State.adoptToplevel, if_neg hshell, (unborn_createObject h (some toplevel) false).2]
          exact Nat.lt_succ_self _
      | activateRequested id =>
          obtain ⟨⟨d, ch⟩, hof, rfl⟩ := Option.map_eq_some_iff.mp hraised
          exact Nat.lt_of_lt_of_le (hlt d ch (chromes_of_chromeOf hof)) hnext
      | _ => cases hraised
  | pressed d =>
      obtain ⟨ch, hch, rfl⟩ := Option.map_eq_some_iff.mp hraised
      exact Nat.lt_of_lt_of_le (hlt d ch (Option.filter_eq_some_iff.mp hch).1) hnext

end Chromes

/-! ## The numbers along a run -/

structure Stacked (s : Scene) (log : List ℕ) : Prop where
  unborn : s.state.Unborn
  came : ∀ c ∈ log, c < s.state.nextChrome
  topZ_eq : s.topZ = 1 + log.length
  never : ∀ c, c ∉ log → s.z c = 0
  once : ∀ c ∈ log, 0 < s.z c ∧ s.z c ≤ s.topZ
  order : (lastRaised log).Pairwise fun c d => s.z d < s.z c

section Stacked

variable {s s' : Scene} {log : List ℕ} {a : Action} {c : ℕ}

theorem mem_lastRaised : c ∈ lastRaised log ↔ c ∈ log := (recent_lastRaised log).mem c

/-- Windows come and go, and the numbers stay. -/
theorem Stacked.withState {t : State} (h : Stacked s log) (ht : t.Unborn)
    (hnext : s.state.nextChrome ≤ t.nextChrome) :
    Stacked { s with state := t } log where
  unborn := ht
  came c hc := Nat.lt_of_lt_of_le (h.came c hc) hnext
  topZ_eq := h.topZ_eq
  never := h.never
  once := h.once
  order := h.order

/-- The window that is raised goes in front, and the others stay in their order. -/
theorem Stacked.raise (h : Stacked s log) (hlog : log.length < 2 ^ 31 - 2)
    (hc : c < s.state.nextChrome) :
    Stacked (s.raise c) (log ++ [c]) := by
  have htop : (s.raise c).topZ = s.topZ + 1 := by
    show (s.topZ + 1).bmod (2 ^ 32) = s.topZ + 1
    have htopZ := h.topZ_eq
    apply Int.bmod_eq_of_le
    · omega
    · omega
  have hself : (s.raise c).z c = s.topZ + 1 := Function.update_self ..
  have hother : ∀ d, d ≠ c → (s.raise c).z d = s.z d := fun d hdc => Function.update_of_ne hdc ..
  have hpos : 1 ≤ s.topZ := by
    rw [h.topZ_eq]
    exact Int.le_add_of_nonneg_right (Int.natCast_nonneg _)
  constructor
  · exact h.unborn
  · intro d hd
    rw [List.mem_append, List.mem_singleton] at hd
    cases hd with
    | inl hd => exact h.came d hd
    | inr hd => exact hd ▸ hc
  · rw [htop, h.topZ_eq, List.length_append, List.length_singleton, Int.natCast_add,
      Int.natCast_one, Int.add_assoc]
  · intro d hd
    rw [List.mem_append, List.mem_singleton, not_or] at hd
    rw [hother d hd.2]
    exact h.never d hd.1
  · intro d hd
    by_cases hdc : d = c
    · subst hdc
      rw [hself, htop]
      exact ⟨Int.lt_add_one_of_le (Int.le_trans (by decide) hpos), Int.le_refl _⟩
    · rw [List.mem_append, List.mem_singleton, or_iff_left hdc] at hd
      obtain ⟨hlow, hhigh⟩ := h.once d hd
      rw [hother d hdc, htop]
      exact ⟨hlow, Int.le_add_one hhigh⟩
  · rw [lastRaised_concat, touch]
    apply List.pairwise_cons.mpr
    constructor
    · intro d hd
      obtain ⟨hd, hdc⟩ := List.mem_filter.mp hd
      rw [hself, hother d (of_decide_eq_true hdc)]
      exact Int.lt_add_one_of_le (h.once d (mem_lastRaised.mp hd)).2
    · apply (h.order.filter _).imp_of_mem
      intro d e hd he hde
      rw [hother d (of_decide_eq_true (List.mem_filter.mp hd).2),
        hother e (of_decide_eq_true (List.mem_filter.mp he).2)]
      exact hde

theorem Stacked.step (h : Stacked s log)
    (hlog : (log ++ (raisedBy s.state a).toList).length < 2 ^ 31 - 1)
    (hstep : scene.step s a = some s') : Stacked s' (log ++ (raisedBy s.state a).toList) := by
  obtain ⟨t, ht, rfl⟩ := Option.map_eq_some_iff.mp hstep
  obtain ⟨hunborn, hnext⟩ := unborn_act h.unborn ht
  have hwith := h.withState hunborn hnext
  unfold Scene.after
  cases hraised : raisedBy s.state a with
  | none =>
      rw [Option.toList_none, List.append_nil]
      exact hwith
  | some c =>
      rw [hraised, Option.toList_some, List.length_append, List.length_singleton] at hlog
      exact hwith.raise (by omega) (raisedBy_lt h.unborn ht hraised)

/-- **The numbers of a run**: who was raised later has the greater one, and who never was has none.
-/
theorem stacked_of_tracks (h : Tracks s log) (hlog : log.length < 2 ^ 31 - 1) : Stacked s log := by
  induction h with
  | start =>
      constructor
      · intro c _
        rfl
      · intro c hc
        cases hc
      · rfl
      · intro c _
        rfl
      · intro c hc
        cases hc
      · exact List.Pairwise.nil
  | step _ hstep ih =>
      refine (ih ?_).step hlog hstep
      rw [List.length_append] at hlog
      omega

end Stacked

/-! ## The order of painting -/

section PaintingOrder

variable {s : Scene} {log : List ℕ}

theorem Scene.paintedBefore_iff {c d : ℕ} :
    s.paintedBefore c d = true ↔ s.z c < s.z d ∨ s.z c = s.z d ∧ c ≤ d := by
  simp [Scene.paintedBefore]

theorem Scene.paintingOrder_perm (s : Scene) :
    s.paintingOrder.Perm ((List.range s.state.nextChrome).filter s.isWindow) :=
  List.mergeSort_perm ..

theorem Scene.paintingOrder_pairwise (s : Scene) :
    s.paintingOrder.Pairwise fun c d => s.paintedBefore c d = true := by
  apply List.pairwise_mergeSort
  · intro c d e hcd hde
    rw [Scene.paintedBefore_iff] at hcd hde ⊢
    omega
  · intro c d
    rw [Bool.or_eq_true, Scene.paintedBefore_iff, Scene.paintedBefore_iff]
    omega

/-- There is one order of painting only. -/
theorem Scene.eq_paintingOrder {l : List ℕ}
    (hperm : l.Perm ((List.range s.state.nextChrome).filter s.isWindow))
    (hl : l.Pairwise fun c d => s.paintedBefore c d = true) : s.paintingOrder = l := by
  apply List.Perm.eq_of_pairwise _ s.paintingOrder_pairwise hl
    (s.paintingOrder_perm.trans hperm.symm)
  intro c d _ _ hcd hdc
  rw [Scene.paintedBefore_iff] at hcd hdc
  omega

def Scene.neverRaised (s : Scene) (log : List ℕ) : List ℕ :=
  (List.range s.state.nextChrome).filter fun c => s.isWindow c && decide (c ∉ log)

/-- The windows that were raised, the last one in front, that is, last. -/
def Scene.onceRaised (s : Scene) (log : List ℕ) : List ℕ :=
  (lastRaised log).reverse.filter s.isWindow

theorem Scene.mem_neverRaised {c : ℕ} :
    c ∈ s.neverRaised log ↔ c < s.state.nextChrome ∧ s.isWindow c = true ∧ c ∉ log := by
  rw [Scene.neverRaised, List.mem_filter, List.mem_range, Bool.and_eq_true, decide_eq_true_iff]

theorem Scene.mem_onceRaised {c : ℕ} : c ∈ s.onceRaised log ↔ c ∈ log ∧ s.isWindow c = true := by
  rw [Scene.onceRaised, List.mem_filter, List.mem_reverse, mem_lastRaised]

theorem Stacked.perm (h : Stacked s log) :
    (s.neverRaised log ++ s.onceRaised log).Perm
      ((List.range s.state.nextChrome).filter s.isWindow) := by
  apply (List.perm_ext_iff_of_nodup _ (List.nodup_range.filter _)).mpr
  · intro c
    have hcame := h.came c
    rw [List.mem_append, Scene.mem_neverRaised, Scene.mem_onceRaised, List.mem_filter,
      List.mem_range]
    tauto
  · apply List.Nodup.append
    · exact List.nodup_range.filter _
    · exact (List.nodup_reverse.mpr (recent_lastRaised log).nodup).filter _
    · intro c hnever honce
      exact (Scene.mem_neverRaised.mp hnever).2.2 (Scene.mem_onceRaised.mp honce).1

theorem Stacked.pairwise (h : Stacked s log) :
    (s.neverRaised log ++ s.onceRaised log).Pairwise fun c d => s.paintedBefore c d = true := by
  apply List.pairwise_append.mpr
  refine ⟨?_, ?_, ?_⟩
  · have hrange : (s.neverRaised log).Pairwise (· < ·) := List.pairwise_lt_range.filter _
    apply hrange.imp_of_mem
    intro c d hc hd hcd
    rw [Scene.paintedBefore_iff, h.never c (Scene.mem_neverRaised.mp hc).2.2,
      h.never d (Scene.mem_neverRaised.mp hd).2.2]
    exact Or.inr ⟨rfl, Nat.le_of_lt hcd⟩
  · have hreverse : (s.onceRaised log).Pairwise fun c d => s.z c < s.z d :=
      (List.pairwise_reverse.mpr h.order).filter _
    apply hreverse.imp
    intro c d hcd
    exact Scene.paintedBefore_iff.mpr (Or.inl hcd)
  · intro c hc d hd
    rw [Scene.paintedBefore_iff, h.never c (Scene.mem_neverRaised.mp hc).2.2]
    exact Or.inl (h.once d (Scene.mem_onceRaised.mp hd).1).1

end PaintingOrder

/-- **Which window is in front**: of the windows that were raised, the one that was raised last;
behind them come the windows that never were, the newest first. -/
theorem paintingOrder_of_tracks {s : Scene} {log : List ℕ} (h : Tracks s log)
    (hlog : log.length < 2 ^ 31 - 1) :
    s.paintingOrder = s.neverRaised log ++ s.onceRaised log ∧ Recent log (lastRaised log) := by
  have hstacked := stacked_of_tracks h hlog
  constructor
  · exact Scene.eq_paintingOrder hstacked.perm hstacked.pairwise
  · exact recent_lastRaised log

/-- A `wl_shell` window comes between two others, and the first is pressed. -/
theorem paintingOrder_of_tracks_pressed :
    ∃ s log, Tracks s log ∧ log = [0, 2, 0] ∧ s.paintingOrder = [1, 2, 0] := by
  let first : Action := .client (.toplevelCreated ⟨"files", "Home"⟩)
  let second : Action := .client .wlShellSurfaceCreated
  let third : Action := .client (.toplevelCreated ⟨"notepad", "Untitled"⟩)
  have htracks :=
    (((Tracks.start.step (a := first) rfl).step (a := second) rfl).step (a := third) rfl).step
    (a := .pressed 0) rfl
  refine ⟨_, _, htracks, ?_, (paintingOrder_of_tracks htracks ?_).1.trans ?_⟩
  · decide
  · decide
  · decide
end NiraOS.Compositor.Windows
