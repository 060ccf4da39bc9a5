import NiraOS.Files.FileView
import NiraOS.Lib.Text
import NiraOS.Lib.Transition

/-!
# Searching for files

`SearchIndexer` (`apps/files/src/SearchIndexer.cpp`): `search`, `cancel`, `performSearch` and what
is done once a search has finished.  A search runs in the background.  When it ends, that is
announced by an event which waits in the queue of the window's thread; by then the search may have
been cancelled.

`cancel` only looks at a search that still runs:

```text
the watched search        cancel                     the event then emits
runs                      it is cancelled            no results
has ended, in the queue   nothing                    its results, though no one asks for them
has ended, announced      nothing                    …
```

A new search watches another future, and the queued events of the old one are dropped with it.
-/

namespace NiraOS.Files.Search

open View (Qt)

/-! ## The search -/

/-- What is read of an entry that the iterator finds. -/
structure FileInfo where
  fileName : String
  absoluteFilePath : String
  isDir : Bool
  mimeType : String
  size : ℤ
  lastModified : ℤ
  isHidden : Bool
  isReadable : Bool

structure Result where
  name : String
  path : String
  type : String
  mimeType : String
  size : ℤ
  modified : ℤ
  isDir : Bool
  isHidden : Bool
  deriving DecidableEq

def FileInfo.result (fi : FileInfo) : Result where
  name := fi.fileName
  path := fi.absoluteFilePath
  type := if fi.isDir then "directory" else "file"
  mimeType := fi.mimeType
  size := fi.size
  modified := fi.lastModified
  isDir := fi.isDir
  isHidden := fi.isHidden

def maxResults : ℕ := 500

section Search

variable (qt : Qt)

/-- The loop of `performSearch` over what the iterator finds. -/
def searchLoop (lowerQuery : String) (results : List Result) : List FileInfo → List Result
  | [] => results
  | fi :: rest =>
      if results.length < maxResults then
        if Text.contains (qt.toLower fi.fileName) (qt.toLower lowerQuery) then
          if !fi.isReadable then searchLoop lowerQuery results rest
          else searchLoop lowerQuery (results ++ [fi.result]) rest
        else searchLoop lowerQuery results rest
      else results

def performSearch (found : List FileInfo) (query : String) : List Result :=
  searchLoop qt (qt.toLower query) [] found

end Search

/-! ## The indexer -/

/-- A call of `search`, numbered. -/
structure Call where
  number : ℕ
  rootPath : String
  query : String
  deriving DecidableEq

inductive Progress
  | running
  | finished (results : List Result)
  | canceled

/-- The future that is watched. -/
structure Watched where
  call : Call
  progress : Progress
  /-- The event which says that it has ended is in the queue. -/
  queued : Bool

/-- What is called and what is emitted.  Results are recorded with the call that they are of. -/
inductive Entry
  | search (call : Call)
  | cancel
  | resultsFound (call : Call) (results : List Result)
  | searchFinished (cancelled : Bool)
  deriving DecidableEq

structure State where
  watched : Option Watched
  calls : ℕ
  /-- The last entry is in front. -/
  trace : List Entry

def State.log (s : State) (entry : Entry) : State := { s with trace := entry :: s.trace }

/-- A search that ends while it is being cancelled is cancelled all the same. -/
def Watched.cancel (w : Watched) : Watched :=
  match w.progress with
  | .running => { w with progress := .canceled, queued := true }
  | .finished _ | .canceled => w

/-- `cancel`, with the wait for the end of the search. -/
def State.cancel (s : State) : State := { s with watched := s.watched.map Watched.cancel }

def State.search (s : State) (rootPath query : String) : State :=
  let call : Call := ⟨s.calls, rootPath, query⟩
  let s := ({ s with calls := s.calls + 1 }.log (.search call)).cancel
  if Text.trim query = "" then (s.log (.resultsFound call [])).log (.searchFinished false)
  else { s with watched := some ⟨call, .running, false⟩ }

/-- The background search ends. -/
def Watched.complete (qt : Qt) (w : Watched) (found : List FileInfo) : Option Watched :=
  match w.progress with
  | .running => some { w with
      progress := .finished (performSearch qt found (Text.trim w.call.query)), queued := true }
  | .finished _ | .canceled => none

/-- The slot of `finished`. -/
def State.onFinished (s : State) (w : Watched) : State :=
  match w.progress with
  | .finished results => (s.log (.resultsFound w.call results)).log (.searchFinished false)
  | .running | .canceled => s.log (.searchFinished true)

/-- The event in the queue is handled. -/
def State.deliver (s : State) (w : Watched) : Option State :=
  if w.queued then some ({ s with watched := some { w with queued := false } }.onFinished w)
  else none

inductive Event
  | search (rootPath query : String)
  | cancel
  | complete (found : List FileInfo)
  | deliver

def indexer (qt : Qt) : Transition.System State Event where
  init s := s = ⟨none, 0, []⟩
  step s
    | .search rootPath query => some (s.search rootPath query)
    | .cancel => some (s.log .cancel).cancel
    | .complete found => s.watched.bind fun w => (w.complete qt found).map fun w =>
        { s with watched := some w }
    | .deliver => s.watched.bind s.deliver

/-! ## Whose results are emitted -/

section Definitions

variable (qt : Qt)

/-- The call whose results may be emitted after some entries. -/
def current : List Entry → Option Call
  | [] => none
  | .search call :: _ => some call
  | .cancel :: _ => none
  | .resultsFound _ _ :: earlier => current earlier
  | .searchFinished _ :: earlier => current earlier

/-- The results are what a search for the query of the call finds. -/
@[irreducible] def Belongs (call : Call) (results : List Result) : Prop :=
  if Text.trim call.query = "" then results = []
  else ∃ found, results = performSearch qt found (Text.trim call.query)

/-- All results that were emitted are of the latest call, if it was not cancelled. -/
def Proper (trace : List Entry) : Prop :=
  ∀ call results earlier, .resultsFound call results :: earlier <:+ trace →
    current earlier = some call ∧ Belongs qt call results

/-- A search has ended, was not cancelled, and its event is in the queue. -/
def State.pending (s : State) : Bool :=
  match s.watched with
  | some ⟨_, .finished _, true⟩ => true
  | _ => false

/-- No search is cancelled while its end is in the queue. -/
def Settled (s : State) : Event → Prop
  | .search _ query => Text.trim query = "" → s.pending = false
  | .cancel => s.pending = false
  | .complete _ => True
  | .deliver => True

instance (s : State) (e : Event) : Decidable (Settled s e) := by
  cases e <;> unfold Settled <;> infer_instance

/-- The search may still emit its results. -/
def Watched.live (w : Watched) : Bool :=
  match w.progress, w.queued with
  | .running, _ => true
  | .finished _, queued => queued
  | .canceled, _ => false

structure Inv (s : State) : Prop where
  proper : Proper qt s.trace
  /-- What may still be emitted is of the latest call. -/
  awaited : ∀ w, s.watched = some w → w.live = true → current s.trace = some w.call
  asked : ∀ w, s.watched = some w → Text.trim w.call.query ≠ "" ∧ w.call.number < s.calls
  belongs : ∀ w results, s.watched = some w → w.progress = .finished results →
    Belongs qt w.call results

end Definitions

/-! ## The steps -/

section Steps

variable {qt : Qt} {s s' : State} {w w' : Watched} {e : Event} {trace : List Entry} {call : Call}
  {results : List Result}

theorem proper_nil : Proper qt [] := by
  intro call results earlier h
  rw [List.suffix_nil] at h
  nomatch h

theorem Proper.cons {entry : Entry} (h : Proper qt trace)
    (hentry : ∀ call results, entry = .resultsFound call results →
      current trace = some call ∧ Belongs qt call results) : Proper qt (entry :: trace) := by
  intro call results earlier hsuffix
  rw [List.suffix_cons_iff] at hsuffix
  rcases hsuffix with heq | hsuffix
  · obtain ⟨hhead, rfl⟩ := List.cons.inj heq
    exact hentry call results hhead.symm
  · exact h call results earlier hsuffix

/-- An entry that is no results. -/
theorem Proper.other {entry : Entry} (h : Proper qt trace)
    (hentry : ∀ call results, entry ≠ .resultsFound call results) : Proper qt (entry :: trace) :=
  h.cons fun call results heq => absurd heq (hentry call results)

@[simp] theorem call_cancel : w.cancel.call = w.call := by
  unfold Watched.cancel
  split <;> rfl

theorem finished_of_cancel (h : w.cancel.progress = .finished results) :
    w.progress = .finished results := by
  unfold Watched.cancel at h
  split at h
  · nomatch h
  · exact h
  · exact h

/-- Where no end is in the queue, nothing is emitted of what was cancelled. -/
theorem not_live_cancel (hw : s.watched = some w) (hpending : s.pending = false) :
    w.cancel.live = false := by
  obtain ⟨call, progress, queued⟩ := w
  rw [State.pending, hw] at hpending
  cases progress with
  | running => rfl
  | canceled => rfl
  | finished results =>
      cases queued with
      | false => rfl
      | true => nomatch hpending

theorem inv_init : Inv qt ⟨none, 0, []⟩ where
  proper := proper_nil
  awaited _ hw := nomatch hw
  asked _ hw := nomatch hw
  belongs _ _ hw := nomatch hw

/-- The state once a search was cancelled, whatever is written to the trace. -/
theorem Inv.cancelled {calls : ℕ} (h : Inv qt s) (hpending : s.pending = false)
    (hproper : Proper qt trace)
    (hcalls : s.calls ≤ calls) :
    Inv qt { watched := s.watched.map Watched.cancel, calls, trace } where
  proper := hproper
  awaited w' hw' hlive := by
    obtain ⟨w, hw, rfl⟩ := Option.map_eq_some_iff.mp hw'
    nomatch hlive.symm.trans (not_live_cancel hw hpending)
  asked w' hw' := by
    obtain ⟨w, hw, rfl⟩ := Option.map_eq_some_iff.mp hw'
    rw [call_cancel]
    exact ⟨(h.asked w hw).1, Nat.lt_of_lt_of_le (h.asked w hw).2 hcalls⟩
  belongs w' results hw' hfinished := by
    obtain ⟨w, hw, rfl⟩ := Option.map_eq_some_iff.mp hw'
    rw [call_cancel]
    exact h.belongs w results hw (finished_of_cancel hfinished)

theorem Inv.watching {calls : ℕ} (hproper : Proper qt trace)
    (hlive : w.live = true → current trace = some w.call)
    (hasked : Text.trim w.call.query ≠ "" ∧ w.call.number < calls)
    (hbelongs : ∀ results, w.progress = .finished results → Belongs qt w.call results) :
    Inv qt { watched := some w, calls, trace } where
  proper := hproper
  awaited _ hw := Option.some.inj hw ▸ hlive
  asked _ hw := Option.some.inj hw ▸ hasked
  belongs _ results hw := Option.some.inj hw ▸ hbelongs results

theorem Inv.search {rootPath query : String} (h : Inv qt s)
    (hsettled : Text.trim query = "" → s.pending = false) : Inv qt (s.search rootPath query) := by
  have hsearch : Proper qt (.search ⟨s.calls, rootPath, query⟩ :: s.trace) := h.proper.other nofun
  rw [State.search]
  split_ifs with hquery
  · refine h.cancelled (hsettled hquery) (Proper.other ?_ nofun) (Nat.le_succ _)
    refine hsearch.cons fun call results heq => ?_
    obtain ⟨rfl, rfl⟩ := Entry.resultsFound.inj heq
    exact ⟨rfl, by rw [Belongs, if_pos hquery]⟩
  · exact .watching hsearch (fun _ => rfl) ⟨hquery, Nat.lt_succ_self _⟩ fun _ hfinished =>
      nomatch hfinished

theorem Inv.cancel (h : Inv qt s) (hsettled : s.pending = false) : Inv qt (s.log .cancel).cancel :=
  h.cancelled hsettled (h.proper.other nofun) (Nat.le_refl _)

theorem Inv.complete {found : List FileInfo} (h : Inv qt s) (hw : s.watched = some w)
    (hcomplete : w.complete qt found = some w') : Inv qt { s with watched := some w' } := by
  obtain ⟨call, progress, queued⟩ := w
  have hawaited := h.awaited _ hw
  have hasked := h.asked _ hw
  cases progress with
  | finished results => nomatch hcomplete
  | canceled => nomatch hcomplete
  | running =>
      obtain rfl := Option.some.inj hcomplete
      refine .watching h.proper (fun _ => hawaited rfl) hasked fun results hfinished => ?_
      obtain rfl := Progress.finished.inj hfinished
      rw [Belongs, if_neg hasked.1]
      exact ⟨found, rfl⟩

theorem Inv.deliver (h : Inv qt s) (hw : s.watched = some w) (hdeliver : s.deliver w = some s') :
    Inv qt s' := by
  obtain ⟨call, progress, queued⟩ := w
  have hawaited := h.awaited _ hw
  have hasked := h.asked _ hw
  cases queued with
  | false => nomatch hdeliver
  | true =>
      obtain rfl := Option.some.inj hdeliver
      cases progress with
      | running =>
          exact .watching (h.proper.other nofun) (fun _ => hawaited rfl) hasked fun _ hfinished =>
            nomatch hfinished
      | canceled =>
          exact .watching (h.proper.other nofun) (fun hlive => nomatch hlive) hasked
            fun _ hfinished => nomatch hfinished
      | finished results =>
          have hbelongs := h.belongs _ results hw rfl
          refine .watching (Proper.other (h.proper.cons fun call' results' heq => ?_) nofun)
            (fun hlive => nomatch hlive) hasked fun results' hfinished => ?_
          · obtain ⟨rfl, rfl⟩ := Entry.resultsFound.inj heq
            exact ⟨hawaited rfl, hbelongs⟩
          · obtain rfl := Progress.finished.inj hfinished
            exact hbelongs

theorem Inv.step (h : Inv qt s) (hsettled : Settled s e) (hstep : (indexer qt).step s e = some s') :
    Inv qt s' := by
  cases e with
  | search rootPath query =>
      obtain rfl := Option.some.inj hstep
      exact h.search hsettled
  | cancel =>
      obtain rfl := Option.some.inj hstep
      exact h.cancel hsettled
  | complete found =>
      obtain ⟨w, hw, hcomplete⟩ := Option.bind_eq_some_iff.mp hstep
      obtain ⟨w', hw', rfl⟩ := Option.map_eq_some_iff.mp hcomplete
      exact h.complete hw hw'
  | deliver =>
      obtain ⟨w, hw, hdeliver⟩ := Option.bind_eq_some_iff.mp hstep
      exact h.deliver hw hdeliver

theorem inv_of_settled (h : (indexer qt).ReachableWhere Settled s) : Inv qt s :=
  h.invariant (fun _ hs => hs ▸ inv_init) fun _ _ _ _ hs hsettled hstep => hs.step hsettled hstep

/-! ## An end that is in the queue -/

theorem exists_of_pending (h : s.pending = true) :
    ∃ call results, s.watched = some ⟨call, .finished results, true⟩ := by
  rw [State.pending] at h
  split at h
  · next call results hw => exact ⟨call, results, hw⟩
  · nomatch h

/-- What is in the queue is emitted, whoever may still ask for it. -/
theorem not_proper_deliver (hw : s.watched = some ⟨call, .finished results, true⟩)
    (hcurrent : current s.trace ≠ some call) :
    ∃ s', (indexer qt).step s .deliver = some s' ∧ ¬ Proper qt s'.trace := by
  have hstep : (indexer qt).step s .deliver = s.deliver ⟨call, .finished results, true⟩ := by
    change s.watched.bind s.deliver = _
    rw [hw, Option.bind_some]
  refine ⟨_, hstep.trans rfl, fun hproper => ?_⟩
  exact hcurrent (hproper call results s.trace (List.suffix_cons _ _)).1

/-- **A search that is cancelled while its end is in the queue** has its results emitted. -/
theorem not_proper_of_unsettled (h : Inv qt s) (hsettled : ¬ Settled s e)
    (hstep : (indexer qt).step s e = some s') :
    ∃ s'', (indexer qt).step s' .deliver = some s'' ∧ ¬ Proper qt s''.trace := by
  cases e with
  | complete found => exact absurd trivial hsettled
  | deliver => exact absurd trivial hsettled
  | cancel =>
      obtain rfl := Option.some.inj hstep
      obtain ⟨call, results, hw⟩ := exists_of_pending (Bool.of_not_eq_false hsettled)
      have hkept : (s.log .cancel).cancel.watched = some ⟨call, .finished results, true⟩ :=
        congrArg (Option.map Watched.cancel) hw
      exact not_proper_deliver hkept nofun
  | search rootPath query =>
      obtain rfl := Option.some.inj hstep
      obtain ⟨hquery, hpending⟩ := Classical.not_imp.mp hsettled
      obtain ⟨call, results, hw⟩ := exists_of_pending (Bool.of_not_eq_false hpending)
      have hsearch : s.search rootPath query =
          ⟨s.watched.map Watched.cancel, s.calls + 1, [.searchFinished false,
            .resultsFound ⟨s.calls, rootPath, query⟩ [], .search ⟨s.calls, rootPath, query⟩] ++
              s.trace⟩ := if_pos hquery
      have hkept : (s.search rootPath query).watched = some ⟨call, .finished results, true⟩ := by
        rw [hsearch]
        exact congrArg (Option.map Watched.cancel) hw
      refine not_proper_deliver hkept fun hcurrent => ?_
      rw [hsearch] at hcurrent
      have hnumber : s.calls = call.number := congrArg Call.number (Option.some.inj hcurrent)
      have hearlier : call.number < s.calls := (h.asked _ hw).2
      omega

end Steps

/-- **The results are of the latest query** as long as no search is cancelled, by `cancel` or by a
blank query, between its end and the event that says so; once one is, that event emits its results.
-/
theorem proper_of_settled (qt : Qt) (s : State) (h : (indexer qt).ReachableWhere Settled s) :
    Proper qt s.trace ∧ ∀ e s', (indexer qt).step s e = some s' → ¬ Settled s e →
      ∃ s'', (indexer qt).step s' .deliver = some s'' ∧ ¬ Proper qt s''.trace :=
  ⟨(inv_of_settled h).proper,
    fun _ _ hstep hsettled => not_proper_of_unsettled (inv_of_settled h) hsettled hstep⟩

/-- Texts are compared as they are. -/
def caseQt : Qt where
  compare a b := Ord.compare a b
  toLower text := text

def report : FileInfo :=
  ⟨"report.txt", "/home/nira/report.txt", false, "text/plain", 12, 0, false, true⟩

/-- A search that ends and is shown, and one that is cancelled while it runs. -/
def searchTwice : List Event :=
  [.search "/home/nira" "report", .complete [report], .deliver, .search "/home/nira" "rep",
    .cancel, .deliver]

theorem proper_searchTwice : ∃ s :
    State, Proper caseQt s.trace ∧ s.trace.head? = some (.searchFinished true) := by
  have hrun : ((indexer caseQt).runWhere Settled ⟨none, 0, []⟩ searchTwice).any
      (fun s => s.trace.head? = some (.searchFinished true)) = true := by
    decide +kernel
  obtain ⟨s, hs, htest⟩ := Transition.System.exists_reachableWhere_of_run rfl hrun
  exact ⟨s, (proper_of_settled caseQt s hs).1, of_decide_eq_true htest⟩

/-- The field is cleared right after the search has ended. -/
def clearedLate : List Event :=
  [.search "/home/nira" "report", .complete [report], .cancel, .deliver]

theorem not_proper_clearedLate : ∃ s, (indexer caseQt).Reachable s ∧ ¬ Proper caseQt s.trace := by
  have hrun : ((indexer caseQt).run ⟨none, 0, []⟩ clearedLate).any (fun s => s.trace =
      [.searchFinished false, .resultsFound ⟨0, "/home/nira", "report"⟩ [report.result], .cancel,
        .search ⟨0, "/home/nira", "report"⟩]) = true := by
    decide +kernel
  obtain ⟨s, hs, htest⟩ := Transition.System.exists_reachable_of_run rfl hrun
  refine ⟨s, hs, fun hproper => ?_⟩
  rw [of_decide_eq_true htest] at hproper
  nomatch (hproper _ _ _ (List.suffix_cons _ _)).1

end NiraOS.Files.Search
