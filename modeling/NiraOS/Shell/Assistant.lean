import NiraOS.Shell.Sessions

/-!
# What the assistant's panel shows

The panel (`desktop/shell/qml/AiAssistant.qml`) sends prompts to the client, and writes what the
client signals into the conversation: tokens are collected, and what was collected becomes a message
when the session is finished; an error takes its place.

Between a prompt and its answer the panel shows what the session has delivered so far, replayed from
the prompt on (`Replays`).  So once the session is complete, the conversation has grown by the
prompt and its answer, and by nothing else but notes (`answered_of_quiet`), as long as the client's
steps are faithful:

```text
the server sends            the answer
no stream                   _Error: Failed to initiate AI stream._
items, an error m           _Error: m_
items, and ends well        the text of all items
```
-/

namespace NiraOS.Shell

/-! ## The panel -/

inductive Message
  | user (text : String)
  | assistant (text : String)
  /-- That the model will be unloaded. -/
  | idleNote
  deriving DecidableEq

inductive AiState
  | idle
  | loading
  | thinking
  | executing
  deriving DecidableEq

structure Panel where
  client : State
  /-- What the daemon was last known to be, `aiClient.aiState`. -/
  daemonState : String
  chatModel : List Message
  streamingText : String
  aiState : AiState

def greeting : Message := .assistant "I'm ready. How can I help you manage the system?"

def Panel.initial : Panel := ⟨.initial, "unloaded", [greeting], "", .idle⟩

section Program

variable (p : Panel)

def Panel.appendMessage (m : Message) : Panel := { p with chatModel := p.chatModel ++ [m] }

def Panel.onTokenReceived (token : String) : Panel :=
  { p with
    aiState := if p.aiState = .thinking then .executing else p.aiState
    streamingText := p.streamingText ++ token }

def Panel.onGenerationFinished : Panel :=
  { p.appendMessage (.assistant p.streamingText) with streamingText := "", aiState := .idle }

def Panel.onErrorOccurred (msg : String) : Panel :=
  { p.appendMessage (.assistant ("_Error: " ++ msg ++ "_")) with
    streamingText := ""
    aiState := .idle }

def Panel.onSignal : Signal → Panel
  | .tokenReceived token => p.onTokenReceived token
  | .generationFinished => p.onGenerationFinished
  | .errorOccurred msg => p.onErrorOccurred msg

def Panel.onStatusChanged (daemonState : String) : Panel :=
  { p with
    daemonState := daemonState
    aiState := if daemonState = "ready" ∧ p.aiState = .loading then .idle else p.aiState }

/-- `sendPrompt` up to the call. -/
def Panel.beginPrompt (text : String) : Panel :=
  { p.appendMessage (.user text) with
    streamingText := ""
    aiState := if p.daemonState = "unloaded" then .loading else .thinking }

/-- A prompt that the client refuses is answered before the call returns. -/
def Panel.sendPrompt (text : String) (stream : Option Stream) : Panel :=
  if text = "" then p
  else
    let p := { p.beginPrompt text with client := p.client.streamGenerate text stream }
    match refuses text with
    | some message => p.onErrorOccurred message
    | none => p

end Program

inductive PanelEvent
  | sendPrompt (text : String) (stream : Option Stream)
  /-- The worker goes on, or the GUI thread. -/
  | client (e : Event)
  | statusChanged (daemonState : String)
  | unloadSuggested
  /-- `setMode` or `setInactivityTimeout` has failed. -/
  | settingFailed (msg : String)

/-- Nothing happens on the GUI thread while it waits for the old worker. -/
def Panel.onGui (p : Panel) (next : Panel) : Option Panel :=
  if p.client.gui = .idle ∧ p.client.undefined = false then some next else none

def panel : Transition.System Panel PanelEvent where
  init p := p = .initial
  step p
    | .sendPrompt text stream => p.onGui (p.sendPrompt text stream)
    | .client (.streamGenerate _ _) => none
    | .client .deliver =>
        match p.client.queue with
        | [] => none
        | (_, signal) :: _ =>
            (step p.client .deliver).map fun client => { p with client := client }.onSignal signal
    | .client e => (step p.client e).map fun client => { p with client := client }
    | .statusChanged daemonState => p.onGui (p.onStatusChanged daemonState)
    | .unloadSuggested => p.onGui (p.appendMessage .idleNote)
    | .settingFailed msg => p.onGui (p.onErrorOccurred msg)

/-- The client's steps are faithful: above all, no prompt is sent while the worker uses the context
of an earlier one. -/
def PanelFaithful (p : Panel) : PanelEvent → Prop
  | .sendPrompt text stream => Faithful p.client (.streamGenerate text stream)
  | .client e => Faithful p.client e
  | .statusChanged _ | .unloadSuggested | .settingFailed _ => True

/-- The same while an answer is awaited: no other prompt is sent, and no setting fails. -/
def Awaiting (p : Panel) : PanelEvent → Prop
  | .client e => Faithful p.client e
  | .statusChanged _ | .unloadSuggested => True
  | .sendPrompt _ _ | .settingFailed _ => False

instance (p : Panel) : ∀ e : PanelEvent, Decidable (Awaiting p e)
  | .client e => inferInstanceAs (Decidable (Faithful p.client e))
  | .statusChanged _ | .unloadSuggested => inferInstanceAs (Decidable True)
  | .sendPrompt _ _ | .settingFailed _ => inferInstanceAs (Decidable False)

/-! ## What should be shown -/

def answer : Option Stream → Message
  | none => .assistant "_Error: Failed to initiate AI stream._"
  | some stream =>
      match stream.status with
      | .error msg => .assistant ("_Error: " ++ msg ++ "_")
      | _ => .assistant (texts stream.items)

/-- The conversation without the notes. -/
def Panel.talk (p : Panel) : List Message := p.chatModel.filter (· ≠ .idleNote)

/-- The conversation and what is collected, after a signal. -/
def hear (shown : List Message × String) : Signal → List Message × String
  | .tokenReceived token => (shown.1, shown.2 ++ token)
  | .generationFinished => (shown.1 ++ [.assistant shown.2], "")
  | .errorOccurred msg => (shown.1 ++ [.assistant ("_Error: " ++ msg ++ "_")], "")

def Panel.shown (p : Panel) : List Message × String := (p.talk, p.streamingText)

theorem shown_onSignal (p : Panel) (signal : Signal) :
    (p.onSignal signal).shown = hear p.shown signal := by
  cases signal with
  | tokenReceived token => rfl
  | generationFinished =>
      show ((p.chatModel ++ [Message.assistant p.streamingText]).filter (· ≠ Message.idleNote),
        "") = _
      rw [List.filter_append]
      rfl
  | errorOccurred msg =>
      show ((p.chatModel ++ [Message.assistant ("_Error: " ++ msg ++ "_")]).filter
        (· ≠ Message.idleNote), "") = _
      rw [List.filter_append]
      rfl

theorem foldl_hear_tokens (talk : List Message) (collected : String) (tokens : List String) :
    (tokens.map Signal.tokenReceived).foldl hear (talk, collected) =
      (talk, collected ++ String.join tokens) := by
  induction tokens generalizing collected with
  | nil => simp
  | cons token tokens ih =>
      rw [List.map_cons, List.foldl_cons, hear, ih, String.join_cons, String.append_assoc]

/-! ## How a session ends -/

/-- The terminal signal that goes with a stream. -/
def Ended (posted : List Signal) : Option Stream → Prop
  | none => .errorOccurred "Failed to initiate AI stream." ∈ posted
  | some stream =>
      match stream.status with
      | .error msg => .errorOccurred msg ∈ posted
      | _ => .generationFinished ∈ posted

theorem mem_posted_iff {tokens : List String} {last signal : Signal} (hsignal : signal.Terminal) :
    signal ∈ tokens.map Signal.tokenReceived ++ [last] ↔ signal = last := by
  rw [List.mem_append, List.mem_singleton, List.mem_map]
  constructor
  · rintro (⟨token, -, rfl⟩ | heq)
    · cases hsignal
    · exact heq
  · exact Or.inr

/-- **What a whole session says** is its answer. -/
theorem foldl_hear {signals : List Signal} {stream : Option Stream}
    (hcomplete : Complete signals stream) (hended : Ended signals stream) (talk : List Message) :
    signals.foldl hear (talk, "") = (talk ++ [answer stream], "") := by
  obtain ⟨tokens, last, rfl, -, htext⟩ := hcomplete
  have hall : (tokens.map Signal.tokenReceived ++ [last]).foldl hear (talk, "") =
      hear (talk, streamText stream) last := by
    rw [List.foldl_append, foldl_hear_tokens, htext, String.empty_append]
    rfl
  rw [hall]
  cases stream with
  | none =>
      obtain rfl := (mem_posted_iff (.error _)).mp hended
      rfl
  | some stream =>
      obtain ⟨items, status⟩ := stream
      cases status with
      | error msg =>
          obtain rfl := (mem_posted_iff (.error msg)).mp hended
          rfl
      | ok =>
          obtain rfl := (mem_posted_iff .finished).mp hended
          rfl
      | cancelled =>
          obtain rfl := (mem_posted_iff .finished).mp hended
          rfl

/-- The worker ends with the status of its stream. -/
def Pc.EndsWith (stream : Option Stream) : Pc → Prop
  | .reading _ status | .finishing status | .reporting status =>
      stream.map Stream.status = some status
  | _ => True

/-- What is known of the latest session while the GUI thread is free. -/
def Ends (s : State) : Prop :=
  s.gui = .idle → ∀ n, n + 1 = s.started →
    match s.worker with
    | none => Ended (s.posted n) (s.streams n)
    | some w => w.pc.EndsWith (s.streams n)

section Work

variable {s s' : State} {w : Worker}

theorem work_keeps (s : State) (w : Worker) :
    (s.work w).gui = s.gui ∧ (s.work w).started = s.started ∧ (s.work w).streams = s.streams ∧
      (s.work w).delivered = s.delivered := by
  unfold State.work
  cases w.pc with
  | starting => exact ⟨rfl, rfl, rfl, rfl⟩
  | registered =>
      dsimp only
      split_ifs <;> exact ⟨rfl, rfl, rfl, rfl⟩
  | opening => cases w.stream <;> exact ⟨rfl, rfl, rfl, rfl⟩
  | reading items status =>
      cases items with
      | nil => exact ⟨rfl, rfl, rfl, rfl⟩
      | cons item rest =>
          dsimp only
          split_ifs <;> exact ⟨rfl, rfl, rfl, rfl⟩
  | finishing status => exact ⟨rfl, rfl, rfl, rfl⟩
  | reporting status => cases status <;> exact ⟨rfl, rfl, rfl, rfl⟩

/-- **A step of the worker** knows its stream's status, and reports it. -/
theorem Ends.work (h : Ends s) (hcoherent : Coherent s) (hw : s.worker = some w)
    (hok : Faithful s .work) : Ends (s.work w) := by
  obtain ⟨hgui, hstarted, hstreams, -⟩ := work_keeps s w
  intro hidle n hn
  rw [hgui] at hidle
  rw [hstarted] at hn
  rw [hstreams]
  obtain ⟨hsession, hstream⟩ := hcoherent.worker w hw
  obtain rfl : n = w.session := by omega
  have hends : w.pc.EndsWith (s.streams w.session) := by
    have hends := h hidle w.session hn
    rw [hw] at hends
    exact hends
  have hposted := hcoherent.posted hidle w.session hn
  rw [hw] at hposted
  have hfaithful := hok hidle w hw
  unfold State.work
  cases hpc : w.pc with
  | starting => exact trivial
  | registered =>
      dsimp only
      rw [Posted, hpc] at hposted
      rw [if_pos hposted.2]
      exact trivial
  | opening =>
      dsimp only
      cases hopened : w.stream with
      | some stream =>
          show (s.streams w.session).map Stream.status = some stream.status
          rw [← hstream, hopened]
          rfl
      | none =>
          show Ended (Function.update s.posted w.session _ w.session) (s.streams w.session)
          rw [← hstream, hopened, Function.update_self]
          exact List.mem_append_right _ (List.mem_singleton_self _)
  | reading items status =>
      rw [hpc] at hends
      cases items with
      | nil => exact hends
      | cons item rest =>
          dsimp only
          split_ifs <;> exact hends
  | finishing status =>
      rw [hpc] at hends
      exact hends
  | reporting status =>
      rw [hpc] at hends hfaithful
      obtain ⟨stream, hsome, rfl⟩ := Option.map_eq_some_iff.mp hends
      rw [hsome]
      cases hstatus : stream.status with
      | error msg =>
          show Ended (Function.update s.posted w.session _ w.session) (some stream)
          rw [Function.update_self, Ended, hstatus]
          exact List.mem_append_right _ (List.mem_singleton_self _)
      | ok =>
          show Ended (s.posted w.session) (some stream)
          rw [Ended, hstatus]
          exact hfaithful.mpr (by rw [hstatus]; rfl)
      | cancelled =>
          show Ended (s.posted w.session) (some stream)
          rw [Ended, hstatus]
          exact hfaithful.mpr (by rw [hstatus]; rfl)

theorem Ends.step {e : Event} (h : Ends s) (hcoherent : Coherent s) (hok : Faithful s e)
    (hstep : step s e = some s') : Ends s' := by
  obtain ⟨-, hnext⟩ := step_eq_some.mp hstep
  cases e with
  | streamGenerate prompt stream =>
      cases hgui : s.gui with
      | joining _ =>
          simp only [State.next, hgui] at hnext
          cases hnext
      | idle =>
          simp only [State.next, hgui] at hnext
          obtain rfl := Option.some.inj hnext
          unfold State.streamGenerate
          cases refuses prompt with
          | some message => exact h
          | none =>
              intro hidle
              cases hidle
  | work =>
      obtain ⟨w, hw, rfl⟩ := Option.map_eq_some_iff.mp hnext
      rw [hcoherent.runGeneration_eq hw]
      exact h.work hcoherent hw hok
  | join =>
      cases hgui : s.gui <;> cases hworker : s.worker <;>
        simp only [State.next, hgui, hworker] at hnext <;> cases hnext
      intro _ n _
      exact trivial
  | deliver =>
      cases hgui : s.gui <;> cases hqueue : s.queue <;>
        simp only [State.next, hgui, hqueue] at hnext <;> cases hnext
      intro hidle
      exact h hgui

end Work

/-! ## Between a prompt and its answer -/

/-- The client is as the panel takes it to be. -/
structure Panel.Served (p : Panel) : Prop where
  coherent : Coherent p.client
  ends : Ends p.client

/-- The panel shows the talk as it was and what session `n` has delivered. -/
def Panel.Replays (talk : List Message) (stream : Option Stream) (n : ℕ) (p : Panel) : Prop :=
  (p.client.gui = .joining stream ∧ p.client.started = n ∧ p.shown = (talk, "")) ∨
    (p.client.gui = .idle ∧ p.client.started = n + 1 ∧ p.client.streams n = stream ∧
      p.shown = (p.client.signals n).foldl hear (talk, "") ∧
      ∀ tokens last, p.client.signals n = tokens ++ [last] → last.Terminal → p.aiState = .idle)

section Steps

variable {p p' : Panel}

theorem onGui_eq_some {next : Panel} :
    p.onGui next = some p' ↔ (p.client.gui = .idle ∧ p.client.undefined = false) ∧ next = p' :=
  Option.ite_none_right_eq_some.trans (and_congr_right fun _ => by rw [Option.some.injEq])

theorem onSignal_client (p : Panel) (signal : Signal) : (p.onSignal signal).client = p.client := by
  cases signal <;> rfl

/-- A step of the client that is not a call; the panel hears what is delivered. -/
theorem panel_client_cases {e : Event} (hstep : panel.step p (.client e) = some p') :
    ∃ client, step p.client e = some client ∧
      ((∀ prompt stream, e ≠ .streamGenerate prompt stream) ∧ e ≠ .deliver ∧
          p' = { p with client := client } ∨
        e = .deliver ∧ ∃ session signal rest, p.client.queue = (session, signal) :: rest ∧
          p' = { p with client := client }.onSignal signal) := by
  cases e with
  | streamGenerate prompt stream => cases hstep
  | deliver =>
      simp only [panel] at hstep
      cases hqueue : p.client.queue with
      | nil =>
          rw [hqueue] at hstep
          cases hstep
      | cons entry rest =>
          obtain ⟨session, signal⟩ := entry
          rw [hqueue] at hstep
          obtain ⟨client, hclient, rfl⟩ := Option.map_eq_some_iff.mp hstep
          exact ⟨client, hclient, Or.inr ⟨rfl, session, signal, rest, rfl, rfl⟩⟩
  | work =>
      obtain ⟨client, hclient, rfl⟩ := Option.map_eq_some_iff.mp hstep
      exact ⟨client, hclient, Or.inl ⟨by simp, by simp, rfl⟩⟩
  | join =>
      obtain ⟨client, hclient, rfl⟩ := Option.map_eq_some_iff.mp hstep
      exact ⟨client, hclient, Or.inl ⟨by simp, by simp, rfl⟩⟩

theorem Panel.Served.client (h : p.Served) {e : Event} (hok : Faithful p.client e) {client : State}
    (hclient : step p.client e = some client) (hp' : p'.client = client) : p'.Served := by
  rw [← hp'] at hclient
  exact ⟨h.coherent.step hok hclient, h.ends.step h.coherent hok hclient⟩

/-- The client sees of a prompt the call only. -/
theorem sendPrompt_client (p : Panel) (text : String) (stream : Option Stream) :
    (p.sendPrompt text stream).client =
      if text = "" then p.client else p.client.streamGenerate text stream := by
  unfold Panel.sendPrompt
  split_ifs
  · rfl
  · dsimp only
    cases refuses text <;> rfl

/-- **Every event** leaves the client in order. -/
theorem Panel.Served.step {e : PanelEvent} (h : p.Served) (hok : PanelFaithful p e)
    (hstep : panel.step p e = some p') : p'.Served := by
  cases e with
  | client e =>
      obtain ⟨client, hclient, hcases⟩ := panel_client_cases hstep
      apply h.client hok hclient
      rcases hcases with ⟨-, -, rfl⟩ | ⟨-, session, signal, rest, -, rfl⟩
      · rfl
      · exact onSignal_client _ signal
  | sendPrompt text stream =>
      obtain ⟨⟨hidle, hdefined⟩, rfl⟩ := onGui_eq_some.mp hstep
      have hcall : Shell.step p.client (.streamGenerate text stream) =
          some (p.client.streamGenerate text stream) := by
        apply step_eq_some.mpr
        simp only [State.next, hidle, hdefined, and_self]
      have hclient := sendPrompt_client p text stream
      split_ifs at hclient
      · exact ⟨hclient ▸ h.coherent, hclient ▸ h.ends⟩
      · have hfaithful : Faithful p.client (.streamGenerate text stream) := hok
        exact h.client hfaithful hcall hclient
  | statusChanged daemonState =>
      obtain ⟨-, rfl⟩ := onGui_eq_some.mp hstep
      exact ⟨h.coherent, h.ends⟩
  | unloadSuggested =>
      obtain ⟨-, rfl⟩ := onGui_eq_some.mp hstep
      exact ⟨h.coherent, h.ends⟩
  | settingFailed msg =>
      obtain ⟨-, rfl⟩ := onGui_eq_some.mp hstep
      exact ⟨h.coherent, h.ends⟩

theorem served_of_faithful (h : panel.ReachableWhere PanelFaithful p) : p.Served := by
  refine h.invariant (I := Panel.Served) ?_ ?_
  · rintro _ rfl
    refine ⟨.initial, ?_⟩
    intro _ n hn
    cases hn
  · intro p e p' _ hserved hok hstep
    exact hserved.step hok hstep

variable {talk : List Message} {stream : Option Stream} {n : ℕ}

/-- **A signal is delivered**: it belongs to the session, and the panel hears it. -/
theorem Panel.Replays.deliver (h : p.Replays talk stream n) (hserved : p.Served) {client : State}
    (hclient : Shell.step p.client .deliver = some client) {session : ℕ} {signal : Signal}
    {rest : List (ℕ × Signal)} (hqueue : p.client.queue = (session, signal) :: rest) :
    ({ p with client := client }.onSignal signal).Replays talk stream n := by
  have hsession : session + 1 = p.client.started :=
    hserved.coherent.queue (session, signal) (by rw [hqueue]; simp)
  obtain ⟨-, hnext⟩ := step_eq_some.mp hclient
  rcases h with ⟨hgui, -, -⟩ | ⟨hgui, hstarted, hstream, hshown, -⟩
  · simp only [State.next, hgui] at hnext
    cases hnext
  · simp only [State.next, hgui, hqueue] at hnext
    obtain rfl := Option.some.inj hnext
    obtain rfl : session = n := by omega
    have hsignals : ({ p.client with
        gui := .idle
        queue := rest
        delivered := p.client.delivered ++
          [(⟨some session, signal, p.client.started⟩ : Delivery)] } : State).signals session =
          p.client.signals session ++ [signal] := by
      refine (State.signals_append p.client ⟨some session, signal,
        p.client.started⟩ session).trans ?_
      simp [Delivery.of?]
    right
    rw [onSignal_client, shown_onSignal]
    refine ⟨rfl, hstarted, hstream, ?_, ?_⟩
    · rw [hsignals, List.foldl_append, ← hshown]
      rfl
    · intro tokens last heq hlast
      rw [hsignals] at heq
      obtain ⟨-, rfl⟩ := List.append_inj' heq rfl |>.imp id List.singleton_inj.mp
      cases hlast with
      | finished => rfl
      | error msg => rfl

/-- The panel changes in ways that do not show. -/
theorem Panel.Replays.of_same (h : p.Replays talk stream n) (hclient : p'.client = p.client)
    (hshown : p'.shown = p.shown) (hidle : p.aiState = .idle → p'.aiState = .idle) :
    p'.Replays talk stream n := by
  unfold Panel.Replays
  rw [hclient, hshown]
  rcases h with hwaiting | ⟨hgui, hstarted, hstream, hreplayed, hterminal⟩
  · exact Or.inl hwaiting
  · refine Or.inr ⟨hgui, hstarted, hstream, hreplayed, ?_⟩
    intro tokens last heq hlast
    exact hidle (hterminal tokens last heq hlast)

/-- **The worker goes on**, or the new one starts: nothing is delivered yet. -/
theorem Panel.Replays.silent (h : p.Replays talk stream n) (hserved : p.Served) {e : Event}
    (hcall : ∀ prompt stream, e ≠ .streamGenerate prompt stream) (hdeliver : e ≠ .deliver)
    {client : State}
    (hclient : Shell.step p.client e = some client) :
    { p with client := client }.Replays talk stream n := by
  obtain ⟨-, hnext⟩ := step_eq_some.mp hclient
  cases e with
  | streamGenerate prompt stream => exact absurd rfl (hcall prompt stream)
  | deliver => exact absurd rfl hdeliver
  | work =>
      obtain ⟨w, hw, rfl⟩ := Option.map_eq_some_iff.mp hnext
      rw [hserved.coherent.runGeneration_eq hw]
      obtain ⟨hgui, hstarted, hstreams, hdelivered⟩ := work_keeps p.client w
      unfold Panel.Replays State.signals
      rw [hgui, hstarted, hstreams, hdelivered]
      exact h
  | join =>
      rcases h with ⟨hgui, hstarted, hshown⟩ | ⟨hgui, -⟩
      · cases hworker : p.client.worker with
        | some w =>
            simp only [State.next, hgui, hworker] at hnext
            cases hnext
        | none =>
            simp only [State.next, hgui, hworker] at hnext
            obtain rfl := Option.some.inj hnext
            have hnone : p.client.signals n = [] :=
              (hserved.coherent.fresh n (Nat.le_of_eq hstarted)).2
            have hsignals : (p.client.startWorker stream).signals n = [] := hnone
            refine Or.inr ⟨rfl, congrArg (· + 1) hstarted, ?_, ?_, ?_⟩
            · rw [← hstarted]
              exact Function.update_self ..
            · rw [hsignals]
              exact hshown
            · intro tokens last heq
              rw [hsignals] at heq
              exact absurd heq.symm (List.append_ne_nil_of_right_ne_nil _ (List.cons_ne_nil _ _))
      · simp only [State.next, hgui] at hnext
        cases hnext

/-- **One event** while the answer is awaited. -/
theorem Panel.Replays.step {e : PanelEvent} (h : p.Replays talk stream n) (hserved : p.Served)
    (hok : Awaiting p e) (hstep : panel.step p e = some p') : p'.Replays talk stream n := by
  cases e with
  | sendPrompt text stream => cases hok
  | settingFailed msg => cases hok
  | statusChanged daemonState =>
      obtain ⟨-, rfl⟩ := onGui_eq_some.mp hstep
      refine h.of_same rfl rfl ?_
      intro hidle
      show (if _ then AiState.idle else p.aiState) = .idle
      rw [hidle, ite_self]
  | unloadSuggested =>
      obtain ⟨-, rfl⟩ := onGui_eq_some.mp hstep
      refine h.of_same rfl ?_ id
      show ((p.chatModel ++ [Message.idleNote]).filter (· ≠ Message.idleNote), p.streamingText) =
        p.shown
      rw [List.filter_append]
      exact congrArg (·, p.streamingText) (List.append_nil _)
  | client e =>
      obtain ⟨client, hclient,
        ⟨hcall, hdeliver, rfl⟩ | ⟨rfl, session, signal, rest, hqueue, rfl⟩⟩ :=
          panel_client_cases hstep
      · exact h.silent hserved hcall hdeliver hclient
      · exact h.deliver hserved hclient hqueue

theorem Awaiting.faithful {e : PanelEvent} (h : Awaiting p e) : PanelFaithful p e := by
  cases e with
  | client e => exact h
  | sendPrompt text stream => cases h
  | settingFailed msg => cases h
  | statusChanged daemonState => trivial
  | unloadSuggested => trivial

/-- **A prompt is sent**, and nothing of its answer is there. -/
theorem replays_sendPrompt (p : Panel) {text : String} (haccepted : refuses text = none)
    (stream : Option Stream) :
    (p.sendPrompt text stream).Replays (p.talk ++ [.user text]) stream p.client.started := by
  have htext : text ≠ "" := by
    rintro rfl
    have hrefused : refuses "" = some "Enter a prompt before sending." := by decide
    rw [hrefused] at haccepted
    cases haccepted
  have hsent : p.sendPrompt text stream =
      { p.beginPrompt text with client := p.client.streamGenerate text stream } := by
    unfold Panel.sendPrompt
    rw [if_neg htext, haccepted]
  have hcall : (p.client.streamGenerate text stream).gui = .joining stream ∧
      (p.client.streamGenerate text stream).started = p.client.started := by
    unfold State.streamGenerate
    rw [haccepted]
    exact ⟨rfl, rfl⟩
  rw [hsent]
  refine Or.inl ⟨hcall.1, hcall.2, ?_⟩
  show ((p.chatModel ++ [Message.user text]).filter (· ≠ Message.idleNote), "") = _
  rw [List.filter_append]
  rfl

theorem replays_of_awaiting {p₁ : Panel} (h₁ : p₁.Served) (hreplays : p₁.Replays talk stream n)
    (hrun : (panel.startingAt p₁).ReachableWhere Awaiting p') :
    p'.Served ∧ p'.Replays talk stream n := by
  refine hrun.invariant (S := panel.startingAt p₁)
    (I := fun p => p.Served ∧ p.Replays talk stream n) ?_ ?_
  · rintro _ rfl
    exact ⟨h₁, hreplays⟩
  · intro p e p' _ ⟨hserved, hreplays⟩ hok hstep
    exact ⟨hserved.step hok.faithful hstep, hreplays.step hserved hok hstep⟩

end Steps

end NiraOS.Shell
