import NiraOS.Greeter.Dialogue

/-!
# The conversation with greetd

The greeter and greetd, message by message.  greetd sends a message in answer to a request and at no
other time (`Proper`); what it has sent and the greeter has not handled waits in a queue, which is
lost with the connection.

The two take turns (`InStep`).  The greeter writes a request when

```text
connected        create_session                     nothing was written before
auth_message     the password, or acknowledgement   the prompt was the answer
submitPassword   the password                       it waits for the user
startSession     start_session                      it is authenticated
```

so in the last two cases nothing may be under way: whenever it is the user's turn (`UsersTurn`),
every request has been answered and every answer handled.
-/

namespace NiraOS.Greeter

/-! ## What was said on a connection -/

/-- The messages that were written. -/
def writtenMessages (log : List Record) : List JsonObject :=
  log.filterMap fun
    | .wrote message => some message
    | _ => none

namespace GreeterIPC

/-- What the greeter has written on this connection. -/
def requests (g : GreeterIPC) : List JsonObject := writtenMessages (current g.log)

/-- What the greeter has handled on this connection. -/
def answers (g : GreeterIPC) : List JsonObject := handledMessages (current g.log)

/-- From `g` to `g'` these messages are written and these handled, on one connection. -/
def Says (g g' : GreeterIPC) (wrote handled : List JsonObject) : Prop :=
  ∃ records, g'.log = g.log ++ records ∧ (∀ r ∈ records, ¬ r.IsAttempt) ∧
    writtenMessages records = wrote ∧
    handledMessages records = handled

section Says

variable {g g' g'' : GreeterIPC} {wrote wrote' handled handled' : List JsonObject}

theorem Says.requests (h : Says g g' wrote handled) : g'.requests = g.requests ++ wrote := by
  obtain ⟨records, hlog, hsame, rfl, -⟩ := h
  rw [GreeterIPC.requests, hlog, current_append hsame]
  exact List.filterMap_append ..

theorem Says.answers (h : Says g g' wrote handled) : g'.answers = g.answers ++ handled := by
  obtain ⟨records, hlog, hsame, -, rfl⟩ := h
  rw [GreeterIPC.answers, hlog, current_append hsame, handledMessages_append]
  rfl

theorem Says.trans (h : Says g g' wrote handled) (h' : Says g' g'' wrote' handled') :
    Says g g'' (wrote ++ wrote') (handled ++ handled') := by
  obtain ⟨records, hlog, hsame, rfl, rfl⟩ := h
  obtain ⟨records', hlog', hsame', rfl, rfl⟩ := h'
  refine ⟨records ++ records', ?_, ?_, List.filterMap_append .., handledMessages_append ..⟩
  · rw [hlog', hlog, List.append_assoc]
  · intro r hr
    exact (List.mem_append.mp hr).elim (hsame r) (hsame' r)

theorem Says.of_log_eq (h : g'.log = g.log) : Says g g' [] [] := by
  refine ⟨[], ?_, ?_, rfl, rfl⟩
  · rw [h, List.append_nil]
  · intro r hr
    cases hr

/-- Signals are heard by nobody on the connection. -/
theorem says_emitted (g : GreeterIPC) (signals : List Signal) :
    Says g (g.record (signals.map .emitted)) [] [] := by
  refine ⟨signals.map .emitted, rfl, ?_, ?_, ?_⟩
  · intro r hr hattempt
    obtain ⟨signal, -, rfl⟩ := List.mem_map.mp hr
    exact hattempt
  · rw [writtenMessages, List.filterMap_map]
    exact List.filterMap_eq_nil_iff.mpr fun _ _ => rfl
  · rw [handledMessages, List.filterMap_map]
    exact List.filterMap_eq_nil_iff.mpr fun _ _ => rfl

theorem says_sendJson (hsocket : g.socket = .connected) (object : JsonObject) :
    Says g (g.sendJson object) [object] [] := by
  rw [sendJson, if_pos hsocket]
  refine ⟨[.wrote object], rfl, ?_, rfl, rfl⟩
  intro r hr hattempt
  obtain rfl := List.mem_singleton.mp hr
  exact hattempt

/-! ## What the handlers say -/

theorem says_submitPassword (hsocket : g.socket = .connected) (password : String) :
    Says g (g.submitPassword password) (if g.phase.Open then [postAuthMessageResponse password]
      else []) [] := by
  unfold submitPassword
  by_cases hopen : g.phase.Open
  · have hdialogue : ¬ (g.phase ≠ .creatingSession ∧ g.phase ≠ .authenticating) :=
      fun h => not_or.mpr h hopen
    rw [if_pos hopen, if_neg hdialogue]
    apply says_sendJson
    exact hsocket
  · rw [if_neg hopen, if_pos (not_or.mp hopen)]
    exact .of_log_eq rfl

theorem says_startSession (hsocket : g.socket = .connected) :
    Says g g.startSession (if g.phase = .authenticated then [startSessionRequest] else []) [] := by
  unfold startSession
  by_cases hphase : g.phase = .authenticated
  · rw [if_pos hphase, if_neg (not_not.mpr hphase)]
    have hshown : Says g ({ g with
        phase := .startingSession, statusMessage := "Starting session..." }.record
        [.emitted .statusChanged]) [] [] := says_emitted _ [.statusChanged]
    refine hshown.trans ?_
    apply says_sendJson
    exact hsocket
  · rw [if_neg hphase, if_pos hphase]
    exact .of_log_eq rfl

theorem says_sendCreateSession (hsocket : g.socket = .connected)
    (hphase : g.phase = .creatingSession) :
    Says g g.sendCreateSession [createSession g.currentUser] [] := by
  unfold sendCreateSession
  rw [if_neg (not_not.mpr hphase)]
  exact (says_sendJson hsocket (createSession g.currentUser)).trans
    (says_emitted { g.sendJson (createSession g.currentUser) with
      statusMessage := "Authenticating..." } [.statusChanged])

theorem says_onError (g : GreeterIPC) (errorString : String) :
    Says g (g.onError errorString) [] [] := by
  unfold onError
  split_ifs
  · exact .of_log_eq rfl
  · exact says_emitted _ [.statusChanged, .authFailed _]

/-- What a message is answered with. -/
def reply (g : GreeterIPC) (message : JsonObject) : List JsonObject :=
  if CredentialPrompt message then
    if g.credentialSubmitted = false ∧
      g.phase.Open then [postAuthMessageResponse g.pendingPassword] else []
  else if Notice message then [acknowledge]
  else []

theorem says_handlePrompt (hsocket : g.socket = .connected) {message : JsonObject}
    (htype : field message "type" = "auth_message") :
    Says g (g.handlePrompt message) (g.reply message) [] := by
  have hshown : Says g (g.shown message) [] [] := says_emitted _ [.statusChanged]
  rw [handlePrompt_eq g message htype, reply]
  by_cases hcredential : CredentialPrompt message
  · rw [if_pos hcredential, if_pos hcredential]
    by_cases hfirst : g.credentialSubmitted = false
    · rw [if_pos hfirst]
      simp only [hfirst, true_and]
      exact hshown.trans (says_submitPassword (g :=
        { g.shown message with pendingPassword := "" }) hsocket _)
    · rw [if_neg hfirst, if_neg fun h => hfirst h.1]
      exact hshown.trans (says_emitted { g.shown message with
        awaitingResponse := true } [.statusChanged])
  · rw [if_neg hcredential, if_neg hcredential]
    by_cases hnotice : Notice message
    · rw [if_pos hnotice, if_pos hnotice]
      refine hshown.trans ?_
      apply says_sendJson
      exact hsocket
    · rw [if_neg hnotice, if_neg hnotice]
      exact hshown

theorem reply_of_other {message : JsonObject} (htype : field message "type" ≠ "auth_message") :
    g.reply message = [] := by
  rw [reply, if_neg fun h => htype h.1, if_neg fun h => htype h.1]

theorem says_dispatch (hsocket : g.socket = .connected) (message : JsonObject) :
    Says g (g.dispatch message) (g.reply message) [] := by
  unfold dispatch
  split_ifs with hprompt
  · exact says_handlePrompt hsocket hprompt
  · rw [reply_of_other hprompt]
    unfold handleSuccess
    split_ifs
    · exact says_emitted _ [.statusChanged]
    · exact says_emitted _ [.statusChanged, .authSucceeded]
  · rw [reply_of_other hprompt]
    exact says_emitted _ [.statusChanged, .authFailed _]
  · rw [reply_of_other hprompt]
    exact .of_log_eq rfl

/-- **A message is handled**, and answered with one message at most. -/
theorem says_handleMessage (hsocket : g.socket = .connected) (message : JsonObject) :
    Says g (g.handleMessage message) (g.reply message) [message] := by
  have hhandled : Says (g.dispatch message) (g.handleMessage message) [] [message] := by
    refine ⟨[.handled message (g.dispatch message).phase], rfl, ?_, rfl, rfl⟩
    intro r hr hattempt
    obtain rfl := List.mem_singleton.mp hr
    exact hattempt
  have hsaid := (says_dispatch hsocket message).trans hhandled
  rwa [List.append_nil] at hsaid

end Says

end GreeterIPC

/-! ## The conversation -/

/-- What the greeter does of its own, on the login screen and on the socket; reading is not of it.
-/
def act (g : GreeterIPC) : Event → Option GreeterIPC
  | .readyRead _ => none
  | e => step (fun _ => none) g e

structure Conversation where
  greeter : GreeterIPC
  /-- What greetd has sent on this connection. -/
  sent : List JsonObject
  /-- What of it the greeter has not handled. -/
  queue : List JsonObject

inductive Turn
  | greeter (e : Event)
  | reply (message : JsonObject)
  | deliver

namespace Conversation

/-- The greeter goes on; with the connection goes what was sent on it. -/
def goOn (c : Conversation) (g : GreeterIPC) : Conversation :=
  if g.socket = .connected then { c with greeter := g } else ⟨g, [], []⟩

def step (c : Conversation) : Turn → Option Conversation
  | .greeter e => (act c.greeter e).map c.goOn
  | .reply message =>
      if c.greeter.socket = .connected then
        some { c with sent := c.sent ++ [message], queue := c.queue ++ [message] }
      else none
  | .deliver =>
      match c.queue with
      | [] => none
      | message :: queue =>
          if c.greeter.socket = .connected then
            some { c with greeter := c.greeter.handleMessage message, queue := queue }
          else none

def system : Transition.System Conversation Turn where
  init c := c = ⟨.new, [], []⟩
  step := step

/-- greetd answers requests, each once. -/
def Proper (c : Conversation) : Turn → Prop
  | .reply _ => c.sent.length < c.greeter.requests.length
  | _ => True

end Conversation

/-! ## Taking turns -/

/-- The greeter waits for the user: for a password, or to start the session. -/
def GreeterIPC.UsersTurn (g : GreeterIPC) : Prop :=
  g.awaitingResponse = true ∨ g.phase = .authenticated

theorem GreeterIPC.usersTurn_congr {g g' : GreeterIPC} (h : g'.core = g.core) :
    g'.UsersTurn ↔ g.UsersTurn := by
  have hawaiting : g'.awaitingResponse = g.awaitingResponse := congrArg Core.awaitingResponse h
  have hphase : g'.phase = g.phase := congrArg Core.phase h
  rw [GreeterIPC.UsersTurn, hawaiting, hphase]
  rfl

/-- **The two take turns.** -/
structure InStep (c : Conversation) : Prop where
  /-- Before the connection is there. -/
  fresh : c.greeter.socket = .connecting →
    c.greeter.requests = [] ∧ c.greeter.answers = [] ∧ c.greeter.phase = .creatingSession ∧
      c.greeter.awaitingResponse = false
  apart : c.greeter.socket ≠ .connected → c.sent = [] ∧ c.queue = []
  order : c.greeter.socket = .connected → c.sent = c.greeter.answers ++ c.queue
  bounded : c.greeter.socket = .connected → c.sent.length ≤ c.greeter.requests.length ∧
    c.greeter.requests.length ≤ c.greeter.answers.length + 1
  idle : c.greeter.socket = .connected → c.greeter.UsersTurn →
    c.greeter.requests.length = c.greeter.answers.length
  settled : c.greeter.socket = .connected → c.greeter.phase = .authenticated →
    c.greeter.awaitingResponse = false

section InStep

variable {c c' : Conversation} {g : GreeterIPC} {wrote : List JsonObject}

theorem Conversation.goOn_of_connected (hsocket : g.socket = .connected) :
    c.goOn g = { c with greeter := g } :=
  if_pos hsocket

theorem Conversation.goOn_of_not_connected (hsocket : g.socket ≠ .connected) :
    c.goOn g = ⟨g, [], []⟩ :=
  if_neg hsocket

theorem InStep.closed (hsocket : g.socket = .unconnected) : InStep (c.goOn g) := by
  have hclosed : g.socket ≠ .connected := by
    rw [hsocket]
    decide
  rw [Conversation.goOn_of_not_connected hclosed]
  refine ⟨fun h => ?_, fun _ => ⟨rfl, rfl⟩, fun h => absurd h hclosed, fun h => absurd h hclosed,
    fun h => absurd h hclosed, fun h => absurd h hclosed⟩
  cases hsocket.symm.trans h

/-- A new attempt begins with nothing said. -/
theorem InStep.attempt (hsocket : g.socket = .connecting)
    (hfresh : g.requests = [] ∧ g.answers = [] ∧
    g.phase = .creatingSession ∧ g.awaitingResponse = false) : InStep (c.goOn g) := by
  have hclosed : g.socket ≠ .connected := by
    rw [hsocket]
    decide
  rw [Conversation.goOn_of_not_connected hclosed]
  exact ⟨fun _ => hfresh, fun _ => ⟨rfl, rfl⟩, fun h => absurd h hclosed, fun h => absurd h hclosed,
    fun h => absurd h hclosed, fun h => absurd h hclosed⟩

/-- On a connection the greeter speaks of its own only when it is the user's turn. -/
theorem InStep.speak (h : InStep c) (hconnected : c.greeter.socket = .connected)
    (hsocket : g.socket = .connected)
    (hsaid : c.greeter.Says g wrote [])
    (hwrote : wrote = [] ∨ wrote.length = 1 ∧ c.greeter.UsersTurn)
    (hturn : g.UsersTurn → wrote = [] ∧ c.greeter.UsersTurn)
    (hsettled : g.phase = .authenticated → g.awaitingResponse = false) : InStep (c.goOn g) := by
  obtain ⟨hsent, hrequests⟩ := h.bounded hconnected
  have hanswers : g.answers = c.greeter.answers := by rw [hsaid.answers, List.append_nil]
  have hlength : g.requests.length = c.greeter.requests.length + wrote.length := by
    rw [hsaid.requests, List.length_append]
  rw [Conversation.goOn_of_connected hsocket]
  refine ⟨fun hconnecting => ?_, fun hclosed => absurd hsocket hclosed, fun _ => ?_, fun _ => ?_,
    fun _ husers => ?_,
    fun _ => hsettled⟩
  · cases hsocket.symm.trans hconnecting
  · rw [hanswers]
    exact h.order hconnected
  · dsimp only
    rw [hanswers, hlength]
    rcases hwrote with rfl | ⟨hone, husers⟩
    · exact ⟨hsent, hrequests⟩
    · have hidle := h.idle hconnected husers
      omega
  · obtain ⟨rfl, husers⟩ := hturn husers
    dsimp only
    rw [hanswers, hlength, List.length_nil, Nat.add_zero]
    exact h.idle hconnected husers

/-- Where nothing is said and nothing of weight changes, nothing happens. -/
theorem InStep.same (h : InStep c) (hcore : g.core = c.greeter.core)
    (hsaid : c.greeter.Says g [] []) :
    InStep (c.goOn g) := by
  have hsocket : g.socket = c.greeter.socket := congrArg Core.socket hcore
  have hphase : g.phase = c.greeter.phase := congrArg Core.phase hcore
  have hawaiting : g.awaitingResponse = c.greeter.awaitingResponse :=
    congrArg Core.awaitingResponse hcore
  cases hc : c.greeter.socket with
  | unconnected => exact .closed (hsocket.trans hc)
  | connecting =>
      refine .attempt (hsocket.trans hc) ?_
      rw [hsaid.requests, hsaid.answers, List.append_nil, List.append_nil, hphase, hawaiting]
      exact h.fresh hc
  | connected =>
      refine h.speak hc (hsocket.trans hc) hsaid (.inl rfl) (fun husers => ⟨rfl, ?_⟩) ?_
      · exact (GreeterIPC.usersTurn_congr hcore).mp husers
      · rw [hphase, hawaiting]
        exact h.settled hc

/-! ### What the greeter does of its own -/

theorem current_attempt (log : List Record) (signal : Signal) (user : String) :
    current (log ++ [.emitted signal, .attempt user]) = [] := by
  rw [current, List.reverse_append]
  rfl

theorem InStep.startAuth (h : InStep c) (username password : String) :
    InStep (c.goOn (c.greeter.startAuth username password)) := by
  have hcore := c.greeter.core_startAuth username password
  by_cases hempty : Text.trim username = ""
  · rw [if_pos hempty] at hcore
    refine h.same hcore ?_
    unfold GreeterIPC.startAuth
    dsimp only
    rw [if_pos hempty]
    exact GreeterIPC.says_emitted _ [.statusChanged, .authFailed _]
  · rw [if_neg hempty] at hcore
    refine .attempt (congrArg Core.socket hcore) ⟨?_, ?_, congrArg Core.phase hcore,
      congrArg Core.awaitingResponse hcore⟩
    · unfold GreeterIPC.startAuth
      dsimp only
      rw [if_neg hempty]
      exact congrArg writtenMessages (current_attempt _ _ _)
    · unfold GreeterIPC.startAuth
      dsimp only
      rw [if_neg hempty]
      exact congrArg handledMessages (current_attempt _ _ _)

theorem InStep.submitPassword (h : InStep c) (hawaiting : c.greeter.awaitingResponse = true)
    (password : String) :
    InStep (c.goOn (c.greeter.submitPassword password)) := by
  have hcore := c.greeter.core_submitPassword password
  cases hc : c.greeter.socket with
  | unconnected =>
      refine .closed ?_
      rw [← hc]
      exact (SameStream.submitPassword ..).1
  | connecting => cases hawaiting.symm.trans (h.fresh hc).2.2.2
  | connected =>
      have hsaid := c.greeter.says_submitPassword hc password
      by_cases hopen : c.greeter.phase.Open
      · have hopen' : c.greeter.core.phase.Open := hopen
        rw [Core.submitted, if_pos hopen'] at hcore
        rw [if_pos hopen] at hsaid
        have hphase : (c.greeter.submitPassword password).phase = .authenticating :=
          congrArg Core.phase hcore
        have hanswered : (c.greeter.submitPassword password).awaitingResponse = false :=
          congrArg Core.awaitingResponse hcore
        refine h.speak hc ((SameStream.submitPassword ..).1.trans hc) hsaid
          (.inr ⟨rfl, .inl hawaiting⟩) ?_ fun _ => hanswered
        rintro (hwaiting | hauthenticated)
        · cases hanswered.symm.trans hwaiting
        · cases hphase.symm.trans hauthenticated
      · have hclosed : ¬ c.greeter.core.phase.Open := hopen
        rw [Core.submitted, if_neg hclosed] at hcore
        rw [if_neg hopen] at hsaid
        exact h.same hcore hsaid

theorem InStep.startSession (h : InStep c) : InStep (c.goOn c.greeter.startSession) := by
  have hcore := c.greeter.core_startSession
  by_cases hphase : c.greeter.phase = .authenticated
  · rw [if_pos hphase] at hcore
    have hsocket : c.greeter.startSession.socket = c.greeter.socket := congrArg Core.socket hcore
    cases hc : c.greeter.socket with
    | unconnected => exact .closed (hsocket.trans hc)
    | connecting => cases hphase.symm.trans (h.fresh hc).2.2.1
    | connected =>
        have hsaid := GreeterIPC.says_startSession hc
        rw [if_pos hphase] at hsaid
        have hstarting : c.greeter.startSession.phase = .startingSession :=
          congrArg Core.phase hcore
        have hawaiting : c.greeter.startSession.awaitingResponse = false :=
          (congrArg Core.awaitingResponse hcore).trans (h.settled hc hphase)
        refine h.speak hc (hsocket.trans hc) hsaid (.inr ⟨rfl, .inr hphase⟩) ?_ fun _ => hawaiting
        rintro (hwaiting | hauthenticated)
        · cases hawaiting.symm.trans hwaiting
        · cases hstarting.symm.trans hauthenticated
  · rw [if_neg hphase] at hcore
    refine h.same hcore (.of_log_eq ?_)
    unfold GreeterIPC.startSession
    rw [if_pos hphase]

/-- The connection is there, and `create_session` is the first that is said. -/
theorem InStep.connected (h : InStep c) (hconnecting : c.greeter.socket = .connecting) :
    InStep (c.goOn { c.greeter with socket := .connected }.sendCreateSession) := by
  obtain ⟨hrequests, hanswers, hphase, hawaiting⟩ := h.fresh hconnecting
  have hclosed : c.greeter.socket ≠ .connected := by
    rw [hconnecting]
    decide
  obtain ⟨hsent, hqueue⟩ := h.apart hclosed
  generalize hg : ({ c.greeter with socket := .connected } : GreeterIPC) = g
  have hsaid : g.Says g.sendCreateSession [createSession g.currentUser] [] := by
    subst hg
    exact GreeterIPC.says_sendCreateSession rfl hphase
  have hrequests' : g.sendCreateSession.requests = [createSession g.currentUser] := by
    rw [hsaid.requests, ← hg]
    exact congrArg (· ++ [_]) hrequests
  have hanswers' : g.sendCreateSession.answers = [] := by
    rw [hsaid.answers, ← hg]
    exact congrArg (· ++ []) hanswers
  have hcore : g.sendCreateSession.core = g.core := g.core_sendCreateSession
  have hsocket : g.sendCreateSession.socket = .connected := by
    subst hg
    exact congrArg Core.socket hcore
  have hphase' : g.sendCreateSession.phase = .creatingSession := by
    subst hg
    exact (congrArg Core.phase hcore).trans hphase
  have hawaiting' : g.sendCreateSession.awaitingResponse = false := by
    subst hg
    exact (congrArg Core.awaitingResponse hcore).trans hawaiting
  rw [Conversation.goOn_of_connected hsocket]
  refine ⟨fun hnot => ?_, fun hnot => absurd hsocket hnot, fun _ => ?_, fun _ => ?_,
    fun _ husers => ?_, fun _ _ => hawaiting'⟩
  · cases hsocket.symm.trans hnot
  · dsimp only
    rw [hanswers', hsent, hqueue]
    rfl
  · dsimp only
    rw [hanswers', hrequests', hsent]
    exact ⟨Nat.zero_le _, Nat.le_refl _⟩
  · rcases husers with hwaiting | hauthenticated
    · cases hawaiting'.symm.trans hwaiting
    · cases hphase'.symm.trans hauthenticated

theorem InStep.onError (h : InStep c) (hconnected : c.greeter.socket = .connected)
    (errorString : String) :
    InStep (c.goOn { c.greeter.onError errorString with socket := .connected }) := by
  have hcore := c.greeter.core_onError errorString
  have hsaid : c.greeter.Says { c.greeter.onError errorString with socket := .connected } [] [] :=
    c.greeter.says_onError errorString
  by_cases hstarting : c.greeter.phase = .startingSession
  · rw [if_pos hstarting] at hcore
    refine h.same ?_ hsaid
    rw [← hcore]
    have hsocket : (c.greeter.onError errorString).socket = .connected :=
      (congrArg Core.socket hcore).trans hconnected
    rw [GreeterIPC.core, GreeterIPC.core, hsocket]
  · rw [if_neg hstarting] at hcore
    have hphase : (c.greeter.onError errorString).phase = .idle := congrArg Core.phase hcore
    have hawaiting : (c.greeter.onError errorString).awaitingResponse = false :=
      congrArg Core.awaitingResponse hcore
    refine h.speak hconnected rfl hsaid (.inl rfl) ?_ fun _ => hawaiting
    rintro (hwaiting | hauthenticated)
    · cases hawaiting.symm.trans hwaiting
    · cases hphase.symm.trans hauthenticated

theorem InStep.act (h : InStep c) {e : Event} (hact : Greeter.act c.greeter e = some g) :
    InStep (c.goOn g) := by
  cases e with
  | startAuth username password =>
      obtain rfl := Option.some.inj hact
      exact h.startAuth username password
  | submitPassword password =>
      obtain ⟨hawaiting, hg⟩ := Option.ite_none_right_eq_some.mp hact
      obtain rfl := Option.some.inj hg
      exact h.submitPassword hawaiting password
  | startSession =>
      obtain rfl := Option.some.inj hact
      exact h.startSession
  | connected =>
      obtain ⟨hconnecting, hg⟩ := Option.ite_none_right_eq_some.mp hact
      obtain rfl := Option.some.inj hg
      exact h.connected hconnecting
  | readyRead bytes => cases hact
  | error errorString closes =>
      simp only [Greeter.act, Greeter.step] at hact
      cases hc : c.greeter.socket with
      | unconnected =>
          rw [hc] at hact
          cases hact
      | connecting =>
          rw [hc] at hact
          obtain rfl := Option.some.inj hact
          exact .closed rfl
      | connected =>
          rw [hc] at hact
          obtain rfl := Option.some.inj hact
          cases closes with
          | true => exact .closed rfl
          | false => exact h.onError hc errorString
  | disconnected =>
      obtain ⟨-, hg⟩ := Option.ite_none_right_eq_some.mp hact
      obtain rfl := Option.some.inj hg
      exact .closed rfl

/-! ### What greetd says -/

theorem InStep.reply (h : InStep c) (hconnected : c.greeter.socket = .connected)
    (message : JsonObject)
    (hasked : c.sent.length < c.greeter.requests.length) :
    InStep { c with sent := c.sent ++ [message], queue := c.queue ++ [message] } := by
  refine ⟨h.fresh, fun hclosed => absurd hconnected hclosed, fun _ => ?_, fun _ => ?_,
    h.idle, h.settled⟩
  · dsimp only
    rw [h.order hconnected, List.append_assoc]
  · dsimp only
    rw [List.length_append, List.length_singleton]
    exact ⟨hasked, (h.bounded hconnected).2⟩

/-- The core of the greeter when it has written an answer: it does not wait for the user. -/
theorem not_usersTurn_of_reply {message : JsonObject} (hreply : g.reply message ≠ [])
    (hturn : ¬ g.UsersTurn) :
    ¬ (g.handleMessage message).UsersTurn := by
  have hcore := g.core_handleMessage message
  unfold GreeterIPC.reply at hreply
  by_cases hcredential : CredentialPrompt message
  · rw [if_pos hcredential] at hreply hcore
    have hfirst : g.credentialSubmitted = false ∧ g.phase.Open := by
      by_contra hnot
      exact hreply (if_neg hnot)
    have hfirst' : g.core.credentialSubmitted = false := hfirst.1
    have hopen : ({ g.core with pendingPassword := "" } : Core).phase.Open := hfirst.2
    rw [Core.prompted, if_pos hfirst', Core.submitted, if_pos hopen] at hcore
    rintro (hwaiting | hauthenticated)
    · cases (congrArg Core.awaitingResponse hcore).symm.trans hwaiting
    · cases (congrArg Core.phase hcore).symm.trans hauthenticated
  · rw [if_neg hcredential] at hreply hcore
    have hnotice : Notice message := by
      by_contra hnot
      exact hreply (if_neg hnot)
    have hsuccess : field message "type" ≠ "success" := by
      rw [hnotice.1]
      decide
    have herror : field message "type" ≠ "error" := by
      rw [hnotice.1]
      decide
    rw [if_neg hsuccess, if_neg herror] at hcore
    exact fun husers => hturn ((GreeterIPC.usersTurn_congr hcore).mp husers)

theorem length_reply_le (g : GreeterIPC) (message : JsonObject) : (g.reply message).length ≤ 1 := by
  unfold GreeterIPC.reply
  split_ifs <;> simp

/-- A message that makes the greeter authenticated ends the waiting for a password. -/
theorem settled_handleMessage {message : JsonObject} (hbefore : g.phase ≠ .authenticated)
    (hphase : (g.handleMessage message).phase = .authenticated) :
    (g.handleMessage message).awaitingResponse = false := by
  have hcore := g.core_handleMessage message
  change (g.handleMessage message).core.phase = _ at hphase
  change (g.handleMessage message).core.awaitingResponse = _
  rw [hcore] at hphase ⊢
  split_ifs at hphase ⊢ with hcredential hsuccess herror
  · unfold Core.prompted Core.submitted at hphase
    split_ifs at hphase
    · exact absurd hphase hbefore
    · exact absurd hphase hbefore
  · unfold Core.succeeded at hphase ⊢
    split_ifs at hphase ⊢ with hstarting
    · exact absurd hphase hbefore
    · rfl
  · rfl
  · exact absurd hphase hbefore

/-- **A message is handled**: there was only this one, and the greeter asks once more at most. -/
theorem InStep.deliver (h : InStep c) (hconnected : c.greeter.socket = .connected)
    {message : JsonObject}
    {queue : List JsonObject} (hqueue : c.queue = message :: queue) :
    InStep { c with greeter := c.greeter.handleMessage message, queue := queue } := by
  have hsocket : (c.greeter.handleMessage message).socket = .connected :=
    (SameStream.handleMessage ..).1.trans hconnected
  have hsaid := GreeterIPC.says_handleMessage hconnected message
  have horder := h.order hconnected
  rw [hqueue] at horder
  obtain ⟨hsent, hrequests⟩ := h.bounded hconnected
  have hlength : c.sent.length = c.greeter.answers.length + (queue.length + 1) := by
    rw [horder, List.length_append, List.length_cons]
  have hreply := length_reply_le c.greeter message
  have hrequests' : (c.greeter.handleMessage message).requests.length =
      c.greeter.requests.length + (c.greeter.reply message).length := by
    rw [hsaid.requests, List.length_append]
  have hanswers' : (c.greeter.handleMessage message).answers.length =
      c.greeter.answers.length + 1 := by
    rw [hsaid.answers, List.length_append, List.length_singleton]
  -- a message was under way, so it was not the user's turn
  have hturn : ¬ c.greeter.UsersTurn := by
    intro husers
    have hidle := h.idle hconnected husers
    omega
  refine ⟨fun hconnecting => ?_, fun hclosed => absurd hsocket hclosed, fun _ => ?_, fun _ => ?_,
    fun _ husers => ?_,
    fun _ hphase => ?_⟩
  · cases hsocket.symm.trans hconnecting
  · dsimp only
    rw [hsaid.answers, horder, List.append_assoc]
    rfl
  · dsimp only
    omega
  · have hnone : c.greeter.reply message = [] := by
      by_contra hsome
      exact not_usersTurn_of_reply hsome hturn husers
    dsimp only
    rw [hrequests', hanswers', hnone, List.length_nil]
    omega
  · exact settled_handleMessage (fun hbefore => hturn (.inr hbefore)) hphase

theorem InStep.step (h : InStep c) {turn : Turn} (hproper : c.Proper turn)
    (hstep : c.step turn = some c') :
    InStep c' := by
  cases turn with
  | greeter e =>
      obtain ⟨g, hact, rfl⟩ := Option.map_eq_some_iff.mp hstep
      exact h.act hact
  | reply message =>
      obtain ⟨hconnected, hc'⟩ := Option.ite_none_right_eq_some.mp hstep
      obtain rfl := Option.some.inj hc'
      exact h.reply hconnected message hproper
  | deliver =>
      rw [Conversation.step] at hstep
      cases hqueue : c.queue with
      | nil =>
          rw [hqueue] at hstep
          cases hstep
      | cons message queue =>
          rw [hqueue] at hstep
          obtain ⟨hconnected, hc'⟩ := Option.ite_none_right_eq_some.mp hstep
          obtain rfl := Option.some.inj hc'
          exact h.deliver hconnected hqueue

end InStep

/-- **The greeter and greetd take turns**, in every conversation. -/
theorem inStep_of_proper {c : Conversation}
    (h : Conversation.system.ReachableWhere Conversation.Proper c) : InStep c := by
  refine h.invariant (I := InStep) ?_ fun c turn c' _ hc hproper hstep => hc.step hproper hstep
  intro c hinit
  obtain rfl := hinit
  have hclosed : InStep (Conversation.goOn ⟨.new, [], []⟩ .new) := .closed rfl
  exact hclosed

end NiraOS.Greeter
